import Msp432Newlib.Effects.Run

/-!
# Monitors

A monitor follows a program with a small amount of knowledge about the state: `next κ o` is what is
known after the operation `o` when `κ` was known before it, and `none` when `o` must not be
performed with that knowledge.  Whether a monitor accepts a program is a matter of the program
alone (`Monitor.wp`), and the triples `Monitor.Triple P p Q` are proved from those of its parts.

A monitor tracks a world when its knowledge is true of the state, through the program's operations
and the environment's moves alike (`Monitor.Tracks`).  Then every run of an accepted program is
guided (`Monitor.Guided`): each of its steps is taken with knowledge that permits it, so that facts
about the run can be proved along its events, without the program.
-/

namespace Effects

/-- How knowledge of type `K` changes with the operations, and which operations it permits. -/
structure Monitor (S : Sig) (K : Type) where
  /-- The knowledge after an operation, or `none` when the operation is not permitted. -/
  next : K → S.Op → Option K

namespace Monitor

variable {S : Sig} {K σ ε α β : Type} {M : Monitor S K}

/-! ## Triples -/

/-- Started with the knowledge `κ`, the program performs only permitted operations, and the
knowledge it ends with satisfies `Q`. -/
def wp (M : Monitor S K) : Prog S α → (K → Prop) → K → Prop
  | .ret _, Q, κ => Q κ
  | .perform o k, Q, κ => ∃ κ', M.next κ o = some κ' ∧ ∀ r, wp M (k r) Q κ'

/-- From knowledge in `P` the program `p` is accepted and ends with knowledge in `Q`. -/
def Triple (M : Monitor S K) (P : K → Prop) (p : Prog S α) (Q : K → Prop) : Prop :=
  ∀ κ, P κ → M.wp p Q κ

/-- Acceptance of a sequence, from acceptance of its parts. -/
lemma wp_bind {p : Prog S α} {f : α → Prog S β} {Q R : K → Prop} {κ : K} (hp : M.wp p Q κ)
    (hf : ∀ a, M.Triple Q (f a) R) : M.wp (p.bind f) R κ := by
  induction p generalizing κ with
  | ret a => exact hf a κ hp
  | perform o k ih =>
    obtain ⟨κ', hnext, hk⟩ := hp
    exact ⟨κ', hnext, fun r => ih r (hk r)⟩

/-- The rule for returning. -/
lemma Triple.ret {Q : K → Prop} (a : α) : M.Triple Q (Prog.ret a : Prog S α) Q :=
  fun _ h => h

/-- The rule for a single operation. -/
lemma Triple.op {P Q : K → Prop} {o : S.Op}
    (h : ∀ κ, P κ → ∃ κ', M.next κ o = some κ' ∧ Q κ') : M.Triple P (Prog.op o) Q := by
  intro κ hκ
  obtain ⟨κ', hnext, hQ⟩ := h κ hκ
  exact ⟨κ', hnext, fun _ => hQ⟩

/-- The rule for sequences. -/
lemma Triple.bind {P Q R : K → Prop} {p : Prog S α} {f : α → Prog S β} (hp : M.Triple P p Q)
    (hf : ∀ a, M.Triple Q (f a) R) : M.Triple P (p.bind f) R :=
  fun κ hκ => wp_bind (hp κ hκ) hf

/-- Acceptance is monotone in what is known at the end. -/
lemma wp_mono {p : Prog S α} {Q Q' : K → Prop} {κ : K} (h : M.wp p Q κ) (hQ : ∀ κ, Q κ → Q' κ) :
    M.wp p Q' κ := by
  induction p generalizing κ with
  | ret a => exact hQ κ h
  | perform o k ih =>
    obtain ⟨κ', hnext, hk⟩ := h
    exact ⟨κ', hnext, fun r => ih r (hk r)⟩

/-- The rule of consequence. -/
lemma Triple.consequence {P P' Q Q' : K → Prop} {p : Prog S α} (hp : M.Triple P p Q)
    (hP : ∀ κ, P' κ → P κ) (hQ : ∀ κ, Q κ → Q' κ) : M.Triple P' p Q' :=
  fun κ hκ => wp_mono (hp κ (hP κ hκ)) hQ

/-- The rule for interpreted programs: what the programs of all operations keep is kept. -/
lemma Triple.interp {T : Sig} {ι : (o : T.Op) → Prog S (T.Res o)} {I : K → Prop}
    (h : ∀ o, M.Triple I (ι o) I) (p : Prog T α) : M.Triple I (p.interp ι) I := by
  induction p with
  | ret a => exact Triple.ret a
  | perform o k ih => exact Triple.bind (h o) ih

/-! ## Guided runs -/

/-- The monitor's knowledge, read as the property `holds` of states, is kept by every permitted
operation and by every move of the environment. -/
structure Tracks (M : Monitor S K) (W : World S σ ε) (holds : K → σ → Prop) : Prop where
  /-- Operations that go through. -/
  done : ∀ {κ κ' o s}, holds κ s → M.next κ o = some κ' → W.blocked o s = false →
    holds κ' (W.handle o s).2
  /-- Moves of the environment. -/
  env : ∀ {κ e s s'}, holds κ s → W.env e s = some s' → holds κ s'

/-- One step, taken with true knowledge that permits it. -/
inductive Step (M : Monitor S K) (W : World S σ ε) (holds : K → σ → Prop) :
    K → Event S σ ε → K → σ → Prop
  /-- The program performs a permitted operation. -/
  | done {κ κ' : K} {o : S.Op} {s : σ} : holds κ s → M.next κ o = some κ' →
      W.blocked o s = false → Step M W holds κ ⟨s, .cpu o⟩ κ' (W.handle o s).2
  /-- The program's permitted busy-wait loop goes round once more. -/
  | spin {κ κ' : K} {o : S.Op} {s : σ} : holds κ s → M.next κ o = some κ' →
      W.blocked o s = true → Step M W holds κ ⟨s, .cpu o⟩ κ s
  /-- The environment moves. -/
  | env {κ : K} {e : ε} {s s' : σ} : holds κ s → W.env e s = some s' →
      Step M W holds κ ⟨s, .env e⟩ κ s'

/-- A sequence of steps, each taken with true knowledge that permits it. -/
inductive Guided (M : Monitor S K) (W : World S σ ε) (holds : K → σ → Prop) :
    K → σ → List (Event S σ ε) → K → σ → Prop
  /-- No step. -/
  | nil {κ : K} {s : σ} : holds κ s → Guided M W holds κ s [] κ s
  /-- A step and the steps after it. -/
  | cons {κ κ₁ κ' : K} {s₁ s' : σ} {e : Event S σ ε} {t : List (Event S σ ε)} :
      Step M W holds κ e κ₁ s₁ → Guided M W holds κ₁ s₁ t κ' s' →
        Guided M W holds κ e.pre (e :: t) κ' s'

variable {W : World S σ ε} {holds : K → σ → Prop}

/-- What every step of the program adds to a log, the log has at the end. -/
lemma Guided.log_eq {β : Type} {f : σ → List β} {out : Event S σ ε → List β}
    (hstep : ∀ {κ e κ' s'}, Step M W holds κ e κ' s' → f s' = f e.pre ++ out e)
    {κ κ' : K} {s s' : σ} {t : List (Event S σ ε)} (h : Guided M W holds κ s t κ' s') :
    f s' = f s ++ t.flatMap out := by
  induction h with
  | nil => simp
  | cons hhead _ ih => rw [ih, hstep hhead, List.flatMap_cons, List.append_assoc]

/-- Every run of an accepted program is guided. -/
theorem Tracks.guided (hM : M.Tracks W holds) {p q : Prog S α} {s s' : σ}
    {t : List (Event S σ ε)} (h : Runs W p s t q s') {Q : K → Prop} {κ : K} (hp : M.wp p Q κ)
    (hs : holds κ s) : ∃ κ', Guided M W holds κ s t κ' s' := by
  induction h generalizing κ with
  | nil => exact ⟨κ, .nil hs⟩
  | done hb _ ih =>
    obtain ⟨κ₁, hnext, hk⟩ := hp
    obtain ⟨κ', hg⟩ := ih (hk _) (hM.done hs hnext hb)
    exact ⟨κ', .cons (.done hs hnext hb) hg⟩
  | spin hb _ ih =>
    obtain ⟨κ₁, hnext, hk⟩ := hp
    obtain ⟨κ', hg⟩ := ih ⟨κ₁, hnext, hk⟩ hs
    exact ⟨κ', .cons (.spin hs hnext hb) hg⟩
  | env he _ ih =>
    obtain ⟨κ', hg⟩ := ih hp (hM.env hs he)
    exact ⟨κ', .cons (.env hs he) hg⟩

end Monitor

end Effects
