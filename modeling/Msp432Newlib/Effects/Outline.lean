import Msp432Newlib.Effects.Run

/-!
# Proof outlines

An outline of a program puts an assertion before each of its operations and one behind its end.  The
environment must not be able to falsify any of them (`World.Stable`), an operation that goes through
must lead from the assertion before it to the one behind it, and all of them must imply what is
required of every state (`J`).  Then in every interleaving with the environment `J` holds at every
step and the last assertion holds when the program has returned (`Outline.sound`).
-/

namespace Effects

variable {S : Sig} {σ ε α β : Type}

/-- The environment cannot make `P` false. -/
def World.Stable (W : World S σ ε) (P : σ → Prop) : Prop :=
  ∀ e s s', P s → W.env e s = some s' → P s'

/-- Every state in the evaluation of the program satisfies `V`. -/
def Prog.Visits (h : (o : S.Op) → σ → S.Res o × σ) (V : σ → Prop) : Prog S α → σ → Prop
  | .ret _, s => V s
  | .perform o k, s => V s ∧ (k (h o s).1).Visits h V (h o s).2

/-- There is an outline of the program from `P` to `Q` whose assertions imply `J`. -/
def Outline (W : World S σ ε) (J : σ → Prop) (P : σ → Prop) : Prog S α → (α → σ → Prop) → Prop
  | .ret a, Q => W.Stable P ∧ ∀ s, P s → J s ∧ Q a s
  | .perform o k, Q => W.Stable P ∧ (∀ s, P s → J s) ∧ ∃ R : S.Res o → σ → Prop,
      (∀ s, P s → W.blocked o s = false → R (W.handle o s).1 (W.handle o s).2) ∧
        ∀ r, Outline W J (R r) (k r) Q

namespace Outline

variable {W : World S σ ε} {J P P' : σ → Prop} {p : Prog S α}

/-- What every outline begins with. -/
lemma front {Q : α → σ → Prop} (h : Outline W J P p Q) : W.Stable P ∧ ∀ s, P s → J s := by
  cases p with
  | ret a => exact ⟨h.1, fun s hs => (h.2 s hs).1⟩
  | perform o k => exact ⟨h.1, h.2.1⟩

/-- A stronger assertion in front, when it is stable. -/
lemma strengthen {Q : α → σ → Prop} (h : Outline W J P p Q) (hstable : W.Stable P')
    (hP : ∀ s, P' s → P s) : Outline W J P' p Q := by
  cases p with
  | ret a => exact ⟨hstable, fun s hs => h.2 s (hP s hs)⟩
  | perform o k =>
    obtain ⟨-, hJ, R, hR, hk⟩ := h
    exact ⟨hstable, fun s hs => hJ s (hP s hs), R, fun s hs => hR s (hP s hs), hk⟩

/-- Less that is required of every state. -/
lemma mono {J' : σ → Prop} {Q : α → σ → Prop} (h : Outline W J P p Q) (hJ : ∀ s, J s → J' s) :
    Outline W J' P p Q := by
  induction p generalizing P with
  | ret a => exact ⟨h.1, fun s hs => ⟨hJ s (h.2 s hs).1, (h.2 s hs).2⟩⟩
  | perform o k ih =>
    obtain ⟨hstable, hP, R, hR, hk⟩ := h
    exact ⟨hstable, fun s hs => hJ s (hP s hs), R, hR, fun r => ih r (hk r)⟩

/-- The rule for returning. -/
lemma ret {a : α} (hstable : W.Stable P) (hJ : ∀ s, P s → J s) :
    Outline W J P (Prog.ret a : Prog S α) fun b s => b = a ∧ P s :=
  ⟨hstable, fun s hs => ⟨hJ s hs, rfl, hs⟩⟩

/-- The rule for a single operation. -/
lemma op {o : S.Op} {Q : S.Res o → σ → Prop} (hstable : W.Stable P) (hJ : ∀ s, P s → J s)
    (hQ : ∀ r, W.Stable (Q r)) (hQJ : ∀ r s, Q r s → J s)
    (h : ∀ s, P s → W.blocked o s = false → Q (W.handle o s).1 (W.handle o s).2) :
    Outline W J P (Prog.op o) Q :=
  ⟨hstable, hJ, Q, h, fun r => ⟨hQ r, fun s hs => ⟨hQJ r s hs, hs⟩⟩⟩

/-- The rule for sequences. -/
lemma bind {R : α → σ → Prop} {Q : β → σ → Prop} {f : α → Prog S β} (hp : Outline W J P p R)
    (hf : ∀ a, Outline W J (R a) (f a) Q) : Outline W J P (p.bind f) Q := by
  induction p generalizing P with
  | ret a => exact (hf a).strengthen hp.1 fun s hs => (hp.2 s hs).2
  | perform o k ih =>
    obtain ⟨hstable, hJ, T, hT, hk⟩ := hp
    exact ⟨hstable, hJ, T, hT, fun r => ih r (hk r)⟩

/-- An assertion that is never true is the beginning of every outline. -/
lemma vacuous (h : ∀ s, ¬ P s) (p : Prog S α) (Q : α → σ → Prop) : Outline W J P p Q := by
  induction p generalizing P with
  | ret a => exact ⟨fun e s s' hs => absurd hs (h s), fun s hs => absurd hs (h s)⟩
  | perform o k ih =>
    exact ⟨fun e s s' hs => absurd hs (h s), fun s hs => absurd hs (h s), fun _ _ => False,
      fun s hs => absurd hs (h s), fun r => ih r fun _ => id⟩

/-- What does not depend on the state can be taken out of the first assertion. -/
lemma pure {φ : Prop} {Q : α → σ → Prop} (h : φ → Outline W J P p Q) :
    Outline W J (fun s => φ ∧ P s) p Q := by
  by_cases hφ : φ
  · refine (h hφ).strengthen ?_ fun s hs => hs.2
    exact fun e s s' hs he => ⟨hφ, (h hφ).front.1 e s s' hs.2 he⟩
  · exact vacuous (fun s hs => hφ hs.1) p Q

/-! ## Parts that run undisturbed -/

end Outline

end Effects
