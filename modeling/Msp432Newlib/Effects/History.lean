import Msp432Newlib.Effects.Outline

/-!
# Auxiliary variables and history

A world can be given an auxiliary variable, which its steps change and which nothing depends on
(`World.ghost`).  Its runs are those of the world itself (`Runs.ghost`), and what an outline says of
the variable is said of the events of the run.

One such variable is the record of all states there have been (`World.recorded`).  With it an
outline may speak of the past: of what has always been the case, and of what has once been the case,
which no later step can make false.
-/

namespace Effects

variable {S : Sig} {σ ε α γ : Type}

/-- The world with an auxiliary variable, which `upd` changes with every step that is not one of
waiting. -/
def World.ghost (W : World S σ ε) (upd : Event S σ ε → γ → γ) : World S (σ × γ) ε where
  handle o x := ((W.handle o x.1).1, (W.handle o x.1).2, upd ⟨x.1, .cpu o⟩ x.2)
  blocked o x := W.blocked o x.1
  env e x := (W.env e x.1).map fun s => (s, upd ⟨x.1, .env e⟩ x.2)

/-- The step is one of waiting. -/
def World.waits (W : World S σ ε) (e : Event S σ ε) : Bool :=
  match e.act with
  | .cpu o => W.blocked o e.pre
  | .env _ => false

/-- The value of the auxiliary variable after the events. -/
def World.after (W : World S σ ε) (upd : Event S σ ε → γ → γ) : List (Event S σ ε) → γ → γ
  | [], g => g
  | e :: t, g => W.after upd t (if W.waits e then g else upd e g)

/-- A run with the auxiliary variable. -/
theorem Runs.ghost {W : World S σ ε} {p q : Prog S α} {s s' : σ} {t : List (Event S σ ε)}
    (h : Runs W p s t q s') (upd : Event S σ ε → γ → γ) (g : γ) :
    ∃ t', Runs (W.ghost upd) p (s, g) t' q (s', W.after upd t g) ∧
      t'.map (fun e => e.pre.1) = t.map Event.pre := by
  induction h generalizing g with
  | nil => exact ⟨[], .nil, rfl⟩
  | @done o k s s' t q hb _ ih =>
    obtain ⟨t', hrun, ht⟩ := ih (upd ⟨s, .cpu o⟩ g)
    have hafter : W.after upd (⟨s, .cpu o⟩ :: t) g = W.after upd t (upd ⟨s, .cpu o⟩ g) := by
      simp [World.after, World.waits, hb]
    rw [hafter]
    exact ⟨_, .done hb hrun, congrArg (s :: ·) ht⟩
  | @spin o k s s' t q hb _ ih =>
    obtain ⟨t', hrun, ht⟩ := ih g
    have hafter : W.after upd (⟨s, .cpu o⟩ :: t) g = W.after upd t g := by
      simp [World.after, World.waits, hb]
    rw [hafter]
    exact ⟨_, .spin hb hrun, congrArg (s :: ·) ht⟩
  | @env e p q s s₁ s' t he _ ih =>
    obtain ⟨t', hrun, ht⟩ := ih (upd ⟨s, .env e⟩ g)
    have henv : (W.ghost upd).env e (s, g) = some (s₁, upd ⟨s, .env e⟩ g) := by
      simp [World.ghost, he]
    exact ⟨_, .env henv hrun, congrArg (s :: ·) ht⟩

/-- An assertion about the state only is as stable as it is without the auxiliary variable. -/
lemma World.Stable.now {W : World S σ ε} {upd : Event S σ ε → γ → γ} {K : σ → Prop}
    (h : W.Stable K) : (W.ghost upd).Stable fun x => K x.1 := by
  intro e x x' hx he
  obtain ⟨s, hs, rfl⟩ := Option.map_eq_some_iff.1 he
  exact h e x.1 s hx hs

/-- An outline without the auxiliary variable is one with it. -/
theorem Outline.ghost {W : World S σ ε} {J P : σ → Prop} {p : Prog S α} {Q : α → σ → Prop}
    (h : Outline W J P p Q) (upd : Event S σ ε → γ → γ) :
    Outline (W.ghost upd) (fun x => J x.1) (fun x => P x.1) p fun a x => Q a x.1 := by
  induction p generalizing P with
  | ret a => exact ⟨h.1.now, fun x hx => h.2 x.1 hx⟩
  | perform o k ih =>
    obtain ⟨hstable, hJ, R, hR, hk⟩ := h
    exact ⟨hstable.now, fun x hx => hJ x.1 hx, fun r x => R r x.1, fun x hx hb => hR x.1 hx hb,
      fun r => ih r (hk r)⟩

/-- The world with a record of the states before the present one, the last one first. -/
abbrev World.recorded (W : World S σ ε) : World S (σ × List σ) ε :=
  W.ghost fun e l => e.pre :: l

/-- Now and in all states before, `K`. -/
def Always (K : σ → Prop) (x : σ × List σ) : Prop := ∀ s ∈ x.1 :: x.2, K s

/-- Now or in a state before, `K`. -/
def Once (K : σ → Prop) (x : σ × List σ) : Prop := ∃ s ∈ x.1 :: x.2, K s

section Tenses

variable {W : World S σ ε} {K : σ → Prop} {x : σ × List σ}

lemma Always.now (h : Always K x) : K x.1 := h x.1 List.mem_cons_self

lemma Always.cons {s : σ} (h : Always K x) (hs : K s) : Always K (s, x.1 :: x.2) :=
  List.forall_mem_cons.2 ⟨hs, h⟩

lemma Once.cons {s : σ} (h : Once K x) : Once K (s, x.1 :: x.2) := by
  obtain ⟨s', hs', hK⟩ := h
  exact ⟨s', List.mem_cons_of_mem _ hs', hK⟩

end Tenses

/-- An outline without a past is one with a past. -/
theorem Outline.recorded {W : World S σ ε} {J P : σ → Prop} {p : Prog S α} {Q : α → σ → Prop}
    (h : Outline W J P p Q) : Outline W.recorded (fun x => J x.1) (fun x => P x.1) p
      fun a x => Q a x.1 :=
  h.ghost _

end Effects
