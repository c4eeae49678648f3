import Msp432Newlib.Effects.History

/-!
# Items brought in by the environment

Moves of the environment bring items into a world, and such a move may push out an item that is
there already.  An auxiliary variable tallies what has come in and whether something has been pushed
out (`Intake.tally`).  A ledger in balance says of the items at hand that they are all of those that
came in, in order, or that one has been pushed out and they are too few for good; putting an item
into a place for one keeps it in balance.  Hence the items at hand are those that came in exactly
when none has been pushed out (`Balanced.conserved_iff`).
-/

namespace Effects

variable {S : Sig} {σ ε β : Type}

/-- What the moves of the environment bring in. -/
structure Intake (σ ε β : Type) where
  /-- The items that come in. -/
  items : σ → ε → List β
  /-- An item is pushed out. -/
  pushesOut : σ → ε → Bool

namespace Intake

/-- The items that come in with a step. -/
def arrived (I : Intake σ ε β) (e : Event S σ ε) : List β :=
  match e.act with
  | .cpu _ => []
  | .env m => I.items e.pre m

/-- The step pushes an item out. -/
def overruns (I : Intake σ ε β) (e : Event S σ ε) : Bool :=
  match e.act with
  | .cpu _ => false
  | .env m => I.pushesOut e.pre m

/-- The items that have come in, and whether one has been pushed out. -/
def tally (I : Intake σ ε β) (e : Event S σ ε) (g : List β × Bool) : List β × Bool :=
  (g.1 ++ I.arrived e, g.2 || I.overruns e)

variable {I : Intake σ ε β}

/-- An operation brings nothing in. -/
@[simp] lemma tally_cpu (s : σ) (o : S.Op) (g : List β × Bool) :
    I.tally (⟨s, .cpu o⟩ : Event S σ ε) g = g := by
  simp [tally, arrived, overruns]

/-- Nor does a move without items. -/
lemma tally_quiet {s : σ} {m : ε} (hitems : I.items s m = []) (hpush : I.pushesOut s m = false)
    (g : List β × Bool) : I.tally (⟨s, .env m⟩ : Event S σ ε) g = g := by
  simp [tally, arrived, overruns, hitems, hpush]

/-- The tally of the events of a run. -/
lemma after_tally (W : World S σ ε) (t : List (Event S σ ε)) (g : List β × Bool) :
    W.after I.tally t g = (g.1 ++ t.flatMap I.arrived, g.2 || t.any I.overruns) := by
  induction t generalizing g with
  | nil => simp [World.after]
  | cons e t ih =>
    have hstep : (if W.waits e then g else I.tally e g) = I.tally e g := by
      split
      · next hw =>
        obtain ⟨s, act⟩ := e
        cases act with
        | cpu o => exact (tally_cpu s o g).symm
        | env m => cases hw
      · rfl
    rw [World.after, hstep, ih]
    simp [tally, Bool.or_assoc]

end Intake

/-! ## Ledgers -/

/-- The items `held` are those of `base` and those that have come in, in order; or one has been
pushed out, and there are too few of them for good. -/
structure Balanced (base held : List β) (g : List β × Bool) : Prop where
  kept : g.2 = false → held = base ++ g.1
  lost : g.2 = true → held.length < (base ++ g.1).length

namespace Balanced

variable {base held : List β} {g : List β × Bool}

/-- At the beginning. -/
lemma start (held : List β) : Balanced held held ([], false) :=
  ⟨fun _ => (List.append_nil held).symm, fun h => Bool.noConfusion h⟩

/-- There are never too many items. -/
lemma length_le (h : Balanced base held g) : held.length ≤ (base ++ g.1).length := by
  rcases Bool.eq_false_or_eq_true g.2 with hg | hg
  · exact Nat.le_of_lt (h.lost hg)
  · exact Nat.le_of_eq (congrArg List.length (h.kept hg))

/-- An item comes into a place for one, which is taken when `full`. -/
lemma put {l place : List β} {full : Bool} (h : Balanced base (l ++ place) g)
    (hplace : place.length = full.toNat) (b : β) :
    Balanced base (l ++ [b]) (g.1 ++ [b], g.2 || full) := by
  obtain ⟨a, lost⟩ := g
  refine ⟨fun hg => ?_, fun hg => ?_⟩
  · obtain ⟨hl, hfree⟩ := Bool.or_eq_false_iff.1 hg
    rw [hfree] at hplace
    obtain rfl := List.eq_nil_of_length_eq_zero hplace
    have heq := h.kept hl
    rw [List.append_nil] at heq
    rw [heq, List.append_assoc]
  · have hle := h.length_le
    rcases Bool.eq_false_or_eq_true full with hfull | hfull
    · rw [hfull] at hplace
      simp only [List.length_append, List.length_singleton, hplace, Bool.toNat_true] at hle ⊢
      omega
    · have hl : lost = true := by simpa [hfull] using hg
      have hlt := h.lost hl
      rw [hfull] at hplace
      simp only [List.length_append, List.length_singleton, hplace, Bool.toNat_false] at hlt ⊢
      omega

/-- **Conservation.**  At the end of a run the items held are those that were there and those that
came in, in order, exactly when no step has pushed one out. -/
theorem conserved_iff {W : World S σ ε} {I : Intake σ ε β} {t : List (Event S σ ε)}
    (h : Balanced base held (W.after I.tally t ([], false))) :
    held = base ++ t.flatMap I.arrived ↔ ∀ e ∈ t, I.overruns e = false := by
  rw [Intake.after_tally] at h
  rcases Bool.eq_false_or_eq_true (t.any I.overruns) with hover | hover
  · refine iff_of_false (fun heq => ?_) fun hall => ?_
    · have hlt := h.lost (by simpa using hover)
      simp only [List.nil_append] at hlt
      rw [heq] at hlt
      exact Nat.lt_irrefl _ hlt
    · obtain ⟨e, he, htrue⟩ := List.any_eq_true.1 hover
      rw [hall e he] at htrue
      cases htrue
  · refine iff_of_true ?_ fun e he => ?_
    · simpa using h.kept (by simpa using hover)
    · exact Bool.eq_false_iff.2 (List.any_eq_false.1 hover e he)

end Balanced

end Effects
