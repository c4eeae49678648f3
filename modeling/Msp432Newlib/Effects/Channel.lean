import Mathlib.Data.Nat.Basic
import Msp432Newlib.Effects.Monitor

/-!
# Lossy channels

A channel holds a queue of items.  Steps put items in at the end, take items out at the front, and
some of them drop items that the channel holds or should have taken in.  Over a sequence of guided
steps nothing is lost, repeated or reordered exactly when no step drops anything
(`Channel.conserved_iff`): without drops the items that went in are those that came out and those
still held, in order, and each drop makes the count fall short for good.
-/

namespace Effects

/-- A queue of items of type `β` kept in the states `σ`. -/
structure Channel (S : Sig) (σ ε β : Type) where
  /-- The items a step puts in. -/
  inp : Event S σ ε → List β
  /-- The items a step takes out. -/
  out : Event S σ ε → List β
  /-- The items held in a state, first in first. -/
  held : σ → List β
  /-- The step drops items. -/
  Drops : Event S σ ε → Prop

namespace Channel

variable {S : Sig} {K σ ε β : Type} {M : Monitor S K} {W : World S σ ε} {holds : K → σ → Prop}

/-- The channel's laws, for the guided steps that satisfy `ok`. -/
structure Lawful (C : Channel S σ ε β) (M : Monitor S K) (W : World S σ ε)
    (holds : K → σ → Prop) (ok : Event S σ ε → Prop) : Prop where
  /-- A step that drops nothing keeps the queue. -/
  keeps : ∀ {κ e κ' s'}, M.Step W holds κ e κ' s' → ok e → ¬ C.Drops e →
    C.out e ++ C.held s' = C.held e.pre ++ C.inp e
  /-- A step that drops something leaves less. -/
  loses : ∀ {κ e κ' s'}, M.Step W holds κ e κ' s' → ok e → C.Drops e →
    (C.out e ++ C.held s').length < (C.held e.pre ++ C.inp e).length

variable {C : Channel S σ ε β} {ok : Event S σ ε → Prop}

/-- Without drops, what came out and what is held are what was held and what went in. -/
lemma Lawful.conserved (hC : C.Lawful M W holds ok) {κ κ' : K} {s s' : σ}
    {t : List (Event S σ ε)} (h : M.Guided W holds κ s t κ' s') (hok : ∀ e ∈ t, ok e)
    (hd : ∀ e ∈ t, ¬ C.Drops e) :
    t.flatMap C.out ++ C.held s' = C.held s ++ t.flatMap C.inp := by
  induction h with
  | nil => simp
  | @cons κ κ₁ κ' s₁ s' e t hstep _ ih =>
    rw [List.forall_mem_cons] at hok hd
    have hhead : C.out e ++ C.held s₁ = C.held e.pre ++ C.inp e := hC.keeps hstep hok.1 hd.1
    calc (e :: t).flatMap C.out ++ C.held s'
        = C.out e ++ (t.flatMap C.out ++ C.held s') := by simp
      _ = (C.out e ++ C.held s₁) ++ t.flatMap C.inp := by rw [ih hok.2 hd.2, List.append_assoc]
      _ = C.held e.pre ++ (e :: t).flatMap C.inp := by rw [hhead]; simp

/-- The channel never gains items. -/
lemma Lawful.length_le (hC : C.Lawful M W holds ok) {κ κ' : K} {s s' : σ}
    {t : List (Event S σ ε)} (h : M.Guided W holds κ s t κ' s') (hok : ∀ e ∈ t, ok e) :
    (t.flatMap C.out ++ C.held s').length ≤ (C.held s ++ t.flatMap C.inp).length := by
  induction h with
  | nil => simp
  | @cons κ κ₁ κ' s₁ s' e t hstep _ ih =>
    rw [List.forall_mem_cons] at hok
    have hrest := ih hok.2
    have hhead : (C.out e ++ C.held s₁).length ≤ (C.held e.pre ++ C.inp e).length := by
      by_cases hd : C.Drops e
      · exact Nat.le_of_lt (hC.loses hstep hok.1 hd)
      · rw [hC.keeps hstep hok.1 hd]
    simp only [List.flatMap_cons, List.length_append] at hrest hhead ⊢
    omega

/-- After a drop the count falls short for good. -/
lemma Lawful.length_lt (hC : C.Lawful M W holds ok) {κ κ' : K} {s s' : σ}
    {t : List (Event S σ ε)} (h : M.Guided W holds κ s t κ' s') (hok : ∀ e ∈ t, ok e)
    (hd : ∃ e ∈ t, C.Drops e) :
    (t.flatMap C.out ++ C.held s').length < (C.held s ++ t.flatMap C.inp).length := by
  induction h with
  | nil => simp at hd
  | @cons κ κ₁ κ' s₁ s' e t hstep hrest ih =>
    rw [List.forall_mem_cons] at hok
    by_cases he : C.Drops e
    · have hhead := hC.loses hstep hok.1 he
      have htail := hC.length_le hrest hok.2
      simp only [List.flatMap_cons, List.length_append] at hhead htail ⊢
      omega
    · have hhead := congrArg List.length (hC.keeps hstep hok.1 he)
      have htail := ih hok.2 (by simpa [he] using hd)
      simp only [List.flatMap_cons, List.length_append] at hhead htail ⊢
      omega

/-- **Conservation.**  Nothing is lost, repeated or reordered exactly when no step drops
anything. -/
theorem Lawful.conserved_iff (hC : C.Lawful M W holds ok) {κ κ' : K} {s s' : σ}
    {t : List (Event S σ ε)} (h : M.Guided W holds κ s t κ' s') (hok : ∀ e ∈ t, ok e) :
    t.flatMap C.out ++ C.held s' = C.held s ++ t.flatMap C.inp ↔ ∀ e ∈ t, ¬ C.Drops e := by
  constructor
  · intro heq e he hdrop
    have hlt := hC.length_lt h hok ⟨e, he, hdrop⟩
    rw [heq] at hlt
    exact Nat.lt_irrefl _ hlt
  · exact hC.conserved h hok

end Channel

end Effects
