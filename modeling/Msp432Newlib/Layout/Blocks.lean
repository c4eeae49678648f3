import Mathlib.Algebra.Order.Group.Defs
import Mathlib.Data.Set.Lattice
import Mathlib.Order.CompletePartialOrder
import Mathlib.Order.Interval.Set.Basic

/-!
# Blocks laid end to end

A block is a half-open interval given by its base and its size, in any ordered group.  A list of
blocks tiles an interval when each block begins where the one before it ends.  Such blocks cover
exactly the interval (`Tiles.exists_mem_carrier_iff`), and when their sizes are not negative no two
of them overlap (`Tiles.pairwise_disjoint`).
-/

namespace Layout

/-- A block, given by its base and its size. -/
structure Block (G : Type*) where
  base : G
  size : G

section Tiles

variable {G : Type*} [AddCommGroup G] [LinearOrder G] [IsOrderedAddMonoid G]

/-- The points of a block. -/
def Block.carrier (b : Block G) : Set G := Set.Ico b.base (b.base + b.size)

/-- The blocks of the list follow one another without a gap, from `x` to `y`. -/
def Tiles (x : G) : List (Block G) → G → Prop
  | [], y => x = y
  | b :: l, y => b.base = x ∧ Tiles (x + b.size) l y

lemma Tiles.le {x y : G} {l : List (Block G)} (h : Tiles x l y) (hl : ∀ b ∈ l, 0 ≤ b.size) :
    x ≤ y := by
  induction l generalizing x with
  | nil => exact le_of_eq h
  | cons b l ih =>
    rw [List.forall_mem_cons] at hl
    calc x ≤ x + b.size := le_add_of_nonneg_right hl.1
      _ ≤ y := ih h.2 hl.2

/-- The blocks of a tiling cover exactly the interval that they tile. -/
theorem Tiles.exists_mem_carrier_iff {x y z : G} {l : List (Block G)} (h : Tiles x l y)
    (hl : ∀ b ∈ l, 0 ≤ b.size) : (∃ b ∈ l, z ∈ b.carrier) ↔ z ∈ Set.Ico x y := by
  induction l generalizing x with
  | nil =>
    obtain rfl : x = y := h
    simp
  | cons b l ih =>
    rw [List.forall_mem_cons] at hl
    obtain ⟨rfl, hrest⟩ := h
    have hend : b.base + b.size ≤ y := hrest.le hl.2
    have hhead : (∃ c ∈ b :: l, z ∈ c.carrier) ↔ z ∈ b.carrier ∨ ∃ c ∈ l, z ∈ c.carrier := by
      simp
    rw [hhead, ih hrest hl.2, Block.carrier, Set.mem_Ico, Set.mem_Ico, Set.mem_Ico]
    constructor
    · rintro (⟨hz, hz'⟩ | ⟨hz, hz'⟩)
      · exact ⟨hz, lt_of_lt_of_le hz' hend⟩
      · exact ⟨le_trans (le_add_of_nonneg_right hl.1) hz, hz'⟩
    · rintro ⟨hz, hz'⟩
      rcases lt_or_ge z (b.base + b.size) with hlt | hge
      · exact Or.inl ⟨hz, hlt⟩
      · exact Or.inr ⟨hge, hz'⟩

/-- No two blocks of a tiling overlap. -/
theorem Tiles.pairwise_disjoint {x y : G} {l : List (Block G)} (h : Tiles x l y)
    (hl : ∀ b ∈ l, 0 ≤ b.size) : l.Pairwise fun b c => Disjoint b.carrier c.carrier := by
  induction l generalizing x with
  | nil => exact List.Pairwise.nil
  | cons b l ih =>
    rw [List.forall_mem_cons] at hl
    obtain ⟨rfl, hrest⟩ := h
    refine List.Pairwise.cons ?_ (ih hrest hl.2)
    intro c hc
    rw [Set.disjoint_left]
    intro z hzb hzc
    have hz : z ∈ Set.Ico (b.base + b.size) y :=
      (hrest.exists_mem_carrier_iff hl.2).1 ⟨c, hc, hzc⟩
    exact absurd hzb.2 (not_lt_of_ge hz.1)

end Tiles

end Layout
