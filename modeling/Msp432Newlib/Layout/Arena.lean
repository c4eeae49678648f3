import Msp432Newlib.Layout.Blocks

/-!
# Program breaks

A program break is a place in an arena that requests move up and down.  The arena admits a request
when the place asked for is neither below its start nor, with a reserve, at or beyond its limit.
The break then never leaves the arena (`move_mem`), and the blocks granted by requests that do
not shrink the break tile what it has moved over (`tiles_granted`).
-/

namespace Layout

/-- Where a break may lie, in an ordered group. -/
structure Arena (G : Type*) where
  start : G
  limit : G
  reserve : G

namespace Arena

variable {G : Type*} [AddCommGroup G] [LinearOrder G] (A : Arena G)

/-- The request `n` can be granted when the break is at `h`. -/
def Admits (h n : G) : Prop := A.start ≤ h + n ∧ h + n + A.reserve < A.limit

instance (h n : G) : Decidable (A.Admits h n) := inferInstanceAs (Decidable (_ ∧ _))

/-- The places of the arena.  The break begins at the start, also when there is no place below the
limit. -/
def places : Set G := {h | A.start ≤ h ∧ (h < A.limit ∨ h = A.start)}

/-- The break after a request. -/
def move (h n : G) : G := if A.Admits h n then h + n else h

/-- The break after a sequence of requests. -/
def breakAfter : List G → G → G
  | [], h => h
  | n :: ns, h => breakAfter ns (A.move h n)

/-- The blocks that a sequence of requests is granted. -/
def granted : List G → G → List (Block G)
  | [], _ => []
  | n :: ns, h => (if A.Admits h n ∧ 0 < n then [⟨h, n⟩] else []) ++ granted ns (A.move h n)

variable {A}

lemma move_of_admits {h n : G} (hA : A.Admits h n) : A.move h n = h + n := if_pos hA

lemma move_of_not_admits {h n : G} (hA : ¬ A.Admits h n) : A.move h n = h := if_neg hA

lemma breakAfter_cons (n : G) (ns : List G) (h : G) :
    A.breakAfter (n :: ns) h = A.breakAfter ns (A.move h n) := rfl

lemma granted_cons_of_pos {h n : G} (ns : List G) (hA : A.Admits h n) (hn : 0 < n) :
    A.granted (n :: ns) h = ⟨h, n⟩ :: A.granted ns (A.move h n) := by
  rw [granted, if_pos ⟨hA, hn⟩, List.singleton_append]

lemma granted_cons_of_not {h n : G} (ns : List G) (h' : ¬ (A.Admits h n ∧ 0 < n)) :
    A.granted (n :: ns) h = A.granted ns (A.move h n) := by
  rw [granted, if_neg h', List.nil_append]

lemma size_pos_of_mem_granted {h : G} {ns : List G} {b : Block G} (hb : b ∈ A.granted ns h) :
    0 < b.size := by
  induction ns generalizing h with
  | nil => simp [granted] at hb
  | cons n ns ih =>
    by_cases hA : A.Admits h n ∧ 0 < n
    · rw [granted_cons_of_pos ns hA.1 hA.2, List.mem_cons] at hb
      rcases hb with rfl | hb
      · exact hA.2
      · exact ih hb
    · rw [granted_cons_of_not ns hA] at hb
      exact ih hb

/-- Requests that do not shrink the break are granted blocks that tile what it moves over. -/
theorem tiles_granted {ns : List G} (hns : ∀ n ∈ ns, 0 ≤ n) (h : G) :
    Tiles h (A.granted ns h) (A.breakAfter ns h) := by
  induction ns generalizing h with
  | nil => exact rfl
  | cons n ns ih =>
    rw [List.forall_mem_cons] at hns
    rw [breakAfter_cons]
    by_cases hA : A.Admits h n ∧ 0 < n
    · rw [granted_cons_of_pos ns hA.1 hA.2, move_of_admits hA.1]
      exact ⟨rfl, ih hns.2 (h + n)⟩
    · -- a request for nothing is granted without a block, and leaves the break alone
      have hstay : A.move h n = h := by
        by_cases hadm : A.Admits h n
        · have hzero : n = 0 := le_antisymm (not_lt.1 fun hn => hA ⟨hadm, hn⟩) hns.1
          rw [move_of_admits hadm, hzero, add_zero]
        · exact move_of_not_admits hadm
      rw [granted_cons_of_not ns hA, hstay]
      exact ih hns.2 h

variable [IsOrderedAddMonoid G]

/-- A request leaves the break in the arena. -/
lemma move_mem {h : G} (hres : 0 ≤ A.reserve) (hh : h ∈ A.places) (n : G) :
    A.move h n ∈ A.places := by
  by_cases hA : A.Admits h n
  · rw [move_of_admits hA]
    refine ⟨hA.1, Or.inl ?_⟩
    calc h + n ≤ h + n + A.reserve := le_add_of_nonneg_right hres
      _ < A.limit := hA.2
  · rw [move_of_not_admits hA]
    exact hh

end Arena

end Layout
