import Mathlib.Algebra.Order.Ring.Int

/-!
# Serial placement of sections

How a linker lays out sections that follow one another in a region of memory: each input section
goes to the next address that its alignment allows, and an output section begins at the largest
alignment among its input sections.  The location counter only grows (`le_place`, `le_start`), and a
section lies between the counter before it and the counter after it.
-/

namespace Layout

/-- An input section: its size, and the logarithm of its alignment. -/
structure InputSection where
  size : ℕ
  alignLog : ℕ

/-- The least multiple of `2 ^ k` from `n` on. -/
def alignUp (n k : ℕ) : ℕ := (n + 2 ^ k - 1) / 2 ^ k * 2 ^ k

lemma le_alignUp (n k : ℕ) : n ≤ alignUp n k := by
  have hpos : 0 < 2 ^ k := Nat.two_pow_pos k
  have hmod : (n + 2 ^ k - 1) % 2 ^ k < 2 ^ k := Nat.mod_lt _ hpos
  have hdiv : 2 ^ k * ((n + 2 ^ k - 1) / 2 ^ k) + (n + 2 ^ k - 1) % 2 ^ k = n + 2 ^ k - 1 :=
    Nat.div_add_mod _ _
  rw [Nat.mul_comm] at hdiv
  unfold alignUp
  omega

/-- The location counter after the sections have been placed from `dot` on. -/
def place (sections : List InputSection) (dot : ℕ) : ℕ :=
  sections.foldl (fun dot s => alignUp dot s.alignLog + s.size) dot

lemma place_append (l l' : List InputSection) (dot : ℕ) :
    place (l ++ l') dot = place l' (place l dot) :=
  List.foldl_append

lemma place_cons (s : InputSection) (l : List InputSection) (dot : ℕ) :
    place (s :: l) dot = place l (alignUp dot s.alignLog + s.size) := rfl

lemma le_place (sections : List InputSection) (dot : ℕ) : dot ≤ place sections dot := by
  induction sections generalizing dot with
  | nil => exact Nat.le_refl dot
  | cons s l ih =>
    rw [place_cons]
    calc dot ≤ alignUp dot s.alignLog := le_alignUp _ _
      _ ≤ alignUp dot s.alignLog + s.size := Nat.le_add_right _ _
      _ ≤ place l (alignUp dot s.alignLog + s.size) := ih _

/-- Where an output section with these input sections begins, when it may begin at `dot`; `least` is
an alignment that the script asks for on top of that of the input sections. -/
def start (sections : List InputSection) (least dot : ℕ) : ℕ :=
  alignUp dot ((sections.map InputSection.alignLog).foldl max least)

lemma le_start (sections : List InputSection) (least dot : ℕ) : dot ≤ start sections least dot :=
  le_alignUp _ _

/-- An output section ends behind where it may begin. -/
lemma le_place_start (sections : List InputSection) (least dot : ℕ) :
    dot ≤ place sections (start sections least dot) :=
  Nat.le_trans (le_start _ _ _) (le_place _ _)

end Layout
