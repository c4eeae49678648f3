import Mathlib.Algebra.Order.Ring.Int
import Mathlib.Logic.Function.Basic

/-!
# Byte-addressed memory

The memory of a 32-bit little-endian processor, as a function from addresses to bytes, with loads
and stores of bytes and words.  `Holds` says that a list of bytes lies at an address and
`HoldsWords` that a list of words does; both survive every change elsewhere (`Holds.congr`,
`HoldsWords.congr`), where elsewhere is measured by the distance from an address (`Beyond`).
-/

namespace Arm

/-- A machine word, and an address. -/
abbrev Word := BitVec 32

/-- The contents of memory. -/
abbrev Mem := Word → BitVec 8

/-- The address `x` is not among the `n` addresses from `a` on. -/
def Beyond (a : Word) (n : ℕ) (x : Word) : Prop := n ≤ (x - a).toNat

instance (a : Word) (n : ℕ) (x : Word) : Decidable (Beyond a n x) :=
  inferInstanceAs (Decidable (n ≤ (x - a).toNat))

namespace Mem

/-- The little-endian word at `a`. -/
def word (m : Mem) (a : Word) : Word :=
  BitVec.ofNat 32 ((m a).toNat + 2 ^ 8 * (m (a + 1)).toNat +
    2 ^ 16 * (m (a + 2)).toNat + 2 ^ 24 * (m (a + 3)).toNat)

/-- Store a byte. -/
def setByte (m : Mem) (a : Word) (b : BitVec 8) : Mem := Function.update m a b

/-- Store a word, low byte first. -/
def setWord (m : Mem) (a : Word) (w : Word) : Mem :=
  (((m.setByte a (w.extractLsb' 0 8)).setByte (a + 1) (w.extractLsb' 8 8)).setByte (a + 2)
    (w.extractLsb' 16 8)).setByte (a + 3) (w.extractLsb' 24 8)

variable {m m' : Mem} {a x : Word} {n : ℕ}

lemma setByte_apply (m : Mem) (a : Word) (b : BitVec 8) (x : Word) :
    m.setByte a b x = if x = a then b else m x := by
  by_cases h : x = a <;> simp [setByte, h]

@[simp] lemma setByte_self (m : Mem) (a : Word) (b : BitVec 8) : m.setByte a b a = b := by
  simp [setByte_apply]

lemma setByte_of_ne (b : BitVec 8) (h : x ≠ a) : m.setByte a b x = m x := by
  simp [setByte_apply, h]

/-- The bytes of a stored word. -/
lemma setWord_apply (m : Mem) (a w x : Word) : m.setWord a w x =
    if x = a + 3 then w.extractLsb' 24 8 else if x = a + 2 then w.extractLsb' 16 8
    else if x = a + 1 then w.extractLsb' 8 8 else if x = a then w.extractLsb' 0 8 else m x := by
  simp only [setWord, setByte_apply]

/-- A store of a word changes four bytes. -/
lemma setWord_of_beyond (w : Word) (h : Beyond a 4 x) : m.setWord a w x = m x := by
  unfold Beyond at h
  have h0 : x ≠ a := by bv_omega
  have h1 : x ≠ a + 1 := by bv_omega
  have h2 : x ≠ a + 2 := by bv_omega
  have h3 : x ≠ a + 3 := by bv_omega
  simp only [setWord_apply, h0, h1, h2, h3, if_false]

/-- A word is read back from where it was stored. -/
@[simp] lemma word_setWord_self (m : Mem) (a w : Word) : (m.setWord a w).word a = w := by
  have h1 : a + 1 ≠ a := by bv_omega
  have h2 : a + 2 ≠ a ∧ a + 2 ≠ a + 1 := by constructor <;> bv_omega
  have h3 : a ≠ a + 3 ∧ a + 1 ≠ a + 3 ∧ a + 2 ≠ a + 3 := by refine ⟨?_, ?_, ?_⟩ <;> bv_omega
  have h4 : a ≠ a + 2 ∧ a + 1 ≠ a + 2 := by constructor <;> bv_omega
  have h5 : a ≠ a + 1 := by bv_omega
  apply BitVec.eq_of_toNat_eq
  simp only [word, setWord_apply, h1, h2, h3, h4, h5, if_true, if_false, BitVec.toNat_ofNat,
    BitVec.extractLsb'_toNat, Nat.shiftRight_eq_div_pow]
  have hw : w.toNat < 2 ^ 32 := w.isLt
  omega

/-- Two places with the same four bytes hold the same word. -/
lemma word_congr {b : Word}
    (h : ∀ i : ℕ, i < 4 → m' (b + BitVec.ofNat 32 i) = m (a + BitVec.ofNat 32 i)) :
    m'.word b = m.word a := by
  have h0 : m' b = m a := by simpa using h 0 (by decide)
  have h1 : m' (b + 1) = m (a + 1) := h 1 (by decide)
  have h2 : m' (b + 2) = m (a + 2) := h 2 (by decide)
  have h3 : m' (b + 3) = m (a + 3) := h 3 (by decide)
  simp only [word, h0, h1, h2, h3]

/-! ## Bytes in memory -/

/-- The bytes `bs` lie at `a`. -/
def Holds (m : Mem) : Word → List (BitVec 8) → Prop
  | _, [] => True
  | a, b :: bs => m a = b ∧ m.Holds (a + 1) bs

/-- The words `ws` lie at `a`. -/
def HoldsWords (m : Mem) : Word → List Word → Prop
  | _, [] => True
  | a, w :: ws => m.word a = w ∧ m.HoldsWords (a + 4) ws

@[simp] lemma holds_nil : m.Holds a [] := trivial

@[simp] lemma holdsWords_nil : m.HoldsWords a [] := trivial

lemma holds_cons {b : BitVec 8} {bs : List (BitVec 8)} :
    m.Holds a (b :: bs) ↔ m a = b ∧ m.Holds (a + 1) bs := Iff.rfl

lemma holdsWords_cons {w : Word} {ws : List Word} :
    m.HoldsWords a (w :: ws) ↔ m.word a = w ∧ m.HoldsWords (a + 4) ws := Iff.rfl

/-- Bytes lie in two parts one behind the other. -/
lemma holds_append {bs cs : List (BitVec 8)} : m.Holds a (bs ++ cs) ↔
    m.Holds a bs ∧ m.Holds (a + BitVec.ofNat 32 bs.length) cs := by
  induction bs generalizing a with
  | nil => simp
  | cons b bs ih =>
    have haddr : a + 1 + BitVec.ofNat 32 bs.length =
        a + BitVec.ofNat 32 (b :: bs).length := by
      rw [List.length_cons]
      bv_omega
    rw [List.cons_append, holds_cons, holds_cons, ih, haddr, and_assoc]

/-- Words lie in two parts one behind the other. -/
lemma holdsWords_append {ws vs : List Word} : m.HoldsWords a (ws ++ vs) ↔
    m.HoldsWords a ws ∧ m.HoldsWords (a + BitVec.ofNat 32 (4 * ws.length)) vs := by
  induction ws generalizing a with
  | nil => simp
  | cons w ws ih =>
    have haddr : a + 4 + BitVec.ofNat 32 (4 * ws.length) =
        a + BitVec.ofNat 32 (4 * (w :: ws).length) := by
      rw [List.length_cons]
      bv_omega
    rw [List.cons_append, holdsWords_cons, holdsWords_cons, ih, haddr, and_assoc]

/-- Bytes stay where nothing changes. -/
lemma Holds.congr {bs : List (BitVec 8)} (h : m.Holds a bs)
    (heq : ∀ i : ℕ, i < bs.length → m' (a + BitVec.ofNat 32 i) = m (a + BitVec.ofNat 32 i)) :
    m'.Holds a bs := by
  induction bs generalizing a with
  | nil => trivial
  | cons b bs ih =>
    have h0 : m' a = m a := by simpa using heq 0 (Nat.succ_pos _)
    refine ⟨h0.trans h.1, ih h.2 fun i hi => ?_⟩
    have haddr : a + 1 + BitVec.ofNat 32 i = a + BitVec.ofNat 32 (i + 1) := by bv_omega
    rw [haddr]
    exact heq (i + 1) (Nat.succ_lt_succ hi)

/-- The same, with the bytes at a distance from a fixed address. -/
lemma Holds.congr_offset {bs : List (BitVec 8)} {i : ℕ} (h : m.Holds (a + BitVec.ofNat 32 i) bs)
    (heq : ∀ j, i ≤ j → j < i + bs.length →
      m' (a + BitVec.ofNat 32 j) = m (a + BitVec.ofNat 32 j)) :
    m'.Holds (a + BitVec.ofNat 32 i) bs := by
  refine h.congr fun j hj => ?_
  have haddr : a + BitVec.ofNat 32 i + BitVec.ofNat 32 j = a + BitVec.ofNat 32 (i + j) := by
    bv_omega
  rw [haddr]
  exact heq (i + j) (Nat.le_add_right _ _) (by omega)

/-- There is a memory in which given bytes lie at a given address. -/
lemma exists_holds (a : Word) (bs : List (BitVec 8)) (h : bs.length ≤ 2 ^ 32) :
    ∃ m : Mem, m.Holds a bs := by
  induction bs generalizing a with
  | nil => exact ⟨fun _ => 0, trivial⟩
  | cons b bs ih =>
    rw [List.length_cons] at h
    obtain ⟨m, hm⟩ := ih (a + 1) (by omega)
    refine ⟨m.setByte a b, setByte_self _ _ _, hm.congr fun i hi => setByte_of_ne _ ?_⟩
    bv_omega

/-- A string that ends in NUL is determined by its address. -/
lemma Holds.eq_of_nul {bs cs : List (BitVec 8)} (hb : m.Holds a (bs ++ [0]))
    (hc : m.Holds a (cs ++ [0])) (hb0 : 0 ∉ bs) (hc0 : 0 ∉ cs) : bs = cs := by
  induction bs generalizing a cs with
  | nil =>
    rcases cs with _ | ⟨c, cs⟩
    · rfl
    · have h : (0 : BitVec 8) = c := hb.1.symm.trans hc.1
      exact absurd (h ▸ List.mem_cons_self ..) hc0
  | cons b bs ih =>
    rcases cs with _ | ⟨c, cs⟩
    · have h : (0 : BitVec 8) = b := hc.1.symm.trans hb.1
      exact absurd (h ▸ List.mem_cons_self ..) hb0
    · rw [List.mem_cons, not_or] at hb0 hc0
      have h : b = c := hb.1.symm.trans hc.1
      rw [h, ih hb.2 hc.2 hb0.2 hc0.2]

/-- Words stay where nothing changes. -/
lemma HoldsWords.congr {ws : List Word} (h : m.HoldsWords a ws)
    (heq : ∀ i : ℕ, i < 4 * ws.length → m' (a + BitVec.ofNat 32 i) = m (a + BitVec.ofNat 32 i)) :
    m'.HoldsWords a ws := by
  induction ws generalizing a with
  | nil => trivial
  | cons w ws ih =>
    rw [List.length_cons] at heq
    refine ⟨(word_congr fun i hi => heq i (by omega)).trans h.1, ih h.2 fun i hi => ?_⟩
    have haddr : a + 4 + BitVec.ofNat 32 i = a + BitVec.ofNat 32 (i + 4) := by bv_omega
    rw [haddr]
    exact heq (i + 4) (by omega)

/-- The word with index `i` of those that lie at `a`. -/
lemma HoldsWords.getElem {ws : List Word} (h : m.HoldsWords a ws) {i : ℕ} (hi : i < ws.length) :
    m.word (a + BitVec.ofNat 32 (4 * i)) = ws[i] := by
  induction ws generalizing a i with
  | nil => simp at hi
  | cons w ws ih =>
    cases i with
    | zero => simpa using h.1
    | succ i =>
      have haddr : a + BitVec.ofNat 32 (4 * (i + 1)) = a + 4 + BitVec.ofNat 32 (4 * i) := by
        bv_omega
      rw [haddr, List.getElem_cons_succ]
      exact ih h.2 (Nat.lt_of_succ_lt_succ hi)

/-- One of several words is replaced. -/
lemma HoldsWords.set {ws vs : List Word} {v : Word} (h : m.HoldsWords a (ws ++ v :: vs)) (w : Word)
    (hlen : 4 * (ws.length + vs.length + 1) ≤ 2 ^ 32) :
    (m.setWord (a + BitVec.ofNat 32 (4 * ws.length)) w).HoldsWords a (ws ++ w :: vs) := by
  rw [holdsWords_append, holdsWords_cons] at h ⊢
  refine ⟨?_, word_setWord_self _ _ _, ?_⟩
  · refine h.1.congr fun i hi => setWord_of_beyond _ ?_
    unfold Beyond
    bv_omega
  · refine h.2.2.congr fun i hi => setWord_of_beyond _ ?_
    unfold Beyond
    bv_omega

/-- A word put below others. -/
lemma HoldsWords.push {ws : List Word} (h : m.HoldsWords a ws) (w : Word)
    (hlen : 4 * ws.length + 4 ≤ 2 ^ 32) : (m.setWord (a - 4) w).HoldsWords (a - 4) (w :: ws) := by
  have haddr : a - 4 + 4 = a := by bv_omega
  refine ⟨word_setWord_self _ _ _, ?_⟩
  rw [haddr]
  refine h.congr fun i hi => setWord_of_beyond _ ?_
  unfold Beyond
  bv_omega

end Mem

end Arm
