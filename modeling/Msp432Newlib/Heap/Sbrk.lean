import Msp432Newlib.Syscalls.Basic

/-!
# What `_sbrk` does

A request passes the test of `_sbrk` exactly when the place it asks for lies, in the circular order
of 32-bit addresses, more than `STACK_BUFFER` and less than `2 ^ 31` below the limit (`fits_iff`).
A request that passes moves `heap_ptr` and one that does not sets `errno`; neither touches memory
(`sbrk_cases`), so that the limit is the same word throughout a sequence of requests.
-/

namespace Newlib

open Effects

/-- The test of `_sbrk`, in terms of the distance of the new break below the limit. -/
lemma fits_iff {limit heapPtr : Addr} {nbytes : CInt} :
    Fits limit heapPtr nbytes ↔ 65536 < (limit - (heapPtr + nbytes)).toNat ∧
      (limit - (heapPtr + nbytes)).toNat < 2 ^ 31 := by
  have hlt : (limit - (heapPtr + nbytes)).toNat < 2 ^ 32 := BitVec.isLt _
  unfold Fits STACK_BUFFER
  rw [BitVec.toInt_eq_toNat_cond]
  split
  · omega
  · omega

section Sbrk

variable (stackSym : Addr) (nbytes : CInt) (c : Core)

/-- **The specification of `_sbrk`.**  A request that passes the test returns the old break and
moves it; one that does not returns -1 and stores `ENOMEM`. -/
theorem sbrk_eval : (sbrk stackSym nbytes).eval CoreOp.handle c =
    if Fits (c.word stackSym) c.heapPtr nbytes then
      (c.heapPtr, { c with heapPtr := c.heapPtr + nbytes })
    else (-1, { c with errno := ENOMEM }) := by
  unfold sbrk
  by_cases h : Fits (c.word stackSym) c.heapPtr nbytes
  · simp [h]
  · simp [h]

/-- The record of a single request. -/
abbrev sbrkCall : Call CInt Core Addr := call CoreOp.handle (sbrk stackSym) nbytes c

variable {stackSym nbytes c} in
/-- A request that passes the test is granted. -/
lemma sbrk_granted (h : Fits (c.word stackSym) c.heapPtr nbytes) :
    (sbrkCall stackSym nbytes c).ret = c.heapPtr ∧
      (sbrkCall stackSym nbytes c).post = { c with heapPtr := c.heapPtr + nbytes } := by
  unfold sbrkCall call
  rw [sbrk_eval, if_pos h]
  exact ⟨rfl, rfl⟩

variable {stackSym nbytes c} in
/-- A request that does not pass it is refused. -/
lemma sbrk_refused (h : ¬ Fits (c.word stackSym) c.heapPtr nbytes) :
    (sbrkCall stackSym nbytes c).ret = -1 ∧
      (sbrkCall stackSym nbytes c).post = { c with errno := ENOMEM } := by
  unfold sbrkCall call
  rw [sbrk_eval, if_neg h]
  exact ⟨rfl, rfl⟩

/-- The two outcomes of a request. -/
lemma sbrk_cases :
    (Fits (c.word stackSym) c.heapPtr nbytes ∧ (sbrkCall stackSym nbytes c).ret = c.heapPtr ∧
      (sbrkCall stackSym nbytes c).post = { c with heapPtr := c.heapPtr + nbytes }) ∨
    (¬ Fits (c.word stackSym) c.heapPtr nbytes ∧ (sbrkCall stackSym nbytes c).ret = -1 ∧
      (sbrkCall stackSym nbytes c).post = { c with errno := ENOMEM }) := by
  by_cases h : Fits (c.word stackSym) c.heapPtr nbytes
  · exact Or.inl ⟨h, sbrk_granted h⟩
  · exact Or.inr ⟨h, sbrk_refused h⟩

/-- The break after a request, as the test moves it. -/
def moved (limit h : Addr) (n : CInt) : Addr := if Fits limit h n then h + n else h

lemma sbrk_heapPtr :
    (sbrkCall stackSym nbytes c).post.heapPtr = moved (c.word stackSym) c.heapPtr nbytes := by
  unfold moved
  rcases sbrk_cases stackSym nbytes c with ⟨hfit, -, hpost⟩ | ⟨hfit, -, hpost⟩
  · rw [hpost, if_pos hfit]
  · rw [hpost, if_neg hfit]

/-- No request touches memory. -/
lemma sbrk_mem : (sbrkCall stackSym nbytes c).post.mem = c.mem := by
  rcases sbrk_cases stackSym nbytes c with ⟨-, -, hpost⟩ | ⟨-, -, hpost⟩
  · rw [hpost]
  · rw [hpost]

lemma sbrk_word (a : Addr) : (sbrkCall stackSym nbytes c).post.word a = c.word a := by
  unfold Core.word
  rw [sbrk_mem]

end Sbrk

/-! ## Sequences of requests -/

/-- The records of a sequence of requests. -/
def sbrkRun (stackSym : Addr) (reqs : List CInt) (c : Core) : List (Call CInt Core Addr) :=
  transcript CoreOp.handle (sbrk stackSym) reqs c

/-- The state after a sequence of requests. -/
def afterSbrk (stackSym : Addr) (reqs : List CInt) (c : Core) : Core :=
  final CoreOp.handle (sbrk stackSym) reqs c

/-- The limit that every request of a sequence finds is the one that the first finds. -/
lemma sbrkRun_word {stackSym : Addr} {reqs : List CInt} {c : Core} {r : Call CInt Core Addr}
    (hr : r ∈ sbrkRun stackSym reqs c) : r.pre.word stackSym = c.word stackSym := by
  have hstep : ∀ n s, s.word stackSym = c.word stackSym → True →
      (sbrkCall stackSym n s).post.word stackSym = c.word stackSym :=
    fun n s hs _ => (sbrk_word stackSym n s stackSym).trans hs
  exact ((transcript_invariant (I := fun s => s.word stackSym = c.word stackSym)
    (A := fun _ => True) hstep rfl fun _ _ => trivial).1 r hr).1

end Newlib
