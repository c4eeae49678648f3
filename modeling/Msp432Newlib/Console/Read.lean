import Msp432Newlib.Console.Stream

/-!
# What `_read` takes, stores, echoes and counts

On the console machine a call of `_read` on the standard input takes the chunk of the input that
ends at the first line end or fills the buffer, stores it, and echoes it; it counts what comes
before the line end (`read_eval`).  All of this is a function of the chunk, so that a sequence of
calls echoes and delivers the same whatever the lengths of its buffers.
-/

namespace Newlib

open Effects Streams

/-! ## A single call -/

/-- The echo of a byte: itself, and after a line end `'\n'` and `'\r'`. -/
def echoByte (c : Byte) : List Byte := if c = CR then [CR, LF, CR] else [c]

/-- The echo of a byte string. -/
def echo (l : List Byte) : List Byte := l.flatMap echoByte

/-- The bytes of a string that are not line ends. -/
def withoutCR (l : List Byte) : List Byte := l.filter (· ≠ CR)

/-- The console after the bytes `l` have been taken from it and echoed. -/
def Console.taking (d : Console) (l : List Byte) : Console :=
  ⟨d.input.drop l.length, d.consumed ++ l, d.sent ++ echo l⟩

@[simp] lemma taking_nil (d : Console) : d.taking [] = d := by
  simp [Console.taking, echo]

/-- Taking a string is taking its first byte and then the rest. -/
lemma taking_cons (d : Console) (b : Byte) (l : List Byte) :
    (d.taking [b]).taking l = d.taking (b :: l) := by
  simp [Console.taking, echo, Stream'.drop_drop, Nat.add_comm]

/-- Taking a string in two parts. -/
lemma taking_append (d : Console) (l l' : List Byte) :
    (d.taking l).taking l' = d.taking (l ++ l') := by
  simp [Console.taking, echo, Stream'.drop_drop]

/-- The loop of `_read` takes the chunk of its remaining length, stores it and echoes it; it returns
its index advanced by the length of the chunk without its line end. -/
lemma readLoop_eval (ptr : Addr) (i k : ℕ) (m : Machine Console) :
    (readLoop ptr i k).eval SysOp.onConsole m =
      (BitVec.ofNat 32 (i + (withoutCR (chunk CR k m.dev.input)).length),
        ⟨m.core.setBytes (ptr + BitVec.ofNat 32 i) (chunk CR k m.dev.input),
          m.dev.taking (chunk CR k m.dev.input)⟩) := by
  induction k generalizing i m with
  | zero => simp [readLoop, withoutCR]
  | succ k ih =>
    rcases eq_or_ne m.dev.input.head CR with h | h
    · -- the early exit at a line end
      rw [chunk_succ_eq h]
      simp [readLoop, h, withoutCR, Console.taking, echo, echoByte, Stream'.tail_eq_drop]
    · have hne : ¬ CR = m.dev.input.head := h.symm
      have hstep : m.dev.taking [m.dev.input.head] = ⟨m.dev.input.tail,
          m.dev.consumed ++ [m.dev.input.head], m.dev.sent ++ [m.dev.input.head]⟩ := by
        simp [Console.taking, echo, echoByte, h, Stream'.tail_eq_drop]
      have hnext : ptr + BitVec.ofNat 32 i + 1 = ptr + BitVec.ofNat 32 (i + 1) := by
        rw [BitVec.ofNat_add, BitVec.add_assoc]
        rfl
      rw [chunk_succ_ne h, setBytes_cons, hnext, ← taking_cons, hstep]
      simp [readLoop, hne, ih, withoutCR, h, Nat.add_assoc, Nat.add_comm 1]

/-- **The specification of `_read` on the standard input.** -/
theorem read_eval (ptr : Addr) (len : CInt) (m : Machine Console) :
    (read STDIN_FILENO ptr len).eval SysOp.onConsole m =
      (BitVec.ofNat 32 (withoutCR (chunk CR len.toInt.toNat m.dev.input)).length,
        ⟨m.core.setBytes ptr (chunk CR len.toInt.toNat m.dev.input),
          m.dev.taking (chunk CR len.toInt.toNat m.dev.input)⟩) := by
  simp [read, readLoop_eval]

/-- A chunk of a positive `int` length fits below the sign bit. -/
lemma length_chunk_lt (len : CInt) (s : Stream' Byte) :
    (chunk CR len.toInt.toNat s).length < 2 ^ 31 := by
  have hle : (chunk CR len.toInt.toNat s).length ≤ len.toInt.toNat := length_chunk_le
  have hlt : len.toInt < 2 ^ 31 := BitVec.toInt_lt
  omega

/-- The count is not more than the chunk. -/
lemma length_withoutCR_le (l : List Byte) : (withoutCR l).length ≤ l.length :=
  List.length_filter_le _ _

/-! ## Sequences of calls -/

/-- The call of `_read` on the standard input with a given buffer and length. -/
def readCall (r : Addr × CInt) : Prog sysSig CInt := read STDIN_FILENO r.1 r.2

/-- The records of a sequence of calls of `_read`. -/
def readSession (reads : List (Addr × CInt)) (m : Machine Console) :
    List (Call (Addr × CInt) (Machine Console) CInt) :=
  transcript SysOp.onConsole readCall reads m

/-- The machine after a sequence of calls of `_read`. -/
def afterReads (reads : List (Addr × CInt)) (m : Machine Console) : Machine Console :=
  final SysOp.onConsole readCall reads m

/-- The bytes that a call reports to its caller: the contents of `p[0 .. r)` when it returns. -/
def counted (c : Call (Addr × CInt) (Machine Console) CInt) : List Byte :=
  (List.range c.ret.toInt.toNat).map fun j => c.post.core.mem (c.arg.1 + BitVec.ofNat 32 j)

/-- The number of bytes that a call asks for. -/
def requested (r : Addr × CInt) : ℕ := r.2.toInt.toNat

/-- A count below the sign bit survives its conversion to `int`. -/
lemma toInt_toNat_ofNat {r : ℕ} (hr : r < 2 ^ 31) : (BitVec.ofNat 32 r).toInt.toNat = r := by
  have hmod : r % 2 ^ 32 = r := Nat.mod_eq_of_lt (by omega)
  rw [BitVec.toInt_eq_toNat_cond, BitVec.toNat_ofNat, hmod, if_pos (by omega), Int.toNat_natCast]

/-- Distances from the start of a buffer. -/
lemma toNat_add_ofNat_sub {j : ℕ} (ptr : Addr) (hj : j < 2 ^ 32) :
    (ptr + BitVec.ofNat 32 j - ptr).toNat = j := by
  have hmod : j % 2 ^ 32 = j := Nat.mod_eq_of_lt hj
  rw [BitVec.add_comm, BitVec.add_sub_cancel, BitVec.toNat_ofNat, hmod]

/-- A call reports the chunk it took, without its line end. -/
lemma counted_call (r : Addr × CInt) (m : Machine Console) :
    counted (call SysOp.onConsole readCall r m) =
      withoutCR (chunk CR (requested r) m.dev.input) := by
  obtain ⟨ptr, len⟩ := r
  have hlt := length_chunk_lt len m.dev.input
  have hle := length_withoutCR_le (chunk CR len.toInt.toNat m.dev.input)
  simp only [counted, call, readCall, read_eval, requested]
  generalize hl : chunk CR len.toInt.toNat m.dev.input = l at hlt hle
  have hfilter : withoutCR l = l.take (withoutCR l).length := by
    rw [← hl]
    exact chunk_filter
  rw [toInt_toNat_ofNat (by omega)]
  apply List.ext_getElem
  · simp
  · intro j hj hj'
    have hj₁ : j < l.length := by omega
    have hdist := toNat_add_ofNat_sub ptr (j := j) (by omega)
    simp only [List.getElem_map, List.getElem_range]
    rw [setBytes_mem _ _ _ (by omega), dif_pos (by omega)]
    simp only [hdist]
    rw [List.getElem_of_eq hfilter hj', List.getElem_take]

/-- **The session lemma.**  A sequence of calls takes the chunks of its lengths, echoes them, and
reports them without their line ends. -/
theorem readSession_spec (reads : List (Addr × CInt)) (m : Machine Console) :
    (afterReads reads m).dev = m.dev.taking (chunks CR (reads.map requested) m.dev.input) ∧
      (readSession reads m).flatMap counted =
        withoutCR (chunks CR (reads.map requested) m.dev.input) := by
  induction reads generalizing m with
  | nil => simp [afterReads, readSession, chunks, withoutCR]
  | cons r reads ih =>
    have hpost : (call SysOp.onConsole readCall r m).post.dev =
        m.dev.taking (chunk CR (requested r) m.dev.input) := by
      simp only [call, readCall, read_eval, requested]
    have hinput : (call SysOp.onConsole readCall r m).post.dev.input =
        m.dev.input.drop (chunk CR (requested r) m.dev.input).length := by
      rw [hpost]
      rfl
    obtain ⟨hdev, hcount⟩ := ih (call SysOp.onConsole readCall r m).post
    rw [hinput] at hdev hcount
    constructor
    · rw [afterReads, final_cons]
      rw [afterReads] at hdev
      rw [hdev, hpost, taking_append, List.map_cons, chunks]
    · rw [readSession, transcript_cons, List.flatMap_cons, counted_call]
      rw [readSession] at hcount
      rw [hcount, List.map_cons, chunks, withoutCR, withoutCR, withoutCR, List.filter_append]

end Newlib
