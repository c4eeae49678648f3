import Mathlib.Data.Set.Basic
import Msp432Newlib.Console.Read

/-!
# Line discipline and delivery

The consequences of `read_eval` and `readSession_spec` for callers of `_read`.  Storing and echoing
do not depend on how a reader cuts the stream into calls (`read_line_discipline`).  Counting is
another matter: the line end that `_read` has taken and stored is left out of its count, so that a
sequence of calls delivers what it consumed exactly when it meets no line end
(`read_delivers_iff_no_line_end`).
-/

namespace Newlib

open Effects Streams

/-! ## Line discipline -/

/-- The prefixes of `input` at which a call with the length `len` may stop: the buffer is full, or
the last byte taken is a line end. -/
def stops (len : CInt) (input : Stream' Byte) : Set ℕ :=
  {k | (k : ℤ) = len.toInt ∨ ∃ j, k = j + 1 ∧ input.get j = CR}

/-- The chunk that a call takes is the shortest of these prefixes. -/
lemma isLeast_stops {len : CInt} (hlen : 0 < len.toInt) (input : Stream' Byte) :
    IsLeast (stops len input) (chunk CR len.toInt.toNat input).length := by
  have hset : stops len input = {k | k = len.toInt.toNat ∨ ∃ j, k = j + 1 ∧ input.get j = CR} := by
    ext k
    simp only [stops, Set.mem_ofPred_eq]
    have hiff : (k : ℤ) = len.toInt ↔ k = len.toInt.toNat := by omega
    rw [hiff]
  rw [hset]
  exact isLeast_length_chunk

/-- Two places of one buffer, less than the address space apart, are different. -/
lemma add_ofNat_ne {ptr : Addr} {i j : ℕ} (hi : i < 2 ^ 32) (hj : j < 2 ^ 32) (h : i ≠ j) :
    ptr + BitVec.ofNat 32 i ≠ ptr + BitVec.ofNat 32 j := by
  intro heq
  have hi' := toNat_add_ofNat_sub ptr hi
  rw [heq, toNat_add_ofNat_sub ptr hj] at hi'
  exact h hi'.symm

/-- What the chunk stored at the start of the buffer looks like byte by byte. -/
lemma setBytes_chunk_mem (c : Core) (ptr : Addr) (len : CInt) (input : Stream' Byte) {j : ℕ}
    (hj : j < (chunk CR len.toInt.toNat input).length) :
    (c.setBytes ptr (chunk CR len.toInt.toNat input)).mem (ptr + BitVec.ofNat 32 j) =
      input.get j := by
  have hlt := length_chunk_lt len input
  have hdist := toNat_add_ofNat_sub ptr (j := j) (by omega)
  rw [setBytes_mem _ _ _ (by omega), dif_pos (by omega)]
  simp only [hdist]
  rw [List.getElem_of_eq chunk_eq_take hj, Stream'.take_get]

/-- Addresses that hold no byte of the chunk keep their contents. -/
lemma setBytes_chunk_mem_of_ne (c : Core) (ptr : Addr) (len : CInt) (input : Stream' Byte)
    {x : Addr} (hx : ∀ j < (chunk CR len.toInt.toNat input).length, x ≠ ptr + BitVec.ofNat 32 j) :
    (c.setBytes ptr (chunk CR len.toInt.toNat input)).mem x = c.mem x := by
  have hlt := length_chunk_lt len input
  have hout : ¬ (x - ptr).toNat < (chunk CR len.toInt.toNat input).length := by
    intro hin
    refine hx _ hin ?_
    rw [BitVec.ofNat_toNat, BitVec.setWidth_eq, BitVec.add_comm, BitVec.sub_add_cancel]
  rw [setBytes_mem _ _ _ (by omega), dif_neg hout]

/-- From a fresh console, the bytes consumed determine what is echoed and what is reported. -/
lemma session_of_consumed {input : Stream' Byte} {core : Core} {reads : List (Addr × CInt)}
    {s : List Byte} (h : (afterReads reads ⟨core, .start input⟩).dev.consumed = s) :
    (afterReads reads ⟨core, .start input⟩).dev.sent = echo s ∧
      (readSession reads ⟨core, .start input⟩).flatMap counted = withoutCR s := by
  obtain ⟨hdev, hcount⟩ := readSession_spec reads ⟨core, .start input⟩
  rw [hdev] at h ⊢
  have hs : chunks CR (reads.map requested) input = s := h
  rw [hcount, ← hs]
  exact ⟨rfl, rfl⟩

/-- **Line discipline.**  A call with a positive length consumes the shortest prefix that fills the
buffer or ends with a line end, stores it unchanged at the start of the buffer and nothing anywhere
else, neither in memory nor in the static objects; and two sequences of calls that consume the same
bytes echo the same and report the same, namely these bytes without their line ends. -/
theorem read_line_discipline :
    (∀ (m : Machine Console) (ptr : Addr) (len : CInt), 0 < len.toInt →
      ∃ k, IsLeast (stops len m.dev.input) k ∧
        ∃ m', ((read STDIN_FILENO ptr len).eval SysOp.onConsole m).2 = m' ∧
          m'.dev.consumed = m.dev.consumed ++ m.dev.input.take k ∧
          m'.dev.input = m.dev.input.drop k ∧
          (∀ j < k, m'.core.mem (ptr + BitVec.ofNat 32 j) = m.dev.input.get j) ∧
          (∀ x, (∀ j < k, x ≠ ptr + BitVec.ofNat 32 j) → m'.core.mem x = m.core.mem x) ∧
          (∀ j : ℕ, j < 2 ^ 32 → len.toInt ≤ j → m'.core.mem (ptr + BitVec.ofNat 32 j) =
            m.core.mem (ptr + BitVec.ofNat 32 j)) ∧
          m'.core.errno = m.core.errno ∧ m'.core.heapPtr = m.core.heapPtr) ∧
    (∀ (input : Stream' Byte) (core₁ core₂ : Core) (reads₁ reads₂ : List (Addr × CInt)),
      (∀ r ∈ reads₁, 0 < r.2.toInt) → (∀ r ∈ reads₂, 0 < r.2.toInt) → ∀ s : List Byte,
      (afterReads reads₁ ⟨core₁, .start input⟩).dev.consumed = s →
      (afterReads reads₂ ⟨core₂, .start input⟩).dev.consumed = s →
        (afterReads reads₁ ⟨core₁, .start input⟩).dev.sent = echo s ∧
        (afterReads reads₂ ⟨core₂, .start input⟩).dev.sent = echo s ∧
        (readSession reads₁ ⟨core₁, .start input⟩).flatMap counted = withoutCR s ∧
        (readSession reads₂ ⟨core₂, .start input⟩).flatMap counted = withoutCR s) := by
  constructor
  · intro m ptr len hlen
    have hleast := isLeast_stops hlen m.dev.input
    have hfull : (chunk CR len.toInt.toNat m.dev.input).length ≤ len.toInt.toNat := length_chunk_le
    have hlt := length_chunk_lt len m.dev.input
    refine ⟨_, hleast, _, rfl, ?_⟩
    rw [read_eval]
    refine ⟨?_, rfl, ?_, ?_, ?_, setBytes_errno _ _ _, setBytes_heapPtr _ _ _⟩
    · exact congrArg (m.dev.consumed ++ ·) chunk_eq_take
    · intro j hj
      exact setBytes_chunk_mem m.core ptr len m.dev.input hj
    · intro x hx
      exact setBytes_chunk_mem_of_ne m.core ptr len m.dev.input hx
    · intro j hj hlenj
      refine setBytes_chunk_mem_of_ne m.core ptr len m.dev.input fun i hi => ?_
      exact add_ofNat_ne hj (by omega) (by omega)
  · rintro input core₁ core₂ reads₁ reads₂ - - s h₁ h₂
    obtain ⟨hsent₁, hcount₁⟩ := session_of_consumed h₁
    obtain ⟨hsent₂, hcount₂⟩ := session_of_consumed h₂
    exact ⟨hsent₁, hsent₂, hcount₁, hcount₂⟩

/-- The stream `'a'`, `'\r'`, `'b'`, `'c'`, and then `'d'` for ever. -/
def mixedInput : Stream' Byte :=
  Stream'.appendStream' [97, CR, 98, 99] (Stream'.const 100)

/-- Cut by four calls for one byte each, or by a call that ends at the line end and one that fills
its buffer, the stream is echoed and reported alike; and the first of these two calls touches
neither the rest of its buffer nor `errno`. -/
theorem read_line_discipline_mixed :
    (∃ m', ((read STDIN_FILENO 16 5).eval SysOp.onConsole ⟨.zero 0, .start mixedInput⟩).2 = m' ∧
      m'.dev.consumed = [97, CR] ∧ m'.core.mem 17 = CR ∧ m'.core.mem 18 = 0 ∧
        m'.core.errno = 0) ∧
    ∀ reads ∈ [[(0, 1), (1, 1), (2, 1), (3, 1)], [(16, 5), (32, 2)]],
      (afterReads reads ⟨.zero 0, .start mixedInput⟩).dev.sent = [97, CR, LF, CR, 98, 99] ∧
        (readSession reads ⟨.zero 0, .start mixedInput⟩).flatMap counted = [97, 98, 99] := by
  constructor
  · obtain ⟨k, hk, m', hm', hcons, -, hin, hout, -, herr, -⟩ := read_line_discipline.1
      ⟨.zero 0, .start mixedInput⟩ 16 5 (by decide)
    -- the shortest prefix is the one that ends with the line end
    have hle : k ≤ 2 := hk.2 (Or.inr ⟨1, rfl, rfl⟩)
    have hk2 : k = 2 := by
      rcases hk.1 with hfull | ⟨j, hj, hget⟩
      · have hfive : (k : ℤ) = 5 := hfull
        omega
      · have hj0 : j ≠ 0 := by
          rintro rfl
          exact absurd hget (by decide)
        omega
    obtain rfl := hk2
    refine ⟨m', hm', hcons, hin 1 (by decide), ?_, herr⟩
    refine hout 18 fun j hj => ?_
    have hcases : j = 0 ∨ j = 1 := by omega
    rcases hcases with rfl | rfl
    · decide
    · decide
  · have hboth := read_line_discipline.2 mixedInput (.zero 0) (.zero 0)
      [(0, 1), (1, 1), (2, 1), (3, 1)] [(16, 5), (32, 2)] (by simp) (by simp)
      [97, CR, 98, 99] rfl rfl
    obtain ⟨hsent₁, hsent₂, hcount₁, hcount₂⟩ := hboth
    intro reads hreads
    rcases List.mem_cons.1 hreads with rfl | hreads
    · exact ⟨hsent₁, hcount₁⟩
    · obtain rfl := List.mem_singleton.1 hreads
      exact ⟨hsent₂, hcount₂⟩

/-! ## Delivery -/

/-- A sequence of calls reports exactly the bytes it consumed, and no call reports the end of the
file. -/
def Delivers (core : Core) (input : Stream' Byte) (reads : List (Addr × CInt)) : Prop :=
  (readSession reads ⟨core, .start input⟩).flatMap counted =
      (afterReads reads ⟨core, .start input⟩).dev.consumed ∧
    ∀ c ∈ readSession reads ⟨core, .start input⟩, c.ret ≠ 0

/-- A call with a positive length returns zero exactly when the next byte is a line end. -/
lemma call_ret_eq_zero_iff {r : Addr × CInt} (hr : 0 < r.2.toInt) (m : Machine Console) :
    (call SysOp.onConsole readCall r m).ret = 0 ↔ m.dev.input.head = CR := by
  obtain ⟨ptr, len⟩ := r
  have hpos : 0 < len.toInt.toNat := by
    change 0 < len.toInt at hr
    omega
  have hlt := length_chunk_lt len m.dev.input
  have hle := length_withoutCR_le (chunk CR len.toInt.toNat m.dev.input)
  have hzero : (withoutCR (chunk CR len.toInt.toNat m.dev.input)).length = 0 ↔
      m.dev.input.head = CR := chunk_filter_length_eq_zero hpos
  rw [← hzero]
  simp only [call, readCall, read_eval]
  constructor
  · intro h
    have hcount := congrArg (fun b : CInt => b.toInt.toNat) h
    rw [toInt_toNat_ofNat (by omega)] at hcount
    exact hcount
  · intro h
    rw [h]
    rfl

/-- Without line ends among the bytes asked for, no call returns zero. -/
lemma ret_ne_zero_of_no_line_end {reads : List (Addr × CInt)} (hpos : ∀ r ∈ reads, 0 < r.2.toInt)
    {m : Machine Console} (h : ∀ j < (reads.map requested).sum, m.dev.input.get j ≠ CR) :
    ∀ c ∈ readSession reads m, c.ret ≠ 0 := by
  induction reads generalizing m with
  | nil => simp [readSession]
  | cons r reads ih =>
    rw [List.forall_mem_cons] at hpos
    rw [List.map_cons, List.sum_cons] at h
    have hreq : 0 < requested r := by
      have := hpos.1
      unfold requested
      omega
    have hhead : m.dev.input.head ≠ CR := h 0 (by omega)
    have htake : chunk CR (requested r) m.dev.input = m.dev.input.take (requested r) :=
      chunk_eq_take_of_forall_ne fun j hj => h j (by omega)
    -- the next call starts right after the bytes that this one asked for
    have hinput : (call SysOp.onConsole readCall r m).post.dev.input =
        m.dev.input.drop (requested r) := by
      have hread := congrArg (fun x => x.2.dev.input) (read_eval r.1 r.2 m)
      change chunk CR r.2.toInt.toNat m.dev.input = _ at htake
      simp only [Console.taking, htake, Stream'.length_take] at hread
      exact hread
    rw [readSession, transcript_cons, List.forall_mem_cons]
    refine ⟨?_, ih hpos.2 fun j hj => ?_⟩
    · rw [Ne, call_ret_eq_zero_iff hpos.1]
      exact hhead
    · rw [hinput, Stream'.get_drop]
      exact h (requested r + j) (by omega)

/-- **Delivery.**  A sequence of calls with positive lengths delivers what it consumes exactly when
there is no line end among as many bytes as it asks for. -/
theorem read_delivers_iff_no_line_end (core : Core) (input : Stream' Byte)
    (reads : List (Addr × CInt)) (hpos : ∀ r ∈ reads, 0 < r.2.toInt) :
    Delivers core input reads ↔ ∀ j < (reads.map requested).sum, input.get j ≠ CR := by
  obtain ⟨hdev, hcount⟩ := readSession_spec reads ⟨core, .start input⟩
  have hconsumed : (afterReads reads ⟨core, .start input⟩).dev.consumed =
      chunks CR (reads.map requested) input := by
    rw [hdev]
    rfl
  have hsame : (readSession reads ⟨core, .start input⟩).flatMap counted =
      (afterReads reads ⟨core, .start input⟩).dev.consumed ↔
        ∀ j < (reads.map requested).sum, input.get j ≠ CR := by
    rw [hcount, hconsumed]
    change withoutCR (chunks CR (reads.map requested) input) = _ ↔ _
    rw [withoutCR, List.filter_eq_self]
    simp only [ne_eq, decide_not, Bool.not_eq_true', decide_eq_false_iff_not]
    constructor
    · intro h j hj hget
      exact h CR ((mem_chunks_iff _).2 ⟨j, hj, hget⟩) rfl
    · rintro h b hb rfl
      obtain ⟨j, hj, hget⟩ := (mem_chunks_iff _).1 hb
      exact h j hj hget
  constructor
  · intro h
    exact hsame.1 h.1
  · intro h
    exact ⟨hsame.2 h, ret_ne_zero_of_no_line_end hpos h⟩

/-- Three bytes without a line end, read with two calls, are delivered. -/
theorem read_delivers_three_bytes :
    Delivers (.zero 0) (Stream'.const 65) [(0, 2), (2, 1)] :=
  (read_delivers_iff_no_line_end (.zero 0) (Stream'.const 65) [(0, 2), (2, 1)] (by simp)).2
    (by decide)

/-- A call that meets a line end first consumes it, and returns zero. -/
theorem read_loses_line_end :
    ¬ ∀ (core : Core) (input : Stream' Byte) (reads : List (Addr × CInt)),
      (∀ r ∈ reads, 0 < r.2.toInt) → Delivers core input reads := by
  intro h
  have hzero := (h (.zero 0) (Stream'.const CR) [(0, 1)] (by simp)).2
  exact hzero _ List.mem_cons_self rfl

end Newlib
