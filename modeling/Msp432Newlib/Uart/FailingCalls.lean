import Msp432Newlib.Heap.Sbrk
import Msp432Newlib.Console.Read
import Msp432Newlib.Console.Write
import Msp432Newlib.Uart.Refinement

/-!
# Failing calls

A call fails when it returns -1.  A failing call should have stored a code in `errno` and left
everything else as it was, and any other call should leave `errno` alone (`Atomic`).  Three of the
calls break this: `_read` runs `OutputInit` before it looks at the descriptor, `_write` returns its
length also when that is -1, and `_sbrk` can grant a block at the last address.  `atomic_iff` says
for each call from which states it is atomic.
-/

namespace Newlib

open Effects Streams

/-- If the program returns -1, it has stored a code other than zero in `errno` and changed nothing
else, neither in memory nor, as far as the hardware has not moved meanwhile, in the serial
interface; if it returns anything else, `errno` is as before. -/
def Atomic (p : Prog sysSig (BitVec 32)) (m : Machine Uart) : Prop :=
  ∀ t r m', Runs uartWorld (expand p) m t (.ret r) m' →
    (r = -1 → (∃ e, e ≠ 0 ∧ CoreOp.storeErrno e ∈ t.flatMap accessed ∧
        m'.core = { m.core with errno := e }) ∧
      ((∀ e ∈ t, e.IsCpu) → m'.dev = m.dev)) ∧
    (r ≠ -1 → m'.core.errno = m.core.errno)

/-- A call that stores a code and returns -1. -/
def failWith (e : CInt) : Prog coreSig CInt := do
  storeErrno e
  pure (-1)

/-- Such a call changes `errno` only. -/
lemma failWith_eval (e : CInt) (c : Core) :
    (failWith e).eval CoreOp.handle c = (-1, { c with errno := e }) := rfl

lemma failWith_trace (e : CInt) (c : Core) :
    (failWith e).trace CoreOp.handle c = [.storeErrno e] := rfl

/-! ## Calls that do not use the serial interface -/

section Core

variable {p : Prog coreSig (BitVec 32)} {m m' : Machine Uart}

/-- The traces of a program over accesses, alone and as part of a system call. -/
lemma trace_liftCore {α : Type} (p : Prog coreSig α) (m : Machine Console) :
    ((liftCore p).trace SysOp.onConsole m).flatMap SysOp.accesses =
      p.trace CoreOp.handle m.core := by
  induction p generalizing m with
  | ret a => rfl
  | perform o k ih => exact congrArg (o :: ·) (ih _ _)

/-- A program over accesses leaves the serial interface alone. -/
lemma eval_expand_liftCore {α : Type} (p : Prog coreSig α) (m : Machine Uart) :
    (expand (liftCore p)).eval uartWorld.handle m = ((p.eval CoreOp.handle m.core).1,
      { m with core := (p.eval CoreOp.handle m.core).2 }) := by
  unfold expand liftCore
  rw [Prog.eval_interp, Prog.eval_interp]
  induction p generalizing m with
  | ret a => rfl
  | perform o k ih => exact ih _ _

/-- No access to memory or static objects waits. -/
lemma liftCore_uses {α : Type} (p : Prog coreSig α) :
    (expand (liftCore p)).Uses fun o => ∀ m, uartWorld.blocked o m = false := by
  unfold expand liftCore
  induction p with
  | ret a => trivial
  | perform o k ih => exact ⟨fun _ => rfl, ih⟩

/-- The law for a program over accesses, in terms of its evaluation. -/
lemma atomic_liftCore_iff : Atomic (liftCore p) m ↔
    ((p.eval CoreOp.handle m.core).1 = -1 → ∃ e, e ≠ 0 ∧
        CoreOp.storeErrno e ∈ p.trace CoreOp.handle m.core ∧
        (p.eval CoreOp.handle m.core).2 = { m.core with errno := e }) ∧
      ((p.eval CoreOp.handle m.core).1 ≠ -1 →
        (p.eval CoreOp.handle m.core).2.errno = m.core.errno) := by
  constructor
  · intro h
    obtain ⟨t, ht, -⟩ := Runs.exists_of_uses (W := uartWorld) (liftCore_uses p) m
    rw [eval_expand_liftCore] at ht
    obtain ⟨hfail, hgood⟩ := h t _ _ ht
    obtain ⟨-, hacc⟩ := runs_refine ht (.start (Stream'.const 0))
    rw [trace_liftCore] at hacc
    refine ⟨?_, hgood⟩
    intro hret
    obtain ⟨⟨e, he, hmem, hcore⟩, -⟩ := hfail hret
    exact ⟨e, he, hacc ▸ hmem, hcore⟩
  · rintro ⟨hfail, hgood⟩ t r m' ht
    obtain ⟨heval, hacc⟩ := runs_refine ht (.start (Stream'.const 0))
    rw [trace_liftCore] at hacc
    rw [eval_liftCore, Prod.mk.injEq, Machine.mk.injEq] at heval
    obtain ⟨hret, hcore, -⟩ := heval
    rw [hret, hcore] at hfail hgood
    refine ⟨?_, hgood⟩
    intro hr
    obtain ⟨e, he, hmem, hpost⟩ := hfail hr
    refine ⟨⟨e, he, hacc ▸ hmem, hpost⟩, ?_⟩
    intro hcpu
    have hrun := ht.eval_eq hcpu
    rw [eval_expand_liftCore, Prod.mk.injEq] at hrun
    rw [← hrun.2]

end Core

/-! ## Calls that begin with `OutputInit` -/

/-- The serial interface is configured as `OutputInit` does it, and idle: there is nothing that
`OutputInit` would change. -/
def Settled (u : Uart) : Prop :=
  u.ctlw0 = 0x0080 ∧ u.mctlw = 0 ∧ u.brw = 26 ∧ u.sel0 ||| 0x0C = u.sel0 ∧
    u.sel1 &&& ~~~0x0C = u.sel1 ∧ u.txbuf = none ∧ u.shift = none ∧ u.rxifg = false

/-- A settled interface is one that `OutputInit` leaves as it is. -/
lemma settled_iff (u : Uart) : Settled u ↔ u.initialised = u := by
  cases u
  unfold Settled Uart.initialised
  rw [Uart.mk.injEq]
  constructor
  · rintro ⟨rfl, rfl, rfl, h₀, h₁, rfl, rfl, rfl⟩
    exact ⟨rfl, rfl, rfl, h₀, h₁, rfl, rfl, rfl, rfl, rfl⟩
  · rintro ⟨rfl, rfl, rfl, h₀, h₁, rfl, rfl, -, -, rfl⟩
    exact ⟨rfl, rfl, rfl, h₀, h₁, rfl, rfl, rfl⟩

section Init

variable {m : Machine Uart} (file : CInt) (ptr : Addr) (len : CInt)

/-- No access of `OutputInit` waits. -/
lemma outputInit_unblocked :
    Driver.outputInit.Uses fun o => ∀ m, uartWorld.blocked o m = false :=
  outputInit_uses (fun _ _ => rfl) fun _ _ _ => rfl

/-- What a program over accesses does after `OutputInit`, when the hardware does not move. -/
lemma eval_expand_init {α : Type} (p : Prog coreSig α) (m : Machine Uart) :
    (expand (outputInit.bind fun _ => liftCore p)).eval uartWorld.handle m =
      ((p.eval CoreOp.handle m.core).1,
        ⟨(p.eval CoreOp.handle m.core).2, m.dev.initialised⟩) := by
  have hinit : (expand outputInit).eval uartWorld.handle m =
      ((), { m with dev := m.dev.initialised }) := outputInit_eval m
  rw [expand_bind, Prog.eval_bind, hinit, eval_expand_liftCore]

/-- `_read` on any descriptor but the standard input. -/
lemma read_other {file : CInt} (hfile : ¬ STDIN_FILENO = file) : read file ptr len =
    outputInit.bind fun _ => liftCore (failWith EBADF) := by
  unfold read
  rw [if_neg hfile]
  rfl

/-- On any other descriptor `_read` is atomic exactly when `OutputInit` changes nothing. -/
lemma atomic_read_other_iff {file : CInt} (hfile : ¬ STDIN_FILENO = file) :
    Atomic (read file ptr len) m ↔ Settled m.dev := by
  rw [read_other ptr len hfile, settled_iff]
  constructor
  · intro h
    have huses : (expand (outputInit.bind fun _ => liftCore (failWith EBADF))).Uses
        fun o => ∀ m, uartWorld.blocked o m = false :=
      Prog.Uses.bind outputInit_unblocked fun _ => liftCore_uses _
    obtain ⟨t, ht, hcpu⟩ := Runs.exists_of_uses (W := uartWorld) huses m
    rw [eval_expand_init] at ht
    exact ((h t _ _ ht).1 rfl).2 hcpu
  · intro hsettled t r m' ht
    obtain ⟨hc, hacc⟩ := runs_refine ht (.start (Stream'.const 0))
    rw [Prog.eval_bind, eval_outputInit, eval_liftCore, failWith_eval, Prod.mk.injEq,
      Machine.mk.injEq] at hc
    rw [Prog.trace_bind, List.flatMap_append, eval_outputInit, trace_liftCore,
      failWith_trace] at hacc
    obtain ⟨rfl, hcore, -⟩ := hc
    refine ⟨fun _ => ⟨⟨EBADF, by decide, ?_, hcore.symm⟩, ?_⟩, fun h => absurd rfl h⟩
    · rw [← hacc]
      exact List.mem_append_right _ List.mem_cons_self
    · intro hcpu
      have hrun := ht.eval_eq hcpu
      rw [eval_expand_init, Prod.mk.injEq, hsettled] at hrun
      rw [← hrun.2]

/-- A count below the sign bit is not -1. -/
lemma ofNat_ne_neg_one {n : ℕ} (hn : n < 2 ^ 31) : BitVec.ofNat 32 n ≠ -1 := by
  intro h
  have hnat := congrArg BitVec.toNat h
  have hlast : (-1 : BitVec 32).toNat = 2 ^ 32 - 1 := by decide
  rw [BitVec.toNat_ofNat, Nat.mod_eq_of_lt (by omega), hlast] at hnat
  omega

/-- On the standard input `_read` returns a count, and leaves `errno` alone. -/
lemma atomic_read_stdin : Atomic (read STDIN_FILENO ptr len) m := by
  intro t r m' ht
  obtain ⟨hc, -⟩ := runs_refine ht (.start (Stream'.const 0))
  rw [read_eval, Prod.mk.injEq, Machine.mk.injEq] at hc
  obtain ⟨hret, hcore, -⟩ := hc
  constructor
  · intro hr
    have hlt := length_chunk_lt len
      (Console.before (.start (Stream'.const 0)) t).input
    have hle := length_withoutCR_le (chunk CR len.toInt.toNat
      (Console.before (.start (Stream'.const 0)) t).input)
    exact absurd (hret.trans hr) (ofNat_ne_neg_one (Nat.lt_of_le_of_lt hle hlt))
  · intro _
    rw [← hcore, setBytes_errno]

/-- `_write` stores nothing in `errno`. -/
lemma write_trace (file : CInt) (ptr : Addr) (len : CInt) (m : Machine Console) (e : CInt) :
    CoreOp.storeErrno e ∉
      ((write file ptr len).trace SysOp.onConsole m).flatMap SysOp.accesses := by
  have hloop : ∀ (k : ℕ) (ptr : Addr) (m : Machine Console), CoreOp.storeErrno e ∉
      ((writeLoop ptr k).trace SysOp.onConsole m).flatMap SysOp.accesses := by
    intro k
    induction k with
    | zero => simp [writeLoop]
    | succ k ih =>
      intro ptr m
      unfold writeLoop
      simp only [Prog.bind_eq, Prog.trace_bind, List.flatMap_append, List.mem_append, not_or]
      refine ⟨?_, ?_, ih _ _⟩
      · rw [liftM_eq, trace_liftCore]
        simp [loadByte, Prog.op]
      · simp [sendOutput, Prog.op, SysOp.accesses]
  unfold write
  simp only [Prog.bind_eq, Prog.trace_bind, List.flatMap_append, List.mem_append, not_or]
  refine ⟨?_, hloop _ _ _, ?_⟩
  · simp [outputInit, Prog.op, SysOp.accesses]
  · simp

/-- `_write` is atomic unless its length is -1. -/
lemma atomic_write_iff : Atomic (write file ptr len) m ↔ len ≠ -1 := by
  constructor
  · rintro h rfl
    have huses : (expand (write file ptr (-1))).Uses
        fun o => ∀ m, uartWorld.blocked o m = false := by
      exact Prog.Uses.bind outputInit_unblocked fun _ => trivial
    obtain ⟨t, ht, -⟩ := Runs.exists_of_uses (W := uartWorld) huses m
    obtain ⟨hc, hacc⟩ := runs_refine ht (.start (Stream'.const 0))
    rw [write_eval, Prod.mk.injEq] at hc
    obtain ⟨⟨e, -, hmem, -⟩, -⟩ := (h t _ _ ht).1 hc.1.symm
    rw [← hacc] at hmem
    exact write_trace file ptr (-1) _ e hmem
  · intro hlen t r m' ht
    obtain ⟨hc, -⟩ := runs_refine ht (.start (Stream'.const 0))
    rw [write_eval, Prod.mk.injEq, Machine.mk.injEq] at hc
    obtain ⟨rfl, hcore, -⟩ := hc
    refine ⟨fun hr => absurd hr hlen, fun _ => ?_⟩
    rw [← hcore]

end Init

/-! ## All calls -/

/-- The states from which a call is atomic. -/
def Syscall.Guarded (stackSym : Addr) : Syscall → Machine Uart → Prop
  | .read file _ _, m => file = STDIN_FILENO ∨ Settled m.dev
  | .write _ _ len, _ => len ≠ -1
  | .sbrk nbytes, m =>
    m.core.heapPtr = -1 → ¬ Fits (m.core.word stackSym) m.core.heapPtr nbytes
  | _, _ => True

section Calls

variable {m : Machine Uart} {file : CInt} {st : Addr} {stackSym : Addr} {nbytes : CInt}

/-- A call that stores a code and fails. -/
lemma atomic_fail {e : CInt} (he : e ≠ 0) : Atomic (liftCore (failWith e)) m := by
  rw [atomic_liftCore_iff, failWith_eval, failWith_trace]
  exact ⟨fun _ => ⟨e, he, List.mem_singleton_self _, rfl⟩, fun h => absurd rfl h⟩

/-- A call that succeeds, with a result other than -1 and `errno` unchanged, from any state. -/
lemma atomic_succeed {p : Prog coreSig (BitVec 32)}
    (hret : ∀ c, (p.eval CoreOp.handle c).1 ≠ -1)
    (herrno : ∀ c, (p.eval CoreOp.handle c).2.errno = c.errno) : Atomic (liftCore p) m := by
  rw [atomic_liftCore_iff]
  exact ⟨fun h => absurd h (hret _), fun _ => herrno _⟩

/-- `_fstat` fails with `EBADF`, or stores the mode and returns 0. -/
lemma atomic_fstat : Atomic (liftCore (fstat file st)) m := by
  unfold fstat
  split
  · exact atomic_succeed (fun c => by simp) fun c => by simp
  · exact atomic_fail (by decide)

lemma atomic_isatty : Atomic (liftCore (isatty file)) m := by
  unfold isatty
  split
  · exact atomic_succeed (fun c => by simp) fun c => by simp
  · exact atomic_fail (by decide)

lemma atomic_lseek (offset whence : CInt) : Atomic (liftCore (lseek file offset whence)) m := by
  unfold lseek
  split
  · exact atomic_succeed (fun c => by simp) fun c => by simp
  · exact atomic_fail (by decide)

/-- `_sbrk` stores nothing in `errno` when it grants a request, and `ENOMEM` when it does not. -/
lemma sbrk_trace (c : Core) (e : CInt) :
    CoreOp.storeErrno e ∈ (sbrk stackSym nbytes).trace CoreOp.handle c ↔
      ¬ Fits (c.word stackSym) c.heapPtr nbytes ∧ e = ENOMEM := by
  unfold sbrk
  by_cases h : Fits (c.word stackSym) c.heapPtr nbytes
  · simp [h, loadWord, loadHeapPtr, storeHeapPtr, Prog.op, CoreOp.handle]
  · simp [h, loadWord, loadHeapPtr, storeErrno, Prog.op, CoreOp.handle]

/-- `_sbrk` is atomic unless it grants a request with the break at the last address, where what it
returns is the failure code. -/
lemma atomic_sbrk_iff : Atomic (liftCore (sbrk stackSym nbytes)) m ↔
    (m.core.heapPtr = -1 → ¬ Fits (m.core.word stackSym) m.core.heapPtr nbytes) := by
  rw [atomic_liftCore_iff, sbrk_eval]
  by_cases h : Fits (m.core.word stackSym) m.core.heapPtr nbytes
  · rw [if_pos h]
    constructor
    · intro hatomic hlast
      obtain ⟨e, -, hmem, -⟩ := hatomic.1 hlast
      exact absurd h ((sbrk_trace m.core e).1 hmem).1
    · intro hlast
      exact ⟨fun hret => absurd h (hlast hret), fun _ => rfl⟩
  · rw [if_neg h]
    refine iff_of_true ⟨fun _ => ⟨ENOMEM, by decide, ?_, rfl⟩, fun hret => absurd rfl hret⟩
      fun _ => h
    exact (sbrk_trace m.core ENOMEM).2 ⟨h, rfl⟩

end Calls

/-- **Failing calls.**  A system call is atomic exactly from the states in which it is guarded. -/
theorem atomic_iff (stackSym : Addr) (c : Syscall) (m : Machine Uart) :
    Atomic (c.prog stackSym) m ↔ c.Guarded stackSym m := by
  cases c with
  | read file ptr len =>
    rcases eq_or_ne STDIN_FILENO file with rfl | hfile
    · exact iff_of_true (atomic_read_stdin ptr len) (Or.inl rfl)
    · refine (atomic_read_other_iff ptr len hfile).trans ⟨Or.inr, ?_⟩
      rintro (h | h)
      · exact absurd h.symm hfile
      · exact h
  | write file ptr len => exact atomic_write_iff file ptr len
  | sbrk nbytes => exact atomic_sbrk_iff
  | close file => exact iff_of_true (atomic_fail (by decide)) trivial
  | fstat file st => exact iff_of_true atomic_fstat trivial
  | isatty file => exact iff_of_true atomic_isatty trivial
  | lseek file offset whence => exact iff_of_true (atomic_lseek offset whence) trivial
  | stat file st => exact iff_of_true (atomic_fail (by decide)) trivial

/-- After a call of `_write`, `_read` on a descriptor that it rejects drops the byte in `TXBUF`. -/
theorem read_rejected_drops_byte : ∃ t m,
    Runs uartWorld (expand (Syscall.prog 0 (.write STDOUT_FILENO 0 1))) coldStart t (.ret 1) m ∧
      m.dev.ctlw0 = 0x0080 ∧ m.dev.txbuf = some 65 ∧ ¬ Atomic (Syscall.prog 0 (.read 5 0 1)) m := by
  have hrun := runs_of_replay (W := uartWorld) (accessTurns 14)
    (p := expand (Syscall.prog 0 (.write STDOUT_FILENO 0 1))) (s := coldStart) (q := .ret 1) rfl
  refine ⟨_, _, hrun, rfl, rfl, fun h => ?_⟩
  have hfile : ¬ STDIN_FILENO = 5 := by decide
  have hsettled := (atomic_read_other_iff 0 1 hfile).1 h
  exact absurd hsettled.2.2.2.2.2.1 (by decide)

end Newlib
