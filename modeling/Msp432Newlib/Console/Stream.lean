import Msp432Newlib.Streams.Delimited
import Msp432Newlib.Syscalls.Basic

/-!
# The console as a stream

The abstract machine for the system calls: `ReadInput` takes the next byte of an input stream and
`SendOutput` appends a byte to an output list.  The console also keeps the bytes taken so far, so
that what a sequence of calls consumed can be compared with what it delivered.
-/

namespace Newlib

open Effects

/-- An input stream, the bytes already taken from it, and the bytes sent. -/
structure Console where
  input : Stream' Byte
  consumed : List Byte
  sent : List Byte

/-- The console before anything is read or sent. -/
def Console.start (input : Stream' Byte) : Console := ⟨input, [], []⟩

/-- The effect of the operations of a system call on memory and console. -/
def SysOp.onConsole : (o : sysSig.Op) → Machine Console → sysSig.Res o × Machine Console
  | .core o, m => ((o.handle m.core).1, { m with core := (o.handle m.core).2 })
  | .outputInit, m => ((), m)
  | .readInput, m =>
    (m.dev.input.head, { m with dev := { m.dev with
      input := m.dev.input.tail, consumed := m.dev.consumed ++ [m.dev.input.head] } })
  | .sendOutput c, m =>
    (c.setWidth 32, { m with dev := { m.dev with sent := m.dev.sent ++ [c] } })

section Eval

variable (m : Machine Console) (b : Byte)

@[simp] lemma eval_outputInit : outputInit.eval SysOp.onConsole m = ((), m) := rfl

@[simp] lemma eval_readInput : readInput.eval SysOp.onConsole m =
    (m.dev.input.head, { m with dev := { m.dev with
      input := m.dev.input.tail, consumed := m.dev.consumed ++ [m.dev.input.head] } }) := rfl

@[simp] lemma eval_sendOutput : (sendOutput b).eval SysOp.onConsole m =
    (b.setWidth 32, { m with dev := { m.dev with sent := m.dev.sent ++ [b] } }) := rfl

/-- Accesses to memory and static objects do not touch the console. -/
@[simp] lemma eval_liftCore {α : Type} (p : Prog coreSig α) :
    (liftCore p).eval SysOp.onConsole m = ((p.eval CoreOp.handle m.core).1,
      { m with core := (p.eval CoreOp.handle m.core).2 }) := by
  rw [liftCore, Prog.eval_interp]
  induction p generalizing m with
  | ret a => rfl
  | perform o k ih => exact ih _ _

end Eval

/-! ## Byte strings in memory -/

/-- Store the bytes of a list one after another, from the address `a` on. -/
def Core.setBytes (c : Core) (a : Addr) : List Byte → Core
  | [] => c
  | b :: l => (c.setByte a b).setBytes (a + 1) l

section SetBytes

variable (c : Core) (a x : Addr) (b : Byte) (l : List Byte)

@[simp] lemma setBytes_nil : c.setBytes a [] = c := rfl

@[simp] lemma setBytes_cons : c.setBytes a (b :: l) = (c.setByte a b).setBytes (a + 1) l := rfl

@[simp] lemma setBytes_heapPtr : (c.setBytes a l).heapPtr = c.heapPtr := by
  induction l generalizing c a with
  | nil => rfl
  | cons b l ih => rw [setBytes_cons, ih, setByte_heapPtr]

@[simp] lemma setBytes_errno : (c.setBytes a l).errno = c.errno := by
  induction l generalizing c a with
  | nil => rfl
  | cons b l ih => rw [setBytes_cons, ih, setByte_errno]

end SetBytes

/-- The distance of an address from one past the start, unless it is the start. -/
lemma toNat_sub_add_one {x a : Addr} (h : x ≠ a) :
    (x - a).toNat = (x - (a + 1)).toNat + 1 := by
  have hne : x.toNat ≠ a.toNat := fun heq => h (BitVec.eq_of_toNat_eq heq)
  bv_omega

/-- A string of at most `2 ^ 32` bytes is found where it was stored, and nothing else changed. -/
theorem setBytes_mem (c : Core) (a x : Addr) {l : List Byte} (hl : l.length ≤ 2 ^ 32) :
    (c.setBytes a l).mem x =
      if h : (x - a).toNat < l.length then l[(x - a).toNat] else c.mem x := by
  induction l generalizing c a with
  | nil => simp
  | cons b l ih =>
    have hl' : l.length + 1 ≤ 2 ^ 32 := hl
    rw [setBytes_cons, ih _ _ (by omega), setByte_mem]
    rcases eq_or_ne x a with hx | hx
    · -- one past the start, the start itself lies at the far end of the address space
      subst hx
      have hfar : (x - (x + 1)).toNat = 2 ^ 32 - 1 := by
        bv_omega
      have hout : ¬ (x - (x + 1)).toNat < l.length := by omega
      have hin : (x - x).toNat < (b :: l).length := by simp
      rw [dif_neg hout, dif_pos hin, if_pos rfl]
      simp
    · have hsucc := toNat_sub_add_one hx
      by_cases hin : (x - (a + 1)).toNat < l.length
      · have hin' : (x - a).toNat < (b :: l).length := by
          rw [List.length_cons]
          omega
        rw [dif_pos hin, dif_pos hin']
        simp only [hsucc, List.getElem_cons_succ]
      · have hout : ¬ (x - a).toNat < (b :: l).length := by
          rw [List.length_cons]
          omega
        rw [dif_neg hin, dif_neg hout, if_neg hx]

end Newlib
