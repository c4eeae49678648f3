import Msp432Newlib.Console.Stream

/-!
# What `_write` sends

On the console machine `_write` sends as many bytes of its buffer as its length says, in order,
reads nothing and changes no memory; it returns its length whatever the descriptor (`write_eval`).
-/

namespace Newlib

open Effects

/-- The `k` bytes at the address `a`. -/
def Core.bytes (c : Core) (a : Addr) : (k : ℕ) → List Byte
  | 0 => []
  | k + 1 => c.mem a :: c.bytes (a + 1) k

/-- The console after more bytes have been sent. -/
def Console.sending (d : Console) (l : List Byte) : Console := { d with sent := d.sent ++ l }

lemma writeLoop_eval (ptr : Addr) (k : ℕ) (m : Machine Console) :
    (writeLoop ptr k).eval SysOp.onConsole m =
      ((), { m with dev := m.dev.sending (m.core.bytes ptr k) }) := by
  induction k generalizing ptr m with
  | zero => simp [writeLoop, Core.bytes, Console.sending]
  | succ k ih => simp [writeLoop, Core.bytes, Console.sending, ih]

/-- **The specification of `_write`.** -/
theorem write_eval (file : CInt) (ptr : Addr) (len : CInt) (m : Machine Console) :
    (write file ptr len).eval SysOp.onConsole m =
      (len, { m with dev := m.dev.sending (m.core.bytes ptr len.toInt.toNat) }) := by
  simp [write, writeLoop_eval]

end Newlib
