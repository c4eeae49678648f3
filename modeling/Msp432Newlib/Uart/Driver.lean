import Msp432Newlib.Syscalls.Basic
import Msp432Newlib.Uart.Peripheral

/-!
# `UART_IO.c`

The three functions of `UART/UART_IO.c` as programs over accesses to the registers, and the system
calls with these three functions in place (`expand`).
-/

namespace Newlib

open Effects

namespace Driver

def load (r : Reg) : Prog hwSig (BitVec r.width) := Prog.op (S := hwSig) (.load r)

def store (r : Reg) (v : BitVec r.width) : Prog hwSig Unit := Prog.op (S := hwSig) (.store r v)

/-- The loop `while (!(EUSCI_A0->IFG & mask));`. -/
def awaitIFG (mask : BitVec 16) : Prog hwSig Unit := Prog.op (S := hwSig) (.awaitIFG mask)

def loadRXBUF : Prog hwSig Byte := Prog.op (S := hwSig) .loadRXBUF

def storeTXBUF (b : Byte) : Prog hwSig Unit := Prog.op (S := hwSig) (.storeTXBUF b)

/-- `void OutputInit(void)`. -/
def outputInit : Prog hwSig Unit := do
  let v ← load .CTLW0
  store .CTLW0 (v ||| 1)
  store .MCTLW 0
  store .CTLW0 0x0081
  store .BRW 26
  let v ← load .SEL0
  store .SEL0 (v ||| 0x0C)
  let v ← load .SEL1
  store .SEL1 (v &&& ~~~0x0C)
  let v ← load .CTLW0
  store .CTLW0 (v &&& ~~~1)

/-- `unsigned char ReadInput(void)`. -/
def readInput : Prog hwSig Byte := do
  awaitIFG 0x01
  let c ← loadRXBUF
  pure c

/-- `int SendOutput(unsigned char c)`. -/
def sendOutput (c : Byte) : Prog hwSig CInt := do
  awaitIFG 0x02
  storeTXBUF c
  pure (c.setWidth 32)

end Driver

/-- The operations of a system call on the processor with its serial interface. -/
def SysOp.onUart : (o : sysSig.Op) → Prog hwSig (sysSig.Res o)
  | .core o => Prog.op (S := hwSig) (.core o)
  | .outputInit => Driver.outputInit
  | .readInput => Driver.readInput
  | .sendOutput c => Driver.sendOutput c

/-- A system call, or a sequence of them, with the functions of `UART_IO.c` in place. -/
def expand {α : Type} (p : Prog sysSig α) : Prog hwSig α := p.interp SysOp.onUart

lemma expand_bind {α β : Type} (p : Prog sysSig α) (f : α → Prog sysSig β) :
    expand (p.bind f) = (expand p).bind fun a => expand (f a) := Prog.interp_bind p f

/-- `OutputInit` only loads from and stores to registers. -/
lemma outputInit_uses {P : hwSig.Op → Prop} (hload : ∀ r, P (.load r))
    (hstore : ∀ r v, P (.store r v)) : Driver.outputInit.Uses P := by
  have hl : ∀ r, (Driver.load r).Uses P := fun r => (Prog.uses_op _).2 (hload r)
  have hs : ∀ r v, (Driver.store r v).Uses P := fun r v => (Prog.uses_op _).2 (hstore r v)
  refine (hl .CTLW0).bind fun _ => (hs .CTLW0 _).bind fun _ => ?_
  refine (hs .MCTLW _).bind fun _ => (hs .CTLW0 _).bind fun _ => ?_
  refine (hs .BRW _).bind fun _ => (hl .SEL0).bind fun _ => ?_
  refine (hs .SEL0 _).bind fun _ => (hl .SEL1).bind fun _ => ?_
  exact (hs .SEL1 _).bind fun _ => (hl .CTLW0).bind fun _ => hs .CTLW0 _

/-! ## Undisturbed initialisation -/

/-- What `OutputInit` makes of the serial interface when nothing happens in between. -/
def Uart.initialised (u : Uart) : Uart :=
  { u with ctlw0 := 0x0080, mctlw := 0, brw := 26, sel0 := u.sel0 ||| 0x0C,
           sel1 := u.sel1 &&& ~~~0x0C, txbuf := none, shift := none, rxifg := false }

/-- Bit 0 of `CTLW0` is set by the first store of `OutputInit`. -/
lemma ucswrst_or_one (v : BitVec 16) : UCSWRST (v ||| 1) = true := by
  unfold UCSWRST
  simp

/-- Bit 0 of `CTLW0` is cleared by the last. -/
lemma ucswrst_and_not_one (v : BitVec 16) : UCSWRST (v &&& ~~~1) = false := by
  unfold UCSWRST
  simp

lemma set_ctlw0_of_set (u : Uart) {v : BitVec 16} (h : UCSWRST v = true) : u.set .CTLW0 v =
    { u with ctlw0 := v, txbuf := none, shift := none, rxifg := false } := if_pos h

lemma set_ctlw0_of_clear (u : Uart) {v : BitVec 16} (h : UCSWRST v = false) :
    u.set .CTLW0 v = { u with ctlw0 := v } := if_neg (by simp [h])

lemma outputInit_eval (m : Machine Uart) :
    Driver.outputInit.eval HwOp.handle m = ((), { m with dev := m.dev.initialised }) := by
  -- the interface in reset, with its divisors set
  obtain ⟨u, hu⟩ : ∃ u, (((m.dev.set .CTLW0 (m.dev.ctlw0 ||| 1)).set .MCTLW 0).set .CTLW0
    0x0081).set .BRW 26 = u := ⟨_, rfl⟩
  have hreset : u = { m.dev.initialised with
      ctlw0 := 0x0081, sel0 := m.dev.sel0, sel1 := m.dev.sel1 } := by
    rw [← hu, set_ctlw0_of_set _ (ucswrst_or_one _)]
    rfl
  have hrun : Driver.outputInit.eval HwOp.handle m = ((), ⟨m.core,
      ((u.set .SEL0 (u.sel0 ||| 0x0C)).set .SEL1 (u.sel1 &&& ~~~0x0C)).set .CTLW0
        (u.ctlw0 &&& ~~~1)⟩) := by
    rw [← hu]
    rfl
  have hclear : (0x0081 : BitVec 16) &&& ~~~1 = 0x0080 := by decide
  rw [hrun, set_ctlw0_of_clear _ (ucswrst_and_not_one _), hreset]
  exact congrArg (fun v => ((), Machine.mk m.core { m.dev.initialised with ctlw0 := v })) hclear

end Newlib
