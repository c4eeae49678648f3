import Msp432Newlib.Effects.Run
import Msp432Newlib.Machine.Core

/-!
# The serial interface

The parts of eUSCI_A0 and of port 1 that `UART_IO.c` reads and writes, as a world that moves on its
own account.  On the transmit side there are `TXBUF`, a shift register of one byte, and the bytes
that are on the wire; on the receive side there is `RXBUF`.  Bit 1 of `IFG` says that `TXBUF` is
empty, bit 0 that `RXBUF` holds a byte that has not been read.  A store that sets bit 0 of `CTLW0`
(`UCSWRST`) empties all of this, and while the bit is set arrivals are ignored.
-/

namespace Newlib

open Effects

/-- The registers that the code uses as storage: three of eUSCI_A0, and two of port 1. -/
inductive Reg where
  | CTLW0
  | MCTLW
  | BRW
  | SEL0
  | SEL1
  deriving DecidableEq

@[reducible] def Reg.width : Reg → ℕ
  | CTLW0 | MCTLW | BRW => 16
  | SEL0 | SEL1 => 8

/-- The registers, and what is in transmission and reception. -/
structure Uart where
  ctlw0 : BitVec 16
  mctlw : BitVec 16
  brw : BitVec 16
  sel0 : BitVec 8
  sel1 : BitVec 8
  txbuf : Option Byte
  shift : Option Byte
  wire : List Byte
  rxbuf : Byte
  rxifg : Bool

/-- Bit 0 of `CTLW0`. -/
def UCSWRST (v : BitVec 16) : Bool := v.getLsbD 0

namespace Uart

variable (u : Uart)

/-- The interrupt flags that the code looks at. -/
def ifg : BitVec 16 := (if u.txbuf = none then 2 else 0) ||| (if u.rxifg then 1 else 0)

def get : (r : Reg) → BitVec r.width
  | .CTLW0 => u.ctlw0
  | .MCTLW => u.mctlw
  | .BRW => u.brw
  | .SEL0 => u.sel0
  | .SEL1 => u.sel1

/-- The effect of a store to a register. -/
def set : (r : Reg) → BitVec r.width → Uart
  | .CTLW0, v =>
    if UCSWRST v then { u with ctlw0 := v, txbuf := none, shift := none, rxifg := false }
    else { u with ctlw0 := v }
  | .MCTLW, v => { u with mctlw := v }
  | .BRW, v => { u with brw := v }
  | .SEL0, v => { u with sel0 := v }
  | .SEL1, v => { u with sel1 := v }

end Uart

/-- What the hardware does on its own account. -/
inductive UartMove where
  /-- `TXBUF` is loaded into the empty shift register. -/
  | load
  /-- The shift register is sent. -/
  | shiftOut
  /-- A byte arrives. -/
  | arrive (b : Byte)

/-- The effect of a move of the hardware, when it can be made. -/
def UartMove.apply (u : Uart) : UartMove → Option Uart
  | load =>
    match u.txbuf, u.shift with
    | some b, none => some { u with txbuf := none, shift := some b }
    | _, _ => none
  | shiftOut =>
    match u.shift with
    | some b => some { u with shift := none, wire := u.wire ++ [b] }
    | none => none
  | arrive b =>
    if UCSWRST u.ctlw0 then some u else some { u with rxbuf := b, rxifg := true }

/-- What the hardware can have done. -/
lemma apply_cases {u u' : Uart} {e : UartMove} (h : e.apply u = some u') :
    (∃ b, e = .load ∧ u.txbuf = some b ∧ u.shift = none ∧
      u' = { u with txbuf := none, shift := some b }) ∨
    (∃ b, e = .shiftOut ∧ u.shift = some b ∧
      u' = { u with shift := none, wire := u.wire ++ [b] }) ∨
    (∃ b, e = .arrive b ∧ UCSWRST u.ctlw0 = true ∧ u' = u) ∨
    (∃ b, e = .arrive b ∧ UCSWRST u.ctlw0 = false ∧ u' = { u with rxbuf := b, rxifg := true }) := by
  cases e with
  | load =>
    rcases Option.eq_none_or_eq_some u.txbuf with htx | ⟨b, htx⟩
    · simp [UartMove.apply, htx] at h
    · rcases Option.eq_none_or_eq_some u.shift with hsh | ⟨b', hsh⟩
      · simp only [UartMove.apply, htx, hsh, Option.some.injEq] at h
        exact Or.inl ⟨b, rfl, htx, hsh, h.symm⟩
      · simp [UartMove.apply, htx, hsh] at h
  | shiftOut =>
    rcases Option.eq_none_or_eq_some u.shift with hsh | ⟨b, hsh⟩
    · simp [UartMove.apply, hsh] at h
    · simp only [UartMove.apply, hsh, Option.some.injEq] at h
      exact Or.inr (Or.inl ⟨b, rfl, hsh, h.symm⟩)
  | arrive b =>
    rcases Bool.eq_false_or_eq_true (UCSWRST u.ctlw0) with hrst | hrst
    · simp only [UartMove.apply, hrst, if_true, Option.some.injEq] at h
      exact Or.inr (Or.inr (Or.inl ⟨b, rfl, hrst, h.symm⟩))
    · simp only [UartMove.apply, hrst, Bool.false_eq_true, if_false, Option.some.injEq] at h
      exact Or.inr (Or.inr (Or.inr ⟨b, rfl, hrst, h.symm⟩))

/-- The bytes that arrive with a move. -/
def UartMove.arrived : UartMove → List Byte
  | arrive b => [b]
  | _ => []

/-- The move is an arrival while another byte is pending. -/
def Uart.overrunBy (u : Uart) : UartMove → Bool
  | .arrive _ => u.rxifg
  | _ => false

/-- The effect of several moves, one after another. -/
def UartMove.applyAll : List UartMove → Uart → Option Uart
  | [], u => some u
  | e :: es, u => (e.apply u).bind (applyAll es)

/-- The transmitter can always empty `TXBUF`. -/
lemma exists_applyAll_txbuf_none (u : Uart) :
    ∃ es u', UartMove.applyAll es u = some u' ∧ u'.txbuf = none := by
  rcases Option.eq_none_or_eq_some u.txbuf with htx | ⟨b, htx⟩
  · exact ⟨[], u, rfl, htx⟩
  · rcases Option.eq_none_or_eq_some u.shift with hsh | ⟨c, hsh⟩
    · refine ⟨[.load], { u with txbuf := none, shift := some b }, ?_, rfl⟩
      simp [UartMove.applyAll, UartMove.apply, htx, hsh]
    · -- the byte in the shift register goes first
      refine ⟨[.shiftOut, .load], { u with
        txbuf := none, shift := some b, wire := u.wire ++ [c] }, ?_, rfl⟩
      simp [UartMove.applyAll, UartMove.apply, htx, hsh]

/-! ## Accesses -/

/-- The accesses of the code to memory, static objects and registers; `awaitIFG` is the loop that
ends when a flag of the mask is set. -/
inductive HwOp where
  | core (o : CoreOp)
  | load (r : Reg)
  | store (r : Reg) (v : BitVec r.width)
  | awaitIFG (mask : BitVec 16)
  | loadRXBUF
  | storeTXBUF (b : Byte)

@[reducible] def HwOp.Res : HwOp → Type
  | core o => o.Res
  | load r => BitVec r.width
  | loadRXBUF => Byte
  | store _ _ | awaitIFG _ | storeTXBUF _ => Unit

abbrev hwSig : Sig := ⟨HwOp, HwOp.Res⟩

/-- The effect of an access.  A byte is taken out of `RXBUF` by reading it. -/
def HwOp.handle : (o : hwSig.Op) → Machine Uart → hwSig.Res o × Machine Uart
  | .core o, m => ((o.handle m.core).1, { m with core := (o.handle m.core).2 })
  | .load r, m => (m.dev.get r, m)
  | .store r v, m => ((), { m with dev := m.dev.set r v })
  | .awaitIFG _, m => ((), m)
  | .loadRXBUF, m => (m.dev.rxbuf, { m with dev := { m.dev with rxifg := false } })
  | .storeTXBUF b, m => ((), { m with dev := { m.dev with txbuf := some b } })

/-- A loop goes round once more while none of its flags is set. -/
def HwOp.blocked : hwSig.Op → Machine Uart → Bool
  | .awaitIFG mask, m => m.dev.ifg &&& mask = 0
  | _, _ => false

/-- The processor with its serial interface. -/
def uartWorld : World hwSig (Machine Uart) UartMove where
  handle := HwOp.handle
  blocked := HwOp.blocked
  env e m := (e.apply m.dev).map fun u => { m with dev := u }

/-- Moves of the hardware, seen from the processor. -/
lemma moves_uartWorld (es : List UartMove) (m : Machine Uart) : uartWorld.moves es m =
    (UartMove.applyAll es m.dev).map fun u => { m with dev := u } := by
  induction es generalizing m with
  | nil => rfl
  | cons e es ih =>
    rw [World.moves, UartMove.applyAll]
    rcases Option.eq_none_or_eq_some (e.apply m.dev) with he | ⟨u, he⟩
    · simp [uartWorld, he]
    · have henv : uartWorld.env e m = some { m with dev := u } := by simp [uartWorld, he]
      rw [henv, he, Option.bind_some, Option.bind_some, ih]

/-- Only the loops on `IFG` can go round once more. -/
lemma eq_awaitIFG_of_blocked {o : hwSig.Op} {m : Machine Uart}
    (h : uartWorld.blocked o m = true) : ∃ mask, o = .awaitIFG mask := by
  cases o with
  | awaitIFG mask => exact ⟨mask, rfl⟩
  | core o => cases h
  | load r => cases h
  | store r v => cases h
  | loadRXBUF => cases h
  | storeTXBUF b => cases h

/-- The hardware does not touch memory and static objects. -/
lemma core_of_env {e : UartMove} {m m' : Machine Uart} (h : uartWorld.env e m = some m') :
    m'.core = m.core ∧ e.apply m.dev = some m'.dev := by
  obtain ⟨u, hu, rfl⟩ := Option.map_eq_some_iff.1 h
  exact ⟨rfl, hu⟩

section Flags

variable (u : Uart)

/-- Bit 1 of `IFG` is clear while `TXBUF` is full. -/
lemma ifg_and_two_eq_zero : u.ifg &&& 2 = 0 ↔ u.txbuf ≠ none := by
  unfold Uart.ifg
  rcases Option.eq_none_or_eq_some u.txbuf with ht | ⟨b, ht⟩
  · rcases Bool.eq_false_or_eq_true u.rxifg with hr | hr
    · simp [ht, hr]
    · simp [ht, hr]
  · rcases Bool.eq_false_or_eq_true u.rxifg with hr | hr
    · simp [ht, hr]
    · simp [ht, hr]

/-- Bit 0 of `IFG` is clear while no byte is pending. -/
lemma ifg_and_one_eq_zero : u.ifg &&& 1 = 0 ↔ u.rxifg = false := by
  unfold Uart.ifg
  rcases Option.eq_none_or_eq_some u.txbuf with ht | ⟨b, ht⟩
  · rcases Bool.eq_false_or_eq_true u.rxifg with hr | hr
    · simp [ht, hr]
    · simp [ht, hr]
  · rcases Bool.eq_false_or_eq_true u.rxifg with hr | hr
    · simp [ht, hr]
    · simp [ht, hr]

variable (m : Machine Uart)

lemma blocked_awaitIFG (mask : BitVec 16) :
    uartWorld.blocked (.awaitIFG mask) m = false ↔ ¬ m.dev.ifg &&& mask = 0 :=
  decide_eq_false_iff_not

/-- The loop of `SendOutput` ends when `TXBUF` is empty. -/
lemma awaitTX_ends : uartWorld.blocked (.awaitIFG 2) m = false ↔ m.dev.txbuf = none := by
  rw [blocked_awaitIFG, ifg_and_two_eq_zero, not_not]

/-- The loop of `ReadInput` ends when a byte is pending. -/
lemma awaitRX_ends : uartWorld.blocked (.awaitIFG 1) m = false ↔ m.dev.rxifg = true := by
  rw [blocked_awaitIFG, ifg_and_one_eq_zero, Bool.not_eq_false]

end Flags

end Newlib
