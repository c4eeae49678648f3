import Msp432Newlib.Uart.Discipline

/-!
# Transmission

The transmit side of the serial interface as a channel from the stores of `SendOutput` to the wire.
The discipline keeps `SendOutput` from overwriting `TXBUF`; but every system call that writes or
reads begins with `OutputInit`, which sets `UCSWRST` without waiting for the shift register.  The
bytes on the wire are those sent exactly when no store that sets `UCSWRST` finds a byte in
transmission (`transmit_conserved_iff`).
-/

namespace Newlib

open Effects

/-- The bytes that have been stored to `TXBUF` and are not on the wire, first in first. -/
def Uart.inTransmission (u : Uart) : List Byte := u.shift.toList ++ u.txbuf.toList

/-- The bytes that a step sends: the one that `SendOutput` stores. -/
def sentBy : UartEvent → List Byte
  | ⟨_, .cpu (.storeTXBUF b)⟩ => [b]
  | _ => []

/-- The bytes that a step puts on the wire. -/
def onWire : UartEvent → List Byte
  | ⟨m, .env .shiftOut⟩ => m.dev.shift.toList
  | _ => []

/-- The step sets `UCSWRST` while a byte is in transmission. -/
def cutsOff : UartEvent → Bool
  | ⟨m, .cpu (.store .CTLW0 v)⟩ => UCSWRST v && !m.dev.inTransmission.isEmpty
  | _ => false

/-- The transmit side as a channel. -/
def txChannel : Channel hwSig (Machine Uart) UartMove Byte where
  inp := sentBy
  out := onWire
  held m := m.dev.inTransmission
  Drops e := cutsOff e = true

section Steps

variable {κ κ' : Known} {e : UartEvent} {m' : Machine Uart}

/-- Other accesses send nothing and cut nothing off. -/
lemma tx_of_idle {o : hwSig.Op} (ho : HwOp.Idle o) (m : Machine Uart) :
    sentBy ⟨m, .cpu o⟩ = [] ∧ cutsOff ⟨m, .cpu o⟩ = false := by
  cases o with
  | core o => exact ⟨rfl, rfl⟩
  | load r => exact ⟨rfl, rfl⟩
  | awaitIFG mask => exact ⟨rfl, rfl⟩
  | store r v =>
    cases r with
    | CTLW0 => exact absurd rfl ho
    | MCTLW | BRW | SEL0 | SEL1 => exact ⟨rfl, rfl⟩
  | loadRXBUF => exact absurd ho id
  | storeTXBUF b => exact absurd ho id

/-- A step that cuts nothing off keeps the queue. -/
lemma tx_keeps (h : UartStep κ e κ' m') (hd : ¬ cutsOff e = true) :
    onWire e ++ m'.dev.inTransmission = e.pre.dev.inTransmission ++ sentBy e := by
  have heffect := effect_of_step h
  generalize m'.dev = u at heffect ⊢
  cases heffect with
  | @reset _ m v hv _ =>
    have hnil : m.dev.inTransmission = [] := by simpa [cutsOff, hv] using hd
    rw [hnil]
    rfl
  | release _ _ => exact (List.append_nil _).symm
  | read _ _ => exact (List.append_nil _).symm
  | send hnone _ => simp [onWire, sentBy, Uart.inTransmission, hnone]
  | idle ho _ =>
    rw [(tx_of_idle ho _).1]
    exact (List.append_nil _).symm
  | load htx hsh => simp [onWire, sentBy, Uart.inTransmission, htx, hsh]
  | shiftOut hsh => simp [onWire, sentBy, Uart.inTransmission, hsh]
  | ignore _ => exact (List.append_nil _).symm
  | arrive _ => exact (List.append_nil _).symm

/-- A step that cuts something off leaves nothing of it. -/
lemma tx_loses (h : UartStep κ e κ' m') (hd : cutsOff e = true) :
    (onWire e ++ m'.dev.inTransmission).length < (e.pre.dev.inTransmission ++ sentBy e).length := by
  have heffect := effect_of_step h
  generalize m'.dev = u at heffect ⊢
  cases heffect with
  | @reset _ m v hv _ =>
    have hne : m.dev.inTransmission ≠ [] := by simpa [cutsOff, hv] using hd
    change 0 < (m.dev.inTransmission ++ []).length
    rw [List.append_nil]
    exact List.length_pos_iff.2 hne
  | release hv _ => simp [cutsOff, hv] at hd
  | idle ho _ =>
    rw [(tx_of_idle ho _).2] at hd
    cases hd
  | read _ _ => cases hd
  | send _ _ => cases hd
  | load _ _ => cases hd
  | shiftOut _ => cases hd
  | ignore _ => cases hd
  | arrive _ => cases hd

/-- What a step puts on the wire is on the wire after it. -/
lemma wire_eq (h : UartStep κ e κ' m') : m'.dev.wire = e.pre.dev.wire ++ onWire e := by
  have heffect := effect_of_step h
  generalize m'.dev = u at heffect ⊢
  cases heffect with
  | shiftOut hsh => simp [onWire, hsh]
  | reset _ _ => exact (List.append_nil _).symm
  | release _ _ => exact (List.append_nil _).symm
  | read _ _ => exact (List.append_nil _).symm
  | send _ _ => exact (List.append_nil _).symm
  | idle _ _ => exact (List.append_nil _).symm
  | load _ _ => exact (List.append_nil _).symm
  | ignore _ => exact (List.append_nil _).symm
  | arrive _ => exact (List.append_nil _).symm

end Steps

lemma txChannel_lawful :
    txChannel.Lawful discipline uartWorld Known.Holds fun _ => True where
  keeps h _ hd := tx_keeps h hd
  loses h _ hd := tx_loses h hd

/-- Guided steps from an idle transmitter and an empty wire, up to where the transmitter has
drained. -/
lemma wire_eq_sent_iff {κ κ' : Known} {m m' : Machine Uart} {t : List UartEvent}
    (hguided : UartGuided κ m t κ' m') (hidle : m.dev.inTransmission = [])
    (hwire : m.dev.wire = []) (hdrained : m'.dev.inTransmission = []) :
    m'.dev.wire = t.flatMap sentBy ↔ ∀ e ∈ t, cutsOff e = false := by
  have hlog : m'.dev.wire = m.dev.wire ++ t.flatMap onWire :=
    hguided.log_eq (f := fun m : Machine Uart => m.dev.wire) wire_eq
  have hiff := txChannel_lawful.conserved_iff hguided fun _ _ => trivial
  have hqueue : t.flatMap txChannel.out ++ txChannel.held m' =
      txChannel.held m ++ t.flatMap txChannel.inp ↔ m'.dev.wire = t.flatMap sentBy := by
    change t.flatMap onWire ++ m'.dev.inTransmission =
      m.dev.inTransmission ++ t.flatMap sentBy ↔ _
    rw [hidle, hdrained, hlog, hwire, List.append_nil, List.nil_append, List.nil_append]
  rw [← hqueue, hiff]
  exact forall₂_congr fun e _ => iff_of_eq (Bool.not_eq_true (cutsOff e))

/-- **Transmission.**  After a sequence of calls, made from an idle transmitter and an empty wire,
has returned and the transmitter has drained, the wire carries the bytes sent, in order, exactly
when no step has cut any of them off. -/
theorem transmit_conserved_iff {stackSym : Addr} {calls : List Syscall} {m m' : Machine Uart}
    {t : List UartEvent} {rs : List (BitVec 32)}
    (hrun : Runs uartWorld (expand (session stackSym calls)) m t (.ret rs) m')
    (hidle : m.dev.inTransmission = []) (hwire : m.dev.wire = [])
    (hdrained : m'.dev.inTransmission = []) :
    m'.dev.wire = t.flatMap sentBy ↔ ∀ e ∈ t, cutsOff e = false := by
  obtain ⟨κ', hguided⟩ := session_guided hrun
  exact wire_eq_sent_iff hguided hidle hwire hdrained

/-! ## Two writes -/

/-- The serial interface after power-up. -/
def Uart.powerUp : Uart :=
  { ctlw0 := 1, mctlw := 0, brw := 0, sel0 := 0, sel1 := 0, txbuf := none, shift := none,
    wire := [], rxbuf := 0, rxifg := false }

/-- A processor with letters in memory. -/
def coldStart : Machine Uart := ⟨⟨fun a => a.setWidth 8 + 65, 0, 0⟩, .powerUp⟩

/-- Two calls of `_write`, of one byte each. -/
def twoWrites : Prog hwSig (List (BitVec 32)) :=
  expand (session 0 [.write STDOUT_FILENO 0 1, .write STDOUT_FILENO 1 1])

/-- The accesses of a program that is not blocked. -/
def accessTurns (n : ℕ) : List (Turn UartMove) := List.replicate n .cpu

/-- The hardware sends the byte in `TXBUF`. -/
def sendTurns : List (Turn UartMove) := [.env .load, .env .shiftOut]

/-- Two bytes arrive on the wire when the transmitter drains before the second call. -/
theorem transmit_conserved_patient : ∃ t m', Runs uartWorld twoWrites coldStart t (.ret [1, 1]) m' ∧
    m'.dev.wire = t.flatMap sentBy := by
  have hrun := runs_of_replay (W := uartWorld)
    (accessTurns 14 ++ sendTurns ++ accessTurns 14 ++ sendTurns) (p := twoWrites) (s := coldStart)
    (q := .ret [1, 1]) rfl
  exact ⟨_, _, hrun, (transmit_conserved_iff hrun rfl rfl rfl).2 (by decide)⟩

/-- When the second call is made right after the first, the first byte is lost. -/
theorem transmit_hasty : ¬ ∀ (stackSym : Addr) (calls : List Syscall) (m m' : Machine Uart)
    (t : List UartEvent) (rs : List (BitVec 32)),
    Runs uartWorld (expand (session stackSym calls)) m t (.ret rs) m' →
      m.dev.inTransmission = [] → m.dev.wire = [] → m'.dev.inTransmission = [] →
        m'.dev.wire = t.flatMap sentBy := by
  intro h
  have hrun := runs_of_replay (W := uartWorld) (accessTurns 28 ++ sendTurns) (p := twoWrites)
    (s := coldStart) (q := .ret [1, 1]) rfl
  exact absurd (h 0 _ _ _ _ _ hrun rfl rfl rfl) (by decide)

end Newlib
