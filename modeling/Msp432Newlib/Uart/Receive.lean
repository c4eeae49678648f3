import Msp432Newlib.Uart.Transmit

/-!
# Reception

The receive side of the serial interface as a channel from arrivals to the reads of `ReadInput`.  As
long as the hardware never overruns `RXBUF`, a byte can only be lost to `OutputInit`: because it is
pending when `UCSWRST` is set, or because it arrives before `UCSWRST` is cleared again.  From the
end of the first `OutputInit` on, the bytes read and the pending byte are those that arrived exactly
when neither happens (`receive_conserved_iff`).
-/

namespace Newlib

open Effects

/-- The byte in `RXBUF` that has not been read, if any. -/
def Uart.pending (u : Uart) : List Byte := if u.rxifg then [u.rxbuf] else []

/-- The bytes that a step reads: the one that `ReadInput` returns. -/
def received : UartEvent → List Byte
  | ⟨m, .cpu .loadRXBUF⟩ => [m.dev.rxbuf]
  | _ => []

/-- The bytes that arrive in a step. -/
def arrived : UartEvent → List Byte
  | ⟨_, .env e⟩ => e.arrived
  | _ => []

/-- The step is an arrival while another byte is pending. -/
def overruns : UartEvent → Bool
  | ⟨m, .env e⟩ => m.dev.overrunBy e
  | _ => false

/-- The step sets `UCSWRST` while a byte is pending, or is an arrival while it is set. -/
def discards : UartEvent → Bool
  | ⟨m, .cpu (.store .CTLW0 v)⟩ => UCSWRST v && m.dev.rxifg
  | ⟨m, .env (.arrive _)⟩ => UCSWRST m.dev.ctlw0
  | _ => false

/-- The step clears `UCSWRST`, as `OutputInit` does at its end. -/
def endsInit : UartEvent → Bool
  | ⟨_, .cpu (.store .CTLW0 v)⟩ => !UCSWRST v
  | _ => false

/-- The steps after the end of the first `OutputInit`, if it has come. -/
def sinceInit : List UartEvent → Option (List UartEvent)
  | [] => none
  | e :: t => if endsInit e then some t else sinceInit t

/-- The receive side as a channel. -/
def rxChannel : Channel hwSig (Machine Uart) UartMove Byte where
  inp := arrived
  out := received
  held m := m.dev.pending
  Drops e := discards e = true

section Steps

variable {κ κ' : Known} {e : UartEvent} {m' : Machine Uart}

/-- Other accesses discard nothing and do not end an `OutputInit`. -/
lemma rx_of_idle {o : hwSig.Op} (ho : HwOp.Idle o) (m : Machine Uart) :
    received ⟨m, .cpu o⟩ = [] ∧ discards ⟨m, .cpu o⟩ = false ∧ endsInit ⟨m, .cpu o⟩ = false := by
  cases o with
  | core o => exact ⟨rfl, rfl, rfl⟩
  | load r => exact ⟨rfl, rfl, rfl⟩
  | awaitIFG mask => exact ⟨rfl, rfl, rfl⟩
  | store r v =>
    cases r with
    | CTLW0 => exact absurd rfl ho
    | MCTLW | BRW | SEL0 | SEL1 => exact ⟨rfl, rfl, rfl⟩
  | loadRXBUF => exact absurd ho id
  | storeTXBUF b => exact absurd ho id

/-- A step that discards nothing keeps the queue. -/
lemma rx_keeps (h : UartStep κ e κ' m') (hover : overruns e = false)
    (hd : ¬ discards e = true) :
    received e ++ m'.dev.pending = e.pre.dev.pending ++ arrived e := by
  have heffect := effect_of_step h
  generalize m'.dev = u at heffect ⊢
  cases heffect with
  | @reset _ m v hv _ =>
    have hnone : m.dev.rxifg = false := by simpa [discards, hv] using hd
    simp [received, arrived, Uart.pending, hnone]
  | read hfull _ => simp [received, arrived, Uart.pending, hfull]
  | @arrive m b _ =>
    have hnone : m.dev.rxifg = false := hover
    simp [received, arrived, UartMove.arrived, Uart.pending, hnone]
  | ignore hrst => exact absurd hrst hd
  | idle ho _ =>
    rw [(rx_of_idle ho _).1]
    exact (List.append_nil _).symm
  | release _ _ => exact (List.append_nil _).symm
  | send _ _ => exact (List.append_nil _).symm
  | load _ _ => exact (List.append_nil _).symm
  | shiftOut _ => exact (List.append_nil _).symm

/-- A step that discards a byte leaves one less. -/
lemma rx_loses (h : UartStep κ e κ' m') (hd : discards e = true) :
    (received e ++ m'.dev.pending).length < (e.pre.dev.pending ++ arrived e).length := by
  have heffect := effect_of_step h
  generalize m'.dev = u at heffect ⊢
  cases heffect with
  | @reset _ m v hv _ =>
    have hfull : m.dev.rxifg = true := by simpa [discards, hv] using hd
    simp [received, arrived, Uart.pending, hfull]
  | ignore _ => simp [received, arrived, UartMove.arrived]
  | @arrive m b hrst =>
    rw [show discards ⟨m, .env (.arrive b)⟩ = false from hrst] at hd
    cases hd
  | release hv _ => simp [discards, hv] at hd
  | idle ho _ =>
    rw [(rx_of_idle ho _).2.1] at hd
    cases hd
  | read _ _ => cases hd
  | send _ _ => cases hd
  | load _ _ => cases hd
  | shiftOut _ => cases hd

/-- Before the end of the first `OutputInit` nothing is read, and it has not come. -/
lemma not_configured_of_step (h : UartStep κ e κ' m') (hκ : κ.configured = false)
    (he : endsInit e = false) : received e = [] ∧ κ'.configured = false := by
  have heffect := effect_of_step h
  generalize m'.dev = u at heffect
  cases heffect with
  | reset _ hsame => exact ⟨rfl, hsame.trans hκ⟩
  | release hv _ => simp [endsInit, hv] at he
  | read _ hconf =>
    rw [hκ] at hconf
    cases hconf
  | send _ hsame => exact ⟨rfl, hsame.trans hκ⟩
  | idle ho hsame => exact ⟨(rx_of_idle ho _).1, hsame.trans hκ⟩
  | load _ _ => exact ⟨rfl, hκ⟩
  | shiftOut _ => exact ⟨rfl, hκ⟩
  | ignore _ => exact ⟨rfl, hκ⟩
  | arrive _ => exact ⟨rfl, hκ⟩

/-- At the end of `OutputInit` nothing is pending. -/
lemma pending_of_endsInit (h : UartStep κ e κ' m') (he : endsInit e = true) :
    received e = [] ∧ m'.dev.pending = [] := by
  have heffect := effect_of_step h
  generalize m'.dev = u at heffect ⊢
  cases heffect with
  | release _ hnone => exact ⟨rfl, by simp [Uart.pending, hnone]⟩
  | reset hv _ => simp [endsInit, hv] at he
  | idle ho _ =>
    rw [(rx_of_idle ho _).2.2] at he
    cases he
  | read _ _ => cases he
  | send _ _ => cases he
  | load _ _ => cases he
  | shiftOut _ => cases he
  | ignore _ => cases he
  | arrive _ => cases he

end Steps

lemma rxChannel_lawful :
    rxChannel.Lawful discipline uartWorld Known.Holds fun e => overruns e = false where
  keeps := rx_keeps
  loses h _ hd := rx_loses h hd

/-- At the end of the first `OutputInit` nothing has been read and nothing is pending. -/
lemma guided_sinceInit {κ κ' : Known} {m m' : Machine Uart} {t t₁ : List UartEvent}
    (h : UartGuided κ m t κ' m') (hκ : κ.configured = false) (hinit : sinceInit t = some t₁) :
    t.flatMap received = t₁.flatMap received ∧ (∀ e ∈ t₁, e ∈ t) ∧
      ∃ κ₁ m₁, UartGuided κ₁ m₁ t₁ κ' m' ∧ m₁.dev.pending = [] := by
  induction h with
  | nil _ => cases hinit
  | @cons κ κ₁ κ' m₁ m' e t hstep hrest ih =>
    unfold sinceInit at hinit
    rcases Bool.eq_false_or_eq_true (endsInit e) with he | he
    · obtain ⟨hread, hnone⟩ := pending_of_endsInit hstep he
      obtain rfl := Option.some.inj ((if_pos he).symm.trans hinit)
      refine ⟨?_, fun e' he' => List.mem_cons_of_mem e he', κ₁, m₁, hrest, hnone⟩
      rw [List.flatMap_cons, hread, List.nil_append]
    · obtain ⟨hread, hconf⟩ := not_configured_of_step hstep hκ he
      rw [if_neg (ne_true_of_eq_false he)] at hinit
      obtain ⟨hsame, hmem, hguided⟩ := ih hconf hinit
      refine ⟨?_, fun e' he' => List.mem_cons_of_mem e (hmem e' he'), hguided⟩
      rw [List.flatMap_cons, hread, List.nil_append, hsame]

/-- Guided steps from before the first `OutputInit`, in which the hardware overruns nothing. -/
lemma received_eq_arrived_iff {κ κ' : Known} {m m' : Machine Uart} {t t₁ : List UartEvent}
    (hguided : UartGuided κ m t κ' m') (hκ : κ.configured = false)
    (hover : ∀ e ∈ t, overruns e = false) (hinit : sinceInit t = some t₁) :
    t.flatMap received ++ m'.dev.pending = t₁.flatMap arrived ↔ ∀ e ∈ t₁, discards e = false := by
  obtain ⟨hread, hmem, κ₁, m₁, hguided₁, hnone⟩ := guided_sinceInit hguided hκ hinit
  have hiff := rxChannel_lawful.conserved_iff hguided₁ fun e he => hover e (hmem e he)
  have hqueue : t₁.flatMap rxChannel.out ++ rxChannel.held m' =
      rxChannel.held m₁ ++ t₁.flatMap rxChannel.inp ↔
        t.flatMap received ++ m'.dev.pending = t₁.flatMap arrived := by
    change t₁.flatMap received ++ m'.dev.pending = m₁.dev.pending ++ t₁.flatMap arrived ↔ _
    rw [hnone, hread, List.nil_append]
  rw [← hqueue, hiff]
  exact forall₂_congr fun e _ => iff_of_eq (Bool.not_eq_true (discards e))

/-- **Reception.**  In a run of a sequence of calls in which the hardware overruns nothing, also one
that has not returned, the bytes read and the pending byte are those that arrived since the end of
the first `OutputInit` exactly when no step since then has discarded any of them. -/
theorem receive_conserved_iff {stackSym : Addr} {calls : List Syscall} {m m' : Machine Uart}
    {t t₁ : List UartEvent} {q : Prog hwSig (List (BitVec 32))}
    (hrun : Runs uartWorld (expand (session stackSym calls)) m t q m')
    (hover : ∀ e ∈ t, overruns e = false) (hinit : sinceInit t = some t₁) :
    t.flatMap received ++ m'.dev.pending = t₁.flatMap arrived ↔ ∀ e ∈ t₁, discards e = false := by
  obtain ⟨κ', hguided⟩ := session_guided hrun
  exact received_eq_arrived_iff hguided rfl hover hinit

/-! ## A write and a read -/

/-- A call of `_write` for no byte, and one of `_read` for one byte. -/
def writeAndRead : Prog hwSig (List (BitVec 32)) :=
  expand (session 0 [.write STDOUT_FILENO 0 0, .read STDIN_FILENO 0 1])

/-- A byte that arrives after the second `OutputInit` is read. -/
theorem receive_conserved_late : ∃ t t₁ m',
    Runs uartWorld writeAndRead coldStart t (.ret [0, 1]) m' ∧ sinceInit t = some t₁ ∧
      t.flatMap received ++ m'.dev.pending = t₁.flatMap arrived := by
  have hrun := runs_of_replay (W := uartWorld)
    (accessTurns 22 ++ [.env (.arrive 97)] ++ accessTurns 7) (p := writeAndRead) (s := coldStart)
    (q := .ret [0, 1]) rfl
  exact ⟨_, _, _, hrun, rfl, (receive_conserved_iff hrun (by decide) rfl).2 (by decide)⟩

/-- A byte that arrives between the two calls is not the one read. -/
theorem receive_early : ¬ ∀ (stackSym : Addr) (calls : List Syscall) (m m' : Machine Uart)
    (t t₁ : List UartEvent) (q : Prog hwSig (List (BitVec 32))),
    Runs uartWorld (expand (session stackSym calls)) m t q m' →
      (∀ e ∈ t, overruns e = false) → sinceInit t = some t₁ →
        t.flatMap received ++ m'.dev.pending = t₁.flatMap arrived := by
  intro h
  have hrun := runs_of_replay (W := uartWorld)
    (accessTurns 11 ++ [.env (.arrive 97)] ++ accessTurns 11 ++ [.env (.arrive 98)] ++
      accessTurns 7) (p := writeAndRead) (s := coldStart) (q := .ret [0, 1]) rfl
  exact absurd (h 0 _ _ _ _ _ _ hrun (by decide) rfl) (by decide)

end Newlib
