import Msp432Newlib.Effects.Channel
import Msp432Newlib.Uart.Driver

/-!
# How the system calls use the serial interface

What is known about the serial interface at each access of a system call, whatever the hardware does
in between: `SendOutput` stores to an empty `TXBUF`, `ReadInput` reads a byte that is pending, and
both come after `OutputInit`, which clears `UCSWRST` only after it has set it.  The monitor
`discipline` permits the accesses that respect this, every sequence of calls is accepted by it
(`session_triple`), and its knowledge is true in every interleaving (`discipline_tracks`).  What a
step of a run can do to the serial interface is then said once, in `effect_of_step`.
-/

namespace Newlib

open Effects

/-- What is known between two accesses. -/
structure Known where
  txEmpty : Bool
  rxFull : Bool
  inReset : Bool
  configured : Bool

/-- What the knowledge says of a state. -/
structure Known.Holds (κ : Known) (m : Machine Uart) : Prop where
  txEmpty : κ.txEmpty = true → m.dev.txbuf = none
  rxFull : κ.rxFull = true → m.dev.rxifg = true
  inReset : κ.inReset = true → UCSWRST m.dev.ctlw0 = true ∧ m.dev.rxifg = false

/-- Nothing is known. -/
def Known.none : Known := ⟨false, false, false, false⟩

/-- How knowledge changes with the accesses, and which accesses it permits. -/
def discipline : Monitor hwSig Known where
  next κ
    | .store .CTLW0 v =>
      if UCSWRST v then some { κ with rxFull := false, inReset := true }
      else if κ.inReset then some { κ with inReset := false, configured := true }
      else Option.none
    | .awaitIFG mask =>
      if mask = 2 then some { κ with txEmpty := true }
      else if mask = 1 then some { κ with rxFull := !κ.inReset }
      else Option.none
    | .loadRXBUF =>
      if κ.rxFull && κ.configured then some { κ with rxFull := false } else Option.none
    | .storeTXBUF _ => if κ.txEmpty then some { κ with txEmpty := false } else Option.none
    | _ => some κ

/-- The access neither moves a byte nor touches `UCSWRST`. -/
def HwOp.Idle : hwSig.Op → Prop
  | .core _ | .load _ | .awaitIFG _ => True
  | .store r _ => r ≠ .CTLW0
  | .loadRXBUF | .storeTXBUF _ => False

/-- The accesses that are permitted with the knowledge `κ`, and what is known after them. -/
inductive Known.Permits (κ : Known) : hwSig.Op → Known → Prop
  /-- `OutputInit` sets `UCSWRST`. -/
  | reset {v : BitVec 16} : UCSWRST v = true →
      κ.Permits (.store .CTLW0 v) { κ with rxFull := false, inReset := true }
  /-- `OutputInit` clears `UCSWRST`. -/
  | release {v : BitVec 16} : UCSWRST v = false → κ.inReset = true →
      κ.Permits (.store .CTLW0 v) { κ with inReset := false, configured := true }
  /-- The loop of `SendOutput`. -/
  | awaitTX : κ.Permits (.awaitIFG 2) { κ with txEmpty := true }
  /-- The loop of `ReadInput`. -/
  | awaitRX : κ.Permits (.awaitIFG 1) { κ with rxFull := !κ.inReset }
  /-- `ReadInput` takes a byte. -/
  | read : κ.rxFull = true → κ.configured = true →
      κ.Permits .loadRXBUF { κ with rxFull := false }
  /-- `SendOutput` stores a byte. -/
  | send {b : Byte} : κ.txEmpty = true → κ.Permits (.storeTXBUF b) { κ with txEmpty := false }
  /-- Any other access. -/
  | idle {o : hwSig.Op} : HwOp.Idle o → κ.Permits o κ

/-- The monitor permits nothing else. -/
lemma permits_of_next {κ κ' : Known} {o : hwSig.Op} (h : discipline.next κ o = some κ') :
    κ.Permits o κ' := by
  cases o with
  | core o =>
    obtain rfl := Option.some.inj h
    exact .idle trivial
  | load r =>
    obtain rfl := Option.some.inj h
    exact .idle trivial
  | store r v =>
    rcases eq_or_ne r .CTLW0 with rfl | hr
    · rcases Bool.eq_false_or_eq_true (UCSWRST v) with hv | hv
      · obtain rfl := Option.some.inj ((if_pos hv).symm.trans h)
        exact .reset hv
      · have h' := (if_neg (ne_true_of_eq_false hv)).symm.trans h
        rcases Bool.eq_false_or_eq_true κ.inReset with hκ | hκ
        · obtain rfl := Option.some.inj ((if_pos hκ).symm.trans h')
          exact .release hv hκ
        · cases (if_neg (ne_true_of_eq_false hκ)).symm.trans h'
    · obtain rfl : κ = κ' := by
        cases r with
        | CTLW0 => exact absurd rfl hr
        | MCTLW | BRW | SEL0 | SEL1 => exact Option.some.inj h
      exact .idle hr
  | awaitIFG mask =>
    rcases eq_or_ne mask 2 with rfl | h₂
    · obtain rfl := Option.some.inj h
      exact .awaitTX
    · have h' := (if_neg h₂).symm.trans h
      rcases eq_or_ne mask 1 with rfl | h₁
      · obtain rfl := Option.some.inj h'
        exact .awaitRX
      · cases (if_neg h₁).symm.trans h'
  | loadRXBUF =>
    by_cases hκ : (κ.rxFull && κ.configured) = true
    · obtain rfl := Option.some.inj ((if_pos hκ).symm.trans h)
      obtain ⟨hfull, hconf⟩ := Bool.and_eq_true_iff.1 hκ
      exact .read hfull hconf
    · cases (if_neg hκ).symm.trans h
  | storeTXBUF b =>
    rcases Bool.eq_false_or_eq_true κ.txEmpty with hκ | hκ
    · obtain rfl := Option.some.inj ((if_pos hκ).symm.trans h)
      exact .send hκ
    · cases (if_neg (ne_true_of_eq_false hκ)).symm.trans h

/-- Other accesses change registers at most. -/
lemma dev_of_idle {o : hwSig.Op} (ho : HwOp.Idle o) (m : Machine Uart) :
    ∃ mctlw brw sel0 sel1, (uartWorld.handle o m).2.dev =
      { m.dev with mctlw := mctlw, brw := brw, sel0 := sel0, sel1 := sel1 } := by
  cases o with
  | core o => exact ⟨_, _, _, _, rfl⟩
  | load r => exact ⟨_, _, _, _, rfl⟩
  | awaitIFG mask => exact ⟨_, _, _, _, rfl⟩
  | store r v =>
    cases r with
    | CTLW0 => exact absurd rfl ho
    | MCTLW | BRW | SEL0 | SEL1 => exact ⟨_, _, _, _, rfl⟩
  | loadRXBUF => exact absurd ho id
  | storeTXBUF b => exact absurd ho id

/-! ## The calls are accepted -/

/-- `OutputInit` has been called, and has returned. -/
def Ready (κ : Known) : Prop := κ.configured = true ∧ κ.inReset = false

/-- No `OutputInit` is under way. -/
def Outside (κ : Known) : Prop := κ.inReset = false

section Triples

/-- An access to memory or a static object changes nothing that is known. -/
lemma core_triple (P : Known → Prop) (o : CoreOp) :
    discipline.Triple P (Prog.op (S := hwSig) (.core o)) P :=
  Monitor.Triple.op fun κ hκ => ⟨κ, rfl, hκ⟩

/-- Nor does a load from a register. -/
lemma load_triple (P : Known → Prop) (r : Reg) : discipline.Triple P (Driver.load r) P :=
  Monitor.Triple.op fun κ hκ => ⟨κ, rfl, hκ⟩

/-- Nor does a store to a register other than `CTLW0`. -/
lemma store_triple (P : Known → Prop) {r : Reg} (hr : r ≠ .CTLW0) (v : BitVec r.width) :
    discipline.Triple P (Driver.store r v) P := by
  apply Monitor.Triple.op
  intro κ hκ
  refine ⟨κ, ?_, hκ⟩
  cases r with
  | CTLW0 => exact absurd rfl hr
  | MCTLW => rfl
  | BRW => rfl
  | SEL0 => rfl
  | SEL1 => rfl

/-- A store that sets `UCSWRST` is always permitted, and puts the interface in reset. -/
lemma store_set_triple (P : Known → Prop) {v : BitVec 16} (hv : UCSWRST v = true) :
    discipline.Triple P (Driver.store .CTLW0 v) fun κ => κ.inReset = true := by
  apply Monitor.Triple.op
  intro κ _
  exact ⟨{ κ with rxFull := false, inReset := true }, if_pos hv, rfl⟩

/-- A store that clears `UCSWRST` is permitted in reset, and ends the initialisation. -/
lemma store_clear_triple {v : BitVec 16} (hv : UCSWRST v = false) :
    discipline.Triple (fun κ => κ.inReset = true) (Driver.store .CTLW0 v) Ready := by
  apply Monitor.Triple.op
  intro κ hκ
  refine ⟨{ κ with inReset := false, configured := true }, ?_, rfl, rfl⟩
  have hnot : ¬ UCSWRST v = true := by simp [hv]
  exact (if_neg hnot).trans (if_pos hκ)

/-- `OutputInit` is permitted whatever is known, and leaves the interface configured. -/
lemma outputInit_triple (P : Known → Prop) : discipline.Triple P Driver.outputInit Ready := by
  refine Monitor.Triple.bind (load_triple P .CTLW0) fun v => ?_
  refine Monitor.Triple.bind (store_set_triple P (ucswrst_or_one v)) fun _ => ?_
  refine Monitor.Triple.bind (store_triple _ (by decide) _) fun _ => ?_
  refine Monitor.Triple.bind (store_set_triple _ (by decide)) fun _ => ?_
  refine Monitor.Triple.bind (store_triple _ (by decide) _) fun _ => ?_
  refine Monitor.Triple.bind (load_triple _ .SEL0) fun _ => ?_
  refine Monitor.Triple.bind (store_triple _ (by decide) _) fun _ => ?_
  refine Monitor.Triple.bind (load_triple _ .SEL1) fun _ => ?_
  refine Monitor.Triple.bind (store_triple _ (by decide) _) fun _ => ?_
  refine Monitor.Triple.bind (load_triple _ .CTLW0) fun v => ?_
  exact store_clear_triple (ucswrst_and_not_one v)

/-- `ReadInput` waits before it reads, so that it reads a byte that is pending. -/
lemma readInput_triple : discipline.Triple Ready Driver.readInput Ready := by
  have hawait : discipline.Triple Ready (Driver.awaitIFG 0x01)
      fun κ => Ready κ ∧ κ.rxFull = true := by
    apply Monitor.Triple.op
    intro κ hκ
    refine ⟨{ κ with rxFull := !κ.inReset }, rfl, hκ, ?_⟩
    simp [hκ.2]
  have hload : discipline.Triple (fun κ => Ready κ ∧ κ.rxFull = true) Driver.loadRXBUF Ready := by
    apply Monitor.Triple.op
    rintro κ ⟨hκ, hfull⟩
    exact ⟨{ κ with rxFull := false }, if_pos (by simp [hfull, hκ.1]), hκ⟩
  exact Monitor.Triple.bind hawait fun _ => Monitor.Triple.bind hload fun _ => Monitor.Triple.ret _

/-- `SendOutput` waits before it stores, so that it stores to an empty `TXBUF`. -/
lemma sendOutput_triple (c : Byte) : discipline.Triple Ready (Driver.sendOutput c) Ready := by
  have hawait : discipline.Triple Ready (Driver.awaitIFG 0x02)
      fun κ => Ready κ ∧ κ.txEmpty = true :=
    Monitor.Triple.op fun κ hκ => ⟨{ κ with txEmpty := true }, rfl, hκ, rfl⟩
  have hstore : discipline.Triple (fun κ => Ready κ ∧ κ.txEmpty = true) (Driver.storeTXBUF c)
      Ready :=
    Monitor.Triple.op fun κ hκ => ⟨{ κ with txEmpty := false }, if_pos hκ.2, hκ.1⟩
  exact Monitor.Triple.bind hawait fun _ => Monitor.Triple.bind hstore fun _ => Monitor.Triple.ret _

/-- After `OutputInit`, everything that a system call does is permitted. -/
lemma expand_triple_ready {α : Type} (p : Prog sysSig α) :
    discipline.Triple Ready (expand p) Ready := by
  refine Monitor.Triple.interp ?_ p
  intro o
  cases o with
  | core o => exact core_triple Ready o
  | outputInit => exact outputInit_triple Ready
  | readInput => exact readInput_triple
  | sendOutput c => exact sendOutput_triple c

/-- Accesses to memory and static objects are always permitted. -/
lemma liftCore_triple {α : Type} (P : Known → Prop) (p : Prog coreSig α) :
    discipline.Triple P (expand (liftCore p)) P := by
  unfold expand liftCore
  induction p with
  | ret a => exact Monitor.Triple.ret a
  | perform o k ih => exact Monitor.Triple.bind (core_triple P o) ih

/-- When `OutputInit` has returned, none is under way. -/
lemma ready_outside {κ : Known} (h : Ready κ) : Outside κ := h.2

/-- Every system call respects the discipline: those that use the interface begin with `OutputInit`.
-/
lemma prog_triple (stackSym : Addr) (c : Syscall) :
    discipline.Triple Outside (expand (c.prog stackSym)) Outside := by
  have hinit : ∀ {α : Type} (p : Prog sysSig α),
      discipline.Triple Outside (expand (outputInit.bind fun _ => p)) Outside := by
    intro α p
    refine Monitor.Triple.bind (outputInit_triple Outside) fun _ => ?_
    exact (expand_triple_ready p).consequence (fun _ h => h) fun _ h => ready_outside h
  cases c with
  | read file ptr len => exact hinit _
  | write file ptr len => exact hinit _
  | sbrk nbytes => exact liftCore_triple Outside _
  | close file => exact liftCore_triple Outside _
  | fstat file st => exact liftCore_triple Outside _
  | isatty file => exact liftCore_triple Outside _
  | lseek file offset whence => exact liftCore_triple Outside _
  | stat file st => exact liftCore_triple Outside _

/-- Every sequence of system calls respects the discipline. -/
theorem session_triple (stackSym : Addr) (calls : List Syscall) :
    discipline.Triple Outside (expand (session stackSym calls)) Outside := by
  induction calls with
  | nil => exact Monitor.Triple.ret _
  | cons c cs ih =>
    unfold session
    rw [Prog.bind_eq, expand_bind]
    refine Monitor.Triple.bind (prog_triple stackSym c) fun r => ?_
    rw [Prog.bind_eq, expand_bind]
    exact Monitor.Triple.bind ih fun _ => Monitor.Triple.ret _

end Triples

/-! ## The knowledge is true -/

/-- Knowledge is about `TXBUF`, `RXIFG` and `CTLW0` only. -/
lemma Known.Holds.congr {κ : Known} {m m' : Machine Uart} (h : κ.Holds m)
    (htx : m'.dev.txbuf = m.dev.txbuf) (hrx : m'.dev.rxifg = m.dev.rxifg)
    (hctl : m'.dev.ctlw0 = m.dev.ctlw0) : κ.Holds m' := by
  refine ⟨?_, ?_, ?_⟩
  · rw [htx]
    exact h.txEmpty
  · rw [hrx]
    exact h.rxFull
  · rw [hrx, hctl]
    exact h.inReset

/-- The hardware makes nothing that is known false. -/
lemma holds_of_env {κ : Known} {e : UartMove} {m m' : Machine Uart} (h : κ.Holds m)
    (he : uartWorld.env e m = some m') : κ.Holds m' := by
  obtain ⟨-, hmove⟩ := core_of_env he
  rcases apply_cases hmove with ⟨b, -, htx, -, hdev⟩ | ⟨b, -, -, hdev⟩ | ⟨b, -, -, hdev⟩ |
    ⟨b, -, hrst, hdev⟩
  · refine ⟨?_, ?_, ?_⟩
    · intro _
      rw [hdev]
    · rw [hdev]
      exact h.rxFull
    · rw [hdev]
      exact h.inReset
  · exact h.congr (by rw [hdev]) (by rw [hdev]) (by rw [hdev])
  · exact h.congr (by rw [hdev]) (by rw [hdev]) (by rw [hdev])
  · refine ⟨?_, ?_, ?_⟩
    · rw [hdev]
      exact h.txEmpty
    · intro _
      rw [hdev]
    · -- a byte arrives only outside reset
      intro hκ
      rw [(h.inReset hκ).1] at hrst
      cases hrst

/-- What is known after a permitted access is true. -/
lemma holds_of_op {κ κ' : Known} {o : hwSig.Op} {m : Machine Uart} (h : κ.Holds m)
    (hnext : discipline.next κ o = some κ') (hb : uartWorld.blocked o m = false) :
    κ'.Holds (uartWorld.handle o m).2 := by
  cases permits_of_next hnext with
  | @reset v hv =>
    change Known.Holds _ { m with dev := m.dev.set .CTLW0 v }
    rw [set_ctlw0_of_set _ hv]
    refine ⟨fun _ => rfl, ?_, fun _ => ⟨hv, rfl⟩⟩
    intro hfull
    cases hfull
  | @release v hv hκ =>
    change Known.Holds _ { m with dev := m.dev.set .CTLW0 v }
    rw [set_ctlw0_of_clear _ hv]
    refine ⟨h.txEmpty, h.rxFull, ?_⟩
    intro hin
    cases hin
  | awaitTX =>
    refine ⟨?_, h.rxFull, h.inReset⟩
    intro _
    exact (awaitTX_ends m).1 hb
  | awaitRX =>
    refine ⟨h.txEmpty, ?_, h.inReset⟩
    intro _
    exact (awaitRX_ends m).1 hb
  | read hfull hconf =>
    refine ⟨h.txEmpty, ?_, ?_⟩
    · intro hfull'
      cases hfull'
    · intro hin
      exact ⟨(h.inReset hin).1, rfl⟩
  | send hempty =>
    refine ⟨?_, h.rxFull, h.inReset⟩
    intro hempty'
    cases hempty'
  | idle ho =>
    obtain ⟨_, _, _, _, hdev⟩ := dev_of_idle ho m
    exact h.congr (by rw [hdev]) (by rw [hdev]) (by rw [hdev])

/-- The knowledge is true in every interleaving with the hardware. -/
theorem discipline_tracks : discipline.Tracks uartWorld Known.Holds where
  done := holds_of_op
  env := holds_of_env

/-- A step of a call or of the hardware, taken with knowledge that is true and permits it. -/
abbrev UartStep : Known → Event hwSig (Machine Uart) UartMove → Known → Machine Uart → Prop :=
  Monitor.Step discipline uartWorld Known.Holds

/-- A sequence of such steps. -/
abbrev UartGuided :
    Known → Machine Uart → List (Event hwSig (Machine Uart) UartMove) → Known →
      Machine Uart → Prop :=
  Monitor.Guided discipline uartWorld Known.Holds

/-- A step of a run on the processor with its serial interface. -/
abbrev UartEvent : Type := Event hwSig (Machine Uart) UartMove

/-- What a step does to the serial interface, and to what is known of its configuration. -/
inductive Effect (κ : Known) : UartEvent → Known → Uart → Prop
  /-- `UCSWRST` is set. -/
  | reset {κ' : Known} {m : Machine Uart} {v : BitVec 16} : UCSWRST v = true →
      κ'.configured = κ.configured → Effect κ ⟨m, .cpu (.store .CTLW0 v)⟩ κ'
        { m.dev with ctlw0 := v, txbuf := none, shift := none, rxifg := false }
  /-- `UCSWRST` is cleared, when nothing is pending. -/
  | release {κ' : Known} {m : Machine Uart} {v : BitVec 16} : UCSWRST v = false →
      m.dev.rxifg = false →
        Effect κ ⟨m, .cpu (.store .CTLW0 v)⟩ κ' { m.dev with ctlw0 := v }
  /-- The pending byte is read. -/
  | read {κ' : Known} {m : Machine Uart} : m.dev.rxifg = true → κ.configured = true →
      Effect κ ⟨m, .cpu .loadRXBUF⟩ κ' { m.dev with rxifg := false }
  /-- A byte is stored to the empty `TXBUF`. -/
  | send {κ' : Known} {m : Machine Uart} {b : Byte} : m.dev.txbuf = none →
      κ'.configured = κ.configured →
        Effect κ ⟨m, .cpu (.storeTXBUF b)⟩ κ' { m.dev with txbuf := some b }
  /-- Registers are changed at most. -/
  | idle {κ' : Known} {m : Machine Uart} {o : hwSig.Op} {mctlw brw : BitVec 16}
      {sel0 sel1 : BitVec 8} : HwOp.Idle o → κ'.configured = κ.configured →
        Effect κ ⟨m, .cpu o⟩ κ'
          { m.dev with mctlw := mctlw, brw := brw, sel0 := sel0, sel1 := sel1 }
  /-- `TXBUF` is loaded into the shift register. -/
  | load {m : Machine Uart} {b : Byte} : m.dev.txbuf = some b → m.dev.shift = none →
      Effect κ ⟨m, .env .load⟩ κ { m.dev with txbuf := none, shift := some b }
  /-- The shift register is sent. -/
  | shiftOut {m : Machine Uart} {b : Byte} : m.dev.shift = some b →
      Effect κ ⟨m, .env .shiftOut⟩ κ { m.dev with shift := none, wire := m.dev.wire ++ [b] }
  /-- An arrival is ignored. -/
  | ignore {m : Machine Uart} {b : Byte} : UCSWRST m.dev.ctlw0 = true →
      Effect κ ⟨m, .env (.arrive b)⟩ κ m.dev
  /-- A byte arrives. -/
  | arrive {m : Machine Uart} {b : Byte} : UCSWRST m.dev.ctlw0 = false →
      Effect κ ⟨m, .env (.arrive b)⟩ κ { m.dev with rxbuf := b, rxifg := true }

/-- A step does one of these. -/
theorem effect_of_step {κ κ' : Known} {e : UartEvent} {m' : Machine Uart}
    (h : UartStep κ e κ' m') : Effect κ e κ' m'.dev := by
  cases h with
  | @done κ' o m hm hnext hb =>
    cases permits_of_next hnext with
    | @reset v hv =>
      change Effect κ _ _ (m.dev.set .CTLW0 v)
      rw [set_ctlw0_of_set _ hv]
      exact .reset hv rfl
    | @release v hv hκ =>
      change Effect κ _ _ (m.dev.set .CTLW0 v)
      rw [set_ctlw0_of_clear _ hv]
      exact .release hv (hm.inReset hκ).2
    | awaitTX => exact .idle trivial rfl
    | awaitRX => exact .idle trivial rfl
    | read hfull hconf => exact .read (hm.rxFull hfull) hconf
    | send hempty => exact .send (hm.txEmpty hempty) rfl
    | idle ho =>
      obtain ⟨_, _, _, _, hdev⟩ := dev_of_idle ho m
      rw [hdev]
      exact .idle ho rfl
  | @spin κ' o m hm hnext hb =>
    obtain ⟨mask, rfl⟩ := eq_awaitIFG_of_blocked hb
    exact .idle trivial rfl
  | @env a m m' hm ha =>
    obtain ⟨-, hmove⟩ := core_of_env ha
    rcases apply_cases hmove with ⟨b, rfl, htx, hsh, hdev⟩ | ⟨b, rfl, hsh, hdev⟩ |
      ⟨b, rfl, hrst, hdev⟩ | ⟨b, rfl, hrst, hdev⟩
    · rw [hdev]
      exact .load htx hsh
    · rw [hdev]
      exact .shiftOut hsh
    · rw [hdev]
      exact .ignore hrst
    · rw [hdev]
      exact .arrive hrst

lemma holds_none (m : Machine Uart) : Known.none.Holds m :=
  ⟨by simp [Known.none], by simp [Known.none], by simp [Known.none]⟩

/-- In every run of a system call, and in every interleaving with the hardware, each step is taken
with true knowledge that permits it. -/
theorem prog_guided (stackSym : Addr) {c : Syscall} {m m' : Machine Uart} {t : List UartEvent}
    {q : Prog hwSig (BitVec 32)} (h : Runs uartWorld (expand (c.prog stackSym)) m t q m') :
    ∃ κ', UartGuided Known.none m t κ' m' :=
  discipline_tracks.guided h (prog_triple stackSym c Known.none rfl) (holds_none m)

/-- So it is in every run of a sequence of calls. -/
theorem session_guided {stackSym : Addr} {calls : List Syscall} {m m' : Machine Uart}
    {t : List UartEvent} {q : Prog hwSig (List (BitVec 32))}
    (h : Runs uartWorld (expand (session stackSym calls)) m t q m') :
    ∃ κ', UartGuided Known.none m t κ' m' :=
  discipline_tracks.guided h (session_triple stackSym calls Known.none rfl) (holds_none m)

end Newlib
