import Msp432Newlib.Console.Read
import Msp432Newlib.Uart.Receive

/-!
# The serial interface refines the console

What a system call does on the processor with its serial interface, in any interleaving with the
hardware, is what it does on the console machine whose input stream begins with the bytes that
`ReadInput` reads in the run: the result, the memory and the static objects are the same, the bytes
consumed are those read, the bytes sent are those stored to `TXBUF`, and the accesses to memory and
static objects are the same in the same order (`runs_refine`).  So the results about the console
machine hold for every run, and those about the serial interface are about what the calls pass to
`SendOutput` and get from `ReadInput` (`wire_eq_passed_iff`, `taken_eq_arrived_iff`).
-/

namespace Newlib

open Effects Stream' Streams

/-- The access to memory or a static object that a step makes. -/
def accessed : UartEvent → List CoreOp
  | ⟨_, .cpu (.core o)⟩ => [o]
  | _ => []

/-- The access to memory or a static object that an operation makes. -/
def SysOp.accesses : sysSig.Op → List CoreOp
  | .core o => [o]
  | _ => []

/-- The console before and after the steps `t`: the input begins with the bytes read. -/
def Console.before (d : Console) (t : List UartEvent) : Console :=
  { d with input := t.flatMap received ++ₛ d.input }

def Console.after (d : Console) (t : List UartEvent) : Console :=
  ⟨d.input, d.consumed ++ t.flatMap received, d.sent ++ t.flatMap sentBy⟩

section Single

variable {m m' : Machine Uart} {t : List UartEvent}

/-- After a program has returned only the hardware moves. -/
lemma runs_ret {α : Type} {a b : α} (h : Runs uartWorld (.ret a) m t (.ret b) m') :
    a = b ∧ m'.core = m.core ∧ t.flatMap received = [] ∧ t.flatMap sentBy = [] ∧
      t.flatMap accessed = [] := by
  generalize hp : Prog.ret a = p at h
  generalize hq : Prog.ret b = q at h
  induction h with
  | nil =>
    subst hq
    cases hp
    exact ⟨rfl, rfl, rfl, rfl, rfl⟩
  | done _ _ _ => cases hp
  | spin _ _ _ => cases hp
  | env he _ ih =>
    obtain ⟨hab, hcore, hr, hs, ha⟩ := ih hp hq
    exact ⟨hab, hcore.trans (core_of_env he).1, hr, hs, ha⟩

/-- The run of a single access is that access, and moves of the hardware around it. -/
lemma runs_op {o : hwSig.Op} {r : hwSig.Res o}
    (h : Runs uartWorld (Prog.op o) m t (.ret r) m') :
    ∃ m₁ : Machine Uart, m₁.core = m.core ∧ r = (HwOp.handle o m₁).1 ∧
      m'.core = (HwOp.handle o m₁).2.core ∧ t.flatMap received = received ⟨m₁, .cpu o⟩ ∧
      t.flatMap sentBy = sentBy ⟨m₁, .cpu o⟩ ∧ t.flatMap accessed = accessed ⟨m₁, .cpu o⟩ := by
  generalize hp : Prog.op o = p at h
  generalize hq : Prog.ret r = q at h
  induction h with
  | nil => subst hp; cases hq
  | @done o' k m m' t q hb hrest _ =>
    unfold Prog.op at hp
    cases hp
    subst hq
    obtain ⟨hret, hcore, hr, hs, ha⟩ := runs_ret hrest
    refine ⟨m, rfl, hret.symm, hcore, ?_, ?_, ?_⟩
    · rw [List.flatMap_cons, hr, List.append_nil]
    · rw [List.flatMap_cons, hs, List.append_nil]
    · rw [List.flatMap_cons, ha, List.append_nil]
  | @spin o' k m m' t q hb hrest ih =>
    obtain ⟨mask, rfl⟩ := eq_awaitIFG_of_blocked hb
    exact ih hp hq
  | env he hrest ih =>
    obtain ⟨m₁, hm₁, hret, hcore, hr, hs, ha⟩ := ih hp hq
    exact ⟨m₁, hm₁.trans (core_of_env he).1, hret, hcore, hr, hs, ha⟩

/-- An access to the registers that neither takes a byte out of `RXBUF` nor puts one into `TXBUF`.
-/
def HwOp.Quiet : hwSig.Op → Prop
  | .load _ | .store _ _ | .awaitIFG _ => True
  | _ => False

lemma runs_quiet {α : Type} {p q : Prog hwSig α} (hp : p.Uses HwOp.Quiet)
    (h : Runs uartWorld p m t q m') :
    m'.core = m.core ∧ t.flatMap received = [] ∧ t.flatMap sentBy = [] ∧
      t.flatMap accessed = [] := by
  have hcore : m'.core = m.core := by
    refine h.invariant (fun m : Machine Uart => m.core) ?_ (fun _ _ _ he => (core_of_env he).1) hp
    intro o m ho
    cases o with
    | load r => rfl
    | store r v => rfl
    | awaitIFG mask => rfl
    | core o => exact absurd ho id
    | loadRXBUF => exact absurd ho id
    | storeTXBUF b => exact absurd ho id
  have hquiet : ∀ e ∈ t, received e = [] ∧ sentBy e = [] ∧ accessed e = [] := by
    rintro ⟨m₁, act⟩ he
    cases act with
    | env a => exact ⟨rfl, rfl, rfl⟩
    | cpu o =>
      have ho := h.uses hp _ he o rfl
      cases o with
      | load r => exact ⟨rfl, rfl, rfl⟩
      | store r v => exact ⟨rfl, rfl, rfl⟩
      | awaitIFG mask => exact ⟨rfl, rfl, rfl⟩
      | core o => exact absurd ho id
      | loadRXBUF => exact absurd ho id
      | storeTXBUF b => exact absurd ho id
  refine ⟨hcore, ?_, ?_, ?_⟩
  · exact List.flatMap_eq_nil_iff.2 fun e he => (hquiet e he).1
  · exact List.flatMap_eq_nil_iff.2 fun e he => (hquiet e he).2.1
  · exact List.flatMap_eq_nil_iff.2 fun e he => (hquiet e he).2.2

lemma outputInit_quiet : Driver.outputInit.Uses HwOp.Quiet :=
  outputInit_uses (fun _ => trivial) fun _ _ => trivial

lemma awaitIFG_quiet (mask : BitVec 16) : (Driver.awaitIFG mask).Uses HwOp.Quiet :=
  (Prog.uses_op _).2 trivial

/-- The three functions of `UART_IO.c`, and the accesses to memory, do what they do on the
console. -/
lemma runs_sysOp {o : sysSig.Op} {r : sysSig.Res o}
    (h : Runs uartWorld (SysOp.onUart o) m t (.ret r) m') (d : Console) :
    SysOp.onConsole o ⟨m.core, d.before t⟩ = (r, ⟨m'.core, d.after t⟩) ∧
      SysOp.accesses o = t.flatMap accessed := by
  cases o with
  | core o =>
    obtain ⟨m₁, hm₁, hret, hcore, hr, hs, ha⟩ := runs_op h
    unfold Console.before Console.after
    rw [hr, hs, ha, hcore, hret, ← hm₁]
    simp [SysOp.onConsole, SysOp.accesses, HwOp.handle, received, sentBy, accessed]
  | outputInit =>
    obtain ⟨hcore, hr, hs, ha⟩ := runs_quiet outputInit_quiet h
    unfold Console.before Console.after
    rw [hr, hs, ha, hcore]
    simp [SysOp.onConsole, SysOp.accesses]
  | readInput =>
    obtain ⟨_, m₁, t₁, t₂, rfl, h₁, h₂⟩ := h.exists_of_bind
    obtain ⟨hcore₁, hr₁, hs₁, ha₁⟩ := runs_quiet (awaitIFG_quiet 0x01) h₁
    obtain ⟨m₂, hm₂, hc, hcore₂, hr₂, hs₂, ha₂⟩ := runs_op h₂
    have hcore : m'.core = m.core := by
      rw [hcore₂, ← hcore₁, ← hm₂]
      rfl
    unfold Console.before Console.after
    simp only [List.flatMap_append, hr₁, hs₁, ha₁, hr₂, hs₂, ha₂, hcore]
    simp [SysOp.onConsole, SysOp.accesses, received, sentBy, accessed, hc, HwOp.handle]
  | sendOutput c =>
    obtain ⟨_, m₁, t₁, t₂, rfl, h₁, h₂⟩ := h.exists_of_bind
    obtain ⟨_, m₂, t₃, t₄, rfl, h₃, h₄⟩ := h₂.exists_of_bind
    obtain ⟨hcore₁, hr₁, hs₁, ha₁⟩ := runs_quiet (awaitIFG_quiet 0x02) h₁
    obtain ⟨m₃, hm₃, -, hcore₂, hr₂, hs₂, ha₂⟩ := runs_op h₃
    obtain ⟨rfl, hcore₃, hr₃, hs₃, ha₃⟩ := runs_ret h₄
    have hcore : m'.core = m.core := by
      rw [hcore₃, hcore₂, ← hcore₁, ← hm₃]
      rfl
    unfold Console.before Console.after
    simp only [List.flatMap_append, hr₁, hs₁, ha₁, hr₂, hs₂, ha₂, hr₃, hs₃, ha₃, hcore]
    simp [SysOp.onConsole, SysOp.accesses, received, sentBy, accessed]

end Single

/-- **Refinement.**  A run of a program on the processor with its serial interface, in whatever
interleaving with the hardware, goes as the program does on the console. -/
theorem runs_refine {α : Type} {p : Prog sysSig α} {m m' : Machine Uart} {t : List UartEvent}
    {a : α} (h : Runs uartWorld (expand p) m t (.ret a) m') (d : Console) :
    p.eval SysOp.onConsole ⟨m.core, d.before t⟩ = (a, ⟨m'.core, d.after t⟩) ∧
      (p.trace SysOp.onConsole ⟨m.core, d.before t⟩).flatMap SysOp.accesses =
        t.flatMap accessed := by
  induction p generalizing m t d with
  | ret b =>
    obtain ⟨rfl, hcore, hr, hs, ha⟩ := runs_ret h
    simp [Console.before, Console.after, hcore, hr, hs, ha]
  | perform o k ih =>
    obtain ⟨r, m₁, t₁, t₂, rfl, h₁, h₂⟩ := h.exists_of_bind
    -- the input that the rest of the run leaves to its first operation
    obtain ⟨hop, hacc⟩ := runs_sysOp h₁ (d.before t₂)
    obtain ⟨hrest, haccs⟩ := ih r h₂ ⟨d.input, d.consumed ++ t₁.flatMap received,
      d.sent ++ t₁.flatMap sentBy⟩
    have hbefore : d.before (t₁ ++ t₂) = (d.before t₂).before t₁ := by
      simp [Console.before, Stream'.append_append_stream]
    have hmiddle : (d.before t₂).after t₁ = Console.before ⟨d.input,
        d.consumed ++ t₁.flatMap received, d.sent ++ t₁.flatMap sentBy⟩ t₂ := by
      simp [Console.before, Console.after]
    have hafter : d.after (t₁ ++ t₂) = Console.after ⟨d.input,
        d.consumed ++ t₁.flatMap received, d.sent ++ t₁.flatMap sentBy⟩ t₂ := by
      simp [Console.after]
    rw [hbefore, hafter]
    rw [hmiddle] at hop
    constructor
    · rw [Prog.eval_perform, hop]
      exact hrest
    · rw [Prog.trace_perform, hop, List.flatMap_cons, List.flatMap_append, hacc, haccs]

/-! ## The serial interface, as the calls see it -/

section Calls

variable {stackSym : Addr} {calls : List Syscall} {m m' : Machine Uart} {t t₁ : List UartEvent}
  {rs : List (BitVec 32)}

/-- The wire carries the bytes that the calls pass to `SendOutput`, in order, exactly when no step
has cut any of them off. -/
theorem wire_eq_passed_iff
    (hrun : Runs uartWorld (expand (session stackSym calls)) m t (.ret rs) m')
    (hidle : m.dev.inTransmission = []) (hwire : m.dev.wire = [])
    (hdrained : m'.dev.inTransmission = []) (rest : Stream' Byte) :
    m'.dev.wire = ((session stackSym calls).eval SysOp.onConsole
        ⟨m.core, (Console.start rest).before t⟩).2.dev.sent ↔ ∀ e ∈ t, cutsOff e = false := by
  obtain ⟨hc, -⟩ := runs_refine hrun (.start rest)
  obtain ⟨κ', hguided⟩ := session_guided hrun
  rw [hc, ← wire_eq_sent_iff hguided hidle hwire hdrained]
  exact Iff.rfl

/-- What the calls get from `ReadInput`, and the pending byte, are the bytes that arrived since the
end of the first `OutputInit`, exactly when no step since then has discarded any of them. -/
theorem taken_eq_arrived_iff
    (hrun : Runs uartWorld (expand (session stackSym calls)) m t (.ret rs) m')
    (hover : ∀ e ∈ t, overruns e = false) (hinit : sinceInit t = some t₁) (rest : Stream' Byte) :
    ((session stackSym calls).eval SysOp.onConsole
        ⟨m.core, (Console.start rest).before t⟩).2.dev.consumed ++ m'.dev.pending =
      t₁.flatMap arrived ↔ ∀ e ∈ t₁, discards e = false := by
  obtain ⟨hc, -⟩ := runs_refine hrun (.start rest)
  obtain ⟨κ', hguided⟩ := session_guided hrun
  rw [hc, ← received_eq_arrived_iff hguided rfl hover hinit]
  exact Iff.rfl

/-- The first byte that `_read` delivers is the first one that arrives after its own `OutputInit`:
a byte that was pending when it was called is never delivered. -/
theorem read_first_byte {ptr : Addr} {len r : CInt} (hlen : 0 < len.toInt)
    (hrun : Runs uartWorld (expand (read STDIN_FILENO ptr len)) m t (.ret r) m')
    (hover : ∀ e ∈ t, overruns e = false) (hinit : sinceInit t = some t₁)
    (hkept : ∀ e ∈ t₁, discards e = false) :
    (t₁.flatMap arrived).head? = some (m'.core.mem ptr) := by
  obtain ⟨κ', hguided⟩ := prog_guided 0 (c := .read STDIN_FILENO ptr len) hrun
  have harrived := (received_eq_arrived_iff hguided rfl hover hinit).2 hkept
  obtain ⟨hc, -⟩ := runs_refine hrun (.start (Stream'.const 0))
  rw [read_eval, Prod.mk.injEq, Machine.mk.injEq] at hc
  dsimp only at hc
  generalize ((Console.start (Stream'.const 0)).before t).input = input at hc
  obtain ⟨-, hcore, hdev⟩ := hc
  -- the call stores what it reads, a chunk of at least one byte
  have hread : chunk CR len.toInt.toNat input = t.flatMap received :=
    congrArg Console.consumed hdev
  have hlt := length_chunk_lt len input
  have hne : chunk CR len.toInt.toNat input ≠ [] := by
    obtain ⟨n, hn⟩ : ∃ n, len.toInt.toNat = n + 1 := ⟨len.toInt.toNat - 1, by omega⟩
    rw [hn, chunk]
    split
    · exact List.cons_ne_nil _ _
    · exact List.cons_ne_nil _ _
  have hpos := List.length_pos_iff.2 hne
  have hfirst : m'.core.mem ptr = (chunk CR len.toInt.toNat input)[0] := by
    have hzero : (ptr - ptr).toNat = 0 := by simp
    rw [← hcore, setBytes_mem _ _ _ (by omega), dif_pos (by omega)]
    simp only [hzero]
  rw [← harrived, ← hread, hfirst, List.head?_append, List.head?_eq_getElem?,
    List.getElem?_eq_getElem hpos, Option.some_or]

end Calls

end Newlib
