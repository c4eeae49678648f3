import Msp432Newlib.Uart.FailingCalls

/-!
# The contract of `_write`

newlib calls `_write` through a prototype with a count of type `size_t`.  The call should either
fail, with a code in `errno` and nothing sent, or return a count and have sent as many bytes from
the start of the buffer; and it should fail for every descriptor but the two that `_fstat`,
`_isatty` and `_lseek` accept (`WriteHonoured`).  `_write` does not look at its descriptor, and its
parameter is an `int`: the contract is honoured exactly for the two output descriptors and counts
below `2 ^ 31` (`write_honoured_iff`).
-/

namespace Newlib

open Effects

/-- A C `size_t`. -/
abbrev SizeT := BitVec 32

/-- The conversion of a count to the parameter `int len`, modulo `2 ^ 32`. -/
def SizeT.toCInt (n : SizeT) : CInt := BitVec.ofNat 32 n.toNat

/-- A descriptor that is open for output. -/
def Output (file : CInt) : Prop := file = STDOUT_FILENO ∨ file = STDERR_FILENO

instance (file : CInt) : Decidable (Output file) := inferInstanceAs (Decidable (_ ∨ _))

/-- The call of `_write`, as its callers make it. -/
def writeCall (file : CInt) (ptr : Addr) (n : SizeT) : Prog hwSig CInt :=
  expand (write file ptr n.toCInt)

/-! ## The contract -/

/-- The call has failed, with a code other than zero in `errno`, and has sent nothing. -/
def Rejects (t : List UartEvent) (r : CInt) (m' : Machine Uart) : Prop :=
  r = -1 ∧ (∃ e, e ≠ 0 ∧ CoreOp.storeErrno e ∈ t.flatMap accessed ∧ m'.core.errno = e) ∧
    t.flatMap sentBy = []

/-- The call has returned a count that is not more than asked for, and has sent as many bytes from
the start of the buffer. -/
def Transfers (c : Core) (ptr : Addr) (n : SizeT) (t : List UartEvent) (r : CInt) : Prop :=
  0 ≤ r.toInt ∧ r.toInt ≤ n.toNat ∧ t.flatMap sentBy = c.bytes ptr r.toInt.toNat

/-- The contract of `_write`, for a call made in the state `m`, in every interleaving with the
hardware. -/
structure WriteHonoured (file : CInt) (ptr : Addr) (n : SizeT) (m : Machine Uart) : Prop where
  /-- Whatever has happened, the call can still return. -/
  returns : ∀ t q m₁, Runs uartWorld (writeCall file ptr n) m t q m₁ →
    ∃ t' r m', Runs uartWorld q m₁ t' (.ret r) m'
  /-- It fails, or transfers bytes. -/
  outcome : ∀ t r m', Runs uartWorld (writeCall file ptr n) m t (.ret r) m' →
    Rejects t r m' ∨ Transfers m.core ptr n t r
  /-- It fails for a descriptor that is not open for output. -/
  rejects : ¬ Output file → ∀ t r m', Runs uartWorld (writeCall file ptr n) m t (.ret r) m' →
    Rejects t r m'
  /-- The other calls fail for the same descriptors. -/
  others : ∀ st offset whence c,
    (((fstat file st).eval CoreOp.handle c).1 = -1 ↔ ¬ Output file) ∧
      (((isatty file).eval CoreOp.handle c).1 = -1 ↔ ¬ Output file) ∧
      (((lseek file offset whence).eval CoreOp.handle c).1 = -1 ↔ ¬ Output file)

/-! ## Calls that read nothing return -/

/-- The access does not wait for a byte to arrive. -/
def HwOp.Sending : hwSig.Op → Prop
  | .awaitIFG mask => mask = 2
  | _ => True

/-- The hardware can end every wait but that for a byte to arrive. -/
lemma releases_of_sending {o : hwSig.Op} (ho : HwOp.Sending o) : uartWorld.Releases o := by
  cases o with
  | awaitIFG mask =>
    obtain rfl : mask = 2 := ho
    intro m
    obtain ⟨es, u, hes, htx⟩ := exists_applyAll_txbuf_none m.dev
    refine ⟨es, { m with dev := u }, ?_, (awaitTX_ends _).2 htx⟩
    rw [moves_uartWorld, hes]
    rfl
  | core o => exact World.releases_of_unblocked fun _ => rfl
  | load r => exact World.releases_of_unblocked fun _ => rfl
  | store r v => exact World.releases_of_unblocked fun _ => rfl
  | loadRXBUF => exact World.releases_of_unblocked fun _ => rfl
  | storeTXBUF b => exact World.releases_of_unblocked fun _ => rfl

/-- The operation is a call of `ReadInput`. -/
def SysOp.Reads : sysSig.Op → Prop
  | .readInput => True
  | _ => False

/-- Only `ReadInput` waits for a byte to arrive. -/
lemma onUart_sending {o : sysSig.Op} (ho : ¬ SysOp.Reads o) :
    (SysOp.onUart o).Uses HwOp.Sending := by
  cases o with
  | core o => exact (Prog.uses_op _).2 trivial
  | outputInit => exact outputInit_uses (fun _ => trivial) fun _ _ => trivial
  | readInput => exact absurd trivial ho
  | sendOutput c =>
    have hawait : (Driver.awaitIFG 0x02).Uses HwOp.Sending := (Prog.uses_op _).2 rfl
    have hstore : (Driver.storeTXBUF c).Uses HwOp.Sending := (Prog.uses_op _).2 trivial
    exact hawait.bind fun _ => hstore.bind fun _ => trivial

/-- A program that reads nothing can return from every state that a run of it reaches. -/
theorem returns_of_uses {α : Type} {p : Prog sysSig α} (hp : p.Uses fun o => ¬ SysOp.Reads o)
    {m m₁ : Machine Uart} {t : List UartEvent} {q : Prog hwSig α}
    (h : Runs uartWorld (expand p) m t q m₁) : ∃ t' a m', Runs uartWorld q m₁ t' (.ret a) m' := by
  have hreleases : (expand p).Uses uartWorld.Releases :=
    hp.interp fun o ho => (onUart_sending ho).imp fun _ => releases_of_sending
  exact Runs.exists_of_releases (h.uses_rest hreleases) m₁

lemma write_uses (file : CInt) (ptr : Addr) (len : CInt) :
    (write file ptr len).Uses fun o => ¬ SysOp.Reads o := by
  have hloop : ∀ (k : ℕ) (ptr : Addr), (writeLoop ptr k).Uses fun o => ¬ SysOp.Reads o := by
    intro k
    induction k with
    | zero => exact fun _ => trivial
    | succ k ih =>
      intro ptr
      have hload : (liftCore (loadByte ptr)).Uses fun o => ¬ SysOp.Reads o :=
        (Prog.uses_op _).2 id
      have hsend : ∀ c, (sendOutput c).Uses fun o => ¬ SysOp.Reads o :=
        fun c => (Prog.uses_op _).2 id
      exact hload.bind fun c => (hsend c).bind fun _ => ih (ptr + 1)
  have hinit : outputInit.Uses fun o => ¬ SysOp.Reads o := (Prog.uses_op _).2 id
  exact hinit.bind fun _ => (hloop _ _).bind fun _ => trivial

/-! ## What a call does -/

/-- In every interleaving with the hardware, `_write` returns its length, sends as many bytes of its
buffer, and stores nothing in `errno`. -/
lemma write_run {file : CInt} {ptr : Addr} {len r : CInt} {m m' : Machine Uart}
    {t : List UartEvent} (h : Runs uartWorld (expand (write file ptr len)) m t (.ret r) m') :
    r = len ∧ t.flatMap sentBy = m.core.bytes ptr len.toInt.toNat ∧
      ∀ e, CoreOp.storeErrno e ∉ t.flatMap accessed := by
  obtain ⟨hc, hacc⟩ := runs_refine h (.start (Stream'.const 0))
  rw [write_eval, Prod.mk.injEq, Machine.mk.injEq] at hc
  obtain ⟨hret, -, hdev⟩ := hc
  refine ⟨hret.symm, ?_, ?_⟩
  · have hsent := congrArg Console.sent hdev
    simpa [Console.sending, Console.before, Console.after, Console.start] using hsent.symm
  · intro e
    rw [← hacc]
    exact write_trace file ptr len _ e

/-- The sign of a converted count. -/
lemma toCInt_nonneg_iff (n : SizeT) : 0 ≤ n.toCInt.toInt ↔ n.toNat < 2 ^ 31 := by
  have hlt : n.toNat < 2 ^ 32 := n.isLt
  rw [SizeT.toCInt, BitVec.ofNat_toNat, BitVec.setWidth_eq, BitVec.toInt_eq_toNat_cond]
  split
  · omega
  · omega

/-- A converted count that is not negative is the count. -/
lemma toInt_toCInt {n : SizeT} (hn : n.toNat < 2 ^ 31) : n.toCInt.toInt = n.toNat := by
  rw [SizeT.toCInt, BitVec.ofNat_toNat, BitVec.setWidth_eq]
  exact BitVec.toInt_eq_toNat_of_lt (by omega)

/-- No call of `_write` rejects anything. -/
lemma not_rejects {file : CInt} {ptr : Addr} {n : SizeT} {r : CInt} {m m' : Machine Uart}
    {t : List UartEvent} (h : Runs uartWorld (writeCall file ptr n) m t (.ret r) m') :
    ¬ Rejects t r m' := by
  rintro ⟨-, ⟨e, -, he, -⟩, -⟩
  obtain ⟨-, -, hnone⟩ := write_run h
  exact hnone e he

/-- A call of `_write` with a count below the sign bit transfers all the bytes asked for. -/
lemma transfers_of_lt {file : CInt} {ptr : Addr} {n : SizeT} {r : CInt} {m m' : Machine Uart}
    {t : List UartEvent} (hn : n.toNat < 2 ^ 31)
    (h : Runs uartWorld (writeCall file ptr n) m t (.ret r) m') : Transfers m.core ptr n t r := by
  obtain ⟨rfl, hsent, -⟩ := write_run h
  have hcount := toInt_toCInt hn
  exact ⟨(toCInt_nonneg_iff n).2 hn, le_of_eq hcount, hsent⟩

/-- `_fstat`, `_isatty` and `_lseek` accept the two output descriptors and no others. -/
lemma accepted_iff (file : CInt) (st : Addr) (offset whence : CInt) (c : Core) :
    (((fstat file st).eval CoreOp.handle c).1 = -1 ↔ ¬ Output file) ∧
      (((isatty file).eval CoreOp.handle c).1 = -1 ↔ ¬ Output file) ∧
      (((lseek file offset whence).eval CoreOp.handle c).1 = -1 ↔ ¬ Output file) := by
  by_cases hfile : Output file
  · have hleft : STDOUT_FILENO = file ∨ STDERR_FILENO = file := hfile.imp Eq.symm Eq.symm
    have hright : file = STDOUT_FILENO ∨ file = STDERR_FILENO := hfile
    simp [fstat, isatty, lseek, hleft, hright, hfile]
  · have hleft : ¬ (STDOUT_FILENO = file ∨ STDERR_FILENO = file) :=
      fun h => hfile (h.imp Eq.symm Eq.symm)
    have hright : ¬ (file = STDOUT_FILENO ∨ file = STDERR_FILENO) := hfile
    simp [fstat, isatty, lseek, hleft, hright, hfile]

section Honoured

variable {file : CInt} {ptr : Addr} {n : SizeT} {m : Machine Uart}

/-- Some run of the call returns. -/
lemma WriteHonoured.exists_run (h : WriteHonoured file ptr n m) :
    ∃ t r m', Runs uartWorld (writeCall file ptr n) m t (.ret r) m' :=
  h.returns [] _ m .nil

/-- Where the contract is honoured the descriptor is open for output. -/
lemma WriteHonoured.output (h : WriteHonoured file ptr n m) : Output file := by
  by_contra hfile
  obtain ⟨t, r, m', hrun⟩ := h.exists_run
  exact not_rejects hrun (h.rejects hfile t r m' hrun)

/-- Where the contract is honoured the count is below the sign bit. -/
lemma WriteHonoured.count_lt (h : WriteHonoured file ptr n m) : n.toNat < 2 ^ 31 := by
  obtain ⟨t, r, m', hrun⟩ := h.exists_run
  rcases h.outcome t r m' hrun with hreject | ⟨hnonneg, -, -⟩
  · exact absurd hreject (not_rejects hrun)
  · obtain ⟨rfl, -, -⟩ := write_run hrun
    exact (toCInt_nonneg_iff n).1 hnonneg

end Honoured

/-- **The contract of `_write`.**  A call honours it exactly when its descriptor is one of the two
output descriptors and its count is below `2 ^ 31`. -/
theorem write_honoured_iff (file : CInt) (ptr : Addr) (n : SizeT) (m : Machine Uart) :
    WriteHonoured file ptr n m ↔ Output file ∧ n.toNat < 2 ^ 31 := by
  constructor
  · intro h
    exact ⟨h.output, h.count_lt⟩
  · rintro ⟨hfile, hn⟩
    exact {
      returns := fun t q m₁ hrun => returns_of_uses (write_uses _ _ _) hrun
      outcome := fun t r m' hrun => Or.inr (transfers_of_lt hn hrun)
      rejects := fun hother => absurd hfile hother
      others := accepted_iff file }

/-- A call of `_write` for a descriptor that is not open sends its byte. -/
theorem write_unknown_descriptor : ¬ ∀ (file : CInt) (ptr : Addr) (n : SizeT) (m : Machine Uart),
    WriteHonoured file ptr n m := by
  intro h
  exact absurd (h 5 0 1 coldStart).output (by decide)

end Newlib
