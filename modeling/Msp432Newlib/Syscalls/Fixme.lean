import Msp432Newlib.Console.Stream

/-!
# The monolithic layer

`lib/newlib_FIXME/newlib.c` has its own copies of seven of the system calls, and of the functions of
`UART_IO.c`, which are those of `lib/newlib` letter by letter.  All but one of the seven are the
same programs as their namesakes (`monolithic_eq_perFile`): the copy of `_fstat` accepts every
descriptor.  So a trace of calls goes alike in both layers exactly when it asks for the state of no
descriptor but the two that the other accepts (`layers_agree_iff`).
-/

namespace Newlib

open Effects

/-! ## The copies -/

namespace Fixme

/-- `int _write(int file, char *ptr, int len)`: the loop. -/
def writeLoop : (ptr : Addr) → (k : ℕ) → Prog sysSig Unit
  | _, 0 => pure ()
  | ptr, k + 1 => do
    let c ← loadByte ptr
    let _ ← sendOutput c
    writeLoop (ptr + 1) k

def write (_file : CInt) (ptr : Addr) (len : CInt) : Prog sysSig CInt := do
  outputInit
  writeLoop ptr len.toInt.toNat
  pure len

/-- `int _read(int file, char *ptr, int len)`: the loop. -/
def readLoop (ptr : Addr) : (i k : ℕ) → Prog sysSig CInt
  | i, 0 => pure (BitVec.ofNat 32 i)
  | i, k + 1 => do
    let c ← readInput
    storeByte (ptr + BitVec.ofNat 32 i) c
    let c ← loadByte (ptr + BitVec.ofNat 32 i)
    let _ ← sendOutput c
    let c ← loadByte (ptr + BitVec.ofNat 32 i)
    if CR = c then
      let _ ← sendOutput LF
      let _ ← sendOutput CR
      pure (BitVec.ofNat 32 i)
    else
      readLoop ptr (i + 1) k

def read (file : CInt) (ptr : Addr) (len : CInt) : Prog sysSig CInt := do
  outputInit
  if STDIN_FILENO = file then
    readLoop ptr 0 len.toInt.toNat
  else
    storeErrno EBADF
    pure (-1)

def sbrk (stackSym : Addr) (nbytes : CInt) : Prog coreSig Addr := do
  let stack ← loadWord stackSym
  let heapPtr ← loadHeapPtr
  if Fits stack heapPtr nbytes then
    let base ← loadHeapPtr
    storeHeapPtr (base + nbytes)
    pure base
  else
    storeErrno ENOMEM
    pure (-1)

def close (_file : CInt) : Prog coreSig CInt := do
  storeErrno EBADF
  pure (-1)

/-- The descriptor is not looked at. -/
def fstat (_file : CInt) (st : Addr) : Prog coreSig CInt := do
  storeWord (st + stModeOffset) S_IFCHR
  pure 0

def isatty (file : CInt) : Prog coreSig CInt :=
  if file = STDOUT_FILENO ∨ file = STDERR_FILENO then
    pure 1
  else do
    storeErrno EBADF
    pure (-1)

def lseek (file _offset _whence : CInt) : Prog coreSig CInt :=
  if STDOUT_FILENO = file ∨ STDERR_FILENO = file then
    pure 0
  else do
    storeErrno EBADF
    pure (-1)

end Fixme

/-! ## The calls of both layers -/

/-- A call of one of the seven functions, with its arguments. -/
inductive SharedCall where
  | read (file : CInt) (ptr : Addr) (len : CInt)
  | write (file : CInt) (ptr : Addr) (len : CInt)
  | sbrk (nbytes : CInt)
  | close (file : CInt)
  | fstat (file : CInt) (st : Addr)
  | isatty (file : CInt)
  | lseek (file offset whence : CInt)

/-- The call in `lib/newlib`. -/
def SharedCall.perFile (stackSym : Addr) : SharedCall → Prog sysSig (BitVec 32)
  | .read file ptr len => Syscall.prog stackSym (.read file ptr len)
  | .write file ptr len => Syscall.prog stackSym (.write file ptr len)
  | .sbrk nbytes => Syscall.prog stackSym (.sbrk nbytes)
  | .close file => Syscall.prog stackSym (.close file)
  | .fstat file st => Syscall.prog stackSym (.fstat file st)
  | .isatty file => Syscall.prog stackSym (.isatty file)
  | .lseek file offset whence => Syscall.prog stackSym (.lseek file offset whence)

/-- The call in `newlib.c`. -/
def SharedCall.monolithic (stackSym : Addr) : SharedCall → Prog sysSig (BitVec 32)
  | .read file ptr len => Fixme.read file ptr len
  | .write file ptr len => Fixme.write file ptr len
  | .sbrk nbytes => liftCore (Fixme.sbrk stackSym nbytes)
  | .close file => liftCore (Fixme.close file)
  | .fstat file st => liftCore (Fixme.fstat file st)
  | .isatty file => liftCore (Fixme.isatty file)
  | .lseek file offset whence => liftCore (Fixme.lseek file offset whence)

/-- The call does not ask for the state of a descriptor other than the two output ones. -/
def SharedCall.KnownFstat : SharedCall → Prop
  | .fstat file _ => STDOUT_FILENO = file ∨ STDERR_FILENO = file
  | _ => True

/-! ## Equivalence -/

lemma fixme_writeLoop_eq (ptr : Addr) (k : ℕ) : Fixme.writeLoop ptr k = writeLoop ptr k := by
  induction k generalizing ptr with
  | zero => rfl
  | succ k ih =>
    unfold Fixme.writeLoop writeLoop
    simp only [ih]

lemma fixme_readLoop_eq (ptr : Addr) (i k : ℕ) : Fixme.readLoop ptr i k = readLoop ptr i k := by
  induction k generalizing i with
  | zero => rfl
  | succ k ih =>
    unfold Fixme.readLoop readLoop
    simp only [ih]

/-- The two `_fstat` are the same program for the two output descriptors. -/
lemma fixme_fstat_eq {file : CInt} (hfile : STDOUT_FILENO = file ∨ STDERR_FILENO = file)
    (st : Addr) : Fixme.fstat file st = fstat file st := by
  unfold fstat
  rw [if_pos hfile]
  rfl

/-- But for `_fstat`, the calls of the two layers are the same programs, on whatever machine they
run. -/
theorem monolithic_eq_perFile (stackSym : Addr) {c : SharedCall} (hc : c.KnownFstat) :
    c.perFile stackSym = c.monolithic stackSym := by
  cases c with
  | read file ptr len =>
    change read file ptr len = Fixme.read file ptr len
    unfold Fixme.read read
    simp only [fixme_readLoop_eq]
  | write file ptr len =>
    change write file ptr len = Fixme.write file ptr len
    unfold Fixme.write write
    simp only [fixme_writeLoop_eq]
  | fstat file st =>
    change liftCore (fstat file st) = liftCore (Fixme.fstat file st)
    rw [fixme_fstat_eq hc st]
  | sbrk nbytes => rfl
  | close file => rfl
  | isatty file => rfl
  | lseek file offset whence => rfl

/-- For other descriptors one `_fstat` fails and the other does not. -/
lemma call_ne_of_not_knownFstat (stackSym : Addr) {c : SharedCall} (hc : ¬ c.KnownFstat)
    (m : Machine Console) : call SysOp.onConsole (SharedCall.perFile stackSym) c m ≠
      call SysOp.onConsole (SharedCall.monolithic stackSym) c m := by
  cases c with
  | fstat file st =>
    have hbad : ¬ (STDOUT_FILENO = file ∨ STDERR_FILENO = file) := hc
    have hper :
        (call SysOp.onConsole (SharedCall.perFile stackSym) (.fstat file st) m).ret = -1 := by
      simp [call, SharedCall.perFile, Syscall.prog, fstat, hbad]
    have hmono :
        (call SysOp.onConsole (SharedCall.monolithic stackSym) (.fstat file st) m).ret = 0 := by
      simp [call, SharedCall.monolithic, Fixme.fstat]
    intro heq
    rw [heq, hmono] at hper
    exact absurd hper (by decide)
  | read file ptr len => exact absurd trivial hc
  | write file ptr len => exact absurd trivial hc
  | sbrk nbytes => exact absurd trivial hc
  | close file => exact absurd trivial hc
  | isatty file => exact absurd trivial hc
  | lseek file offset whence => exact absurd trivial hc

/-- **Equivalence of the layers.**  From the same machine, a trace of calls goes alike in both
layers (call by call the same result, console, memory, `heap_ptr` and `errno`) exactly when every
`_fstat` in it is for one of the two output descriptors. -/
theorem layers_agree_iff (stackSym : Addr) (trace : List SharedCall) (m : Machine Console) :
    transcript SysOp.onConsole (SharedCall.perFile stackSym) trace m =
        transcript SysOp.onConsole (SharedCall.monolithic stackSym) trace m ↔
      ∀ c ∈ trace, c.KnownFstat :=
  transcript_eq_iff (fun _ hc => monolithic_eq_perFile stackSym hc)
    (fun _ hc => call_ne_of_not_knownFstat stackSym hc) trace m

/-- The two layers disagree about the state of the standard input. -/
theorem layers_disagree_on_stdin :
    ¬ ∀ (stackSym : Addr) (trace : List SharedCall) (m : Machine Console),
      transcript SysOp.onConsole (SharedCall.perFile stackSym) trace m =
        transcript SysOp.onConsole (SharedCall.monolithic stackSym) trace m := by
  intro h
  have hsame := h 0 [.fstat STDIN_FILENO 0] ⟨.zero 0, .start (Stream'.const 0)⟩
  have hstdin : ¬ (SharedCall.fstat STDIN_FILENO 0).KnownFstat := by
    unfold SharedCall.KnownFstat
    decide
  exact call_ne_of_not_knownFstat 0 hstdin _ (List.cons.inj hsame).1

end Newlib
