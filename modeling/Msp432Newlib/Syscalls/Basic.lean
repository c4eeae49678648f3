import Mathlib.Data.Int.Notation
import Msp432Newlib.Machine.Core

/-!
# The system calls of `lib/newlib`

One definition for each file of `lib/newlib`: `_read.c`, `_write.c`, `_sbrk.c`, `_close.c`,
`_fstat.c`, `_isatty.c`, `_lseek.c` and `_stat.c`.  A system call is a program over accesses to
memory and static objects and calls of the three functions of `UART/UART_IO.c`; what those three do
is left to the machine the program is run on.
-/

namespace Newlib

open Effects

/-- Accesses, and calls of the functions of `UART_IO.c`. -/
inductive SysOp where
  | core (o : CoreOp)
  | outputInit
  | readInput
  | sendOutput (c : Byte)

/-- What each operation answers. -/
@[reducible] def SysOp.Res : SysOp → Type
  | core o => o.Res
  | outputInit => Unit
  | readInput => Byte
  | sendOutput _ => CInt

/-- The signature of the system calls. -/
abbrev sysSig : Sig := ⟨SysOp, SysOp.Res⟩

/-- A program over accesses alone, as part of a system call. -/
def liftCore {α : Type} (p : Prog coreSig α) : Prog sysSig α :=
  p.interp fun o => Prog.op (S := sysSig) (.core o)

instance : MonadLift (Prog coreSig) (Prog sysSig) := ⟨liftCore⟩

@[simp] lemma liftM_eq {α : Type} (p : Prog coreSig α) :
    (liftM p : Prog sysSig α) = liftCore p := rfl

def outputInit : Prog sysSig Unit := Prog.op (S := sysSig) .outputInit

def readInput : Prog sysSig Byte := Prog.op (S := sysSig) .readInput

def sendOutput (c : Byte) : Prog sysSig CInt := Prog.op (S := sysSig) (.sendOutput c)

/-- The character `'\r'`. -/
def CR : Byte := 13

/-- The character `'\n'`. -/
def LF : Byte := 10

/-! ## Reading and writing -/

/-- The loop of `_read` at index `i`, with `k` iterations left before `i` reaches `len`. -/
def readLoop (ptr : Addr) : (i k : ℕ) → Prog sysSig CInt
  | i, 0 => pure (BitVec.ofNat 32 i)
  | i, k + 1 => do
    let c ← readInput
    storeByte (ptr + BitVec.ofNat 32 i) c
    let c ← loadByte (ptr + BitVec.ofNat 32 i)
    let _ ← sendOutput c
    let c ← loadByte (ptr + BitVec.ofNat 32 i)
    -- the line end has been stored, but is not counted in what is returned
    if CR = c then
      let _ ← sendOutput LF
      let _ ← sendOutput CR
      pure (BitVec.ofNat 32 i)
    else
      readLoop ptr (i + 1) k

/-- `int _read(int file, char *ptr, int len)`; the loop condition `i < len` is a signed one. -/
def read (file : CInt) (ptr : Addr) (len : CInt) : Prog sysSig CInt := do
  outputInit
  if STDIN_FILENO = file then
    readLoop ptr 0 len.toInt.toNat
  else
    storeErrno EBADF
    pure (-1)

/-- The loop of `_write`, with `k` iterations left. -/
def writeLoop : (ptr : Addr) → (k : ℕ) → Prog sysSig Unit
  | _, 0 => pure ()
  | ptr, k + 1 => do
    let c ← loadByte ptr
    let _ ← sendOutput c
    writeLoop (ptr + 1) k

/-- `int _write(int file, char *ptr, int len)`; the descriptor is not looked at. -/
def write (_file : CInt) (ptr : Addr) (len : CInt) : Prog sysSig CInt := do
  outputInit
  writeLoop ptr len.toInt.toNat
  pure len

/-! ## The heap -/

/-- The reserve that `_sbrk` keeps below the end of free memory. -/
def STACK_BUFFER : ℤ := 65536

/-- The test of `_sbrk`, `(_stack - (heap_ptr + nbytes)) > STACK_BUFFER`: the addition wraps, and
the difference of the two pointers is a signed one. -/
def Fits (limit heapPtr : Addr) (nbytes : CInt) : Prop :=
  STACK_BUFFER < (limit - (heapPtr + nbytes)).toInt

instance (limit heapPtr : Addr) (nbytes : CInt) : Decidable (Fits limit heapPtr nbytes) :=
  inferInstanceAs (Decidable (_ < _))

/-- `void *_sbrk(int nbytes)`.  The C code declares `extern void *_stack`, so the limit is the word
stored at the address of the symbol `_stack`. -/
def sbrk (stackSym : Addr) (nbytes : CInt) : Prog coreSig Addr := do
  let stack ← loadWord stackSym
  let heapPtr ← loadHeapPtr
  if Fits stack heapPtr nbytes then
    let base ← loadHeapPtr
    storeHeapPtr (base + nbytes)
    pure base
  else
    storeErrno ENOMEM
    pure (-1)

/-! ## The other calls -/

def close (_file : CInt) : Prog coreSig CInt := do
  storeErrno EBADF
  pure (-1)

def fstat (file : CInt) (st : Addr) : Prog coreSig CInt :=
  if STDOUT_FILENO = file ∨ STDERR_FILENO = file then do
    storeWord (st + stModeOffset) S_IFCHR
    pure 0
  else do
    storeErrno EBADF
    pure (-1)

def isatty (file : CInt) : Prog coreSig CInt :=
  if file = STDOUT_FILENO ∨ file = STDERR_FILENO then
    pure 1
  else do
    storeErrno EBADF
    pure (-1)

def lseek (file _offset _whence : CInt) : Prog coreSig CInt :=
  if STDOUT_FILENO = file ∨ STDERR_FILENO = file then
    pure 0
  else do
    storeErrno EBADF
    pure (-1)

def stat (_file _st : Addr) : Prog coreSig CInt := do
  storeErrno EACCES
  pure (-1)

/-! ## Calls -/

/-- A system call with its arguments. -/
inductive Syscall where
  | read (file : CInt) (ptr : Addr) (len : CInt)
  | write (file : CInt) (ptr : Addr) (len : CInt)
  | sbrk (nbytes : CInt)
  | close (file : CInt)
  | fstat (file : CInt) (st : Addr)
  | isatty (file : CInt)
  | lseek (file offset whence : CInt)
  | stat (file st : Addr)

/-- The program of a system call, in an image that has the symbol `_stack` at `stackSym`. -/
def Syscall.prog (stackSym : Addr) : Syscall → Prog sysSig (BitVec 32)
  | .read file ptr len => Newlib.read file ptr len
  | .write file ptr len => Newlib.write file ptr len
  | .sbrk nbytes => liftCore (Newlib.sbrk stackSym nbytes)
  | .close file => liftCore (Newlib.close file)
  | .fstat file st => liftCore (Newlib.fstat file st)
  | .isatty file => liftCore (Newlib.isatty file)
  | .lseek file offset whence => liftCore (Newlib.lseek file offset whence)
  | .stat file st => liftCore (Newlib.stat file st)

/-- The program that makes the calls in order and returns their results. -/
def session (stackSym : Addr) : List Syscall → Prog sysSig (List (BitVec 32))
  | [] => pure []
  | c :: cs => do
    let r ← c.prog stackSym
    let rs ← session stackSym cs
    pure (r :: rs)

end Newlib
