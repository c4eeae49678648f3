import Msp432Newlib.Arm.Memory
import Msp432Newlib.Effects.Program

/-!
# Memory and static objects

The part of the machine that the C code of the system calls reads and writes: the byte-addressed
memory of a 32-bit little-endian processor, and the two static objects `heap_ptr` (local to `_sbrk`)
and `errno`.  The two objects are C objects of their own and not bytes of `mem`: no pointer that a
caller hands in designates them.  `errno` is one cell, whichever of its two spellings (the macro of
`errno.h` or the `extern int`) a file uses.
-/

namespace Newlib

open Effects

/-- A C `unsigned char`, which is also what `char` is on this processor. -/
abbrev Byte := BitVec 8

/-- An address, or a C `void *`. -/
abbrev Addr := BitVec 32

/-- A C `int` (and `ptrdiff_t`), in two's complement. -/
abbrev CInt := BitVec 32

/-- Memory and static objects. -/
structure Core where
  mem : Arm.Mem
  heapPtr : Addr
  errno : CInt

/-- The little-endian word stored at the address `a`. -/
def Core.word (c : Core) (a : Addr) : BitVec 32 := c.mem.word a

/-- Memory and `errno` all zero. -/
def Core.zero (heapPtr : Addr) : Core := ⟨fun _ => 0, heapPtr, 0⟩

/-- Store one byte. -/
def Core.setByte (c : Core) (a : Addr) (b : Byte) : Core := { c with mem := c.mem.setByte a b }

/-- Store a word, low byte first. -/
def Core.setWord (c : Core) (a : Addr) (w : BitVec 32) : Core :=
  { c with mem := c.mem.setWord a w }

section SetByte

variable (c : Core) (a x : Addr) (b : Byte) (w : BitVec 32)

lemma setByte_mem : (c.setByte a b).mem x = if x = a then b else c.mem x :=
  Arm.Mem.setByte_apply c.mem a b x

@[simp] lemma setByte_mem_self : (c.setByte a b).mem a = b := by simp [setByte_mem]

@[simp] lemma setByte_heapPtr : (c.setByte a b).heapPtr = c.heapPtr := rfl

@[simp] lemma setByte_errno : (c.setByte a b).errno = c.errno := rfl

@[simp] lemma setWord_errno : (c.setWord a w).errno = c.errno := rfl

end SetByte

/-! ## Operations -/

/-- The accesses that the C code makes to memory and to the static objects. -/
inductive CoreOp where
  | loadByte (a : Addr)
  | storeByte (a : Addr) (b : Byte)
  | loadWord (a : Addr)
  | storeWord (a : Addr) (w : BitVec 32)
  | loadHeapPtr
  | storeHeapPtr (a : Addr)
  | storeErrno (e : CInt)

/-- What each access answers. -/
@[reducible] def CoreOp.Res : CoreOp → Type
  | loadByte _ => Byte
  | loadWord _ => BitVec 32
  | loadHeapPtr => Addr
  | storeByte _ _ | storeWord _ _ | storeHeapPtr _ | storeErrno _ => Unit

/-- The signature of the accesses. -/
abbrev coreSig : Sig := ⟨CoreOp, CoreOp.Res⟩

/-- The effect of each access. -/
def CoreOp.handle : (o : coreSig.Op) → Core → coreSig.Res o × Core
  | .loadByte a, c => (c.mem a, c)
  | .storeByte a b, c => ((), c.setByte a b)
  | .loadWord a, c => (c.word a, c)
  | .storeWord a w, c => ((), c.setWord a w)
  | .loadHeapPtr, c => (c.heapPtr, c)
  | .storeHeapPtr a, c => ((), { c with heapPtr := a })
  | .storeErrno e, c => ((), { c with errno := e })

def loadByte (a : Addr) : Prog coreSig Byte := Prog.op (S := coreSig) (.loadByte a)

def storeByte (a : Addr) (b : Byte) : Prog coreSig Unit := Prog.op (S := coreSig) (.storeByte a b)

def loadWord (a : Addr) : Prog coreSig (BitVec 32) := Prog.op (S := coreSig) (.loadWord a)

def storeWord (a : Addr) (w : BitVec 32) : Prog coreSig Unit :=
  Prog.op (S := coreSig) (.storeWord a w)

def loadHeapPtr : Prog coreSig Addr := Prog.op (S := coreSig) .loadHeapPtr

def storeHeapPtr (a : Addr) : Prog coreSig Unit := Prog.op (S := coreSig) (.storeHeapPtr a)

/-- The assignment `errno = e`. -/
def storeErrno (e : CInt) : Prog coreSig Unit := Prog.op (S := coreSig) (.storeErrno e)

section Eval

variable (c : Core) (a : Addr) (b : Byte) (w : BitVec 32)

@[simp] lemma eval_loadByte : (loadByte a).eval CoreOp.handle c = (c.mem a, c) := rfl

@[simp] lemma eval_storeByte : (storeByte a b).eval CoreOp.handle c = ((), c.setByte a b) := rfl

@[simp] lemma eval_loadWord : (loadWord a).eval CoreOp.handle c = (c.word a, c) := rfl

@[simp] lemma eval_storeWord : (storeWord a w).eval CoreOp.handle c = ((), c.setWord a w) := rfl

@[simp] lemma eval_loadHeapPtr : loadHeapPtr.eval CoreOp.handle c = (c.heapPtr, c) := rfl

@[simp] lemma eval_storeHeapPtr :
    (storeHeapPtr a).eval CoreOp.handle c = ((), { c with heapPtr := a }) := rfl

@[simp] lemma eval_storeErrno :
    (storeErrno w).eval CoreOp.handle c = ((), { c with errno := w }) := rfl

end Eval

/-! ## Constants of the C headers -/

def ENOMEM : CInt := 12

def EBADF : CInt := 9

def EACCES : CInt := 13

def STDIN_FILENO : CInt := 0

def STDOUT_FILENO : CInt := 1

def STDERR_FILENO : CInt := 2

/-- The file type of a character device, `0020000`. -/
def S_IFCHR : BitVec 32 := 0x2000

/-- The offset of `st_mode` in `struct stat`, after the two-byte `st_dev` and `st_ino`. -/
def stModeOffset : Addr := 4

/-- Memory and static objects, with a device of type `D` beside them. -/
structure Machine (D : Type) where
  core : Core
  dev : D

end Newlib
