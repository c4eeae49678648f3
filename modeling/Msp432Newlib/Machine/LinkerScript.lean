import Msp432Newlib.Layout.Placement
import Msp432Newlib.Machine.Core

/-!
# The linker scripts of the two devices

The part of `msp432p401r.lds` and `msp432p401m.lds` that places sections in `SRAM_DATA`.  The two
scripts differ, there, in the length of the region only.  An `Image` is a layout that the script
admits: its sections fit in the region.  Only the symbols that `_sbrk` uses are defined, `end` and
`_stack`, with `__StackTop` and the address of the static object `heap_ptr`, which is the
initialised data of the object file of `_sbrk.c`.
-/

namespace Newlib

open Layout

/-- The region `SRAM_DATA` of a linker script. -/
structure Device where
  origin : ℕ
  length : ℕ

def msp432p401r : Device := ⟨0x20000000, 0x10000⟩

def msp432p401m : Device := ⟨0x20000000, 0x8000⟩

/-- The devices for which there is a linker script. -/
def devices : List Device := [msp432p401r, msp432p401m]

/-- `__StackTop`, the end of the region. -/
def Device.stackTop (d : Device) : ℕ := d.origin + d.length

/-- The input section that holds `heap_ptr`: one word. -/
def sbrkData : InputSection := ⟨4, 2⟩

/-- The input sections of the output sections in `SRAM_DATA`, in the order of their placement, and
the symbol `_vtable_base_address`.  Those of `.data` are given in two parts, before and after
`sbrkData`. -/
structure Sections where
  vtableBase : ℕ
  vtable : List InputSection
  dataBefore : List InputSection
  dataAfter : List InputSection
  bss : List InputSection
  heap : List InputSection
  stack : List InputSection

namespace Sections

variable (s : Sections) (d : Device)

/-- The end of `.vtable`; without input sections there is no `.vtable`. -/
def vtableEnd : ℕ :=
  if s.vtable = [] then d.origin else place s.vtable (start s.vtable 0 s.vtableBase)

def dataInputs : List InputSection := s.dataBefore ++ sbrkData :: s.dataAfter

/-- `__data_start__`. -/
def dataStart : ℕ := start s.dataInputs 0 (s.vtableEnd d)

/-- The address of `heap_ptr`. -/
def heapPtrAt : ℕ := alignUp (place s.dataBefore (s.dataStart d)) sbrkData.alignLog

/-- `__data_end__`, after `. = ALIGN (4)`. -/
def dataEnd : ℕ := alignUp (place s.dataInputs (s.dataStart d)) 2

/-- `__bss_end__`, after `. = ALIGN (4)`. -/
def bssEnd : ℕ := alignUp (place s.bss (start s.bss 0 (s.dataEnd d))) 2

/-- `__heap_start__`, which is also the symbol `end`. -/
def heapStart : ℕ := start s.heap 0 (s.bssEnd d)

/-- `__heap_end__`. -/
def heapEnd : ℕ := place s.heap (s.heapStart d)

/-- `_stack`, the start of the output section `.stack (NOLOAD) : ALIGN(0x8)`. -/
def stackStart : ℕ := start s.stack 3 (s.heapEnd d)

/-- The end of `.stack`. -/
def stackEnd : ℕ := place s.stack (s.stackStart d)

end Sections

/-- A layout that the linker script of the device admits. -/
structure Image (d : Device) extends Sections where
  /-- A `.vtable` is placed in the region. -/
  vtable_le : vtable ≠ [] → d.origin ≤ vtableBase
  /-- Nothing reaches beyond the region. -/
  fits : toSections.stackEnd d ≤ d.stackTop

namespace Image

variable {d : Device} (img : Image d)

lemma origin_le_vtableEnd : d.origin ≤ img.vtableEnd d := by
  unfold Sections.vtableEnd
  split
  · exact Nat.le_refl _
  · exact Nat.le_trans (img.vtable_le ‹_›) (le_place_start _ _ _)

lemma origin_le_heapPtrAt : d.origin ≤ img.heapPtrAt d := by
  calc d.origin ≤ img.vtableEnd d := img.origin_le_vtableEnd
    _ ≤ img.dataStart d := le_start _ _ _
    _ ≤ place img.dataBefore (img.dataStart d) := le_place _ _
    _ ≤ img.heapPtrAt d := le_alignUp _ _

/-- `heap_ptr` lies in `.data`. -/
lemma heapPtrAt_le_dataEnd : img.heapPtrAt d + 4 ≤ img.dataEnd d := by
  have hdata : place img.dataInputs (img.dataStart d) =
      place img.dataAfter (img.heapPtrAt d + 4) := by
    rw [Sections.dataInputs, place_append, place_cons]
    rfl
  calc img.heapPtrAt d + 4 ≤ place img.dataAfter (img.heapPtrAt d + 4) := le_place _ _
    _ = place img.dataInputs (img.dataStart d) := hdata.symm
    _ ≤ img.dataEnd d := le_alignUp _ _

/-- `heap_ptr` ends before `end`. -/
lemma heapPtrAt_add_le : img.heapPtrAt d + 4 ≤ img.heapStart d := by
  calc img.heapPtrAt d + 4 ≤ img.dataEnd d := img.heapPtrAt_le_dataEnd
    _ ≤ place img.bss (start img.bss 0 (img.dataEnd d)) := le_place_start _ _ _
    _ ≤ img.bssEnd d := le_alignUp _ _
    _ ≤ img.heapStart d := le_start _ _ _

lemma heapStart_le_stackStart : img.heapStart d ≤ img.stackStart d :=
  Nat.le_trans (le_place _ _) (le_start _ _ _)

lemma stackStart_le : img.stackStart d ≤ d.stackTop :=
  Nat.le_trans (le_place _ _) img.fits

/-- The address of the symbol `end`. -/
def endAddr : Addr := BitVec.ofNat 32 (img.heapStart d)

/-- The address of the symbol `_stack`. -/
def stackSym : Addr := BitVec.ofNat 32 (img.stackStart d)

/-- The address of the object `heap_ptr`. -/
def heapPtrSym : Addr := BitVec.ofNat 32 (img.heapPtrAt d)

/-- The state in which the first call of `_sbrk` finds the machine: `heap_ptr` is initialised to the
address of `end`. -/
def boot (mem : Addr → Byte) (errno : CInt) : Core := ⟨mem, img.endAddr, errno⟩

end Image

/-- An image with no section but that of `heap_ptr`. -/
def smallest : Sections := ⟨0, [], [], [], [], [], []⟩

end Newlib
