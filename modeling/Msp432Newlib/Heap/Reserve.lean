import Msp432Newlib.Machine.LinkerScript
import Msp432Newlib.Heap.BreakArithmetic

/-!
# The reserve and the region

`STACK_BUFFER` is as large as the whole of `SRAM_DATA` on one device and larger on the other.  So a
limit in the region grants no request that is not negative (`heap_not_usable`), and no place of free
memory is outside the reserve: whatever word lies at the symbol `_stack`, there are requests that
are granted a block elsewhere (`heap_not_safe`).
-/

namespace Newlib

open Effects Layout

variable {d : Device}

/-! ## Limits in the region -/

/-- The region is no larger than the reserve, and lies in the first quarter of the address space. -/
def Device.Reserved (d : Device) : Prop := d.length ≤ 65536 ∧ d.stackTop < 2 ^ 30

lemma reserved_of_mem (hd : d ∈ devices) : d.Reserved := by
  rcases List.mem_cons.1 hd with rfl | hd
  · exact ⟨by decide, by decide⟩
  · obtain rfl := List.mem_singleton.1 hd
    exact ⟨by decide, by decide⟩

lemma toNat_endAddr (hd : d.Reserved) (img : Image d) :
    img.endAddr.toNat = img.heapStart d := by
  have hle := img.heapStart_le_stackStart
  have htop := img.stackStart_le
  have hlt := hd.2
  rw [Image.endAddr, BitVec.toNat_ofNat]
  exact Nat.mod_eq_of_lt (by omega)

lemma origin_le_heapStart (img : Image d) : d.origin ≤ img.heapStart d := by
  have horigin := img.origin_le_heapPtrAt
  have hend := img.heapPtrAt_add_le
  omega

/-- A limit less than the reserve above the break refuses every request that is not negative. -/
lemma not_fits_of_nonneg {limit h : Addr} {n : CInt} (hle : h.toNat ≤ limit.toNat)
    (hlt : limit.toNat ≤ h.toNat + 65536) (hn : 0 ≤ n.toInt) : ¬ Fits limit h n := by
  rw [fits_iff_asked hle (by omega), asked]
  omega

/-- With such a limit the requests of a sequence are all refused and leave the break where it is. -/
lemma refused_of_nonneg {stackSym : Addr} {c : Core} {reqs : List CInt}
    (hle : c.heapPtr.toNat ≤ (c.word stackSym).toNat)
    (hlt : (c.word stackSym).toNat ≤ c.heapPtr.toNat + 65536) (hreqs : ∀ n ∈ reqs, 0 ≤ n.toInt) :
    ∀ r ∈ sbrkRun stackSym reqs c, r.ret = -1 := by
  induction reqs generalizing c with
  | nil => simp [sbrkRun]
  | cons n reqs ih =>
    rw [List.forall_mem_cons] at hreqs
    unfold sbrkRun
    rw [transcript_cons, List.forall_mem_cons]
    have hword := sbrk_word stackSym n c stackSym
    obtain ⟨hret, hpost⟩ := sbrk_refused (not_fits_of_nonneg hle hlt hreqs.1)
    have hstay : (sbrkCall stackSym n c).post.heapPtr = c.heapPtr := by rw [hpost]
    refine ⟨hret, ih ?_ ?_ hreqs.2⟩
    · rw [hstay, hword]
      exact hle
    · rw [hstay, hword]
      exact hlt

/-- There are a limit between `end` and `__StackTop`, found where `_sbrk` looks for it, and requests
that are not negative, for which `_sbrk` grants a block. -/
def HeapUsable (img : Image d) : Prop :=
  ∃ c : Core, c.heapPtr = img.endAddr ∧ img.heapStart d ≤ (c.word img.stackSym).toNat ∧
    (c.word img.stackSym).toNat ≤ d.stackTop ∧
    ∃ reqs : List CInt, (∀ n ∈ reqs, 0 ≤ n.toInt) ∧
      ∃ r ∈ sbrkRun img.stackSym reqs c, 1 ≤ r.arg.toInt ∧ r.ret ≠ -1

lemma not_heapUsable (hres : d.Reserved) (img : Image d) : ¬ HeapUsable img := by
  rintro ⟨c, hc, hlow, hhigh, reqs, hreqs, r, hr, -, hret⟩
  have horigin := origin_le_heapStart img
  have hlength := hres.1
  have hheap : c.heapPtr.toNat = img.heapStart d := by rw [hc, toNat_endAddr hres]
  have htop : d.stackTop = d.origin + d.length := rfl
  exact hret (refused_of_nonneg (by omega) (by omega) hreqs r hr)

/-- **The reserve.**  On neither device does a limit in the region leave a usable heap. -/
theorem heap_not_usable (hd : d ∈ devices) (img : Image d) : ¬ HeapUsable img :=
  not_heapUsable (reserved_of_mem hd) img

/-- An image of the MSP432P401R with no section but that of `heap_ptr`. -/
def smallestImage : Image msp432p401r := ⟨smallest, fun h => absurd rfl h, by decide⟩

/-- No limit makes the free memory of the smallest image usable. -/
theorem heap_not_usable_msp432p401r : ¬ HeapUsable smallestImage :=
  heap_not_usable List.mem_cons_self smallestImage

/-- In the smallest image free memory begins below `__StackTop`, and is of no use. -/
theorem heap_not_usable_smallest :
    ¬ ∀ d ∈ devices, ∀ img : Image d, img.heapStart d < d.stackTop → HeapUsable img := by
  intro h
  have hmem : msp432p401r ∈ devices := List.mem_cons_self
  exact not_heapUsable (reserved_of_mem hmem) smallestImage (h _ hmem smallestImage (by decide))

/-! ## Words in the place of the limit -/

/-- The blocks that the requests of the sequence were granted lie in free memory and below the
reserve. -/
def HeapSafe (img : Image d) (mem : Addr → Byte) (errno : CInt) (reqs : List CInt) : Prop :=
  ∀ r ∈ sbrkRun img.stackSym reqs (img.boot mem errno), 0 < r.arg.toInt → r.ret ≠ -1 →
    (img.heapStart d : ℤ) ≤ r.ret.toNat ∧ r.ret.toNat + r.arg.toInt ≤ d.stackTop - STACK_BUFFER

/-- No block lies in free memory and below the reserve. -/
lemma heapSafe_iff_refused (hd : d.length ≤ 65536) (img : Image d) (mem : Addr → Byte)
    (errno : CInt) (reqs : List CInt) : HeapSafe img mem errno reqs ↔
      ∀ r ∈ sbrkRun img.stackSym reqs (img.boot mem errno), 0 < r.arg.toInt → r.ret = -1 := by
  have horigin := origin_le_heapStart img
  have htop : d.stackTop = d.origin + d.length := rfl
  unfold HeapSafe STACK_BUFFER
  constructor
  · intro h r hr hpos
    by_contra hne
    obtain ⟨hlow, hhigh⟩ := h r hr hpos hne
    omega
  · intro h r hr hpos hne
    exact absurd (h r hr hpos) hne

/-- A request returns the failure code when it fails the test, or finds the break there. -/
lemma sbrkRun_ret_iff {stackSym : Addr} {reqs : List CInt} {c : Core} {r : Call CInt Core Addr}
    (hr : r ∈ sbrkRun stackSym reqs c) :
    r.ret = -1 ↔ (Fits (c.word stackSym) r.pre.heapPtr r.arg → r.pre.heapPtr = -1) := by
  have hword := sbrkRun_word hr
  rw [eq_call_of_mem hr] at hword ⊢
  change r.pre.word stackSym = _ at hword
  rcases sbrk_cases stackSym r.arg r.pre with ⟨hfit, hret, -⟩ | ⟨hfit, hret, -⟩
  · rw [hret, ← hword]
    constructor
    · intro h _
      exact h
    · intro h
      exact h hfit
  · rw [hret, ← hword]
    exact iff_of_true rfl fun h => absurd h hfit

/-- With the break `h` moved by one request after another, no request is granted a block: a positive
one does not pass the test, or finds the break at the last address. -/
def NoBlock (limit : Addr) : Addr → List CInt → Prop
  | _, [] => True
  | h, n :: ns => (0 < n.toInt → Fits limit h n → h = -1) ∧ NoBlock limit (moved limit h n) ns

/-- The breaks that the requests of a sequence find are those that the ones before them leave. -/
lemma noBlock_iff {stackSym : Addr} {limit : Addr} {c : Core} {reqs : List CInt}
    (hlimit : c.word stackSym = limit) :
    NoBlock limit c.heapPtr reqs ↔ ∀ r ∈ sbrkRun stackSym reqs c, 0 < r.arg.toInt →
      Fits limit r.pre.heapPtr r.arg → r.pre.heapPtr = -1 := by
  induction reqs generalizing c with
  | nil => simp [sbrkRun, NoBlock]
  | cons n reqs ih =>
    have hword := (sbrk_word stackSym n c stackSym).trans hlimit
    have hrest := ih hword
    rw [sbrk_heapPtr, hlimit] at hrest
    unfold sbrkRun at hrest ⊢
    rw [transcript_cons, List.forall_mem_cons, NoBlock, hrest]
    exact Iff.rfl

/-- From any break, requests move it to the place just beyond the reserve and are granted two
blocks there. -/
lemma granted_beyond_reserve (stackSym : Addr) (c : Core) :
    ∃ n : CInt, ∀ r₁ r₂, r₁ = (sbrkCall stackSym n c).post → r₂ = (sbrkCall stackSym 1 r₁).post →
      (sbrkCall stackSym 1 r₁).ret = c.word stackSym - 65539 ∧
        (sbrkCall stackSym 1 r₂).ret = c.word stackSym - 65538 := by
  refine ⟨c.word stackSym - 65539 - c.heapPtr, ?_⟩
  rintro r₁ r₂ hr₁ hr₂
  have hmove : c.heapPtr + (c.word stackSym - 65539 - c.heapPtr) = c.word stackSym - 65539 := by
    bv_omega
  have h₁ : r₁.heapPtr = c.word stackSym - 65539 ∧ r₁.word stackSym = c.word stackSym := by
    have hfit : Fits (c.word stackSym) c.heapPtr (c.word stackSym - 65539 - c.heapPtr) := by
      rw [fits_iff, hmove]
      bv_omega
    constructor
    · rw [hr₁, (sbrk_granted hfit).2]
      exact hmove
    · rw [hr₁, sbrk_word]
  have hfit₁ : Fits (r₁.word stackSym) r₁.heapPtr 1 := by
    rw [h₁.1, h₁.2, fits_iff]
    bv_omega
  obtain ⟨hret₁, hpost₁⟩ := sbrk_granted hfit₁
  have hfit₂ : Fits (r₂.word stackSym) r₂.heapPtr 1 := by
    rw [hr₂, sbrk_word, hpost₁, fits_iff, h₁.1, h₁.2]
    bv_omega
  constructor
  · rw [hret₁, h₁.1]
  · rw [(sbrk_granted hfit₂).1, hr₂, hpost₁, h₁.1]
    bv_omega

/-- **Placement.**  In no image of the device and with no contents of its memory are all sequences
of requests safe; those that are get no block at all, which is a matter of the word at `_stack`, of
`end` and of the requests. -/
theorem heap_not_safe (img : Image msp432p401r) (mem : Addr → Byte) (errno : CInt) :
    (¬ ∀ reqs, HeapSafe img mem errno reqs) ∧
      (∀ reqs, HeapSafe img mem errno reqs ↔
        ∀ r ∈ sbrkRun img.stackSym reqs (img.boot mem errno), 0 < r.arg.toInt →
          Fits ((img.boot mem errno).word img.stackSym) r.pre.heapPtr r.arg →
            r.pre.heapPtr = -1) ∧
      ∀ reqs, HeapSafe img mem errno reqs ↔
        NoBlock ((img.boot mem errno).word img.stackSym) img.endAddr reqs := by
  have hlen : msp432p401r.length ≤ 65536 := (reserved_of_mem List.mem_cons_self).1
  have hsafe : ∀ reqs, HeapSafe img mem errno reqs ↔
      ∀ r ∈ sbrkRun img.stackSym reqs (img.boot mem errno), 0 < r.arg.toInt →
        Fits ((img.boot mem errno).word img.stackSym) r.pre.heapPtr r.arg → r.pre.heapPtr = -1 := by
    intro reqs
    rw [heapSafe_iff_refused hlen]
    constructor
    · intro h r hr hpos
      exact (sbrkRun_ret_iff hr).1 (h r hr hpos)
    · intro h r hr hpos
      exact (sbrkRun_ret_iff hr).2 (h r hr hpos)
  refine ⟨?_, hsafe, fun reqs =>
    (hsafe reqs).trans (noBlock_iff (c := img.boot mem errno) rfl).symm⟩
  intro hall
  obtain ⟨n, hn⟩ := granted_beyond_reserve img.stackSym (img.boot mem errno)
  obtain ⟨hret₁, hret₂⟩ := hn _ _ rfl rfl
  have hrefused := (heapSafe_iff_refused hlen img mem errno [n, 1, 1]).1 (hall _)
  unfold sbrkRun at hrefused
  simp only [transcript_cons, List.forall_mem_cons] at hrefused
  have hone : 0 < (1 : CInt).toInt := by decide
  have h₁ := hrefused.2.1 hone
  have h₂ := hrefused.2.2.1 hone
  rw [hret₁] at h₁
  rw [hret₂] at h₂
  bv_omega

/-- Memory that holds `0x20202020` everywhere, also at `_stack`, has a block granted at `end`. -/
theorem heap_not_safe_smallest :
    ¬ ∀ (img : Image msp432p401r) (mem : Addr → Byte) (errno : CInt) (reqs : List CInt),
      HeapSafe img mem errno reqs := by
  intro h
  have hblock := h smallestImage (fun _ => 0x20) 0 [16] _ List.mem_cons_self
    (by decide) (by decide)
  exact absurd hblock.2 (by decide)

end Newlib
