import Mathlib.Algebra.Order.Group.Int
import Msp432Newlib.Layout.Arena
import Msp432Newlib.Heap.Sbrk

/-!
# The arithmetic of the break

`_sbrk` against the break of an arena over the integers, which starts where `heap_ptr` does, keeps
`STACK_BUFFER` free, and ends at the limit.  The machine test looks at one difference of wrapping
32-bit arithmetic, and never at the start of free memory.  A sequence of requests goes as it would
in the arena exactly when no request asks for a place below the start that the difference takes for
a place far enough below the limit (`sbrk_exact_iff`).
-/

namespace Newlib

open Effects Layout

/-- Free memory from `start` to `limit`, with the reserve, over the integers. -/
def arena (start limit : Addr) : Arena ℤ := ⟨start.toNat, limit.toNat, STACK_BUFFER⟩

/-- The place that a request asks for. -/
def asked (h : Addr) (n : CInt) : ℤ := h.toNat + n.toInt

/-- What the arena admits, in terms of the place asked for. -/
lemma arena_admits_iff {start limit h : Addr} {n : CInt} :
    (arena start limit).Admits h.toNat n.toInt ↔
      (start.toNat : ℤ) ≤ asked h n ∧ asked h n + 65536 < limit.toNat := Iff.rfl

lemma arena_reserve_nonneg (start limit : Addr) : 0 ≤ (arena start limit).reserve := by
  change (0 : ℤ) ≤ 65536
  decide

/-- A request goes as it would in the arena: it succeeds exactly when the arena admits it, returning
the old break and moving it by the request, and fails with `ENOMEM` and the break unmoved. -/
def Exact (A : Arena ℤ) (r : Call CInt Core Addr) : Prop :=
  if A.Admits r.pre.heapPtr.toNat r.arg.toInt then
    r.ret = r.pre.heapPtr ∧ (r.post.heapPtr.toNat : ℤ) = asked r.pre.heapPtr r.arg
  else r.ret = -1 ∧ r.post.errno = ENOMEM ∧ r.post.heapPtr = r.pre.heapPtr

/-- The place asked for is not below the start, or it is too far below the limit for a positive
difference, or it is too close to the limit. -/
def InSight (A : Arena ℤ) (r : Call CInt Core Addr) : Prop :=
  A.start ≤ asked r.pre.heapPtr r.arg ∨ asked r.pre.heapPtr r.arg + 2 ^ 31 ≤ A.limit ∨
    A.limit ≤ asked r.pre.heapPtr r.arg + A.reserve

instance (A : Arena ℤ) (r : Call CInt Core Addr) : Decidable (InSight A r) :=
  inferInstanceAs (Decidable (_ ∨ _ ∨ _))

/-! ## One request -/

/-- The test of `_sbrk` for a break within reach of the limit, over the integers. -/
lemma fits_iff_asked {limit h : Addr} {n : CInt} (hle : h.toNat ≤ limit.toNat)
    (hlt : limit.toNat < h.toNat + 2 ^ 31) :
    Fits limit h n ↔ asked h n + 65536 < limit.toNat ∧ limit.toNat < asked h n + 2 ^ 31 := by
  have hn : n.toNat < 2 ^ 32 := n.isLt
  have hl : limit.toNat < 2 ^ 32 := limit.isLt
  rw [fits_iff, asked, BitVec.toInt_eq_toNat_cond, BitVec.toNat_sub, BitVec.toNat_add]
  split
  · omega
  · omega

/-- The new break of a request for a place in the address space is that place. -/
lemma toNat_add_eq_asked {h : Addr} {n : CInt} (hnonneg : 0 ≤ asked h n)
    (hlt : asked h n < 2 ^ 32) : ((h + n).toNat : ℤ) = asked h n := by
  have hn : n.toNat < 2 ^ 32 := n.isLt
  have hh : h.toNat < 2 ^ 32 := h.isLt
  rw [asked, BitVec.toInt_eq_toNat_cond] at hnonneg hlt ⊢
  rw [BitVec.toNat_add]
  split at hnonneg
  · rw [if_pos ‹_›] at hlt
    omega
  · rw [if_neg ‹_›] at hlt
    omega

/-- The block that the caller of a request takes itself to be granted. -/
def grantedBlock (r : Call CInt Core Addr) : Option (Block ℤ) :=
  if 0 < r.arg.toInt ∧ r.ret ≠ -1 then some ⟨r.ret.toNat, r.arg.toInt⟩ else none

section Step

variable {stackSym start : Addr} {n : CInt} {c : Core}

lemma exact_sbrkCall {A : Arena ℤ} : Exact A (sbrkCall stackSym n c) ↔
    if A.Admits c.heapPtr.toNat n.toInt then
      (sbrkCall stackSym n c).ret = c.heapPtr ∧
        ((sbrkCall stackSym n c).post.heapPtr.toNat : ℤ) = asked c.heapPtr n
    else (sbrkCall stackSym n c).ret = -1 ∧ (sbrkCall stackSym n c).post.errno = ENOMEM ∧
      (sbrkCall stackSym n c).post.heapPtr = c.heapPtr := Iff.rfl

lemma grantedBlock_sbrkCall : grantedBlock (sbrkCall stackSym n c) =
    if 0 < n.toInt ∧ (sbrkCall stackSym n c).ret ≠ -1 then
      some ⟨(sbrkCall stackSym n c).ret.toNat, n.toInt⟩
    else none := rfl

/-- A break in the arena is within reach of the limit. -/
lemma places_reach {limit h : Addr} (hle : start.toNat ≤ limit.toNat)
    (hlt : limit.toNat < start.toNat + 2 ^ 31)
    (hh : (h.toNat : ℤ) ∈ (arena start limit).places) :
    h.toNat ≤ limit.toNat ∧ limit.toNat < h.toNat + 2 ^ 31 := by
  obtain ⟨hstart, hlimit⟩ := hh
  simp only [arena] at hstart hlimit
  omega

/-- **One request**, made with the break in the arena. -/
lemma exact_iff_inSight (hle : start.toNat ≤ (c.word stackSym).toNat)
    (hlt : (c.word stackSym).toNat < start.toNat + 2 ^ 31)
    (hc : (c.heapPtr.toNat : ℤ) ∈ (arena start (c.word stackSym)).places) :
    Exact (arena start (c.word stackSym)) (sbrkCall stackSym n c) ↔
      InSight (arena start (c.word stackSym)) (sbrkCall stackSym n c) := by
  obtain ⟨hreach, hreach'⟩ := places_reach hle hlt hc
  have hfits := fits_iff_asked (n := n) hreach hreach'
  have hsight : InSight (arena start (c.word stackSym)) (sbrkCall stackSym n c) ↔
      (start.toNat : ℤ) ≤ asked c.heapPtr n ∨
        asked c.heapPtr n + 2 ^ 31 ≤ (c.word stackSym).toNat ∨
        ((c.word stackSym).toNat : ℤ) ≤ asked c.heapPtr n + 65536 := Iff.rfl
  have hl : (c.word stackSym).toNat < 2 ^ 32 := (c.word stackSym).isLt
  rw [exact_sbrkCall, hsight]
  rcases sbrk_cases stackSym n c with ⟨hfit, hret, hpost⟩ | ⟨hfit, hret, hpost⟩
  · rw [hret, hpost]
    by_cases hA : (arena start (c.word stackSym)).Admits c.heapPtr.toNat n.toInt
    · have hnew : ((c.heapPtr + n).toNat : ℤ) = asked c.heapPtr n := by
        rw [arena_admits_iff] at hA
        exact toNat_add_eq_asked (by omega) (by omega)
      rw [if_pos hA]
      exact iff_of_true ⟨rfl, hnew⟩ (Or.inl (arena_admits_iff.1 hA).1)
    · rw [if_neg hA]
      rw [arena_admits_iff] at hA
      rw [hfits] at hfit
      refine iff_of_false ?_ (by omega)
      -- the break has moved below the start
      rintro ⟨-, -, hsame⟩
      have hn : n = 0 := by simpa using hsame
      have hplaces : (start.toNat : ℤ) ≤ c.heapPtr.toNat := hc.1
      have hasked : asked c.heapPtr n = c.heapPtr.toNat := by
        rw [hn, asked]
        exact Int.add_zero _
      omega
  · rw [hret, hpost]
    have hA : ¬ (arena start (c.word stackSym)).Admits c.heapPtr.toNat n.toInt := by
      rw [arena_admits_iff]
      rw [hfits] at hfit
      omega
    rw [if_neg hA]
    rw [hfits] at hfit
    exact iff_of_true ⟨rfl, rfl, rfl⟩ (by omega)

/-- An exact request leaves the break where the arena does. -/
lemma Exact.post_eq {A : Arena ℤ} (h : Exact A (sbrkCall stackSym n c)) :
    ((sbrkCall stackSym n c).post.heapPtr.toNat : ℤ) = A.move c.heapPtr.toNat n.toInt := by
  rw [exact_sbrkCall] at h
  by_cases hA : A.Admits c.heapPtr.toNat n.toInt
  · rw [if_pos hA] at h
    rw [Arena.move_of_admits hA]
    exact h.2
  · rw [if_neg hA] at h
    rw [Arena.move_of_not_admits hA]
    exact congrArg (fun a : Addr => (a.toNat : ℤ)) h.2.2

/-- The caller of an exact request sees the block that the arena grants. -/
lemma Exact.grantedBlock_eq {A : Arena ℤ} (hlimit : A.limit < 2 ^ 32) (hres : 0 ≤ A.reserve)
    (h : Exact A (sbrkCall stackSym n c)) : grantedBlock (sbrkCall stackSym n c) =
      if A.Admits c.heapPtr.toNat n.toInt ∧ 0 < n.toInt then some ⟨c.heapPtr.toNat, n.toInt⟩
      else none := by
  rw [exact_sbrkCall] at h
  rw [grantedBlock_sbrkCall]
  by_cases hA : A.Admits c.heapPtr.toNat n.toInt
  · rw [if_pos hA] at h
    rw [h.1]
    by_cases hn : 0 < n.toInt
    · -- the block does not begin at the last address, which callers take for a failure
      have hne : c.heapPtr ≠ -1 := by
        intro hlast
        have hbelow := hA.2
        have hnat : ((-1 : Addr).toNat : ℤ) = 2 ^ 32 - 1 := by decide
        rw [hlast] at hbelow
        omega
      rw [if_pos ⟨hn, hne⟩, if_pos ⟨hA, hn⟩]
    · rw [if_neg fun h => hn h.1, if_neg fun h => hn h.2]
  · rw [if_neg hA] at h
    rw [if_neg fun h' => h'.2 h.1, if_neg fun h => hA h.1]

end Step

/-! ## Sequences of requests -/

/-- The blocks that the requests of a sequence were granted. -/
def grantedBlocks (t : List (Call CInt Core Addr)) : List (Block ℤ) := t.filterMap grantedBlock

/-- A sequence of requests goes as it would in the arena that starts at `heap_ptr`: every request
does, the break never leaves the arena, and the requests of every part of the sequence that does not
shrink the break are granted blocks that follow one another and do not overlap. -/
structure BreakExact (stackSym : Addr) (reqs : List CInt) (c : Core) : Prop where
  exact : ∀ r ∈ sbrkRun stackSym reqs c, Exact (arena c.heapPtr (c.word stackSym)) r
  places : ∀ r ∈ sbrkRun stackSym reqs c,
    (r.post.heapPtr.toNat : ℤ) ∈ (arena c.heapPtr (c.word stackSym)).places
  blocks : ∀ before growing after, reqs = before ++ growing ++ after →
    (∀ n ∈ growing, 0 ≤ n.toInt) → ∀ c', afterSbrk stackSym before c = c' →
      Tiles (c'.heapPtr.toNat : ℤ) (grantedBlocks (sbrkRun stackSym growing c'))
        (afterSbrk stackSym growing c').heapPtr.toNat ∧
      (grantedBlocks (sbrkRun stackSym growing c')).Pairwise
        fun b b' => Disjoint b.carrier b'.carrier

section Run

variable {stackSym start : Addr} {c : Core}

/-- While the requests are exact the break stays in the arena. -/
lemma places_of_exact {A : Arena ℤ} (hA : 0 ≤ A.reserve) {reqs : List CInt}
    (hc : (c.heapPtr.toNat : ℤ) ∈ A.places) (h : ∀ r ∈ sbrkRun stackSym reqs c, Exact A r) :
    (∀ r ∈ sbrkRun stackSym reqs c,
      (r.pre.heapPtr.toNat : ℤ) ∈ A.places ∧ (r.post.heapPtr.toNat : ℤ) ∈ A.places) ∧
    ((afterSbrk stackSym reqs c).heapPtr.toNat : ℤ) ∈ A.places := by
  refine transcript_invariant (I := fun s => (s.heapPtr.toNat : ℤ) ∈ A.places) (A := Exact A)
    ?_ hc h
  intro n s hs hexact
  rw [hexact.post_eq]
  exact Arena.move_mem hA hs n.toInt

/-- **Run lemma.**  All requests are exact as soon as all of them are in sight. -/
lemma forall_exact_iff (hle : start.toNat ≤ (c.word stackSym).toNat)
    (hlt : (c.word stackSym).toNat < start.toNat + 2 ^ 31)
    (hc : (c.heapPtr.toNat : ℤ) ∈ (arena start (c.word stackSym)).places) (reqs : List CInt) :
    (∀ r ∈ sbrkRun stackSym reqs c, Exact (arena start (c.word stackSym)) r) ↔
      ∀ r ∈ sbrkRun stackSym reqs c, InSight (arena start (c.word stackSym)) r := by
  induction reqs generalizing c with
  | nil => simp [sbrkRun]
  | cons n reqs ih =>
    have hword := sbrk_word stackSym n c stackSym
    have hone := exact_iff_inSight (n := n) hle hlt hc
    have hrest : Exact (arena start (c.word stackSym)) (sbrkCall stackSym n c) →
        ((∀ r ∈ sbrkRun stackSym reqs (sbrkCall stackSym n c).post,
            Exact (arena start (c.word stackSym)) r) ↔
          ∀ r ∈ sbrkRun stackSym reqs (sbrkCall stackSym n c).post,
            InSight (arena start (c.word stackSym)) r) := by
      intro hexact
      have hpost : ((sbrkCall stackSym n c).post.heapPtr.toNat : ℤ) ∈
          (arena start (c.word stackSym)).places := by
        rw [hexact.post_eq]
        exact Arena.move_mem (arena_reserve_nonneg _ _) hc n.toInt
      rw [← hword] at hle hlt ⊢
      rw [← hword] at hpost
      exact ih hle hlt hpost
    unfold sbrkRun at hrest ⊢
    rw [transcript_cons, List.forall_mem_cons, List.forall_mem_cons, hone]
    constructor
    · rintro ⟨hhead, htail⟩
      exact ⟨hhead, (hrest (hone.2 hhead)).1 htail⟩
    · rintro ⟨hhead, htail⟩
      exact ⟨hhead, (hrest (hone.2 hhead)).2 htail⟩

/-- Exact requests are granted the blocks that the arena grants. -/
lemma grantedBlocks_eq {A : Arena ℤ} (hlimit : A.limit < 2 ^ 32) (hres : 0 ≤ A.reserve)
    {reqs : List CInt} (h : ∀ r ∈ sbrkRun stackSym reqs c, Exact A r) :
    grantedBlocks (sbrkRun stackSym reqs c) =
        A.granted (reqs.map BitVec.toInt) c.heapPtr.toNat ∧
      ((afterSbrk stackSym reqs c).heapPtr.toNat : ℤ) =
        A.breakAfter (reqs.map BitVec.toInt) c.heapPtr.toNat := by
  induction reqs generalizing c with
  | nil => exact ⟨rfl, rfl⟩
  | cons n reqs ih =>
    unfold sbrkRun at h ⊢
    rw [transcript_cons, List.forall_mem_cons] at h
    obtain ⟨hhead, htail⟩ := h
    obtain ⟨hblocks, hbreak⟩ := ih htail
    have hpost := hhead.post_eq
    unfold sbrkRun at hblocks
    unfold afterSbrk at hbreak ⊢
    rw [hpost] at hblocks hbreak
    rw [transcript_cons, final_cons, hbreak, List.map_cons, Arena.breakAfter_cons]
    refine ⟨?_, rfl⟩
    have hblock := hhead.grantedBlock_eq hlimit hres
    unfold grantedBlocks at hblocks ⊢
    rw [List.filterMap_cons, hblocks, hblock]
    by_cases hA : A.Admits c.heapPtr.toNat n.toInt ∧ 0 < n.toInt
    · rw [if_pos hA, Arena.granted_cons_of_pos _ hA.1 hA.2]
    · rw [if_neg hA, Arena.granted_cons_of_not _ hA]

/-- **The arithmetic of the break.**  With the limit less than `2 ^ 31` above it, a sequence of
requests goes as it would in the arena exactly when all of them are in sight. -/
theorem sbrk_exact_iff (stackSym : Addr) (c : Core) (reqs : List CInt)
    (hle : c.heapPtr.toNat ≤ (c.word stackSym).toNat)
    (hlt : (c.word stackSym).toNat < c.heapPtr.toNat + 2 ^ 31) :
    BreakExact stackSym reqs c ↔
      ∀ r ∈ sbrkRun stackSym reqs c, InSight (arena c.heapPtr (c.word stackSym)) r := by
  have hres := arena_reserve_nonneg c.heapPtr (c.word stackSym)
  have hc : (c.heapPtr.toNat : ℤ) ∈ (arena c.heapPtr (c.word stackSym)).places :=
    ⟨le_refl _, Or.inr rfl⟩
  have hlimit : (arena c.heapPtr (c.word stackSym)).limit < 2 ^ 32 := by
    have hl : (c.word stackSym).toNat < 2 ^ 32 := (c.word stackSym).isLt
    change ((c.word stackSym).toNat : ℤ) < 2 ^ 32
    omega
  rw [← forall_exact_iff hle hlt hc]
  constructor
  · intro h
    exact h.exact
  · intro h
    refine ⟨h, fun r hr => ((places_of_exact hres hc h).1 r hr).2, ?_⟩
    rintro before growing after rfl hgrow c' rfl
    -- the requests of the part are exact too
    have hpart : ∀ r ∈ sbrkRun stackSym growing (afterSbrk stackSym before c),
        Exact (arena c.heapPtr (c.word stackSym)) r := by
      intro r hr
      apply h
      unfold sbrkRun at hr ⊢
      rw [transcript_append, transcript_append, List.mem_append, List.mem_append]
      exact Or.inl (Or.inr hr)
    obtain ⟨hblocks, hbreak⟩ := grantedBlocks_eq hlimit hres hpart
    have hgrow' : ∀ n ∈ growing.map BitVec.toInt, 0 ≤ n := by simpa using hgrow
    have htiles := Arena.tiles_granted (A := arena c.heapPtr (c.word stackSym)) hgrow'
      ((afterSbrk stackSym before c).heapPtr.toNat : ℤ)
    rw [hblocks, hbreak]
    exact ⟨htiles, htiles.pairwise_disjoint fun b hb =>
      le_of_lt (Arena.size_pos_of_mem_granted hb)⟩

end Run

/-- Free memory in SRAM with its limit in a memory of bytes `0x20`. -/
def roomyCore : Core := ⟨fun _ => 0x20, 0x20100000, 0⟩

/-- Requests that grow the break, one that shrinks it between them, and one for all the memory there
is. -/
theorem sbrk_exact_mixed : BreakExact 0 [16, 32, -40, 64, 0x7fffffff] roomyCore :=
  (sbrk_exact_iff 0 roomyCore [16, 32, -40, 64, 0x7fffffff] (by decide) (by decide)).2 (by decide)

/-- A request that shrinks the break at the start of free memory is granted. -/
theorem sbrk_shrinks_below_start :
    ¬ ∀ (stackSym : Addr) (c : Core) (reqs : List CInt),
      c.heapPtr.toNat ≤ (c.word stackSym).toNat →
      (c.word stackSym).toNat < c.heapPtr.toNat + 2 ^ 31 → BreakExact stackSym reqs c := by
  intro h
  have hexact := (h 0 roomyCore [-1] (by decide) (by decide)).exact
    (sbrkCall 0 (-1) roomyCore) List.mem_cons_self
  have hret : (sbrkCall 0 (-1) roomyCore).ret = -1 := by
    rw [exact_sbrkCall, if_neg (by decide)] at hexact
    exact hexact.1
  exact absurd hret (by decide)

end Newlib
