import Msp432Newlib.Heap.Reserve

/-!
# Clients that write into their blocks

Two runs that make the same requests of `_sbrk`, and in which clients store what they like in the
blocks they were granted.  The answers can depend on what they store when a block contains the word
at `_stack`, where `_sbrk` looks for its limit, or `heap_ptr` itself, which is an object of `.data`.
A granted byte lies at least 65538 below the limit, and less than `2 ^ 31` (`Reached.grantable`), so
that neither word is ever in a block exactly when the limit is not too far above `heap_ptr` and not
below `end - 1` (`noninterfering_iff`).
-/

namespace Newlib

open Effects

variable {d : Device} (img : Image d)

/-! ## Stores of clients -/

/-- The word `w` with its byte `i` replaced. -/
def withByte (w : BitVec 32) (i : ℕ) (b : Byte) : BitVec 32 :=
  (w &&& ~~~(0xFF#32 <<< (8 * i))) ||| (b.setWidth 32 <<< (8 * i))

/-- The effect of a client's store.  A store to one of the four bytes of `heap_ptr` changes that
object. -/
def Image.poke (c : Core) (a : Addr) (b : Byte) : Core :=
  if (a - img.heapPtrSym).toNat < 4 then
    { c with heapPtr := withByte c.heapPtr (a - img.heapPtrSym).toNat b }
  else c.setByte a b

/-- A request, and the stores of the clients before the next one. -/
structure Episode where
  nbytes : CInt
  stores : List (Addr × Byte)

/-- The state after the request and after the stores. -/
def Episode.post (e : Episode) (c : Core) : Core :=
  e.stores.foldl (fun c s => img.poke c s.1 s.2) (sbrkCall img.stackSym e.nbytes c).post

/-- The state after a sequence of episodes. -/
def afterEpisodes : List Episode → Core → Core
  | [], c => c
  | e :: es, c => afterEpisodes es (e.post img c)

/-- What the requests of a sequence of episodes return. -/
def answers : List Episode → Core → List Addr
  | [], _ => []
  | e :: es, c => (sbrkCall img.stackSym e.nbytes c).ret :: answers es (e.post img c)

/-- The addresses of the block that a request is granted. -/
def blockOf (r : Call CInt Core Addr) : Set Addr :=
  {a | r.ret ≠ -1 ∧ 0 < r.arg.toInt ∧ (a - r.ret).toNat < r.arg.toNat}

/-- The clients store only in blocks granted before, those in `own` and those of the sequence. -/
def Permitted : Set Addr → List Episode → Core → Prop
  | _, [], _ => True
  | own, e :: es, c =>
    (∀ s ∈ e.stores, s.1 ∈ own ∪ blockOf (sbrkCall img.stackSym e.nbytes c)) ∧
      Permitted (own ∪ blockOf (sbrkCall img.stackSym e.nbytes c)) es (e.post img c)

/-- The answers to a sequence of requests do not depend on what the clients store in their blocks.
-/
def Noninterfering (mem : Addr → Byte) (errno : CInt) : Prop :=
  ∀ es₁ es₂ : List Episode, es₁.map Episode.nbytes = es₂.map Episode.nbytes →
    Permitted img ∅ es₁ (img.boot mem errno) → Permitted img ∅ es₂ (img.boot mem errno) →
      answers img es₁ (img.boot mem errno) = answers img es₂ (img.boot mem errno)

/-! ## Where the words lie -/

/-- An address so far below the limit that a block may contain it. -/
def Grantable (limit a : Addr) : Prop := 65538 ≤ (limit - a).toNat ∧ (limit - a).toNat < 2 ^ 31

/-- The limit is not below `end - 1`, and not more than 65537 above `heap_ptr`. -/
def LimitApart (limit : Addr) : Prop :=
  img.heapStart d ≤ limit.toNat + 1 ∧ limit.toNat ≤ img.heapPtrAt d + 65537

section Words

variable {limit a : Addr} (hd : d.Reserved)
include hd

lemma toNat_stackSym : img.stackSym.toNat = img.stackStart d := by
  have htop := img.stackStart_le
  have hlt := hd.2
  rw [Image.stackSym, BitVec.toNat_ofNat]
  exact Nat.mod_eq_of_lt (by omega)

lemma toNat_heapPtrSym : img.heapPtrSym.toNat = img.heapPtrAt d := by
  have hend := img.heapPtrAt_add_le
  have hle := img.heapStart_le_stackStart
  have htop := img.stackStart_le
  have hlt := hd.2
  rw [Image.heapPtrSym, BitVec.toNat_ofNat]
  exact Nat.mod_eq_of_lt (by omega)

/-- The three symbols lie in this order, close together and low. -/
lemma symbols_spread :
    img.heapPtrSym.toNat + 4 ≤ img.endAddr.toNat ∧ img.endAddr.toNat ≤ img.stackSym.toNat ∧
      img.stackSym.toNat ≤ img.heapPtrSym.toNat + 65536 ∧ img.stackSym.toNat < 2 ^ 30 := by
  have hend := img.heapPtrAt_add_le
  have hle := img.heapStart_le_stackStart
  have htop := img.stackStart_le
  have horigin := img.origin_le_heapPtrAt
  have hlength := hd.1
  have hlt := hd.2
  have hdef : d.stackTop = d.origin + d.length := rfl
  rw [toNat_endAddr hd, toNat_stackSym img hd, toNat_heapPtrSym img hd]
  omega

lemma limitApart_iff : LimitApart img limit ↔
    img.endAddr.toNat ≤ limit.toNat + 1 ∧ limit.toNat ≤ img.heapPtrSym.toNat + 65537 := by
  rw [LimitApart, toNat_endAddr hd, toNat_heapPtrSym img hd]

variable {img}

/-- With the limit apart, no block contains a byte of `heap_ptr`. -/
lemma LimitApart.not_heapPtr (h : LimitApart img limit) (ha : Grantable limit a) :
    ¬ (a - img.heapPtrSym).toNat < 4 := by
  obtain ⟨h₁, h₂, h₃, h₄⟩ := symbols_spread img hd
  rw [limitApart_iff img hd] at h
  obtain ⟨hlow, hhigh⟩ := h
  obtain ⟨hfar, hnear⟩ := ha
  bv_omega

/-- With the limit apart, no block contains a byte of the word at `_stack`. -/
lemma LimitApart.not_stack (h : LimitApart img limit) (ha : Grantable limit a) {i : ℕ}
    (hi : i < 4) : img.stackSym + BitVec.ofNat 32 i ≠ a := by
  obtain ⟨h₁, h₂, h₃, h₄⟩ := symbols_spread img hd
  rw [limitApart_iff img hd] at h
  obtain ⟨hlow, hhigh⟩ := h
  obtain ⟨hfar, hnear⟩ := ha
  rintro rfl
  bv_omega

end Words

/-! ## Blocks away from the two words -/

/-- A break that `_sbrk` can have reached: the first one, or one that passed its test. -/
def Reached (limit h : Addr) : Prop :=
  h = img.endAddr ∨ 65536 < (limit - h).toNat ∧ (limit - h).toNat < 2 ^ 31

/-- What is true between episodes: the limit is the one found first, the break can have been
reached, and the granted bytes can be in blocks. -/
structure Apart (limit : Addr) (own : Set Addr) (c : Core) : Prop where
  word : c.word img.stackSym = limit
  reached : Reached img limit c.heapPtr
  grantable : ∀ a ∈ own, Grantable limit a

section Step

variable {img} {limit : Addr} {own : Set Addr} {c : Core}

/-- A block granted from a break that has been reached contains grantable bytes only. -/
lemma Reached.grantable (hd : d.Reserved) (hlimit : LimitApart img limit) {h a : Addr} {n : CInt}
    (hh : Reached img limit h) (hfit : Fits limit h n) (hn : 0 < n.toInt)
    (ha : (a - h).toNat < n.toNat) : Grantable limit a := by
  obtain ⟨h₁, h₂, h₃, h₄⟩ := symbols_spread img hd
  rw [limitApart_iff img hd] at hlimit
  obtain ⟨hlow, hhigh⟩ := hlimit
  rw [fits_iff] at hfit
  have hsmall : n.toNat < 2 ^ 31 := by
    rw [BitVec.toInt_eq_toNat_cond] at hn
    split at hn
    · omega
    · have hlt : n.toNat < 2 ^ 32 := n.isLt
      omega
  unfold Grantable
  rcases hh with rfl | hh
  · -- from the first break, only requests that are not positive pass
    bv_omega
  · bv_omega

/-- With the limit apart, a store to a grantable byte changes neither word. -/
lemma Apart.poke (hd : d.Reserved) (hlimit : LimitApart img limit) (hc : Apart img limit own c)
    {a : Addr} (ha : Grantable limit a) (b : Byte) : Apart img limit own (img.poke c a b) := by
  have hpoke : img.poke c a b = c.setByte a b := if_neg (hlimit.not_heapPtr hd ha)
  refine ⟨?_, ?_, hc.grantable⟩
  · rw [hpoke, ← hc.word]
    apply Arm.Mem.word_congr
    intro i hi
    rw [setByte_mem, if_neg (hlimit.not_stack hd ha hi)]
  · rw [hpoke, setByte_heapPtr]
    exact hc.reached

/-- The words stay apart from the blocks through the stores of an episode, and the break is not
moved by them. -/
lemma Apart.stores (hd : d.Reserved) (hlimit : LimitApart img limit) (hc : Apart img limit own c)
    {stores : List (Addr × Byte)} (hs : ∀ s ∈ stores, s.1 ∈ own) :
    Apart img limit own (stores.foldl (fun c s => img.poke c s.1 s.2) c) ∧
      (stores.foldl (fun c s => img.poke c s.1 s.2) c).heapPtr = c.heapPtr := by
  induction stores generalizing c with
  | nil => exact ⟨hc, rfl⟩
  | cons s stores ih =>
    rw [List.forall_mem_cons] at hs
    have hgrant := hc.grantable s.1 hs.1
    obtain ⟨hapart, hsame⟩ := ih (hc.poke hd hlimit hgrant s.2) hs.2
    refine ⟨hapart, ?_⟩
    have hpoke : img.poke c s.1 s.2 = c.setByte s.1 s.2 := if_neg (hlimit.not_heapPtr hd hgrant)
    rw [List.foldl_cons, hsame, hpoke, setByte_heapPtr]

/-- The words stay apart from the blocks through a request. -/
lemma Apart.request (hd : d.Reserved) (hlimit : LimitApart img limit) (hc : Apart img limit own c)
    (n : CInt) : Apart img limit (own ∪ blockOf (sbrkCall img.stackSym n c))
      (sbrkCall img.stackSym n c).post := by
  have hword := (sbrk_word img.stackSym n c img.stackSym).trans hc.word
  rcases sbrk_cases img.stackSym n c with ⟨hfit, hret, hpost⟩ | ⟨-, hret, hpost⟩
  · rw [hc.word] at hfit
    refine ⟨hword, ?_, ?_⟩
    · rw [hpost]
      exact Or.inr (fits_iff.1 hfit)
    · rintro a (ha | ⟨-, hn, ha⟩)
      · exact hc.grantable a ha
      · rw [hret] at ha
        exact hc.reached.grantable hd hlimit hfit hn ha
  · refine ⟨hword, ?_, ?_⟩
    · rw [hpost]
      exact hc.reached
    · rintro a (ha | ⟨hne, -, -⟩)
      · exact hc.grantable a ha
      · exact absurd hret hne

/-- What a request answers and does to the break depends on the limit and the break only. -/
lemma sbrk_congr {c' : Core} {stackSym : Addr} (hword : c.word stackSym = c'.word stackSym)
    (hbreak : c.heapPtr = c'.heapPtr) (n : CInt) :
    (sbrkCall stackSym n c).ret = (sbrkCall stackSym n c').ret ∧
      (sbrkCall stackSym n c).post.heapPtr = (sbrkCall stackSym n c').post.heapPtr := by
  unfold sbrkCall call
  rw [sbrk_eval, sbrk_eval, hword, hbreak]
  split
  · exact ⟨rfl, rfl⟩
  · exact ⟨rfl, rfl⟩

end Step

/-- **Run lemma.**  With the limit apart, two runs with the same requests get the same answers. -/
lemma answers_eq (hd : d.Reserved) {limit : Addr} (hlimit : LimitApart img limit)
    {es₁ es₂ : List Episode} (hreq : es₁.map Episode.nbytes = es₂.map Episode.nbytes)
    {own₁ own₂ : Set Addr} {c₁ c₂ : Core} (h₁ : Apart img limit own₁ c₁)
    (h₂ : Apart img limit own₂ c₂) (hbreak : c₁.heapPtr = c₂.heapPtr)
    (hp₁ : Permitted img own₁ es₁ c₁) (hp₂ : Permitted img own₂ es₂ c₂) :
    answers img es₁ c₁ = answers img es₂ c₂ := by
  induction es₁ generalizing es₂ own₁ own₂ c₁ c₂ with
  | nil =>
    cases es₂ with
    | nil => rfl
    | cons e₂ es₂ => simp at hreq
  | cons e₁ es₁ ih =>
    cases es₂ with
    | nil => simp at hreq
    | cons e₂ es₂ =>
      rw [List.map_cons, List.map_cons, List.cons.injEq] at hreq
      obtain ⟨hn, hrest⟩ := hreq
      obtain ⟨hret, hpost⟩ := sbrk_congr (h₁.word.trans h₂.word.symm) hbreak e₁.nbytes
      obtain ⟨hstores₁, hsame₁⟩ := (h₁.request hd hlimit e₁.nbytes).stores hd hlimit hp₁.1
      obtain ⟨hstores₂, hsame₂⟩ := (h₂.request hd hlimit e₂.nbytes).stores hd hlimit hp₂.1
      have htail := ih hrest hstores₁ hstores₂ (by rw [hsame₁, hsame₂, hpost, hn]) hp₁.2 hp₂.2
      unfold answers
      rw [hret, hn]
      exact congrArg _ htail

/-! ## Blocks that contain one of the words -/

section Interference

variable {img}

lemma answers_append (es es' : List Episode) (c : Core) :
    answers img (es ++ es') c = answers img es c ++ answers img es' (afterEpisodes img es c) := by
  induction es generalizing c with
  | nil => rfl
  | cons e es ih => simp [answers, afterEpisodes, ih]

/-- A request at the end, with no store after it, changes nothing about permission. -/
lemma Permitted.snoc {own : Set Addr} {es : List Episode} {c : Core} (h : Permitted img own es c)
    (n : CInt) : Permitted img own (es ++ [⟨n, []⟩]) c := by
  induction es generalizing own c with
  | nil => exact ⟨by simp, trivial⟩
  | cons e es ih => exact ⟨h.1, ih h.2⟩

/-- Two permitted runs with the same requests, after which some request has two answers. -/
lemma not_noninterfering {mem : Addr → Byte} {errno : CInt} (es₁ es₂ : List Episode)
    (hreq : es₁.map Episode.nbytes = es₂.map Episode.nbytes)
    (h₁ : Permitted img ∅ es₁ (img.boot mem errno)) (h₂ : Permitted img ∅ es₂ (img.boot mem errno))
    (hne : ∃ n, (sbrkCall img.stackSym n (afterEpisodes img es₁ (img.boot mem errno))).ret ≠
      (sbrkCall img.stackSym n (afterEpisodes img es₂ (img.boot mem errno))).ret) :
    ¬ Noninterfering img mem errno := by
  obtain ⟨n, hn⟩ := hne
  intro h
  have hans := h (es₁ ++ [⟨n, []⟩]) (es₂ ++ [⟨n, []⟩]) (by simp [hreq]) (h₁.snoc n) (h₂.snoc n)
  rw [answers_append, answers_append] at hans
  have hlen : ∀ (es : List Episode) (c : Core), (answers img es c).length = es.length := by
    intro es
    induction es with
    | nil => exact fun _ => rfl
    | cons e es ih => exact fun c => by simp [answers, ih]
  have hlast := (List.append_inj hans (by
    rw [hlen, hlen]
    simpa using congrArg List.length hreq)).2
  exact hn (List.cons.inj hlast).1

/-- Two breaks get different answers to some request. -/
lemma ret_ne_of_heapPtr_ne {stackSym : Addr} {c c' : Core} (hne : c.heapPtr ≠ c'.heapPtr)
    (hlast : c.heapPtr ≠ -1) :
    ∃ n, (sbrkCall stackSym n c).ret ≠ (sbrkCall stackSym n c').ret := by
  refine ⟨c.word stackSym - 65537 - c.heapPtr, ?_⟩
  have hfit : Fits (c.word stackSym) c.heapPtr (c.word stackSym - 65537 - c.heapPtr) := by
    rw [fits_iff]
    bv_omega
  rw [(sbrk_granted hfit).1]
  rcases sbrk_cases stackSym (c.word stackSym - 65537 - c.heapPtr) c' with
    ⟨-, hret', -⟩ | ⟨-, hret', -⟩
  · rw [hret']
    exact hne
  · rw [hret']
    exact hlast

/-- Two limits one apart get different answers to some request. -/
lemma ret_ne_of_word_ne {stackSym : Addr} {c c' : Core}
    (hword : c'.word stackSym = c.word stackSym + 1) (hbreak : c'.heapPtr = c.heapPtr)
    (hlast : c.heapPtr ≠ -1) :
    ∃ n, (sbrkCall stackSym n c).ret ≠ (sbrkCall stackSym n c').ret := by
  refine ⟨c.word stackSym - 65536 - c.heapPtr, ?_⟩
  have hrefuse : ¬ Fits (c.word stackSym) c.heapPtr (c.word stackSym - 65536 - c.heapPtr) := by
    rw [fits_iff]
    bv_omega
  have hfit : Fits (c'.word stackSym) c'.heapPtr (c.word stackSym - 65536 - c.heapPtr) := by
    rw [fits_iff, hword, hbreak]
    bv_omega
  rw [(sbrk_refused hrefuse).1, (sbrk_granted hfit).1, hbreak]
  exact hlast.symm

/-- The lowest byte of a word with its lowest byte replaced. -/
lemma withByte_setWidth (w : BitVec 32) (b : Byte) : (withByte w 0 b).setWidth 8 = b := by
  unfold withByte
  ext i hi
  simp

/-- A word with its lowest byte one is one more than with its lowest byte zero. -/
lemma word_setByte_one (c : Core) (a : Addr) :
    (c.setByte a 1).word a = (c.setByte a 0).word a + 1 := by
  have h₁ : a + 1 ≠ a := by bv_omega
  have h₂ : a + 2 ≠ a := by bv_omega
  have h₃ : a + 3 ≠ a := by bv_omega
  simp only [Core.word, Arm.Mem.word, setByte_mem, h₁, h₂, h₃, if_true, if_false]
  bv_omega

/-- A limit far enough above `heap_ptr`: the break is moved down to `heap_ptr`, which is then part
of a block. -/
lemma interferes_at_heapPtr (hd : d.Reserved) {mem : Addr → Byte} {errno : CInt} {limit : Addr}
    (hlimit : (img.boot mem errno).word img.stackSym = limit)
    (hlow : img.heapPtrSym.toNat + 65538 ≤ limit.toNat)
    (hhigh : limit.toNat < img.heapPtrSym.toNat + 2 ^ 31) : ¬ Noninterfering img mem errno := by
  obtain ⟨h₁, h₂, h₃, h₄⟩ := symbols_spread img hd
  have hmove : img.endAddr + (img.heapPtrSym - img.endAddr) = img.heapPtrSym := by bv_omega
  have hdown : (sbrkCall img.stackSym (img.heapPtrSym - img.endAddr) (img.boot mem errno)).post =
      ⟨mem, img.heapPtrSym, errno⟩ := by
    have hfit : Fits ((img.boot mem errno).word img.stackSym) img.endAddr
        (img.heapPtrSym - img.endAddr) := by
      rw [hlimit, fits_iff, hmove]
      bv_omega
    have hpost := (sbrk_granted (c := img.boot mem errno) hfit).2
    rw [hpost]
    exact congrArg (fun a => Core.mk mem a errno) hmove
  -- the block of one byte at `heap_ptr`
  have hblock : (sbrkCall img.stackSym 1 ⟨mem, img.heapPtrSym, errno⟩).ret = img.heapPtrSym ∧
      (sbrkCall img.stackSym 1 ⟨mem, img.heapPtrSym, errno⟩).post =
        ⟨mem, img.heapPtrSym + 1, errno⟩ := by
    have hfit : Fits ((img.boot mem errno).word img.stackSym) img.heapPtrSym 1 := by
      rw [hlimit, fits_iff]
      bv_omega
    exact sbrk_granted (c := ⟨mem, img.heapPtrSym, errno⟩) hfit
  have hafter : ∀ b, (afterEpisodes img [⟨img.heapPtrSym - img.endAddr, []⟩,
      ⟨1, [(img.heapPtrSym, b)]⟩] (img.boot mem errno)).heapPtr =
        withByte (img.heapPtrSym + 1) 0 b := by
    intro b
    simp only [afterEpisodes, Episode.post, List.foldl_nil, List.foldl_cons]
    rw [hdown, hblock.2, Image.poke, if_pos (by simp)]
    simp
  have hperm : ∀ b, Permitted img ∅ [⟨img.heapPtrSym - img.endAddr, []⟩,
      ⟨1, [(img.heapPtrSym, b)]⟩] (img.boot mem errno) := by
    intro b
    refine ⟨by simp, ?_, trivial⟩
    intro s hs
    obtain rfl := List.mem_singleton.1 hs
    refine Or.inr ?_
    simp only [Episode.post, List.foldl_nil]
    rw [hdown]
    refine ⟨?_, ?_, ?_⟩
    · rw [hblock.1]
      bv_omega
    · change 0 < (1 : CInt).toInt
      decide
    · rw [hblock.1]
      simp [call]
  refine not_noninterfering _ _ ?_ (hperm 0) (hperm 1) (ret_ne_of_heapPtr_ne ?_ ?_)
  · rfl
  · rw [hafter, hafter]
    intro heq
    have hbyte := congrArg (BitVec.setWidth 8) heq
    rw [withByte_setWidth, withByte_setWidth] at hbyte
    exact absurd hbyte (by decide)
  · rw [hafter]
    intro heq
    have hbyte := congrArg (BitVec.setWidth 8) heq
    rw [withByte_setWidth] at hbyte
    exact absurd hbyte (by decide)

/-- A first block that contains the symbol `_stack`: what is stored there moves the limit. -/
lemma interferes_at_stack (hd : d.Reserved) {mem : Addr → Byte} {errno : CInt} {n : CInt}
    (hfit : Fits ((img.boot mem errno).word img.stackSym) img.endAddr n) (hn : n.toNat < 2 ^ 31)
    (hcover : (img.stackSym - img.endAddr).toNat < n.toNat) : ¬ Noninterfering img mem errno := by
  obtain ⟨h₁, h₂, h₃, h₄⟩ := symbols_spread img hd
  have hblock : (sbrkCall img.stackSym n (img.boot mem errno)).ret = img.endAddr ∧
      (sbrkCall img.stackSym n (img.boot mem errno)).post =
        ⟨mem, img.endAddr + n, errno⟩ := sbrk_granted (c := img.boot mem errno) hfit
  have hpoke : ∀ c b, img.poke c img.stackSym b = c.setByte img.stackSym b := by
    intro c b
    apply if_neg
    bv_omega
  have hafter : ∀ b, afterEpisodes img [⟨n, [(img.stackSym, b)]⟩] (img.boot mem errno) =
      Core.setByte ⟨mem, img.endAddr + n, errno⟩ img.stackSym b := by
    intro b
    simp only [afterEpisodes, Episode.post, List.foldl_nil, List.foldl_cons]
    rw [hblock.2, hpoke]
  have hperm : ∀ b, Permitted img ∅ [⟨n, [(img.stackSym, b)]⟩] (img.boot mem errno) := by
    intro b
    refine ⟨?_, trivial⟩
    intro s hs
    obtain rfl := List.mem_singleton.1 hs
    refine Or.inr ⟨?_, ?_, ?_⟩
    · rw [hblock.1]
      bv_omega
    · change 0 < n.toInt
      rw [BitVec.toInt_eq_toNat_of_lt (by omega)]
      omega
    · rw [hblock.1]
      exact hcover
  refine not_noninterfering _ _ ?_ (hperm 0) (hperm 1) (ret_ne_of_word_ne ?_ ?_ ?_)
  · rfl
  · rw [hafter, hafter, word_setByte_one]
  · rw [hafter, hafter, setByte_heapPtr, setByte_heapPtr]
  · rw [hafter, setByte_heapPtr]
    bv_omega

/-- A limit that is so far above `end`, or in front of it, that the first block can be large. -/
lemma exists_large_block (hd : d.Reserved) {limit : Addr} (h : ¬ LimitApart img limit)
    (h' : ¬ (img.heapPtrSym.toNat + 65538 ≤ limit.toNat ∧
      limit.toNat < img.heapPtrSym.toNat + 2 ^ 31)) :
    ∃ n : CInt, Fits limit img.endAddr n ∧ n.toNat < 2 ^ 31 ∧
      (img.stackSym - img.endAddr).toNat < n.toNat := by
  obtain ⟨h₁, h₂, h₃, h₄⟩ := symbols_spread img hd
  rw [limitApart_iff img hd] at h
  by_cases hfar : 2 ^ 31 + 65536 ≤ (limit - img.endAddr).toNat
  · refine ⟨0x7fffffff, ?_, by decide, ?_⟩
    · rw [fits_iff]
      bv_omega
    · bv_omega
  · refine ⟨limit - img.endAddr - 65537, ?_, ?_, ?_⟩
    · rw [fits_iff]
      bv_omega
    · bv_omega
    · bv_omega

end Interference

/-- On a device whose region is no larger than the reserve, the answers depend on what clients store
exactly when the limit is not apart from the blocks. -/
lemma noninterfering_iff_limitApart (hd : d.Reserved) (mem : Addr → Byte) (errno : CInt) :
    Noninterfering img mem errno ↔ LimitApart img ((img.boot mem errno).word img.stackSym) := by
  constructor
  · intro h
    by_contra hlimit
    by_cases hnear : img.heapPtrSym.toNat + 65538 ≤
          ((img.boot mem errno).word img.stackSym).toNat ∧
        ((img.boot mem errno).word img.stackSym).toNat < img.heapPtrSym.toNat + 2 ^ 31
    · exact interferes_at_heapPtr hd rfl hnear.1 hnear.2 h
    · obtain ⟨n, hfit, hn, hcover⟩ := exists_large_block hd hlimit hnear
      exact interferes_at_stack hd hfit hn hcover h
  · intro hlimit es₁ es₂ hreq hp₁ hp₂
    have hboot : Apart img ((img.boot mem errno).word img.stackSym) ∅ (img.boot mem errno) :=
      ⟨rfl, Or.inl rfl, by simp⟩
    exact answers_eq img hd hlimit hreq hboot hboot rfl hp₁ hp₂

/-- **Noninterference.**  In every image of either device and with every contents of its memory, the
answers of `_sbrk` do not depend on what clients store in their blocks exactly when the word at
`_stack` is not below `end - 1` and not more than 65537 above the address of `heap_ptr`. -/
theorem noninterfering_iff (hd : d ∈ devices) (mem : Addr → Byte) (errno : CInt) :
    Noninterfering img mem errno ↔ LimitApart img ((img.boot mem errno).word img.stackSym) :=
  noninterfering_iff_limitApart img (reserved_of_mem hd) mem errno

/-- In the smallest image, memory that holds `0x20010000` at `_stack`, which is `__StackTop`, keeps
the answers independent. -/
theorem smallest_image_apart :
    Noninterfering smallestImage (fun a => if a = 0x2000000A then 1 else
      if a = 0x2000000B then 0x20 else 0) 0 :=
  (noninterfering_iff smallestImage List.mem_cons_self _ 0).2
    ⟨by decide, by decide⟩

/-- In the smallest image `_stack` lies right behind `end`, and memory that holds `0x20202020` there
grants it to the first client. -/
theorem smallest_image_interferes :
    ¬ ∀ d ∈ devices, ∀ (img : Image d) (mem : Addr → Byte) (errno : CInt),
      Noninterfering img mem errno := by
  intro h
  have hmem : msp432p401r ∈ devices := List.mem_cons_self
  have hlimit := (noninterfering_iff_limitApart smallestImage (reserved_of_mem hmem)
    (fun _ => 0x20) 0).1 (h _ hmem smallestImage (fun _ => 0x20) 0)
  exact absurd hlimit.2 (by decide)

end Newlib
