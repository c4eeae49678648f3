import Msp432Newlib.Startup.CommandLine
import Msp432Newlib.Streams.Words

/-!
# What `main` finds in `argv`

The basic blocks of the command line code split the line into the words of `Streams.words`, each in
its place in the line buffer, and leave the array of pointers to them on the stack.  The invariant
of the scanning loop is `Progress`: the pointers on the stack, the words already finished in the
buffer, and the memory that has not been touched.  The loop behind it turns the pointers around
(`swap_run`).  The results carry over to the code through `parseArgs_respects`.
-/

namespace Newlib.Startup

open Arm StateTransition Streams

/-- The characters with a meaning in a command line. -/
def cmdline : Quoting (BitVec 8) := ⟨0x20, [0x22, 0x27], by decide⟩

/-- The arguments in a command line. -/
abbrev args (line : List (BitVec 8)) : List (List (BitVec 8)) := words cmdline line

/-- The stack pointer below NULL and `n` pointers, when it was `sp` above them. -/
def below (sp : Word) (n : ℕ) : Word := sp - BitVec.ofNat 32 (4 * (n + 1))

/-- There is room below `sp` for the pointers to the arguments of the line at `a`, and the line is
somewhere else. -/
structure Room (a sp : Word) (line : List (BitVec 8)) : Prop where
  line_lt : a.toNat + line.length < 2 ^ 32
  stack_le : 4 * ((args line).length + 1) ≤ sp.toNat
  apart : a.toNat + line.length < sp.toNat - 4 * ((args line).length + 1) ∨ sp.toNat ≤ a.toNat

/-- The word is among the first `n` bytes at `a`, with a NUL behind it. -/
def Stored (m : Mem) (a : Word) (n : ℕ) (arg : Word × List (BitVec 8)) : Prop :=
  ∃ i, arg.1 = a + BitVec.ofNat 32 i ∧ i + arg.2.length < n ∧ m.Holds arg.1 (arg.2 ++ [0])

/-- Finished words stay where the buffer does not change. -/
lemma Stored.congr {m m' : Mem} {a : Word} {n n' : ℕ} {arg : Word × List (BitVec 8)}
    (h : Stored m a n arg) (hn : n ≤ n')
    (heq : ∀ i, i < n → m' (a + BitVec.ofNat 32 i) = m (a + BitVec.ofNat 32 i)) :
    Stored m' a n' arg := by
  obtain ⟨i, hi, hlt, hm⟩ := h
  rw [hi] at hm
  refine ⟨i, hi, Nat.lt_of_lt_of_le hlt hn, ?_⟩
  rw [hi]
  refine hm.congr_offset fun j _ hj => heq j ?_
  rw [List.length_append, List.length_singleton] at hj
  omega

section Scanning

variable {a sp : Word} {line : List (BitVec 8)} {m₀ : Mem}

/-- How far the code has come: pointers `ptrs` on the stack, newest first, and words `found` in the
first `n` bytes of the line buffer. -/
structure Progress (a sp : Word) (line : List (BitVec 8)) (m₀ : Mem) (n : ℕ) (ptrs : List Word)
    (found : List (Word × List (BitVec 8))) (m : Mem) : Prop where
  pointers : m.HoldsWords (below sp ptrs.length) (ptrs ++ [0])
  stored : ∀ arg ∈ found, Stored m a n arg
  /-- Nothing else changes. -/
  frame : ∀ x, Beyond a line.length x →
    Beyond (below sp (args line).length) (4 * ((args line).length + 1)) x → m x = m₀ x

/-- The line buffer and the part of the stack that is used are apart. -/
lemma Room.ne (h : Room a sp line) {n i j : ℕ} (hn : n ≤ (args line).length)
    (hi : i ≤ line.length) (hj : j < 4 * (n + 1)) :
    a + BitVec.ofNat 32 i ≠ below sp n + BitVec.ofNat 32 j := by
  have hlt := h.line_lt
  have hle := h.stack_le
  have hapart := h.apart
  unfold below
  bv_omega

/-- A pointer is pushed. -/
lemma Progress.push (hroom : Room a sp line) {n : ℕ} {ptrs : List Word}
    {found : List (Word × List (BitVec 8))} {m : Mem}
    (h : Progress a sp line m₀ n ptrs found m) (hlen : ptrs.length < (args line).length)
    (hn : n ≤ line.length + 1) (p : Word) :
    Progress a sp line m₀ n (p :: ptrs) found (m.setWord (below sp ptrs.length - 4) p) ∧
      ∀ i, i ≤ line.length → m.setWord (below sp ptrs.length - 4) p (a + BitVec.ofNat 32 i) =
        m (a + BitVec.ofNat 32 i) := by
  have hle := hroom.stack_le
  have hsp : below sp ptrs.length - 4 = below sp (p :: ptrs).length := by
    unfold below
    rw [List.length_cons]
    bv_omega
  have hline : ∀ i, i ≤ line.length → m.setWord (below sp ptrs.length - 4) p
      (a + BitVec.ofNat 32 i) = m (a + BitVec.ofNat 32 i) := by
    intro i hi
    refine Mem.setWord_of_beyond _ ?_
    rw [hsp]
    have hne := fun j hj => hroom.ne (n := ptrs.length + 1) (j := j) hlen hi hj
    have h0 := hne 0 (by omega)
    have h1 := hne 1 (by omega)
    have h2 := hne 2 (by omega)
    have h3 := hne 3 (by omega)
    rw [List.length_cons]
    unfold Beyond
    bv_omega
  refine ⟨⟨?_, ?_, ?_⟩, hline⟩
  · rw [← hsp]
    refine h.pointers.push p ?_
    rw [List.length_append, List.length_singleton]
    omega
  · intro arg harg
    exact (h.stored arg harg).congr (Nat.le_refl n) fun i hi => hline i (by omega)
  · intro x hx hx'
    rw [← h.frame x hx hx']
    refine Mem.setWord_of_beyond _ ?_
    unfold Beyond below at hx' ⊢
    bv_omega

/-- A NUL is written behind a word. -/
lemma Progress.close (hroom : Room a sp line) {n i : ℕ} {ptrs : List Word}
    {found : List (Word × List (BitVec 8))} {m : Mem}
    (h : Progress a sp line m₀ n ptrs found m) (hlen : ptrs.length ≤ (args line).length)
    (hn : n ≤ i) (hi : i < line.length) :
    Progress a sp line m₀ n ptrs found (m.setByte (a + BitVec.ofNat 32 i) 0) := by
  have hlt := hroom.line_lt
  refine ⟨?_, ?_, ?_⟩
  · refine h.pointers.congr fun j hj => Mem.setByte_of_ne _ ?_
    rw [List.length_append, List.length_singleton] at hj
    exact (hroom.ne hlen (Nat.le_of_lt hi) hj).symm
  · intro arg harg
    refine (h.stored arg harg).congr (Nat.le_refl n) fun j hj => Mem.setByte_of_ne _ ?_
    bv_omega
  · intro x hx hx'
    rw [← h.frame x hx hx']
    refine Mem.setByte_of_ne _ ?_
    unfold Beyond at hx
    bv_omega

/-- A word has been found. -/
lemma Progress.add {n n' i : ℕ} {ptrs : List Word} {found : List (Word × List (BitVec 8))}
    {m : Mem} {w : List (BitVec 8)} (h : Progress a sp line m₀ n ptrs found m) (hn : n ≤ n')
    (hi : i + w.length < n') (hm : m.Holds (a + BitVec.ofNat 32 i) (w ++ [0])) :
    Progress a sp line m₀ n' ptrs ((a + BitVec.ofNat 32 i, w) :: found) m := by
  refine ⟨h.pointers, ?_, h.frame⟩
  intro arg harg
  rw [List.mem_cons] at harg
  rcases harg with rfl | harg
  · exact ⟨i, rfl, hi, hm⟩
  · exact (h.stored arg harg).congr hn fun _ _ => rfl

/-- A NUL takes the place of the character behind a word. -/
lemma Progress.finish (hroom : Room a sp line) {n i j : ℕ} {ptrs : List Word}
    {found : List (Word × List (BitVec 8))} {w rest : List (BitVec 8)} {m : Mem}
    (h : Progress a sp line m₀ n ptrs found m) (hlen : ptrs.length ≤ (args line).length)
    (hn : n ≤ i) (hij : i + w.length = j) (hj : j + (rest.length + 1) = line.length)
    (hword : m.Holds (a + BitVec.ofNat 32 i) w)
    (hrest : m.Holds (a + BitVec.ofNat 32 (j + 1)) (rest ++ [0])) :
    Progress a sp line m₀ (j + 1) ptrs ((a + BitVec.ofNat 32 i, w) :: found)
        (m.setByte (a + BitVec.ofNat 32 j) 0) ∧
      (m.setByte (a + BitVec.ofNat 32 j) 0).Holds (a + BitVec.ofNat 32 (j + 1)) (rest ++ [0]) := by
  have hlt := hroom.line_lt
  have hclosed : (m.setByte (a + BitVec.ofNat 32 j) 0).Holds (a + BitVec.ofNat 32 i)
      (w ++ [0]) := by
    refine Mem.holds_append.2 ⟨hword.congr fun k hk => Mem.setByte_of_ne _ ?_, ?_, trivial⟩
    · bv_omega
    · have haddr : a + BitVec.ofNat 32 i + BitVec.ofNat 32 w.length = a + BitVec.ofNat 32 j := by
        bv_omega
      rw [haddr]
      exact Mem.setByte_self _ _ _
  refine ⟨(h.close hroom hlen (by omega) (by omega)).add (by omega) (by omega) hclosed, ?_⟩
  refine hrest.congr fun k hk => Mem.setByte_of_ne _ ?_
  rw [List.length_append, List.length_singleton] at hk
  bv_omega

end Scanning

/-! ## The scanning loop -/

lemma Progress.mono {a sp : Word} {line : List (BitVec 8)} {m₀ m : Mem} {n n' : ℕ}
    {ptrs : List Word} {found : List (Word × List (BitVec 8))}
    (h : Progress a sp line m₀ n ptrs found m) (hn : n ≤ n') :
    Progress a sp line m₀ n' ptrs found m :=
  ⟨h.pointers, fun arg harg => (h.stored arg harg).congr hn fun _ _ => rfl, h.frame⟩

section Run

variable {a sp : Word} {line : List (BitVec 8)} {m₀ m : Mem}

/-- Characters of a word are passed over. -/
lemma scan_run {count cur p : Word} {quote : BitVec 8} {w : List (BitVec 8)}
    (hm : m.Holds cur w) (hq : quote ∉ w) (h0 : 0 ∉ w) :
    Reaches Blocks.next (.scan count cur quote p m)
      (.scan count (cur + BitVec.ofNat 32 w.length) quote p m) := by
  induction w generalizing cur with
  | nil =>
    simp only [List.length_nil, BitVec.add_zero]
    exact .refl
  | cons c w ih =>
    rw [List.mem_cons, not_or] at hq h0
    have hstep : (Blocks.scan count cur quote p m).next =
        some (.scan count (cur + 1) quote p m) := by
      have hc0 : ¬ m cur = 0 := by
        rw [hm.1]
        exact Ne.symm h0.1
      have hcq : ¬ m cur = quote := by
        rw [hm.1]
        exact Ne.symm hq.1
      simp only [Blocks.next, hc0, hcq, if_false]
    have haddr : cur + BitVec.ofNat 32 (c :: w).length =
        cur + 1 + BitVec.ofNat 32 w.length := by
      rw [List.length_cons]
      bv_omega
    rw [haddr]
    exact .head hstep (ih hm.2 hq.2 h0.2)

/-- What the scanning loop still has to do: from the state the code gets to `.LC12`, with the words
`ws` added to those found. -/
def Collects (a sp : Word) (line : List (BitVec 8)) (m₀ : Mem) (b : Blocks)
    (found : List (Word × List (BitVec 8))) (ws : List (List (BitVec 8))) : Prop :=
  ∃ m' found', Reaches Blocks.next b
      (.collect (BitVec.ofNat 32 (args line).length) (below sp (args line).length) m') ∧
    Progress a sp line m₀ (line.length + 1) (found'.map Prod.fst) found' m' ∧
    found'.map Prod.snd = ws.reverse ++ found.map Prod.snd

lemma Collects.head {b b' : Blocks} {found : List (Word × List (BitVec 8))}
    {ws : List (List (BitVec 8))} (hb : b.next = some b')
    (h : Collects a sp line m₀ b' found ws) : Collects a sp line m₀ b found ws := by
  obtain ⟨m', found', hrun, hrest⟩ := h
  exact ⟨m', found', .head hb hrun, hrest⟩

/-- A word is scanned up to the character `quote` or the end of the line, and then the rest. -/
lemma word_run (hroom : Room a sp line) (found : List (Word × List (BitVec 8))) {n i j : ℕ}
    {quote : BitVec 8} {w tail rest : List (BitVec 8)} (hq0 : quote ≠ 0)
    (hprog : Progress a sp line m₀ n ((a + BitVec.ofNat 32 i) :: found.map Prod.fst) found m)
    (hlen : found.length + 1 + (args rest).length = (args line).length)
    (hn : n ≤ i) (hij : i + w.length = j) (hj : j + tail.length = line.length)
    (hm : m.Holds (a + BitVec.ofNat 32 i) (w ++ tail ++ [0])) (hq : quote ∉ w) (h0 : 0 ∉ w)
    (htail : (tail = [] ∧ rest = []) ∨ tail = quote :: rest)
    (ih : ∀ m', Progress a sp line m₀ (j + 1)
        ((a + BitVec.ofNat 32 i) :: found.map Prod.fst) ((a + BitVec.ofNat 32 i, w) :: found) m' →
      m'.Holds (a + BitVec.ofNat 32 (j + 1)) (rest ++ [0]) → rest.length < tail.length →
      Collects a sp line m₀ (.skip (BitVec.ofNat 32 (found.length + 1))
        (a + BitVec.ofNat 32 (j + 1)) (below sp (found.length + 1)) m')
        ((a + BitVec.ofNat 32 i, w) :: found) (args rest)) :
    Collects a sp line m₀ (.scan (BitVec.ofNat 32 (found.length + 1)) (a + BitVec.ofNat 32 i) quote
      (below sp (found.length + 1)) m) found (w :: args rest) := by
  rw [List.append_assoc, Mem.holds_append] at hm
  have haddr : a + BitVec.ofNat 32 i + BitVec.ofNat 32 w.length = a + BitVec.ofNat 32 j := by
    bv_omega
  rw [haddr] at hm
  have hscan : Reaches Blocks.next
      (.scan (BitVec.ofNat 32 (found.length + 1)) (a + BitVec.ofNat 32 i) quote
        (below sp (found.length + 1)) m)
      (.scan (BitVec.ofNat 32 (found.length + 1)) (a + BitVec.ofNat 32 i +
        BitVec.ofNat 32 w.length) quote (below sp (found.length + 1)) m) := scan_run hm.1 hq h0
  rw [haddr] at hscan
  have hptrs : ((a + BitVec.ofNat 32 i) :: found.map Prod.fst).length = found.length + 1 := by simp
  rcases htail with ⟨rfl, rfl⟩ | rfl
  · -- the line ends the word
    have hend : m (a + BitVec.ofNat 32 j) = 0 := hm.2.1
    have hstep : (Blocks.scan (BitVec.ofNat 32 (found.length + 1)) (a + BitVec.ofNat 32 j) quote
        (below sp (found.length + 1)) m).next =
        some (.collect (BitVec.ofNat 32 (args line).length) (below sp (args line).length) m) := by
      have hlen' : found.length + 1 = (args line).length := by simpa using hlen
      simp only [Blocks.next, hend, if_true, hlen']
    refine ⟨m, (a + BitVec.ofNat 32 i, w) :: found, hscan.tail hstep, ?_, by simp⟩
    rw [List.length_nil, Nat.add_zero] at hj
    refine hprog.add (by omega) (by omega) (Mem.holds_append.2 ⟨hm.1, ?_⟩)
    rw [haddr]
    exact ⟨hend, trivial⟩
  · -- the character `quote` ends the word, and a NUL takes its place
    have hfound := hm.2
    rw [List.cons_append, Mem.holds_cons] at hfound
    obtain ⟨hquote, hrest⟩ := hfound
    rw [List.length_cons] at hj
    have hsucc : a + BitVec.ofNat 32 j + 1 = a + BitVec.ofNat 32 (j + 1) := by bv_omega
    have hstep : (Blocks.scan (BitVec.ofNat 32 (found.length + 1)) (a + BitVec.ofNat 32 j) quote
        (below sp (found.length + 1)) m).next =
        some (.skip (BitVec.ofNat 32 (found.length + 1)) (a + BitVec.ofNat 32 (j + 1))
          (below sp (found.length + 1)) (m.setByte (a + BitVec.ofNat 32 j) 0)) := by
      simp only [Blocks.next, hquote, hq0, if_true, if_false, hsucc]
    rw [hsucc] at hrest
    obtain ⟨hadd, hrest'⟩ := hprog.finish hroom (by omega) hn hij hj hm.1 hrest
    obtain ⟨m', found', hrun, hprog', hwords⟩ := ih _ hadd hrest' (by simp)
    refine ⟨m', found', (hscan.tail hstep).trans hrun, hprog', ?_⟩
    rw [hwords]
    simp

lemma addr_succ (a : Word) (i : ℕ) :
    a + BitVec.ofNat 32 i + 1 = a + BitVec.ofNat 32 (i + 1) := by
  bv_omega

lemma count_succ (n : ℕ) : BitVec.ofNat 32 n + 1 = BitVec.ofNat 32 (n + 1) := by
  bv_omega

lemma below_succ (sp : Word) (n : ℕ) : below sp n - 4 = below sp (n + 1) := by
  unfold below
  bv_omega

/-- At the beginning of a word the code pushes a pointer to its first character and scans it, up to
the character `quote`.  The word has the characters `front` and those of `cs` up to `quote`; what is
behind it is left to `ih`. -/
lemma taken_run (hroom : Room a sp line) {found : List (Word × List (BitVec 8))} {i k : ℕ}
    {quote : BitVec 8} (front : List (BitVec 8)) {cs : List (BitVec 8)} (hq0 : quote ≠ 0)
    (hprog : Progress a sp line m₀ i (found.map Prod.fst) found m)
    (hlen : found.length + ((args (behind quote cs)).length + 1) = (args line).length)
    (hik : i ≤ k) (hk : k + (front.length + cs.length) = line.length)
    (hm : m.Holds (a + BitVec.ofNat 32 k) (front ++ cs ++ [0])) (hq : quote ∉ front)
    (h0 : 0 ∉ front ++ cs)
    (hstep : (Blocks.skip (BitVec.ofNat 32 found.length) (a + BitVec.ofNat 32 i)
        (below sp found.length) m).next = some (.scan (BitVec.ofNat 32 (found.length + 1))
          (a + BitVec.ofNat 32 k) quote (below sp (found.length + 1))
          (m.setWord (below sp (found.length + 1)) (a + BitVec.ofNat 32 k))))
    (ih : ∀ {j : ℕ} {found : List (Word × List (BitVec 8))} {m : Mem},
      Progress a sp line m₀ j (found.map Prod.fst) found m →
      found.length + (args (behind quote cs)).length = (args line).length →
      j + (behind quote cs).length = line.length →
      m.Holds (a + BitVec.ofNat 32 j) (behind quote cs ++ [0]) → 0 ∉ behind quote cs →
      Collects a sp line m₀ (.skip (BitVec.ofNat 32 found.length) (a + BitVec.ofNat 32 j)
        (below sp found.length) m) found (args (behind quote cs))) :
    Collects a sp line m₀ (.skip (BitVec.ofNat 32 found.length) (a + BitVec.ofNat 32 i)
      (below sp found.length) m) found ((front ++ upTo quote cs) :: args (behind quote cs)) := by
  rw [List.mem_append, not_or] at h0
  -- the pointer
  have hmap : (found.map Prod.fst).length = found.length := List.length_map _
  obtain ⟨hpush, hline⟩ := hprog.push hroom (by omega) (by omega) (a + BitVec.ofNat 32 k)
  rw [hmap, below_succ] at hpush hline
  -- the word, and what is behind it
  obtain ⟨tail, hcs, htail⟩ := exists_tail quote cs
  have hcslen := congrArg List.length hcs
  rw [List.length_append] at hcslen
  refine Collects.head hstep (word_run hroom found hq0 hpush (by omega) hik rfl
    (by rw [List.length_append]; omega) ?_ ?_ ?_ htail ?_)
  · rw [List.append_assoc front, ← hcs]
    refine hm.congr_offset fun j _ hj => hline j ?_
    simp only [List.length_append, List.length_singleton] at hj
    omega
  · rw [List.mem_append, not_or]
    exact ⟨hq, notMem_upTo⟩
  · rw [List.mem_append, not_or]
    exact ⟨h0.1, fun h => h0.2 (mem_of_mem_upTo h)⟩
  · intro m' hprog' hm' hlt
    have htail' : tail.length = (behind quote cs).length + 1 := by
      rcases htail with ⟨rfl, -⟩ | rfl
      · simp at hlt
      · simp
    refine @ih _ ((a + BitVec.ofNat 32 k, front ++ upTo quote cs) :: found) m' hprog' ?_ ?_ hm'
      fun h => h0.2 (mem_of_mem_behind h)
    · rw [List.length_cons]
      omega
    · rw [List.length_append]
      omega

/-- The rest of the line is scanned. -/
lemma skip_run (hroom : Room a sp line) (rest : List (BitVec 8)) {i : ℕ}
    {found : List (Word × List (BitVec 8))} {m : Mem}
    (hprog : Progress a sp line m₀ i (found.map Prod.fst) found m)
    (hlen : found.length + (args rest).length = (args line).length)
    (hi : i + rest.length = line.length) (hm : m.Holds (a + BitVec.ofNat 32 i) (rest ++ [0]))
    (h0 : 0 ∉ rest) :
    Collects a sp line m₀ (.skip (BitVec.ofNat 32 found.length) (a + BitVec.ofNat 32 i)
      (below sp found.length) m) found (args rest) := by
  induction rest using words.induct cmdline generalizing i found m with
  | case1 =>
    -- the end of the line
    have hstep : (Blocks.skip (BitVec.ofNat 32 found.length) (a + BitVec.ofNat 32 i)
        (below sp found.length) m).next =
        some (.collect (BitVec.ofNat 32 (args line).length) (below sp (args line).length) m) := by
      have hlen' : found.length = (args line).length := by simpa using hlen
      have hend : m (a + BitVec.ofNat 32 i) = 0 := hm.1
      simp only [Blocks.next, hend, if_true, hlen']
    rw [List.length_nil, Nat.add_zero] at hi
    exact ⟨m, found, .single hstep, hprog.mono (by omega), by simp⟩
  | case2 cs ih =>
    -- a blank
    have hargs : args (cmdline.blank :: cs) = args cs := words_blank rfl
    rw [hargs] at hlen ⊢
    rw [List.length_cons] at hi
    rw [List.mem_cons, not_or] at h0
    rw [List.cons_append, Mem.holds_cons, addr_succ] at hm
    refine Collects.head ?_ (ih (hprog.mono (Nat.le_succ i)) hlen (by omega) hm.2 h0.2)
    have hblank : m (a + BitVec.ofNat 32 i) = 0x20 := hm.1
    have hne0 : ¬ (0x20 : BitVec 8) = 0 := by decide
    simp only [Blocks.next, hblank, addr_succ, if_true, hne0, if_false]
  | case3 c cs hb hq ih =>
    -- a quoted word, from behind the quote on
    have hargs : args (c :: cs) = upTo c cs :: args (behind c cs) := words_quote hq
    rw [hargs, List.length_cons] at hlen
    rw [hargs]
    rw [List.length_cons] at hi
    rw [List.mem_cons, not_or] at h0
    rw [List.cons_append, Mem.holds_cons, addr_succ] at hm
    have hquote : c = 0x22 ∨ c = 0x27 := by simpa [cmdline] using hq
    have hne0 : ¬ c = 0 := fun h => h0.1 h.symm
    have hne : ¬ c = 0x20 := hb
    refine taken_run hroom (k := i + 1) [] hne0 hprog hlen (Nat.le_succ i)
      (by rw [List.length_nil]; omega) hm.2 List.not_mem_nil h0.2 ?_ ih
    simp only [Blocks.next, hm.1, hne0, hne, hquote, addr_succ, count_succ, below_succ, if_true,
      if_false]
  | case4 c cs hb hq ih =>
    -- another word, from its first character on
    have hargs : args (c :: cs) = (c :: upTo cmdline.blank cs) :: args (behind cmdline.blank cs) :=
      words_plain hb hq
    rw [hargs, List.length_cons] at hlen
    rw [hargs]
    rw [List.length_cons] at hi
    have hplain : ¬ (c = 0x22 ∨ c = 0x27) := by simpa [cmdline] using hq
    have hne0 : ¬ c = 0 := fun h => h0 (h ▸ List.mem_cons_self)
    have hne : ¬ c = 0x20 := hb
    have hfirst : m (a + BitVec.ofNat 32 i) = c := hm.1
    refine taken_run hroom (k := i) [c] (by decide) hprog hlen (Nat.le_refl i)
      (by rw [List.length_singleton]; omega) hm
      (fun h => hb (List.mem_singleton.1 h).symm) h0 ?_ ih
    simp only [Blocks.next, hfirst, hne0, hne, hplain, count_succ, below_succ, if_false]
    rfl

end Run

/-! ## The reversing loop -/

section Reverse

variable {sp : Word}

/-- The word between two lists of words. -/
lemma word_between {m : Mem} {a w : Word} (front back : List Word)
    (h : m.HoldsWords a (front ++ w :: back)) :
    m.word (a + BitVec.ofNat 32 (4 * front.length)) = w :=
  (Mem.holdsWords_append.1 h).2.1

lemma swap_done {m : Mem} {count hi lo : Word} (h : hi ≤ lo) :
    Reaches Blocks.next (.swap count hi lo sp m) (.done count sp (sp &&& ~~~7) m) := by
  have hstep : (Blocks.swap count hi lo sp m).next = some (.done count sp (sp &&& ~~~7) m) := by
    simp only [Blocks.next, h, if_true]
  exact .single hstep

/-- A round of the reversing loop exchanges the words at its two pointers. -/
lemma swap_round (count : Word) {front l back : List Word} {v w : Word} {m : Mem}
    (hm : m.HoldsWords sp (front ++ v :: (l ++ w :: back)))
    (hlt : sp.toNat + 4 * (front.length + (l.length + 2)) < 2 ^ 32)
    (hle : 4 * (front.length + (l.length + 2) + back.length) ≤ 2 ^ 32) :
    ∃ m', (Blocks.swap count (sp + BitVec.ofNat 32 (4 * (front.length + (l.length + 2))))
        (sp + BitVec.ofNat 32 (4 * front.length)) sp m).next =
        some (.swap count (sp + BitVec.ofNat 32 (4 * (front.length + 1 + l.length)))
          (sp + BitVec.ofNat 32 (4 * (front.length + 1))) sp m') ∧
      m'.HoldsWords sp (front ++ w :: (l ++ v :: back)) ∧
      ∀ x, Beyond sp (4 * (front.length + (l.length + 2))) x → m' x = m x := by
  have hassoc : ∀ u u' : Word, front ++ u :: (l ++ u' :: back) = (front ++ u :: l) ++ u' :: back :=
    fun u u' => by simp
  have hlen : ∀ u : Word, (front ++ u :: l).length = front.length + 1 + l.length := by
    intro u
    rw [List.length_append, List.length_cons]
    omega
  have hhi : sp + BitVec.ofNat 32 (4 * (front.length + (l.length + 2))) - 4 =
      sp + BitVec.ofNat 32 (4 * (front.length + 1 + l.length)) := by bv_omega
  have hlo : sp + BitVec.ofNat 32 (4 * front.length) + 4 =
      sp + BitVec.ofNat 32 (4 * (front.length + 1)) := by bv_omega
  have hfirst := word_between _ _ hm
  rw [hassoc] at hm
  have hlast := word_between _ _ hm
  -- first the last word is written, and then the first one
  have hset := hm.set v (by rw [hlen]; omega)
  rw [hlen] at hlast hset
  rw [← hassoc] at hset
  have hset' := hset.set w (by
    rw [List.length_append, List.length_cons]
    omega)
  refine ⟨_, ?_, hset', fun x hx => ?_⟩
  · have hgt : ¬ sp + BitVec.ofNat 32 (4 * (front.length + (l.length + 2))) ≤
        sp + BitVec.ofNat 32 (4 * front.length) := by bv_omega
    simp only [Blocks.next, hgt, if_false, hhi, hlo, hfirst, hlast]
  · unfold Beyond at hx
    rw [Mem.setWord_of_beyond, Mem.setWord_of_beyond] <;> unfold Beyond <;> bv_omega

/-- The last round exchanges the word in the middle with itself, and writes it twice. -/
lemma swap_middle (count : Word) {front back : List Word} {w : Word} {m : Mem}
    (hm : m.HoldsWords sp (front ++ w :: back))
    (hlt : sp.toNat + 4 * (front.length + 1) < 2 ^ 32)
    (hle : 4 * (front.length + 1 + back.length) ≤ 2 ^ 32) :
    ∃ m', Reaches Blocks.next (.swap count (sp + BitVec.ofNat 32 (4 * (front.length + 1)))
        (sp + BitVec.ofNat 32 (4 * front.length)) sp m) (.done count sp (sp &&& ~~~7) m') ∧
      m'.HoldsWords sp (front ++ w :: back) ∧
      ∀ x, Beyond sp (4 * (front.length + 1)) x → m' x = m x := by
  have hhi : sp + BitVec.ofNat 32 (4 * (front.length + 1)) - 4 =
      sp + BitVec.ofNat 32 (4 * front.length) := by bv_omega
  have hword := word_between _ _ hm
  have hstep : (Blocks.swap count (sp + BitVec.ofNat 32 (4 * (front.length + 1)))
      (sp + BitVec.ofNat 32 (4 * front.length)) sp m).next =
      some (.swap count (sp + BitVec.ofNat 32 (4 * front.length))
        (sp + BitVec.ofNat 32 (4 * front.length) + 4) sp
        ((m.setWord (sp + BitVec.ofNat 32 (4 * front.length)) w).setWord
          (sp + BitVec.ofNat 32 (4 * front.length)) w)) := by
    have hgt : ¬ sp + BitVec.ofNat 32 (4 * (front.length + 1)) ≤
        sp + BitVec.ofNat 32 (4 * front.length) := by bv_omega
    simp only [Blocks.next, hgt, if_false, hhi, hword]
  have hle' : sp + BitVec.ofNat 32 (4 * front.length) ≤
      sp + BitVec.ofNat 32 (4 * front.length) + 4 := by bv_omega
  refine ⟨_, .head hstep (swap_done hle'), (hm.set w (by omega)).set w (by omega), fun x hx => ?_⟩
  unfold Beyond at hx
  rw [Mem.setWord_of_beyond, Mem.setWord_of_beyond] <;> unfold Beyond <;> bv_omega

/-- What the reversing loop does to the words `mid` between its two pointers. -/
lemma swap_run (count : Word) (front mid back : List Word) {m : Mem}
    (hm : m.HoldsWords sp (front ++ mid ++ back))
    (hlt : sp.toNat + 4 * (front.length + mid.length) < 2 ^ 32)
    (hle : 4 * (front.length + mid.length + back.length) ≤ 2 ^ 32) :
    ∃ m', Reaches Blocks.next
        (.swap count (sp + BitVec.ofNat 32 (4 * (front.length + mid.length)))
          (sp + BitVec.ofNat 32 (4 * front.length)) sp m)
        (.done count sp (sp &&& ~~~7) m') ∧
      m'.HoldsWords sp (front ++ mid.reverse ++ back) ∧
      ∀ x, Beyond sp (4 * (front.length + mid.length)) x → m' x = m x := by
  induction mid using List.bidirectionalRec generalizing m front back with
  | nil =>
    exact ⟨m, swap_done (BitVec.le_refl _), hm, fun _ _ => rfl⟩
  | singleton w =>
    rw [List.append_assoc, List.singleton_append] at hm
    obtain ⟨m', hrun, hheld, hframe⟩ := swap_middle count hm hlt hle
    refine ⟨m', hrun, ?_, hframe⟩
    rw [List.reverse_singleton, List.append_assoc]
    exact hheld
  | cons_append v l w ih =>
    have hlen : (v :: (l ++ [w])).length = l.length + 2 := by simp
    have hassoc : front ++ v :: (l ++ [w]) ++ back = front ++ v :: (l ++ w :: back) := by simp
    have hassoc' : front ++ w :: (l ++ v :: back) = (front ++ [w]) ++ l ++ (v :: back) := by simp
    have hfront : (front ++ [w]).length = front.length + 1 := by simp
    rw [hlen] at hlt hle ⊢
    rw [hassoc] at hm
    obtain ⟨m₁, hstep, hm₁, hframe₁⟩ := swap_round count hm hlt hle
    rw [hassoc'] at hm₁
    obtain ⟨m₂, hrun, hheld, hframe₂⟩ := ih (front ++ [w]) (v :: back) hm₁ (by omega)
      (by rw [hfront, List.length_cons]; omega)
    rw [hfront] at hrun hframe₂
    refine ⟨m₂, .head hstep hrun, by simpa using hheld, fun x hx => ?_⟩
    rw [hframe₂ x (Nat.le_trans (by omega) hx), hframe₁ x hx]

end Reverse

/-! ## The whole code -/

/-- What `main` is given for the command line at `a`, when the stack pointer was `sp` and the memory
`m`: the words of the line, each with a NUL behind it in the line buffer, and the array of pointers
to them, which ends in NULL and below which the stack is aligned. -/
structure Passed (a sp : Word) (line : List (BitVec 8)) (m : Mem) (argc argv sp' : Word)
    (m' : Mem) : Prop where
  argc_eq : argc = BitVec.ofNat 32 (args line).length
  argv_eq : argv = below sp (args line).length
  arg : ∀ i (hi : i < (args line).length), Stored m' a (line.length + 1)
    (m'.word (argv + BitVec.ofNat 32 (4 * i)), (args line)[i])
  null : m'.word (argv + BitVec.ofNat 32 (4 * (args line).length)) = 0
  aligned : sp' = argv &&& ~~~7
  /-- Nothing outside the line buffer and the array changes. -/
  frame : ∀ x, Beyond a line.length x → Beyond argv (4 * ((args line).length + 1)) x → m' x = m x

section Whole

variable {a sp : Word} {line : List (BitVec 8)} {m : Mem}

lemma Room.beyond (h : Room a sp line) {n i : ℕ} (hn : n ≤ (args line).length)
    (hi : i ≤ line.length) : Beyond (below sp n) (4 * (n + 1)) (a + BitVec.ofNat 32 i) := by
  have hlt := h.line_lt
  have hle := h.stack_le
  have hapart := h.apart
  unfold Beyond below
  bv_omega

/-- Before the first character. -/
lemma Progress.start (hroom : Room a sp line) :
    Progress a sp line m 0 [] [] (m.setWord (below sp 0) 0) := by
  refine ⟨⟨Mem.word_setWord_self _ _ _, trivial⟩, by simp, fun x _ hx => ?_⟩
  have hle := hroom.stack_le
  refine Mem.setWord_of_beyond _ ?_
  unfold Beyond below at hx ⊢
  bv_omega

/-- With all words found, the pointers to them are reversed. -/
lemma collect_run (hroom : Room a sp line) {found : List (Word × List (BitVec 8))} {m₁ : Mem}
    (hprog : Progress a sp line m (line.length + 1) (found.map Prod.fst) found m₁)
    (hwords : found.map Prod.snd = (args line).reverse) :
    ∃ argc argv sp' m', Reaches Blocks.next (.collect (BitVec.ofNat 32 (args line).length)
        (below sp (args line).length) m₁) (.done argc argv sp' m') ∧
      Passed a sp line m argc argv sp' m' := by
  have hlen : (found.map Prod.fst).length = (args line).length := by
    have := congrArg List.length hwords
    simpa using this
  have hle := hroom.stack_le
  have hptrs := hprog.pointers
  rw [hlen] at hptrs
  have hhi : below sp (args line).length + BitVec.ofNat 32 (args line).length <<< 2 =
      below sp (args line).length +
        BitVec.ofNat 32 (4 * (([] : List Word).length + (found.map Prod.fst).length)) := by
    rw [List.length_nil, Nat.zero_add, hlen]
    bv_omega
  have hlo : below sp (args line).length + BitVec.ofNat 32 (4 * ([] : List Word).length) =
      below sp (args line).length := BitVec.add_zero _
  have hcollect : (Blocks.collect (BitVec.ofNat 32 (args line).length)
      (below sp (args line).length) m₁).next = some (.swap (BitVec.ofNat 32 (args line).length)
        (below sp (args line).length + BitVec.ofNat 32 (args line).length <<< 2)
        (below sp (args line).length) (below sp (args line).length) m₁) := rfl
  obtain ⟨m₂, hswap, hheld, hframe⟩ := swap_run (BitVec.ofNat 32 (args line).length)
    [] (found.map Prod.fst) [0] hptrs
    (by rw [List.length_nil, hlen]; unfold below; bv_omega)
    (by rw [List.length_nil, List.length_singleton, hlen]; omega)
  rw [← hhi, hlo] at hswap
  rw [List.nil_append, ← List.map_reverse] at hheld
  rw [List.length_nil, Nat.zero_add, hlen] at hframe
  have hrev : found.reverse.map Prod.snd = args line := by
    rw [List.map_reverse, hwords, List.reverse_reverse]
  refine ⟨_, _, _, m₂, .head hcollect hswap, ⟨rfl, rfl, ?_, ?_, rfl, ?_⟩⟩
  · intro i hi
    have hi' : i < found.reverse.length := by
      rw [← hlen, List.length_map] at hi
      rwa [List.length_reverse]
    have hword : m₂.word (below sp (args line).length + BitVec.ofNat 32 (4 * i)) =
        found.reverse[i].1 := by
      have hheld' := hheld.getElem (i := i) (by
        rw [List.length_append, List.length_map]
        omega)
      rwa [List.getElem_append_left (by simpa using hi'), List.getElem_map] at hheld'
    have harg : (args line)[i] = found.reverse[i].2 := by
      simp only [← hrev, List.getElem_map]
    rw [hword, harg]
    refine (hprog.stored _ (List.mem_reverse.1 (List.getElem_mem hi'))).congr (Nat.le_refl _) ?_
    intro j hj
    exact hframe _ (Nat.le_trans (Nat.mul_le_mul_left 4 (Nat.le_succ _))
      (hroom.beyond (Nat.le_refl _) (Nat.le_of_lt_succ hj)))
  · have hnull := word_between _ [] hheld
    rwa [List.length_map, List.length_reverse, ← List.length_map Prod.fst, hlen] at hnull
  · intro x hx hx'
    rw [hframe x (Nat.le_trans (Nat.mul_le_mul_left 4 (Nat.le_succ _)) hx')]
    exact hprog.frame x hx hx'

/-- The basic blocks pass the words of the line. -/
lemma blocks_run (hroom : Room a sp line) (hm : m.Holds a (line ++ [0])) (h0 : 0 ∉ line) :
    ∃ argc argv sp' m', Reaches Blocks.next (.skip 0 a (sp - 4) (m.setWord (sp - 4) 0))
      (.done argc argv sp' m') ∧ Passed a sp line m argc argv sp' m' := by
  have ha : a + BitVec.ofNat 32 0 = a := BitVec.add_zero a
  have hline : (m.setWord (below sp 0) 0).Holds (a + BitVec.ofNat 32 0) (line ++ [0]) := by
    rw [← ha] at hm
    refine hm.congr_offset fun i _ hi => Mem.setWord_of_beyond _ (hroom.beyond (Nat.zero_le _) ?_)
    rw [List.length_append, List.length_singleton] at hi
    omega
  have hstart : Progress a sp line m 0 (([] : List (Word × List (BitVec 8))).map Prod.fst) []
      (m.setWord (below sp 0) 0) := Progress.start hroom
  obtain ⟨m₁, found, hscan, hprog, hwords⟩ :=
    skip_run hroom line hstart (Nat.zero_add _) (Nat.zero_add _) hline h0
  rw [List.map_nil, List.append_nil] at hwords
  obtain ⟨argc, argv, sp', m₂, hcollect, hpassed⟩ := collect_run hroom hprog hwords
  rw [ha] at hscan
  exact ⟨argc, argv, sp', m₂, hscan.trans hcollect, hpassed⟩

end Whole

end Newlib.Startup
