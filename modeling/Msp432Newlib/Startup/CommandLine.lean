import Msp432Newlib.Arm.Machine

/-!
# The command line in `crt0.S`

Started under a debug monitor, `_start` splits the command line that the monitor hands over: it
writes a NUL behind every argument, pushes a pointer to each, and then reverses the pointers on the
stack.  `parseArgs` is that part of the file, from the comment `Parse string at r1` to the alignment
of the stack, in its Thumb and in its ARM spelling.  The two spellings take different instructions
and agree on what a basic block does: `Blocks` is that machine of basic blocks, and both respect it
(`parseArgs_respects`).
-/

namespace Newlib.Startup

open Arm StateTransition

/-- The labels of this part of `crt0.S`. -/
inductive ArgsLabel where
  | LC10 | LC11 | LC12 | LC13 | LC14 | LC15 | LC20 | LC21 | LC22
  deriving DecidableEq

/-- Load the next character and move on. -/
def loadNext (thumb : Bool) : List (Line ArgsLabel Empty) :=
  if thumb then
    [.ins (.ldrb .r3 (.base .r1)),                      -- ldrb r3, [r1]
      .ins (.add true .r1 .r1 (.imm 1))]                -- adds r1, #1
  else
    [.ins (.ldrb .r3 (.post .r1 1))]                    -- ldrb r3, [r1], #1

/-- See whether we are scanning a string. -/
def openQuote (thumb : Bool) : List (Line ArgsLabel Empty) :=
  if thumb then
    [.when .eq (.b .LC20),                              -- beq .LC20
      .ins (.cmp .r3 (.imm 0x27)),                      -- cmp r3, #'\''
      .when .ne (.b .LC21),                             -- bne .LC21
      .label .LC20,
      .ins (.mov true .r2 (.reg .r3)),                  -- movs r2, r3
      .ins (.b .LC22),                                  -- b .LC22
      .label .LC21,
      .ins (.mov true .r2 (.imm 0x20)),                 -- movs r2, #' '
      .ins (.sub true .r1 .r1 (.imm 1)),                -- subs r1, r1, #1
      .label .LC22]
  else
    [.when .ne (.cmp .r3 (.imm 0x27)),                  -- cmpne r3, #'\''
      .when .eq (.mov false .r2 (.reg .r3)),            -- moveq r2, r3
      .when .ne (.mov false .r2 (.imm 0x20)),           -- movne r2, #' '
      .when .ne (.sub false .r1 .r1 (.imm 1))]          -- subne r1, r1, #1

/-- Reverse the stacked pointers, and ensure doubleword stack alignment. -/
def reverseArgs (thumb : Bool) : List (Line ArgsLabel Empty) :=
  if thumb then
    [.ins (.mov true .r2 (.reg .r0)),                   -- movs r2, r0
      .ins (.mov true .r2 (.lsl .r2 2)),                -- lsls r2, #2
      .ins (.add false .r2 .r2 (.reg .sp)),             -- add r2, sp
      .ins (.mov false .r3 (.reg .sp)),                 -- mov r3, sp
      .label .LC15,
      .ins (.cmp .r2 (.reg .r3)),                       -- cmp r2, r3
      .when .ls (.b .LC14),                             -- bls .LC14
      .ins (.sub true .r2 .r2 (.imm 4)),                -- subs r2, #4
      .ins (.ldr .r4 (.base .r2)),                      -- ldr r4, [r2]
      .ins (.ldr .r5 (.base .r3)),                      -- ldr r5, [r3]
      .ins (.str .r5 (.base .r2)),                      -- str r5, [r2]
      .ins (.str .r4 (.base .r3)),                      -- str r4, [r3]
      .ins (.add true .r3 .r3 (.imm 4)),                -- adds r3, #4
      .ins (.b .LC15),                                  -- b .LC15
      .label .LC14,
      .ins (.mov false .r4 (.reg .sp)),                 -- mov r4, sp
      .ins (.mov true .r5 (.imm 7)),                    -- movs r5, #7
      .ins (.bic true .r4 .r4 (.reg .r5)),              -- bics r4, r5
      .ins (.mov false .sp (.reg .r4))]                 -- mov sp, r4
  else
    [.ins (.add false .r2 .sp (.lsl .r0 2)),            -- add r2, sp, r0, LSL #2
      .ins (.mov false .r3 (.reg .sp)),                 -- mov r3, sp
      .label .LC13,
      .ins (.cmp .r2 (.reg .r3)),                       -- cmp r2, r3
      .when .hi (.ldr .r4 (.below .r2 4)),              -- ldrhi r4, [r2, #-4]
      .when .hi (.ldr .r5 (.base .r3)),                 -- ldrhi r5, [r3]
      .when .hi (.str .r5 (.pre .r2 4)),                -- strhi r5, [r2, #-4]!
      .when .hi (.str .r4 (.post .r3 4)),               -- strhi r4, [r3], #4
      .when .hi (.b .LC13),                             -- bhi .LC13
      .ins (.bic false .sp .sp (.imm 7))]               -- bic sp, sp, #7

/-- Lines 412 to 512 of `crt0.S`, with `__thumb__` defined or not. -/
def parseArgs (thumb : Bool) : List (Line ArgsLabel Empty) := List.flatten [
  [.ins (.mov true .r0 (.imm 0)),                       -- movs r0, #0
    .ins (.push .r0),                                   -- push {r0} / stmfd sp!, {r0}
    .label .LC10],
  loadNext thumb,
  [.ins (.cmp .r3 (.imm 0)),                            -- cmp r3, #0
    .when .eq (.b .LC12),                               -- beq .LC12
    .ins (.cmp .r3 (.imm 0x20)),                        -- cmp r3, #' '
    .when .eq (.b .LC10),                               -- beq .LC10
    .ins (.cmp .r3 (.imm 0x22))],                       -- cmp r3, #'\"'
  openQuote thumb,
  [.ins (.push .r1),                                    -- push {r1} / stmfd sp!, {r1}
    .ins (.add true .r0 .r0 (.imm 1)),                  -- adds r0, r0, #1
    .label .LC11],
  loadNext thumb,
  [.ins (.cmp .r3 (.imm 0)),                            -- cmp r3, #0
    .when .eq (.b .LC12),                               -- beq .LC12
    .ins (.cmp .r2 (.reg .r3)),                         -- cmp r2, r3
    .when .ne (.b .LC11),                               -- bne .LC11
    .ins (.mov true .r2 (.imm 0)),                      -- movs r2, #0
    .ins (.sub true .r3 .r1 (.imm 1)),                  -- subs r3, r1, #1
    .ins (.strb .r2 (.base .r3)),                       -- strb r2, [r3]
    .ins (.b .LC10),                                    -- b .LC10
    .label .LC12,
    .ins (.mov false .r1 (.reg .sp))],                  -- mov r1, sp
  reverseArgs thumb]

/-! ## Basic blocks -/

/-- The machine of the basic blocks: where the code is, with the values that it still needs. -/
inductive Blocks where
  /-- At `.LC10`, skipping blanks before the next argument. -/
  | skip (count cur sp : Word) (mem : Mem)
  /-- At `.LC11`, looking for the end `quote` of an argument. -/
  | scan (count cur : Word) (quote : BitVec 8) (sp : Word) (mem : Mem)
  /-- At `.LC12`, with all arguments on the stack. -/
  | collect (count sp : Word) (mem : Mem)
  /-- At `.LC15` (`.LC13` in ARM code), reversing the pointers between `lo` and `hi`. -/
  | swap (count hi lo sp : Word) (mem : Mem)
  /-- Behind the code. -/
  | done (count argv sp : Word) (mem : Mem)

/-- What a basic block does. -/
def Blocks.next : Blocks → Option Blocks
  | skip count cur sp mem =>
    let c := mem cur
    if c = 0 then some (collect count sp mem)
    else if c = 0x20 then some (skip count (cur + 1) sp mem)
    else if c = 0x22 ∨ c = 0x27 then
      some (scan (count + 1) (cur + 1) c (sp - 4) (mem.setWord (sp - 4) (cur + 1)))
    else some (scan (count + 1) cur 0x20 (sp - 4) (mem.setWord (sp - 4) cur))
  | scan count cur quote sp mem =>
    let c := mem cur
    if c = 0 then some (collect count sp mem)
    else if c = quote then some (skip count (cur + 1) sp (mem.setByte cur 0))
    else some (scan count (cur + 1) quote sp mem)
  | collect count sp mem => some (swap count (sp + count <<< 2) sp sp mem)
  | swap count hi lo sp mem =>
    if hi ≤ lo then some (done count sp (sp &&& ~~~7) mem)
    else some (swap count (hi - 4) (lo + 4) sp
      ((mem.setWord (hi - 4) (mem.word lo)).setWord lo (mem.word (hi - 4))))
  | done _ _ _ _ => none

/-- The loop that reverses the pointers. -/
def swapLabel (thumb : Bool) : ArgsLabel := if thumb then .LC15 else .LC13

/-- The processor is at a basic block of the code. -/
def Blocks.At (thumb : Bool) (b : Blocks) (p : ℕ × Cpu) : Prop :=
  match b with
  | skip count cur sp mem =>
    (p.1, p.2.reg .r0, p.2.reg .r1, p.2.reg .sp, p.2.mem) =
      (target (parseArgs thumb) .LC10, count, cur, sp, mem)
  | scan count cur quote sp mem =>
    (p.1, p.2.reg .r0, p.2.reg .r1, p.2.reg .r2, p.2.reg .sp, p.2.mem) =
      (target (parseArgs thumb) .LC11, count, cur, quote.setWidth 32, sp, mem)
  | collect count sp mem =>
    (p.1, p.2.reg .r0, p.2.reg .sp, p.2.mem) = (target (parseArgs thumb) .LC12, count, sp, mem)
  | swap count hi lo sp mem =>
    (p.1, p.2.reg .r0, p.2.reg .r1, p.2.reg .r2, p.2.reg .r3, p.2.reg .sp, p.2.mem) =
      (target (parseArgs thumb) (swapLabel thumb), count, sp, hi, lo, sp, mem)
  | done count argv sp mem =>
    (p.1, p.2.reg .r0, p.2.reg .r1, p.2.reg .sp, p.2.mem) =
      ((parseArgs thumb).length, count, argv, sp, mem)

/-- The code makes no calls. -/
def noCall : Empty ⊕ Word → Cpu → Cpu := fun _ s => s

/-- A step of the code. -/
abbrev argsStep (thumb : Bool) : ℕ × Cpu → Option (ℕ × Cpu) := step noCall (parseArgs thumb)

/-- Comparing two bytes as words. -/
lemma setWidth_sub_eq_zero (a b : BitVec 8) : a.setWidth 32 - b.setWidth 32 = 0 ↔ a = b := by
  constructor
  · intro h
    bv_omega
  · rintro rfl
    simp


/-! ## The code respects its basic blocks -/

section Paths

variable {a b : BitVec 8}

/-- The flag `Z` after comparing two bytes. -/
lemma compared (h : a = b) : decide (a.setWidth 32 - b.setWidth 32 = 0) = true :=
  decide_eq_true ((setWidth_sub_eq_zero a b).2 h)

lemma compared_ne (h : a ≠ b) : decide (a.setWidth 32 - b.setWidth 32 = 0) = false :=
  decide_eq_false (mt (setWidth_sub_eq_zero a b).1 h)

/-- The condition `hi` after comparing two words. -/
lemma higher {v w : Word} (h : ¬ v ≤ w) : (decide (w ≤ v) && !decide (v - w = 0)) = true := by
  have h1 : w ≤ v := by bv_omega
  have h2 : ¬ v - w = 0 := by bv_omega
  simp only [h1, h2, decide_true, decide_false, Bool.not_false, Bool.and_self]

lemma not_higher {v w : Word} (h : v ≤ w) : (decide (w ≤ v) && !decide (v - w = 0)) = false := by
  by_cases h1 : w ≤ v
  · have h2 : v - w = 0 := by bv_omega
    simp only [h1, h2, decide_true, Bool.not_true, Bool.and_false]
  · simp only [h1, decide_false, Bool.false_and]

/-- The condition `ls` is the opposite of `hi`. -/
lemma holds_ls (s : Cpu) : s.holds .ls = !s.holds .hi := by
  simp [Cpu.holds, Bool.not_and]

end Paths

/-- What can be found at `.LC10`. -/
lemma skip_cases {count cur sp : Word} {mem : Mem} {b : Blocks}
    (h : (Blocks.skip count cur sp mem).next = some b) :
    (mem cur = 0 ∧ b = .collect count sp mem) ∨
    (mem cur ≠ 0 ∧ mem cur = 0x20 ∧ b = .skip count (cur + 1) sp mem) ∨
    (mem cur ≠ 0 ∧ mem cur ≠ 0x20 ∧ (mem cur = 0x22 ∨ mem cur = 0x27) ∧
      b = .scan (count + 1) (cur + 1) (mem cur) (sp - 4) (mem.setWord (sp - 4) (cur + 1))) ∨
    (mem cur ≠ 0 ∧ mem cur ≠ 0x20 ∧ mem cur ≠ 0x22 ∧ mem cur ≠ 0x27 ∧
      b = .scan (count + 1) cur 0x20 (sp - 4) (mem.setWord (sp - 4) cur)) := by
  simp only [Blocks.next] at h
  by_cases h0 : mem cur = 0
  · rw [if_pos h0, Option.some.injEq] at h
    exact Or.inl ⟨h0, h.symm⟩
  · rw [if_neg h0] at h
    by_cases h1 : mem cur = 0x20
    · rw [if_pos h1, Option.some.injEq] at h
      exact Or.inr (Or.inl ⟨h0, h1, h.symm⟩)
    · rw [if_neg h1] at h
      by_cases h2 : mem cur = 0x22 ∨ mem cur = 0x27
      · rw [if_pos h2, Option.some.injEq] at h
        exact Or.inr (Or.inr (Or.inl ⟨h0, h1, h2, h.symm⟩))
      · rw [if_neg h2, Option.some.injEq] at h
        rw [not_or] at h2
        exact Or.inr (Or.inr (Or.inr ⟨h0, h1, h2.1, h2.2, h.symm⟩))

/-- What can be found at `.LC11`. -/
lemma scan_cases {count cur sp : Word} {quote : BitVec 8} {mem : Mem} {b : Blocks}
    (h : (Blocks.scan count cur quote sp mem).next = some b) :
    (mem cur = 0 ∧ b = .collect count sp mem) ∨
    (mem cur ≠ 0 ∧ quote = mem cur ∧ b = .skip count (cur + 1) sp (mem.setByte cur 0)) ∨
    (mem cur ≠ 0 ∧ quote ≠ mem cur ∧ b = .scan count (cur + 1) quote sp mem) := by
  simp only [Blocks.next] at h
  by_cases h0 : mem cur = 0
  · rw [if_pos h0, Option.some.injEq] at h
    exact Or.inl ⟨h0, h.symm⟩
  · rw [if_neg h0] at h
    by_cases h1 : mem cur = quote
    · rw [if_pos h1, Option.some.injEq] at h
      exact Or.inr (Or.inl ⟨h0, h1.symm, h.symm⟩)
    · rw [if_neg h1, Option.some.injEq] at h
      exact Or.inr (Or.inr ⟨h0, fun h2 => h1 h2.symm, h.symm⟩)

section Lines

variable {r : Reg → Word} {z c : Bool} {mem : Mem} {b : Blocks}

lemma skip_thumb (h : (Blocks.skip (r .r0) (r .r1) (r .sp) mem).next = some b) :
    Leads noCall (parseArgs true) 3 ⟨r, z, c, mem⟩ (b.At true) := by
  rcases skip_cases h with ⟨h0, rfl⟩ | ⟨h0, h1, rfl⟩ | ⟨h0, h1, h2 | h2, rfl⟩ |
    ⟨h0, h1, h2, h3, rfl⟩
  · refine .ins rfl (.ins rfl (.ins rfl ?_))
    exact .branch rfl (compared h0) rfl (.here rfl)
  · refine .ins rfl (.ins rfl (.ins rfl ?_))
    refine .pass rfl (compared_ne h0) (.ins rfl ?_)
    exact .branch rfl (compared (b := 0x20) h1) rfl (.here rfl)
  · refine .ins rfl (.ins rfl (.ins rfl ?_))
    refine .pass rfl (compared_ne h0) (.ins rfl ?_)
    refine .pass rfl (compared_ne h1) (.ins rfl ?_)
    refine .branch (m := 13) rfl (compared (b := 0x22) h2) rfl ?_
    refine .label rfl (.ins rfl (.branch (m := 19) rfl rfl rfl ?_))
    refine .label rfl (.ins rfl (.ins rfl ?_))
    exact .here rfl
  · have hne : mem (r .r1) ≠ 0x22 := by
      rw [h2]
      decide
    refine .ins rfl (.ins rfl (.ins rfl ?_))
    refine .pass rfl (compared_ne h0) (.ins rfl ?_)
    refine .pass rfl (compared_ne h1) (.ins rfl ?_)
    refine .pass rfl (compared_ne (b := 0x22) hne) (.ins rfl ?_)
    refine .pass rfl (congrArg not (compared (b := 0x27) h2)) ?_
    refine .label rfl (.ins rfl (.branch (m := 19) rfl rfl rfl ?_))
    refine .label rfl (.ins rfl (.ins rfl ?_))
    exact .here rfl
  · refine .ins rfl (.ins rfl (.ins rfl ?_))
    refine .pass rfl (compared_ne h0) (.ins rfl ?_)
    refine .pass rfl (compared_ne h1) (.ins rfl ?_)
    refine .pass rfl (compared_ne h2) (.ins rfl ?_)
    refine .branch (m := 16) rfl (congrArg not (compared_ne h3)) rfl ?_
    refine .label rfl (.ins rfl (.ins rfl (.label rfl ?_)))
    refine .ins rfl (.ins rfl (.here ?_))
    exact congrArg (fun v => (22, r .r0 + 1, v, _, r .sp - 4, mem.setWord (r .sp - 4) v))
      (BitVec.add_sub_cancel (r .r1) 1)

lemma skip_arm (h : (Blocks.skip (r .r0) (r .r1) (r .sp) mem).next = some b) :
    Leads noCall (parseArgs false) 3 ⟨r, z, c, mem⟩ (b.At false) := by
  rcases skip_cases h with ⟨h0, rfl⟩ | ⟨h0, h1, rfl⟩ | ⟨h0, h1, h2 | h2, rfl⟩ |
    ⟨h0, h1, h2, h3, rfl⟩
  · refine .ins rfl (.ins rfl ?_)
    exact .branch rfl (compared h0) rfl (.here rfl)
  · refine .ins rfl (.ins rfl ?_)
    refine .pass rfl (compared_ne h0) (.ins rfl ?_)
    exact .branch rfl (compared (b := 0x20) h1) rfl (.here rfl)
  · have hz := compared (b := 0x22) h2
    refine .ins rfl (.ins rfl ?_)
    refine .pass rfl (compared_ne h0) (.ins rfl ?_)
    refine .pass rfl (compared_ne h1) (.ins rfl ?_)
    refine .pass rfl (congrArg not hz) (.when rfl hz ?_)
    refine .pass rfl (congrArg not hz) (.pass rfl (congrArg not hz) ?_)
    exact .ins rfl (.ins rfl (.here rfl))
  · have hz := compared (b := 0x27) h2
    have hne : mem (r .r1) ≠ 0x22 := by
      rw [h2]
      decide
    refine .ins rfl (.ins rfl ?_)
    refine .pass rfl (compared_ne h0) (.ins rfl ?_)
    refine .pass rfl (compared_ne h1) (.ins rfl ?_)
    refine .when rfl (congrArg not (compared_ne (b := 0x22) hne)) ?_
    refine .when rfl hz (.pass rfl (congrArg not hz) (.pass rfl (congrArg not hz) ?_))
    exact .ins rfl (.ins rfl (.here rfl))
  · have hz := compared_ne h3
    refine .ins rfl (.ins rfl ?_)
    refine .pass rfl (compared_ne h0) (.ins rfl ?_)
    refine .pass rfl (compared_ne h1) (.ins rfl ?_)
    refine .when rfl (congrArg not (compared_ne h2)) (.pass rfl hz ?_)
    refine .when rfl (congrArg not hz) (.when rfl (congrArg not hz) ?_)
    refine .ins rfl (.ins rfl (.here ?_))
    exact congrArg (fun v => (15, r .r0 + 1, v, _, r .sp - 4, mem.setWord (r .sp - 4) v))
      (BitVec.add_sub_cancel (r .r1) 1)

variable {quote : BitVec 8}

lemma scan_thumb (hq : r .r2 = quote.setWidth 32)
    (h : (Blocks.scan (r .r0) (r .r1) quote (r .sp) mem).next = some b) :
    Leads noCall (parseArgs true) 23 ⟨r, z, c, mem⟩ (b.At true) := by
  have hz : decide (r .r2 - (mem (r .r1)).setWidth 32 = 0) =
      decide (quote.setWidth 32 - (mem (r .r1)).setWidth 32 = (0 : Word)) := by rw [hq]
  rcases scan_cases h with ⟨h0, rfl⟩ | ⟨h0, h1, rfl⟩ | ⟨h0, h1, rfl⟩
  · refine .ins rfl (.ins rfl (.ins rfl ?_))
    exact .branch rfl (compared h0) rfl (.here rfl)
  · refine .ins rfl (.ins rfl (.ins rfl ?_))
    refine .pass rfl (compared_ne h0) (.ins rfl ?_)
    refine .pass rfl (congrArg not (hz.trans (compared h1))) ?_
    refine .ins rfl (.ins rfl (.ins rfl ?_))
    refine .branch (m := 2) rfl rfl rfl (.here ?_)
    exact congrArg (fun v => (2, r .r0, r .r1 + 1, r .sp, mem.setByte v 0))
      (BitVec.add_sub_cancel (r .r1) 1)
  · refine .ins rfl (.ins rfl (.ins rfl ?_))
    refine .pass rfl (compared_ne h0) (.ins rfl ?_)
    refine .branch (m := 22) rfl (congrArg not (hz.trans (compared_ne h1))) rfl (.here ?_)
    exact congrArg (fun v => (22, r .r0, r .r1 + 1, v, r .sp, mem)) hq

lemma scan_arm (hq : r .r2 = quote.setWidth 32)
    (h : (Blocks.scan (r .r0) (r .r1) quote (r .sp) mem).next = some b) :
    Leads noCall (parseArgs false) 16 ⟨r, z, c, mem⟩ (b.At false) := by
  have hz : decide (r .r2 - (mem (r .r1)).setWidth 32 = 0) =
      decide (quote.setWidth 32 - (mem (r .r1)).setWidth 32 = (0 : Word)) := by rw [hq]
  rcases scan_cases h with ⟨h0, rfl⟩ | ⟨h0, h1, rfl⟩ | ⟨h0, h1, rfl⟩
  · refine .ins rfl (.ins rfl ?_)
    exact .branch rfl (compared h0) rfl (.here rfl)
  · refine .ins rfl (.ins rfl ?_)
    refine .pass rfl (compared_ne h0) (.ins rfl ?_)
    refine .pass rfl (congrArg not (hz.trans (compared h1))) ?_
    refine .ins rfl (.ins rfl (.ins rfl ?_))
    refine .branch (m := 2) rfl rfl rfl (.here ?_)
    exact congrArg (fun v => (2, r .r0, r .r1 + 1, r .sp, mem.setByte v 0))
      (BitVec.add_sub_cancel (r .r1) 1)
  · refine .ins rfl (.ins rfl ?_)
    refine .pass rfl (compared_ne h0) (.ins rfl ?_)
    refine .branch (m := 15) rfl (congrArg not (hz.trans (compared_ne h1))) rfl (.here ?_)
    exact congrArg (fun v => (15, r .r0, r .r1 + 1, v, r .sp, mem)) hq

lemma collect_thumb (h : (Blocks.collect (r .r0) (r .sp) mem).next = some b) :
    Leads noCall (parseArgs true) 34 ⟨r, z, c, mem⟩ (b.At true) := by
  obtain rfl := Option.some.inj h
  refine .ins rfl (.ins rfl (.ins rfl (.ins rfl (.ins rfl ?_))))
  refine .here (congrArg (fun v => (39, r .r0, r .sp, v, r .sp, r .sp, mem)) ?_)
  exact BitVec.add_comm _ _

lemma collect_arm (h : (Blocks.collect (r .r0) (r .sp) mem).next = some b) :
    Leads noCall (parseArgs false) 26 ⟨r, z, c, mem⟩ (b.At false) := by
  obtain rfl := Option.some.inj h
  refine .ins rfl (.ins rfl (.ins rfl ?_))
  exact .here rfl

/-- What the reversing loop does. -/
lemma swap_cases {count hi lo sp : Word} (h : (Blocks.swap count hi lo sp mem).next = some b) :
    (hi ≤ lo ∧ b = .done count sp (sp &&& ~~~7) mem) ∨
    (¬ hi ≤ lo ∧ b = .swap count (hi - 4) (lo + 4) sp
      ((mem.setWord (hi - 4) (mem.word lo)).setWord lo (mem.word (hi - 4)))) := by
  simp only [Blocks.next] at h
  by_cases hle : hi ≤ lo
  · rw [if_pos hle, Option.some.injEq] at h
    exact Or.inl ⟨hle, h.symm⟩
  · rw [if_neg hle, Option.some.injEq] at h
    exact Or.inr ⟨hle, h.symm⟩

lemma swap_thumb (hsp : r .r1 = r .sp)
    (h : (Blocks.swap (r .r0) (r .r2) (r .r3) (r .sp) mem).next = some b) :
    Leads noCall (parseArgs true) 40 ⟨r, z, c, mem⟩ (b.At true) := by
  rcases swap_cases h with ⟨hle, rfl⟩ | ⟨hle, rfl⟩
  · refine .ins rfl (.branch (m := 49) rfl ?_ (by decide) ?_)
    · exact (holds_ls _).trans (congrArg not (not_higher hle))
    · refine .label rfl (.ins rfl (.ins rfl (.ins rfl (.ins rfl ?_))))
      exact .here (congrArg (fun v => (54, r .r0, v, r .sp &&& ~~~7, mem)) hsp)
  · refine .ins rfl (.pass rfl ((holds_ls _).trans (congrArg not (higher hle))) ?_)
    refine .ins rfl (.ins rfl (.ins rfl (.ins rfl (.ins rfl ?_))))
    refine .ins rfl (.branch (m := 39) rfl rfl (by decide) ?_)
    exact .here (congrArg (fun v => (39, r .r0, v, r .r2 - 4, r .r3 + 4, r .sp, _)) hsp)

lemma swap_arm (hsp : r .r1 = r .sp)
    (h : (Blocks.swap (r .r0) (r .r2) (r .r3) (r .sp) mem).next = some b) :
    Leads noCall (parseArgs false) 30 ⟨r, z, c, mem⟩ (b.At false) := by
  rcases swap_cases h with ⟨hle, rfl⟩ | ⟨hle, rfl⟩
  · have hc := not_higher hle
    refine .ins rfl (.pass rfl hc (.pass rfl hc (.pass rfl hc (.pass rfl hc ?_))))
    refine .pass rfl hc (.ins rfl ?_)
    exact .here (congrArg (fun v => (37, r .r0, v, r .sp &&& ~~~7, mem)) hsp)
  · have hc := higher hle
    refine .ins rfl (.when rfl hc (.when rfl hc (.when rfl hc (.when rfl hc ?_))))
    refine .branch (m := 29) rfl hc (by decide) ?_
    exact .here (congrArg (fun v => (29, r .r0, v, r .r2 - 4, r .r3 + 4, r .sp, _)) hsp)

end Lines

/-- Every basic block but the last goes on. -/
lemma next_ne_none (b : Blocks) : (∃ b', b.next = some b') ∨
    ∃ count argv sp mem, b = .done count argv sp mem := by
  cases b with
  | skip count cur sp mem =>
    left
    simp only [Blocks.next]
    split_ifs
    · exact ⟨_, rfl⟩
    · exact ⟨_, rfl⟩
    · exact ⟨_, rfl⟩
    · exact ⟨_, rfl⟩
  | scan count cur quote sp mem =>
    left
    simp only [Blocks.next]
    split_ifs
    · exact ⟨_, rfl⟩
    · exact ⟨_, rfl⟩
    · exact ⟨_, rfl⟩
  | collect count sp mem => exact Or.inl ⟨_, rfl⟩
  | swap count hi lo sp mem =>
    left
    simp only [Blocks.next]
    split_ifs
    · exact ⟨_, rfl⟩
    · exact ⟨_, rfl⟩
  | done count argv sp mem => exact Or.inr ⟨count, argv, sp, mem, rfl⟩

/-- From a basic block the code gets to the next one. -/
lemma reaches_next {thumb : Bool} {b b' : Blocks} {p : ℕ × Cpu} (hp : b.At thumb p)
    (hb : b.next = some b') : ∃ q, b'.At thumb q ∧ Reaches₁ (argsStep thumb) p q := by
  obtain ⟨n, r, z, c, m⟩ := p
  cases b with
  | skip count cur sp mem =>
    cases hp
    cases thumb with
    | true => exact Leads.start (n := 2) rfl (skip_thumb hb)
    | false => exact Leads.start (n := 2) rfl (skip_arm hb)
  | scan count cur quote sp mem =>
    simp only [Blocks.At, Prod.mk.injEq] at hp
    obtain ⟨rfl, rfl, rfl, hq, rfl, rfl⟩ := hp
    cases thumb with
    | true => exact Leads.start (n := 22) rfl (scan_thumb hq hb)
    | false => exact Leads.start (n := 15) rfl (scan_arm hq hb)
  | collect count sp mem =>
    cases hp
    cases thumb with
    | true => exact Leads.start (n := 33) rfl (collect_thumb hb)
    | false => exact Leads.start (n := 25) rfl (collect_arm hb)
  | swap count hi lo sp mem =>
    simp only [Blocks.At, Prod.mk.injEq] at hp
    obtain ⟨rfl, rfl, hsp, rfl, rfl, rfl, rfl⟩ := hp
    cases thumb with
    | true => exact Leads.start (n := 39) rfl (swap_thumb hsp hb)
    | false => exact Leads.start (n := 29) rfl (swap_arm hsp hb)
  | done count argv sp mem => cases hb

/-- The Thumb code and the ARM code both do what their basic blocks do. -/
theorem parseArgs_respects (thumb : Bool) :
    Respects Blocks.next (argsStep thumb) (Blocks.At thumb) := by
  intro b p hp
  rcases next_ne_none b with ⟨b', hb⟩ | ⟨count, argv, sp, mem, rfl⟩
  · rw [hb]
    exact reaches_next hp hb
  · obtain ⟨n, s⟩ := p
    simp only [Blocks.At, Prod.mk.injEq] at hp
    rw [hp.1]
    exact step_end

end Newlib.Startup
