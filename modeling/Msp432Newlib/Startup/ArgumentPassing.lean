import Msp432Newlib.Startup.Arguments

/-!
# Passing arguments to `main`

The results on the basic blocks, read back on the code through `parseArgs_respects`: what the code
leaves for `main` (`parseArgs_correct`), that its two spellings do the same on every state
(`parseArgs_agree`), and which arguments can be passed at all (`passes_iff`).
-/

namespace Newlib.Startup

open Arm StateTransition Streams

/-- The first basic block. -/
def entry (s : Cpu) : Blocks :=
  .skip 0 (s.reg .r1) (s.reg .sp - 4) (s.mem.setWord (s.reg .sp - 4) 0)

/-- The code begins with `movs r0, #0` and `push {r0}`. -/
lemma leads_entry (thumb : Bool) (s : Cpu) :
    Leads noCall (parseArgs thumb) 0 s ((entry s).At thumb) := by
  rcases Bool.eq_false_or_eq_true thumb with rfl | rfl
  · exact .ins rfl (.ins rfl (.here rfl))
  · exact .ins rfl (.ins rfl (.here rfl))

/-- Only behind the code there is nothing to do. -/
lemma eq_done_of_next {b : Blocks} (h : b.next = none) :
    ∃ argc argv sp m, b = .done argc argv sp m := by
  rcases b with _ | _ | _ | _ | ⟨argc, argv, sp, m⟩
  · simp only [Blocks.next] at h
    split_ifs at h
  · simp only [Blocks.next] at h
    split_ifs at h
  · exact absurd h (Option.some_ne_none _)
  · simp only [Blocks.next] at h
    split_ifs at h
  · exact ⟨argc, argv, sp, m, rfl⟩

/-- A run of the code ends where a run of the basic blocks ends. -/
lemma mem_eval_blocks (thumb : Bool) {s : Cpu} {p : ℕ × Cpu}
    (hp : p ∈ eval (argsStep thumb) (0, s)) :
    ∃ argc argv sp m, .done argc argv sp m ∈ eval Blocks.next (entry s) ∧
      (Blocks.done argc argv sp m).At thumb p := by
  obtain ⟨q, hq, hrun⟩ := leads_entry thumb s
  rw [reaches_eval hrun] at hp
  obtain ⟨b, hb, hmem⟩ := tr_eval_rev (parseArgs_respects thumb) hq hp
  obtain ⟨argc, argv, sp, m, rfl⟩ := eq_done_of_next (mem_eval.1 hmem).2
  exact ⟨argc, argv, sp, m, hmem, hb⟩

/-- And where a run of the basic blocks ends, a run of the code ends. -/
lemma mem_eval_args (thumb : Bool) {s : Cpu} {b : Blocks} (hb : b ∈ eval Blocks.next (entry s)) :
    ∃ p ∈ eval (argsStep thumb) (0, s), b.At thumb p := by
  obtain ⟨q, hq, hrun⟩ := leads_entry thumb s
  obtain ⟨p, hp, hmem⟩ := tr_eval (parseArgs_respects thumb) hq hb
  rw [← reaches_eval hrun] at hmem
  exact ⟨p, hmem, hp⟩

/-- For a command line at `r1` and enough room on the stack, the last block is reached. -/
lemma exists_done (thumb : Bool) (s : Cpu) {line : List (BitVec 8)}
    (hm : s.mem.Holds (s.reg .r1) (line ++ [0])) (h0 : 0 ∉ line)
    (hroom : Room (s.reg .r1) (s.reg .sp) line) :
    ∃ p ∈ eval (argsStep thumb) (0, s), ∃ argc argv sp m, (Blocks.done argc argv sp m).At thumb p ∧
      Passed (s.reg .r1) (s.reg .sp) line s.mem argc argv sp m := by
  obtain ⟨argc, argv, sp, m, hrun, hpassed⟩ := blocks_run hroom hm h0
  obtain ⟨p, hp, hat⟩ := mem_eval_args thumb (s := s) (mem_eval.2 ⟨hrun, rfl⟩)
  exact ⟨p, hp, argc, argv, sp, m, hat, hpassed⟩

/-- **What the code leaves for `main`.**  For a command line at `r1` and enough room on the stack,
the code comes to its end, with the number of arguments in `r0` and the array in `r1`. -/
theorem parseArgs_correct (thumb : Bool) (s : Cpu) {line : List (BitVec 8)}
    (hm : s.mem.Holds (s.reg .r1) (line ++ [0])) (h0 : 0 ∉ line)
    (hroom : Room (s.reg .r1) (s.reg .sp) line) :
    ∃ p ∈ eval (argsStep thumb) (0, s), p.1 = (parseArgs thumb).length ∧
      Passed (s.reg .r1) (s.reg .sp) line s.mem (p.2.reg .r0) (p.2.reg .r1) (p.2.reg .sp)
        p.2.mem := by
  obtain ⟨p, hp, argc, argv, sp, m, hat, hpassed⟩ := exists_done thumb s hm h0 hroom
  simp only [Blocks.At, Prod.mk.injEq] at hat
  obtain ⟨hpc, rfl, rfl, rfl, rfl⟩ := hat
  exact ⟨p, hp, hpc, hpassed⟩

/-- `a 'b c'` comes apart into two arguments. -/
theorem parseArgs_correct_two : ∃ s : Cpu,
    ∃ p ∈ eval (argsStep true) (0, s), p.1 = (parseArgs true).length ∧
      Passed (s.reg .r1) (s.reg .sp) [0x61, 0x20, 0x27, 0x62, 0x20, 0x63, 0x27] s.mem (p.2.reg .r0)
        (p.2.reg .r1) (p.2.reg .sp) p.2.mem := by
  have hargs : args [0x61, 0x20, 0x27, 0x62, 0x20, 0x63, 0x27] = [[0x61], [0x62, 0x20, 0x63]] := by
    simp [args, words, cmdline, upTo, behind]
  obtain ⟨m, hm⟩ := Mem.exists_holds 0x20000000
    [0x61, 0x20, 0x27, 0x62, 0x20, 0x63, 0x27, 0] (by decide)
  have hroom : Room 0x20000000 0x20001000 [0x61, 0x20, 0x27, 0x62, 0x20, 0x63, 0x27] := by
    refine ⟨by decide, ?_, ?_⟩
    · rw [hargs]
      decide
    · rw [hargs]
      decide
  exact ⟨⟨fun r => if r = .r1 then 0x20000000 else 0x20001000, false, false, m⟩,
    parseArgs_correct true _ hm (by decide) hroom⟩

/-- What `main` sees of a state. -/
def passes (p : ℕ × Cpu) : Word × Word × Word × Mem :=
  (p.2.reg .r0, p.2.reg .r1, p.2.reg .sp, p.2.mem)

/-- **The two spellings agree.**  Whatever is in registers and memory, also where a line does not
end or lies on the stack, Thumb code and ARM code come to an end on the same states and leave the
same arguments, stack pointer and memory. -/
theorem parseArgs_agree (s : Cpu) :
    (eval (argsStep true) (0, s)).map passes = (eval (argsStep false) (0, s)).map passes := by
  have hsub : ∀ thumb thumb' v, v ∈ (eval (argsStep thumb) (0, s)).map passes →
      v ∈ (eval (argsStep thumb') (0, s)).map passes := by
    intro thumb thumb' v hv
    obtain ⟨p, hp, rfl⟩ := (Part.mem_map_iff _).1 hv
    obtain ⟨argc, argv, sp, m, hb, hat⟩ := mem_eval_blocks thumb hp
    obtain ⟨p', hp', hat'⟩ := mem_eval_args thumb' hb
    refine (Part.mem_map_iff _).2 ⟨p', hp', ?_⟩
    exact (congrArg Prod.snd hat').trans (congrArg Prod.snd hat).symm
  exact Part.ext fun v => ⟨hsub true false v, hsub false true v⟩

/-- The code comes to its end with the arguments `ws` for `main`. -/
def Passes (thumb : Bool) (s : Cpu) (ws : List (List (BitVec 8))) : Prop :=
  ∃ p ∈ eval (argsStep thumb) (0, s), (p.2.reg .r0).toNat = ws.length ∧
    ∀ i (hi : i < ws.length),
      p.2.mem.Holds (p.2.mem.word (p.2.reg .r1 + BitVec.ofNat 32 (4 * i))) (ws[i] ++ [0])

/-- A command line at `a`, with room for its arguments below `sp`. -/
structure Given (a sp : Word) (line : List (BitVec 8)) (s : Cpu) : Prop where
  r1_eq : s.reg .r1 = a
  sp_eq : s.reg .sp = sp
  held : s.mem.Holds a (line ++ [0])
  zero_notMem : 0 ∉ line
  room : Room a sp line

/-- Only the words of the line are passed. -/
lemma passes_args {thumb : Bool} {a sp : Word} {line : List (BitVec 8)} {s : Cpu}
    (h : Given a sp line s) {ws : List (List (BitVec 8))} (hws : ∀ w ∈ ws, 0 ∉ w) :
    Passes thumb s ws ↔ ws = args line := by
  obtain ⟨rfl, rfl, hm, h0, hroom⟩ := h
  obtain ⟨p, hp, argc, argv, sp, m, hat, hpassed⟩ := exists_done thumb s hm h0 hroom
  simp only [Blocks.At, Prod.mk.injEq] at hat
  obtain ⟨-, rfl, rfl, rfl, rfl⟩ := hat
  have hlen : (args line).length < 2 ^ 32 := by
    have := hroom.stack_le
    omega
  have hheld : ∀ i (hi : i < (args line).length),
      p.2.mem.Holds (p.2.mem.word (p.2.reg .r1 + BitVec.ofNat 32 (4 * i)))
        ((args line)[i] ++ [0]) := by
    intro i hi
    obtain ⟨_, _, _, hi⟩ := hpassed.arg i hi
    exact hi
  constructor
  · rintro ⟨p', hp', hcount, hargs⟩
    obtain rfl := Part.mem_unique hp hp'
    rw [hpassed.argc_eq, BitVec.toNat_ofNat, Nat.mod_eq_of_lt hlen] at hcount
    refine List.ext_getElem hcount.symm fun i hi hi' => ?_
    exact (hargs i hi).eq_of_nul (hheld i hi') (hws _ (List.getElem_mem hi))
      fun h => h0 (mem_of_mem_words (List.getElem_mem hi') h)
  · rintro rfl
    refine ⟨p, hp, ?_, hheld⟩
    rw [hpassed.argc_eq, BitVec.toNat_ofNat, Nat.mod_eq_of_lt hlen]

/-- **Which arguments can be passed.**  When there is room for the words, with two characters more
for each, there is a command line that passes them exactly when each can be written: some quote does
not occur in it, or it is not empty, contains no blank and does not begin with a quote. -/
theorem passes_iff (thumb : Bool) {a sp : Word} {ws : List (List (BitVec 8))}
    (hws : ∀ w ∈ ws, 0 ∉ w)
    (hfit : a.toNat + (ws.map fun w => w.length + 2).sum < sp.toNat - 4 * (ws.length + 1)) :
    (∃ line s, Given a sp line s ∧ Passes thumb s ws) ↔ ∀ w ∈ ws, Writable cmdline w := by
  constructor
  · rintro ⟨line, s, hgiven, hpasses⟩
    rw [passes_args hgiven hws] at hpasses
    rw [hpasses]
    exact fun w hw => writable_of_mem_words hw
  · intro hw
    obtain ⟨line, hline, hlen, hchars⟩ := (exists_words_eq_iff ws).2 hw
    have hlt := sp.isLt
    obtain ⟨m, hm⟩ := Mem.exists_holds a (line ++ [0]) (by
      rw [List.length_append, List.length_singleton]
      omega)
    have hgiven : Given a sp line ⟨fun r => if r = .r1 then a else sp, false, false, m⟩ := by
      refine ⟨rfl, rfl, hm, ?_, ?_, ?_, ?_⟩
      · intro hmem
        rcases hchars 0 hmem with ⟨w, hw, h0⟩ | h0 | h0
        · exact hws w hw h0
        · exact absurd h0 (by decide)
        · exact absurd h0 (by decide)
      · omega
      · rw [args, hline]
        omega
      · rw [args, hline]
        omega
    exact ⟨line, _, hgiven, (passes_args hgiven hws).2 hline.symm⟩

/-- An argument that begins with one quote and contains the other cannot be passed. -/
theorem passes_iff_quotes : ¬ ∃ line s, Given 0x20000000 0x20001000 line s ∧
    Passes true s [[0x22, 0x27]] := by
  rw [passes_iff true (by decide) (by decide)]
  intro h
  rcases h _ (List.mem_singleton_self _) with ⟨d, hd, hdw⟩ | ⟨c, cs, hw, hc, -⟩
  · exact hdw hd
  · obtain ⟨rfl, -⟩ := List.cons.inj hw
    exact hc (by decide)

end Newlib.Startup
