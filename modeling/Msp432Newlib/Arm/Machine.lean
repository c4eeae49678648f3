import Mathlib.Computability.StateTransition
import Msp432Newlib.Arm.Memory

/-!
# A subset of the ARM instructions

The instructions that a small start-up routine is made of, with their effect on the registers, the
flags and memory.  A piece of code is a list of lines, labels and conditional instructions, as in an
assembly file; a branch goes to the line of its label.  `step` executes one line, and has no value
at the end of the code.  The functions that the code calls are a parameter.  Only the flags `Z` and
`C` are kept: no condition here reads the other two.

`Leads` chains the lines that are executed from one place to another, one rule for each kind of
line.
-/

namespace Arm

inductive Reg where
  | r0 | r1 | r2 | r3 | r4 | r5 | r6 | r7 | r8 | r9 | sl | fp | ip | sp | lr
  deriving DecidableEq

inductive Cond where
  | al | eq | ne | hi | ls

/-- The flexible second operand. -/
inductive Operand where
  | imm (v : Word)
  | reg (r : Reg)
  | lsl (r : Reg) (n : ℕ)

/-- `[n]`, `[n, #-v]`, `[n, #-v]!` and `[n], #v`. -/
inductive Address where
  | base (n : Reg)
  | below (n : Reg) (v : Word)
  | pre (n : Reg) (v : Word)
  | post (n : Reg) (v : Word)

/-- Instructions; `s` says whether the flags are set, `L` are the labels and `F` the functions that
are called by name.  `ldrLit` loads a constant from the literal pool behind the code. -/
inductive Instr (L F : Type) where
  | mov (s : Bool) (d : Reg) (x : Operand)
  | add (s : Bool) (d n : Reg) (x : Operand)
  | sub (s : Bool) (d n : Reg) (x : Operand)
  | bic (s : Bool) (d n : Reg) (x : Operand)
  | cmp (n : Reg) (x : Operand)
  | ldr (t : Reg) (a : Address)
  | ldrLit (t : Reg) (v : Word)
  | ldrb (t : Reg) (a : Address)
  | str (t : Reg) (a : Address)
  | strb (t : Reg) (a : Address)
  | b (l : L)
  | bl (f : F)
  | blx (n : Reg)

/-- A line of an assembly file. -/
inductive Line (L F : Type) where
  | label (l : L)
  | when (c : Cond) (i : Instr L F)

/-- An instruction without a condition. -/
abbrev Line.ins {L F : Type} (i : Instr L F) : Line L F := .when .al i

/-- `push {t}`, which is `str t, [sp, #-4]!`. -/
def Instr.push {L F : Type} (t : Reg) : Instr L F := .str t (.pre .sp 4)

/-- The line is the label `l`. -/
def Line.IsLabel {L F : Type} [DecidableEq L] (l : L) : Line L F → Bool
  | label l' => l' = l
  | when _ _ => false

/-- The line that a label names. -/
def target {L F : Type} [DecidableEq L] (code : List (Line L F)) (l : L) : ℕ :=
  code.findIdx (Line.IsLabel l)

/-- The processor with its memory. -/
structure Cpu where
  reg : Reg → Word
  z : Bool
  c : Bool
  mem : Mem

namespace Cpu

variable (s : Cpu)

def set (r : Reg) (v : Word) : Cpu := { s with reg := fun q => if q = r then v else s.reg q }

/-- Set the flags when the instruction asks for it. -/
def flags (set : Bool) (v : Word) (c : Bool) : Cpu :=
  if set then { s with z := decide (v = 0), c := c } else s

/-- The condition holds. -/
def holds : Cond → Bool
  | .al => true
  | .eq => s.z
  | .ne => !s.z
  | .hi => s.c && !s.z
  | .ls => !s.c || s.z

/-- The value of an operand. -/
def operand : Operand → Word
  | .imm v => v
  | .reg r => s.reg r
  | .lsl r n => s.reg r <<< n

/-- The carry out of the shifter. -/
def shifted : Operand → Bool
  | .lsl r (n + 1) => (s.reg r).getLsbD (32 - (n + 1))
  | _ => s.c

/-- The address of an access. -/
def address : Address → Word
  | .base n => s.reg n
  | .below n v => s.reg n - v
  | .pre n v => s.reg n - v
  | .post n _ => s.reg n

/-- The base register after an access. -/
def writeBack : Address → Cpu
  | .base _ | .below _ _ => s
  | .pre n v => s.set n (s.reg n - v)
  | .post n v => s.set n (s.reg n + v)

end Cpu

variable {L F : Type}

/-- What an instruction does to registers, flags and memory. -/
def effect (call : F ⊕ Word → Cpu → Cpu) (i : Instr L F) (s : Cpu) : Cpu :=
  match i with
  | .mov f d x => (s.set d (s.operand x)).flags f (s.operand x) (s.shifted x)
  | .add f d n x =>
    (s.set d (s.reg n + s.operand x)).flags f (s.reg n + s.operand x)
      (decide (2 ^ 32 ≤ (s.reg n).toNat + (s.operand x).toNat))
  | .sub f d n x =>
    (s.set d (s.reg n - s.operand x)).flags f (s.reg n - s.operand x)
      (decide (s.operand x ≤ s.reg n))
  | .bic f d n x =>
    (s.set d (s.reg n &&& ~~~ s.operand x)).flags f (s.reg n &&& ~~~ s.operand x) (s.shifted x)
  | .cmp n x => s.flags true (s.reg n - s.operand x) (decide (s.operand x ≤ s.reg n))
  | .ldr t a => (s.writeBack a).set t (s.mem.word (s.address a))
  | .ldrLit t v => s.set t v
  | .ldrb t a => (s.writeBack a).set t ((s.mem (s.address a)).setWidth 32)
  | .str t a => { s.writeBack a with mem := s.mem.setWord (s.address a) (s.reg t) }
  | .strb t a => { s.writeBack a with mem := s.mem.setByte (s.address a) ((s.reg t).setWidth 8) }
  | .b _ => s
  | .bl f => call (.inl f) s
  | .blx n => call (.inr (s.reg n)) s

variable [DecidableEq L]

/-- The line after an instruction on line `n`. -/
def next (code : List (Line L F)) (n : ℕ) : Instr L F → ℕ
  | .b l => target code l
  | _ => n + 1

/-- Execute the line at hand; the first component is its number. -/
def step (call : F ⊕ Word → Cpu → Cpu) (code : List (Line L F)) (p : ℕ × Cpu) :
    Option (ℕ × Cpu) :=
  match code[p.1]? with
  | none => none
  | some (.label _) => some (p.1 + 1, p.2)
  | some (.when c i) =>
    if p.2.holds c then some (next code p.1 i, effect call i p.2) else some (p.1 + 1, p.2)

variable {call : F ⊕ Word → Cpu → Cpu} {code : List (Line L F)} {n : ℕ} {s : Cpu}

/-- A label is passed. -/
lemma step_label {l : L} (h : code[n]? = some (.label l)) :
    step call code (n, s) = some (n + 1, s) := by
  simp [step, h]

/-- An instruction whose condition holds is executed. -/
lemma step_when {c : Cond} {i : Instr L F} (h : code[n]? = some (.when c i))
    (hc : s.holds c = true) : step call code (n, s) = some (next code n i, effect call i s) := by
  simp [step, h, hc]

/-- An instruction whose condition does not hold is passed over. -/
lemma step_pass {c : Cond} {i : Instr L F} (h : code[n]? = some (.when c i))
    (hc : s.holds c = false) : step call code (n, s) = some (n + 1, s) := by
  simp [step, h, hc]

/-- At the end of the code there is nothing to execute. -/
lemma step_end : step call code (code.length, s) = none := by
  simp [step]

/-! ## Chains of lines -/

open StateTransition

/-- From line `n` and `s` the code gets to a place that satisfies `P`. -/
def Leads (call : F ⊕ Word → Cpu → Cpu) (code : List (Line L F)) (n : ℕ) (s : Cpu)
    (P : ℕ × Cpu → Prop) : Prop :=
  ∃ q, P q ∧ Reaches (step call code) (n, s) q

namespace Leads

variable {P : ℕ × Cpu → Prop}

lemma here (h : P (n, s)) : Leads call code n s P := ⟨(n, s), h, .refl⟩

lemma label {l : L} (hl : code[n]? = some (.label l)) (h : Leads call code (n + 1) s P) :
    Leads call code n s P := by
  obtain ⟨q, hq, hrun⟩ := h
  exact ⟨q, hq, .head (step_label hl) hrun⟩

/-- From a label on, the code takes at least one step. -/
lemma start {l : L} (hl : code[n]? = some (.label l)) (h : Leads call code (n + 1) s P) :
    ∃ q, P q ∧ Reaches₁ (step call code) (n, s) q := by
  obtain ⟨q, hq, hrun⟩ := h
  exact ⟨q, hq, .head' (step_label hl) hrun⟩

lemma when {c : Cond} {i : Instr L F} (hl : code[n]? = some (.when c i)) (hc : s.holds c = true)
    (h : Leads call code (next code n i) (effect call i s) P) : Leads call code n s P := by
  obtain ⟨q, hq, hrun⟩ := h
  exact ⟨q, hq, .head (step_when hl hc) hrun⟩

lemma ins {i : Instr L F} (hl : code[n]? = some (.ins i))
    (h : Leads call code (next code n i) (effect call i s) P) : Leads call code n s P :=
  h.when hl rfl

/-- A branch that is taken, to line `m`. -/
lemma branch {c : Cond} {l : L} {m : ℕ} (hl : code[n]? = some (.when c (.b l)))
    (hc : s.holds c = true) (hm : target code l = m) (h : Leads call code m s P) :
    Leads call code n s P := by
  subst hm
  exact h.when hl hc

lemma pass {c : Cond} {i : Instr L F} (hl : code[n]? = some (.when c i))
    (hc : s.holds c = false) (h : Leads call code (n + 1) s P) : Leads call code n s P := by
  obtain ⟨q, hq, hrun⟩ := h
  exact ⟨q, hq, .head (step_pass hl hc) hrun⟩

end Leads

end Arm
