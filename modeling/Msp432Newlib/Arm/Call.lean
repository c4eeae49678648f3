import Msp432Newlib.Arm.Machine

/-!
# What a called function leaves alone

The procedure call standard, as a relation between the states before and after a call: the registers
`r4` to `r11` and the stack pointer are as they were, and so is the memory that the function has no
business with.  The relation composes, so that it can be followed through a sequence of calls.
-/

namespace Arm

/-- The registers that a called function leaves as they are. -/
def calleeSaved : List Reg := [.r4, .r5, .r6, .r7, .r8, .r9, .sl, .fp, .sp]

/-- From `s` to `s'` only the registers that a function need not save change, and memory at the
addresses that are `free` to it. -/
structure Keeps (free : Word → Prop) (s s' : Cpu) : Prop where
  saved : ∀ r ∈ calleeSaved, s'.reg r = s.reg r
  mem : ∀ x, ¬ free x → s'.mem x = s.mem x

namespace Keeps

variable {free : Word → Prop} {s s' s'' : Cpu}

lemma refl (s : Cpu) : Keeps free s s := ⟨fun _ _ => rfl, fun _ _ => rfl⟩

lemma trans (h : Keeps free s s') (h' : Keeps free s' s'') : Keeps free s s'' :=
  ⟨fun r hr => (h'.saved r hr).trans (h.saved r hr), fun x hx => (h'.mem x hx).trans (h.mem x hx)⟩

/-- A scratch register is loaded. -/
lemma set {r : Reg} (h : Keeps free s s') (hr : r ∉ calleeSaved) (v : Word) :
    Keeps free s (s'.set r v) := by
  refine ⟨fun q hq => ?_, h.mem⟩
  have hne : q ≠ r := by
    rintro rfl
    exact hr hq
  exact (if_neg hne).trans (h.saved q hq)

/-- The flags are set. -/
lemma flags (h : Keeps free s s') (f : Bool) (v : Word) (c : Bool) :
    Keeps free s (s'.flags f v c) := by
  rcases Bool.eq_false_or_eq_true f with rfl | rfl
  · exact ⟨h.saved, h.mem⟩
  · exact ⟨h.saved, h.mem⟩

/-- `mov` into a scratch register. -/
lemma mov {L F : Type} {call : F ⊕ Word → Cpu → Cpu} {f : Bool} {d : Reg} {x : Operand}
    (h : Keeps free s s') (hd : d ∉ calleeSaved) :
    Keeps free s (effect call (.mov f d x : Instr L F) s') :=
  (h.set hd _).flags _ _ _

end Keeps

/-! ## Functions that need not be there -/

section Weak

variable {L F : Type} [DecidableEq L] {call : F ⊕ Word → Cpu → Cpu} {code : List (Line L F)}
  {n : ℕ} {s : Cpu} {P : ℕ × Cpu → Prop} {free : Word → Prop}

/-- The call of a function at the address `v`, where 0 stands for a function that is not there:
`ldr r3, =v`, `cmp r3, #0`, `beq l`, `blx r3`, `l:`. -/
lemma Leads.weak {v : Word} {l : L} (h0 : code[n]? = some (.ins (.ldrLit .r3 v)))
    (h1 : code[n + 1]? = some (.ins (.cmp .r3 (.imm 0))))
    (h2 : code[n + 2]? = some (.when .eq (.b l)))
    (h3 : code[n + 3]? = some (.ins (.blx .r3))) (h4 : code[n + 4]? = some (.label l))
    (hl : target code l = n + 4)
    (hcall : ∀ s', Keeps free s' (call (.inr v) s'))
    (h : ∀ s', Keeps free s s' → Leads call code (n + 5) s' P) : Leads call code n s P := by
  have hload : Keeps free s ((s.set .r3 v).flags true (v - 0) (decide (0 ≤ v))) :=
    ((Keeps.refl s).set (by decide) v).flags _ _ _
  refine .ins h0 (.ins h1 ?_)
  by_cases hv : v = 0
  · have hz : decide (v - 0 = 0) = true := decide_eq_true (by bv_omega)
    exact .branch h2 hz hl (.label h4 (h _ hload))
  · have hz : decide (v - 0 = 0) = false := decide_eq_false (by bv_omega)
    refine .pass h2 hz (.ins h3 (.label h4 (h _ (hload.trans ?_))))
    exact hcall _

end Weak

end Arm
