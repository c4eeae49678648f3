import Msp432Newlib.Clock.CoreClock

/-!
# `SystemCoreClockUpdate` while crystals stop and start

What the function has found out may be out of date when it returns.  It was right at some moment of
its run, though: the outlines here speak of the past, in the sense of `Effects.History`.
-/

namespace Newlib

open Effects

/-- The states agree in the registers of the clock system, and the flags are right. -/
structure Chip.Steady (c c' : Chip) : Prop where
  reg_eq : ∀ r, r ≠ .KEY → c'.reg r = c.reg r
  standIn_eq : c'.standIn = c.standIn
  flagged : c'.Flagged

section Steady

variable {c c' : Chip} {o : chipSig.Op}

lemma Chip.Flagged.clearIFG (h : c.Flagged) (v : BitVec 32) : (c.clearIFG v).Flagged := by
  unfold Chip.clearIFG
  by_cases hc : c.Unlocked
  · rw [if_pos hc]
    constructor
    · dsimp only
      split
      · exact id
      · exact h.lfxt
    · dsimp only
      split
      · exact id
      · exact h.hfxt
  · rwa [if_neg hc]

lemma Chip.Steady.handle (h : c.Steady c') (ho : o.Reads) : c.Steady (ChipOp.handle o c').2 := by
  cases o with
  | load r => exact h
  | loadIFG => exact h
  | loadCLRIFG => exact h
  | storeClock v => exact ⟨h.reg_eq, h.standIn_eq, h.flagged.lfxt, h.flagged.hfxt⟩
  | store r v =>
    obtain rfl : r = .KEY := ho
    refine ⟨fun r hr => (Chip.set_reg_of_ne hr).trans (h.reg_eq r hr),
      Chip.set_standIn.trans h.standIn_eq, ?_, ?_⟩
    · simp only [ChipOp.handle, Chip.set_lfxt]
      exact h.flagged.lfxt
    · simp only [ChipOp.handle, Chip.set_hfxt]
      exact h.flagged.hfxt
  | storeCLRIFG v =>
    obtain ⟨hreg, -, -, hstandIn⟩ := Chip.clearIFG_eq c' v
    exact ⟨fun r hr => (congrFun hreg r).trans (h.reg_eq r hr), hstandIn.trans h.standIn_eq,
      h.flagged.clearIFG v⟩
  | storeWDT _ | awaitPCM | loadPCM | storePCM _ | loadPCMIFG => cases ho

/-- Only the crystals matter to MCLK. -/
lemma Chip.Steady.mclk_eq (h : c.Steady c') :
    c'.mclk = { c with lfxt := c'.lfxt, hfxt := c'.hfxt : Chip }.mclk :=
  Chip.SameClock.mclk_eq ⟨h.reg_eq, rfl, rfl, h.standIn_eq⟩

end Steady

/-! ## The outline -/

/-- The assertions of the outline: the states so far are steady, and `φ`. -/
def Held (c : Chip) (φ : Chip × List Chip → Prop) (x : Chip × List Chip) : Prop :=
  Always c.Steady x ∧ φ x

section Rules

variable {c : Chip} {φ ψ : Chip × List Chip → Prop}

lemma Held.handle {x : Chip × List Chip} (h : Held c φ x) {o : chipSig.Op} (ho : o.Reads)
    (hψ : ψ ((ChipOp.handle o x.1).2, x.1 :: x.2)) :
    Held c ψ (chipWorld.recorded.handle o x).2 :=
  ⟨h.1.cons (h.1.now.handle ho), hψ⟩

end Rules

section Crystals

variable {c : Chip} {ofs : ℕ} {clr : BitVec 32} {w : Chip → Crystal} {nominal : ℕ} {d : BitVec 8}

end Crystals

section Sources

variable {c s : Chip}

variable {tuned : BitVec 32 → BitVec 16 → Bool → BitVec 32} {junk : BitVec 32}

end Sources

end Newlib
