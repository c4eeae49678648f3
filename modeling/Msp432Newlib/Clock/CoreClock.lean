import Msp432Newlib.Effects.History
import Msp432Newlib.Clock.InitRuns

/-!
# `SystemCoreClockUpdate`

The function of `system_msp432p401r.c` that sets `SystemCoreClock` to the frequency of MCLK, as far
as it can be read off the registers and the flags of the crystals.  Where a crystal has its flag
set, the code clears the flag and looks again.  For a DCO that is tuned the source evaluates an
expression in floating point, which stands as the parameter `tuned` here; for the ranges 6 and 7 of
the DCO it uses a variable that has not been set, whose value is the parameter `junk`.
-/

namespace Newlib

open Effects

def CS_CLRIFG_CLR_HFXTIFG : BitVec 32 := 0x00000002

namespace Cs

variable (c : Chip) (r : ChipReg) (v : BitVec 32)

end Cs

/-- The number of the range of the DCO. -/
def Chip.dcorsel (c : Chip) : ℕ := ((c.reg .CTL0 &&& CS_CTL0_DCORSEL_MASK) >>> 16).toNat

/-- A crystal that has stopped has its flag set. -/
structure Chip.Flagged (c : Chip) : Prop where
  lfxt : c.lfxt.fault = true → c.lfxt.flag = true
  hfxt : c.hfxt.fault = true → c.hfxt.flag = true

section Frequencies

variable {c c' : Chip}

end Frequencies

/-! ## Undisturbed runs -/

/-- The accesses that `SystemCoreClockUpdate` makes. -/
def ChipOp.Reads : chipSig.Op → Prop
  | .load _ | .loadIFG | .loadCLRIFG | .storeCLRIFG _ | .storeClock _ => True
  | .store r _ => r = .KEY
  | .storeWDT _ | .awaitPCM | .loadPCM | .storePCM _ | .loadPCMIFG => False

/-- The states agree in all that MCLK depends on. -/
structure Chip.SameClock (c c' : Chip) : Prop where
  reg_eq : ∀ r, r ≠ .KEY → c'.reg r = c.reg r
  lfxt_eq : c'.lfxt.fault = c.lfxt.fault
  hfxt_eq : c'.hfxt.fault = c.hfxt.fault
  standIn_eq : c'.standIn = c.standIn

lemma Chip.set_lfxt {c : Chip} {r : ChipReg} {v : BitVec 32} : (c.set r v).lfxt = c.lfxt := by
  unfold Chip.set
  split <;> rfl

lemma Chip.set_hfxt {c : Chip} {r : ChipReg} {v : BitVec 32} : (c.set r v).hfxt = c.hfxt := by
  unfold Chip.set
  split <;> rfl

lemma Chip.set_standIn {c : Chip} {r : ChipReg} {v : BitVec 32} :
    (c.set r v).standIn = c.standIn := by
  unfold Chip.set
  split <;> rfl

section Undisturbed

variable {c c' : Chip} {o : chipSig.Op}

/-- Only flags are cleared. -/
lemma Chip.clearIFG_eq (c : Chip) (v : BitVec 32) : (c.clearIFG v).reg = c.reg ∧
    (c.clearIFG v).lfxt.fault = c.lfxt.fault ∧ (c.clearIFG v).hfxt.fault = c.hfxt.fault ∧
      (c.clearIFG v).standIn = c.standIn := by
  unfold Chip.clearIFG
  by_cases hc : c.Unlocked
  · rw [if_pos hc]
    refine ⟨rfl, ?_, ?_, rfl⟩
    · dsimp only
      split <;> rfl
    · dsimp only
      split <;> rfl
  · rw [if_neg hc]
    exact ⟨rfl, rfl, rfl, rfl⟩

/-- The registers and the stopped crystals are what they were. -/
lemma Chip.SameClock.handle (h : c.SameClock c') (ho : o.Reads) :
    c.SameClock (ChipOp.handle o c').2 := by
  cases o with
  | load r => exact h
  | loadIFG => exact h
  | loadCLRIFG => exact h
  | storeClock v => exact ⟨h.reg_eq, h.lfxt_eq, h.hfxt_eq, h.standIn_eq⟩
  | store r v =>
    obtain rfl : r = .KEY := ho
    refine ⟨fun r hr => (Chip.set_reg_of_ne hr).trans (h.reg_eq r hr), ?_, ?_, ?_⟩
    · exact (congrArg Crystal.fault Chip.set_lfxt).trans h.lfxt_eq
    · exact (congrArg Crystal.fault Chip.set_hfxt).trans h.hfxt_eq
    · exact Chip.set_standIn.trans h.standIn_eq
  | storeCLRIFG v =>
    obtain ⟨hreg, hlfxt, hhfxt, hstandIn⟩ := Chip.clearIFG_eq c' v
    exact ⟨fun r hr => (congrFun hreg r).trans (h.reg_eq r hr), hlfxt.trans h.lfxt_eq,
      hhfxt.trans h.hfxt_eq, hstandIn.trans h.standIn_eq⟩
  | storeWDT _ | awaitPCM | loadPCM | storePCM _ | loadPCMIFG => cases ho

/-- MCLK runs as before. -/
lemma Chip.SameClock.mclk_eq (h : c.SameClock c') : c'.mclk = c.mclk := by
  unfold Chip.mclk Chip.sourceFreq Chip.refoFreq
  rw [h.reg_eq .CTL1 (by decide), h.reg_eq .CTL0 (by decide), h.reg_eq .CLKEN (by decide),
    h.lfxt_eq, h.hfxt_eq, h.standIn_eq]

end Undisturbed

section AfterInit

variable {c : Chip}

end AfterInit

end Newlib
