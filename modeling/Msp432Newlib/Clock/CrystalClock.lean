import Msp432Newlib.Clock.Observed
import Msp432Newlib.Clock.PowerModes

/-!
# The example on the crystal oscillator

The function `main` of `msp432p401_cs.c`, which raises the core voltage, sets the wait states of the
flash, turns HFXT on, waits until its flag stays clear, and takes MCLK from it at 48 MHz.  The loop
on the flag stores to `CLRIFG` in its body, so it is given a number of rounds here, after which the
run is followed no further; the stores to the ports are left out.
-/

namespace Newlib

open Effects

def CS_IFG_HFXTIFG : BitVec 32 := 0x00000002

def CS_CTL1_SELM_HFXTCLK : BitVec 32 := 0x00000005

def CS_CTL1_SELS_MASK : BitVec 32 := 0x00000070

def CS_CTL1_SELS_HFXTCLK : BitVec 32 := 0x00000050

def CS_CTL1_DIVHS_MASK : BitVec 32 := 0x00700000

def CS_CTL2_HFXT_EN : BitVec 32 := 0x01000000

def CS_CTL2_HFXTFREQ_6 : BitVec 32 := 0x00600000

def CS_CTL2_HFXTDRIVE : BitVec 32 := 0x00010000

namespace CsDemo

/-- `while(CS->IFG & CS_IFG_HFXTIFG) CS->CLRIFG |= CS_CLRIFG_CLR_HFXTIFG;`, for `n` looks at the
flag.  The answer is whether the loop has ended. -/
def clearHFXT : ℕ → Prog chipSig Bool
  | 0 => .ret false
  | n + 1 => do
    let ifg ← Cs.loadIFG
    if ifg &&& CS_IFG_HFXTIFG ≠ 0 then
      let clrifg ← Cs.loadCLRIFG
      Cs.storeCLRIFG (clrifg ||| CS_CLRIFG_CLR_HFXTIFG)
      clearHFXT n
    else .ret true

/-- Step 1, as far as it can fail: to the higher core voltage. -/
def raiseVcore (rest : Prog chipSig (Option Outcome)) : Prog chipSig (Option Outcome) := do
  let currentPowerState ← Cs.loadPCM
  if currentPowerState &&& PCM_CTL0_CPM_MASK ≠ PCM_CTL0_CPM_0 then .ret (some .error)
  else
    changeMode 1
    let ifg ← Cs.loadPCMIFG
    if ifg &&& PCM_IFG_AM_INVALID_TR_IFG ≠ 0 then .ret (some .error)
    else
      let ctl0 ← Cs.loadPCM
      if ctl0 &&& PCM_CTL0_CPM_MASK ≠ PCM_CTL0_CPM_1 then .ret (some .error)
      else rest

/-- Step 2: the wait states.  The value that is stored for bank 1 is made from that of bank 0. -/
def flashWait : Prog chipSig Unit := do
  let v ← Cs.load .BANK0_RDCTL
  Cs.store .BANK0_RDCTL (v &&& ~~~FLCTL_RDCTL_WAIT_MASK ||| FLCTL_RDCTL_WAIT_1)
  let v ← Cs.load .BANK0_RDCTL
  Cs.store .BANK1_RDCTL (v &&& ~~~FLCTL_RDCTL_WAIT_MASK ||| FLCTL_RDCTL_WAIT_1)

/-- Step 3: HFXT becomes the source of MCLK. -/
def selectHFXT (n : ℕ) : Prog chipSig (Option Outcome) := do
  Cs.store .KEY CS_KEY_VAL
  let v ← Cs.load .CTL2
  Cs.store .CTL2 (v ||| (CS_CTL2_HFXT_EN ||| CS_CTL2_HFXTFREQ_6 ||| CS_CTL2_HFXTDRIVE))
  let ended ← clearHFXT n
  if ended then
    let v ← Cs.load .CTL1
    Cs.store .CTL1 (v &&& ~~~(CS_CTL1_SELM_MASK ||| CS_CTL1_DIVM_MASK ||| CS_CTL1_SELS_MASK |||
      CS_CTL1_DIVHS_MASK) ||| (CS_CTL1_SELM_HFXTCLK ||| CS_CTL1_SELS_HFXTCLK))
    Cs.store .KEY 0
    .ret (some .done)
  else .ret none

/-- `int main(void)` of `msp432p401_cs.c`, with `n` looks at the flag of HFXT. -/
def main (n : ℕ) : Prog chipSig (Option Outcome) := do
  Cs.storeWDT (WDT_A_CTL_PW ||| WDT_A_CTL_HOLD)
  raiseVcore do
    flashWait
    selectHFXT n

end CsDemo

/-! ## Assertions -/

/-- At rest in the mode `m`, and `K` of the registers. -/
def At (m : PowerMode) (K : (ChipReg → BitVec 32) → Prop) (c : Chip) : Prop :=
  c.pcm = .idle m ∧ K c.reg

section Rules

variable {c : Chip} {m : PowerMode} {K K' : (ChipReg → BitVec 32) → Prop}

end Rules

/-! ## The loop on the flag -/

section Loop

variable {K : (ChipReg → BitVec 32) → Prop} {φ : Chip × List Chip → Prop}

end Loop

/-! ## The whole program -/

section Steps

variable {c : Chip} {m : PowerMode}

end Steps

end Newlib
