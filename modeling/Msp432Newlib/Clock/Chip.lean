import Mathlib.Algebra.Order.Ring.Int
import Mathlib.Logic.Function.Basic
import Msp432Newlib.Effects.Outline

/-!
# Clocks, power modes and flash

The registers of the clock system, the power control manager and the flash controller that
`system_msp432p401r.c` and the example on power modes read and write, as a world that moves on its
own account: a change of the power mode takes its time, and crystals stop and start.  The registers
of the clock system can be written only while its key is in `KEY`.  A change of the power mode is
possible along the arrows of the diagram in `msp432p401_pcm.c` only; any other request sets a flag.
-/

namespace Newlib

open Effects

/-! ## Registers and fields -/

/-- The registers that the code uses as storage: one of the processor, one of the system controller,
five of the clock system and two of the flash controller. -/
inductive ChipReg where
  | CPACR
  | SRAM_BANKEN
  | KEY
  | CTL0
  | CTL1
  | CTL2
  | CLKEN
  | BANK0_RDCTL
  | BANK1_RDCTL
  deriving DecidableEq

/-- The registers that are written only while the clock system is unlocked. -/
def ChipReg.isProtected : ChipReg → Bool
  | CTL0 | CTL1 | CTL2 | CLKEN => true
  | CPACR | SRAM_BANKEN | KEY | BANK0_RDCTL | BANK1_RDCTL => false

def CS_KEY_VAL : BitVec 32 := 0x0000695A

def CS_CTL0_DCOTUNE_MASK : BitVec 32 := 0x000003FF

def CS_CTL0_DCORSEL_MASK : BitVec 32 := 0x00070000

def CS_CTL1_SELM_MASK : BitVec 32 := 0x00000007

/-- The constant `CS_CTL1_SELM__DCOCLK`. -/
def CS_CTL1_SELM_DCOCLK : BitVec 32 := 0x00000003

def CS_CTL1_DIVM_MASK : BitVec 32 := 0x00070000

def PCM_CTL0_KEY_VAL : BitVec 32 := 0x695A0000

def FLCTL_RDCTL_WAIT_MASK : BitVec 32 := 0x0000F000

def FLCTL_RDCTL_WAIT_1 : BitVec 32 := 0x00001000

section Fields

variable {v mask field value r : BitVec 32}

end Fields

/-! ## Power modes -/

/-- The active modes: `AM_LDO_VCORE0` and so on. -/
inductive PowerMode where
  | ldo0
  | ldo1
  | dcdc0
  | dcdc1
  | lf0
  | lf1
  deriving DecidableEq

namespace PowerMode

/-- The number of a mode in the fields `AMR` and `CPM`. -/
def code : PowerMode → BitVec 32
  | ldo0 => 0
  | ldo1 => 1
  | dcdc0 => 4
  | dcdc1 => 5
  | lf0 => 8
  | lf1 => 9

/-- The mode with a number. -/
def ofCode (n : BitVec 32) : Option PowerMode :=
  if n = 0 then some ldo0 else if n = 1 then some ldo1 else if n = 4 then some dcdc0
  else if n = 5 then some dcdc1 else if n = 8 then some lf0 else if n = 9 then some lf1
  else none

/-- The core voltage is at its higher setting. -/
def vcore1 : PowerMode → Bool
  | ldo1 | dcdc1 | lf1 => true
  | ldo0 | dcdc0 | lf0 => false

/-- The arrows of the diagram. -/
def adjacent : PowerMode → PowerMode → Bool
  | ldo0, ldo1 | ldo1, ldo0 => true
  | ldo0, dcdc0 | dcdc0, ldo0 => true
  | ldo1, dcdc1 | dcdc1, ldo1 => true
  | ldo0, lf0 | lf0, ldo0 => true
  | ldo1, lf1 | lf1, ldo1 => true
  | _, _ => false

end PowerMode

/-- The power control manager: the present mode, the mode that a change is under way to, and the
flag `AM_INVALID_TR_IFG`. -/
structure Pcm where
  mode : PowerMode
  request : Option PowerMode
  invalid : Bool

namespace Pcm

/-- At rest in a mode. -/
def idle (m : PowerMode) : Pcm := ⟨m, none, false⟩

/-- A request for the mode with number `n`. -/
def ask (p : Pcm) (n : BitVec 32) : Pcm :=
  match PowerMode.ofCode n with
  | none => { p with invalid := true }
  | some m =>
    if m = p.mode then p
    else if p.mode.adjacent m then { p with request := some m }
    else { p with invalid := true }

/-- The effect of a store to `PCM->CTL0`: without the key, or during a change, there is none. -/
def store (p : Pcm) (v : BitVec 32) : Pcm :=
  if v &&& 0xFFFF0000 = PCM_CTL0_KEY_VAL ∧ p.request = none then p.ask (v &&& 0xF) else p

end Pcm

/-! ## The chip -/

/-- A crystal oscillator, which may have stopped, with its fault flag. -/
structure Crystal where
  fault : Bool
  flag : Bool

/-- Registers, power, crystals, and the variable `SystemCoreClock`.  The source does not say which
oscillator stands in for HFXT while that has stopped; `standIn` is its frequency, whatever it is. -/
structure Chip where
  reg : ChipReg → BitVec 32
  wdt : BitVec 16
  pcm : Pcm
  lfxt : Crystal
  hfxt : Crystal
  standIn : ℕ
  systemCoreClock : BitVec 32

namespace Chip

variable (c : Chip)

/-- The clock system is unlocked. -/
def Unlocked : Prop := c.reg .KEY &&& 0xFFFF = CS_KEY_VAL

instance : Decidable c.Unlocked := inferInstanceAs (Decidable (_ = _))

/-- The effect of a store to a register. -/
def set (r : ChipReg) (v : BitVec 32) : Chip :=
  if r.isProtected = true ∧ ¬ c.Unlocked then c else { c with reg := Function.update c.reg r v }

/-- The flags of `CS->IFG` that the code looks at. -/
def ifg : BitVec 32 := (if c.lfxt.flag then 1 else 0) ||| (if c.hfxt.flag then 2 else 0)

/-- The effect of a store to `CS->CLRIFG`: the flag of a crystal that has stopped stays. -/
def clearIFG (v : BitVec 32) : Chip :=
  if c.Unlocked then
    { c with
      lfxt := if v.getLsbD 0 then ⟨c.lfxt.fault, c.lfxt.fault⟩ else c.lfxt
      hfxt := if v.getLsbD 1 then ⟨c.hfxt.fault, c.hfxt.fault⟩ else c.hfxt }
  else c

/-! ### Frequencies -/

/-- The nominal frequency of the DCO in the range that `DCORSEL` selects; there is none behind 5. -/
def dcoFreq (ctl0 : BitVec 32) : ℕ :=
  match ((ctl0 &&& CS_CTL0_DCORSEL_MASK) >>> 16).toNat with
  | 0 => 1500000
  | 1 => 3000000
  | 2 => 6000000
  | 3 => 12000000
  | 4 => 24000000
  | 5 => 48000000
  | _ => 0

/-- The exponent of the divider of MCLK. -/
def divm (ctl1 : BitVec 32) : ℕ := ((ctl1 &&& CS_CTL1_DIVM_MASK) >>> 16).toNat

/-- The frequency of REFO, which `REFOFSEL` selects. -/
def refoFreq : ℕ := if (c.reg .CLKEN).getLsbD 15 then 128000 else 32000

/-- The frequency of the oscillator that MCLK is taken from.  REFO stands in for LFXT while that has
stopped. -/
def sourceFreq : ℕ :=
  match (c.reg .CTL1 &&& CS_CTL1_SELM_MASK).toNat with
  | 0 => if c.lfxt.fault then c.refoFreq else 32768
  | 1 => 10000
  | 2 => c.refoFreq
  | 3 => dcoFreq (c.reg .CTL0)
  | 4 => 24000000
  | 5 => if c.hfxt.fault then c.standIn else 48000000
  | _ => 0

/-- The frequency of MCLK in Hz. -/
def mclk : ℕ := c.sourceFreq / 2 ^ divm (c.reg .CTL1)

end Chip

/-- What the hardware does on its own account. -/
inductive ChipMove where
  /-- A change of the power mode comes to its end. -/
  | switch
  | stopLFXT
  | startLFXT
  | stopHFXT
  | startHFXT

/-- The effect of a move of the hardware, when it can be made. -/
def ChipMove.apply (c : Chip) : ChipMove → Option Chip
  | switch => c.pcm.request.map fun m => { c with pcm := { c.pcm with mode := m, request := none } }
  | stopLFXT => some { c with lfxt := ⟨true, true⟩ }
  | startLFXT => some { c with lfxt := ⟨false, c.lfxt.flag⟩ }
  | stopHFXT => some { c with hfxt := ⟨true, true⟩ }
  | startHFXT => some { c with hfxt := ⟨false, c.hfxt.flag⟩ }

/-! ## Accesses -/

/-- The accesses of the code.  `awaitPCM` is the loop that ends when `PMR_BUSY` is clear. -/
inductive ChipOp where
  | load (r : ChipReg)
  | store (r : ChipReg) (v : BitVec 32)
  | storeWDT (v : BitVec 16)
  | awaitPCM
  | loadPCM
  | storePCM (v : BitVec 32)
  | loadPCMIFG
  | loadIFG
  | loadCLRIFG
  | storeCLRIFG (v : BitVec 32)
  | storeClock (v : BitVec 32)

@[reducible] def ChipOp.Res : ChipOp → Type
  | load _ | loadPCM | loadPCMIFG | loadIFG | loadCLRIFG => BitVec 32
  | store _ _ | storeWDT _ | awaitPCM | storePCM _ | storeCLRIFG _ | storeClock _ => Unit

abbrev chipSig : Sig := ⟨ChipOp, ChipOp.Res⟩

/-- The effect of an access.  Of `PCM->CTL0` only the field `CPM` is read; `CS->CLRIFG`, which
cannot be read, answers 0. -/
def ChipOp.handle : (o : chipSig.Op) → Chip → chipSig.Res o × Chip
  | .load r, c => (c.reg r, c)
  | .store r v, c => ((), c.set r v)
  | .storeWDT v, c => ((), { c with wdt := v })
  | .awaitPCM, c => ((), c)
  | .loadPCM, c => (c.pcm.mode.code <<< 8, c)
  | .storePCM v, c => ((), { c with pcm := c.pcm.store v })
  | .loadPCMIFG, c => (if c.pcm.invalid then 4 else 0, c)
  | .loadIFG, c => (c.ifg, c)
  | .loadCLRIFG, c => (0, c)
  | .storeCLRIFG v, c => ((), c.clearIFG v)
  | .storeClock v, c => ((), { c with systemCoreClock := v })

/-- A loop goes round once more while a change of the power mode is under way. -/
def ChipOp.blocked : chipSig.Op → Chip → Bool
  | .awaitPCM, c => c.pcm.request.isSome
  | _, _ => false

/-- The processor with its clocks. -/
def chipWorld : World chipSig Chip ChipMove where
  handle := ChipOp.handle
  blocked := ChipOp.blocked
  env e c := e.apply c

namespace Cs

def load (r : ChipReg) : Prog chipSig (BitVec 32) := Prog.op (S := chipSig) (.load r)

def store (r : ChipReg) (v : BitVec 32) : Prog chipSig Unit := Prog.op (S := chipSig) (.store r v)

def storeWDT (v : BitVec 16) : Prog chipSig Unit := Prog.op (S := chipSig) (.storeWDT v)

/-- The loop `while (PCM->CTL1 & PCM_CTL1_PMR_BUSY);`. -/
def awaitPCM : Prog chipSig Unit := Prog.op (S := chipSig) .awaitPCM

def loadPCM : Prog chipSig (BitVec 32) := Prog.op (S := chipSig) .loadPCM

def storePCM (v : BitVec 32) : Prog chipSig Unit := Prog.op (S := chipSig) (.storePCM v)

def loadPCMIFG : Prog chipSig (BitVec 32) := Prog.op (S := chipSig) .loadPCMIFG

def loadIFG : Prog chipSig (BitVec 32) := Prog.op (S := chipSig) .loadIFG

def loadCLRIFG : Prog chipSig (BitVec 32) := Prog.op (S := chipSig) .loadCLRIFG

def storeCLRIFG (v : BitVec 32) : Prog chipSig Unit := Prog.op (S := chipSig) (.storeCLRIFG v)

/-- The assignment `SystemCoreClock = v`. -/
def storeClock (v : BitVec 32) : Prog chipSig Unit := Prog.op (S := chipSig) (.storeClock v)

end Cs

end Newlib
