import Msp432Newlib.Clock.Chip

/-!
# `SystemInit`

The function `SystemInit` of `system_msp432p401r.c` (and of `system_msp432p401m.c`, which is the
same but for the name) for each of the five frequencies and both regulators.  The comments in it
give the limits on the frequency of MCLK: 24 MHz at the lower core voltage, and without wait states
12 MHz for flash bank 0 at the lower core voltage, 16 MHz at the higher one, and 32 MHz for bank 1.
In every interleaving with the hardware the limits hold in every state (`Chip.Safe`), and when the
function has returned the clock runs at the frequency that was asked for (`Configured`).
-/

namespace Newlib

open Effects

/-- The values of `__SYSTEM_CLOCK` that there is code for. -/
inductive SystemClock where
  | hz1500000
  | hz3000000
  | hz12000000
  | hz24000000
  | hz48000000

def SystemClock.hz : SystemClock → ℕ
  | hz1500000 => 1500000
  | hz3000000 => 3000000
  | hz12000000 => 12000000
  | hz24000000 => 24000000
  | hz48000000 => 48000000

/-- `__FPU_USED`, `__HALT_WDT`, `__SYSTEM_CLOCK` and `__REGULATOR`. -/
structure Config where
  fpuUsed : Bool
  haltWDT : Bool
  systemClock : SystemClock
  regulator : Bool

/-- `while (PCM->CTL1 & PCM_CTL1_PMR_BUSY); PCM->CTL0 = PCM_CTL0_KEY_VAL | amr;` and the same loop
again. -/
def changeMode (amr : BitVec 32) : Prog chipSig Unit := do
  Cs.awaitPCM
  Cs.storePCM (PCM_CTL0_KEY_VAL ||| amr)
  Cs.awaitPCM

/-- The core voltage is at its higher setting, and stays there during a change. -/
def Pcm.vcore1 (p : Pcm) : Bool := p.mode.vcore1 && p.request.all PowerMode.vcore1

/-- MCLK may run at the frequency `f`. -/
structure Chip.Allows (c : Chip) (f : ℕ) : Prop where
  /-- Above 24 MHz the higher core voltage is mandatory. -/
  vcore : 24000000 < f → c.pcm.vcore1 = true
  /-- Without wait states bank 0 allows 12 MHz at the lower core voltage, 16 MHz at the higher. -/
  bank0 : (if c.pcm.vcore1 then 16000000 else 12000000) < f →
    c.reg .BANK0_RDCTL &&& FLCTL_RDCTL_WAIT_MASK ≠ 0
  /-- Without wait states bank 1 allows 32 MHz. -/
  bank1 : 32000000 < f → c.reg .BANK1_RDCTL &&& FLCTL_RDCTL_WAIT_MASK ≠ 0

/-- MCLK comes from the DCO and keeps within its limits. -/
structure Chip.Safe (c : Chip) : Prop where
  source : c.reg .CTL1 &&& CS_CTL1_SELM_MASK = CS_CTL1_SELM_DCOCLK
  allows : c.Allows c.mclk

/-- The state that `SystemInit` is to leave. -/
structure Configured (cfg : Config) (c : Chip) : Prop where
  mclk : c.mclk = cfg.systemClock.hz
  dco : c.reg .CTL1 &&& CS_CTL1_SELM_MASK = CS_CTL1_SELM_DCOCLK
  untuned : c.reg .CTL0 &&& CS_CTL0_DCOTUNE_MASK = 0
  undivided : c.reg .CTL1 &&& CS_CTL1_DIVM_MASK = 0
  locked : ¬ c.Unlocked
  vcore : c.pcm.mode.vcore1 = true ↔ 24000000 < cfg.systemClock.hz
  regulator : (c.pcm.mode = .dcdc0 ∨ c.pcm.mode = .dcdc1) ↔ cfg.regulator = true
  rest : c.pcm.request = none ∧ c.pcm.invalid = false
  fpu : cfg.fpuUsed = true → c.reg .CPACR &&& 0x00F00000 = 0x00F00000
  wdt : cfg.haltWDT = true → c.wdt = 0x5A80
  sram : c.reg .SRAM_BANKEN = 0x00000080

namespace Chip

variable {c c' : Chip} {f f' : ℕ}

lemma Allows.mono (h : c.Allows f) (hle : f' ≤ f) : c.Allows f' :=
  ⟨fun hf => h.vcore (Nat.lt_of_lt_of_le hf hle), fun hf => h.bank0 (Nat.lt_of_lt_of_le hf hle),
    fun hf => h.bank1 (Nat.lt_of_lt_of_le hf hle)⟩

/-- The limits depend on the core voltage and the wait states. -/
lemma Allows.congr (h : c.Allows f) (hv : c.pcm.vcore1 = true → c'.pcm.vcore1 = true)
    (h0 : c.reg .BANK0_RDCTL &&& FLCTL_RDCTL_WAIT_MASK ≠ 0 →
      c'.reg .BANK0_RDCTL &&& FLCTL_RDCTL_WAIT_MASK ≠ 0)
    (h1 : c.reg .BANK1_RDCTL &&& FLCTL_RDCTL_WAIT_MASK ≠ 0 →
      c'.reg .BANK1_RDCTL &&& FLCTL_RDCTL_WAIT_MASK ≠ 0) : c'.Allows f := by
  refine ⟨fun hf => hv (h.vcore hf), fun hf => h0 (h.bank0 ?_), fun hf => h1 (h.bank1 hf)⟩
  rcases Bool.eq_false_or_eq_true c'.pcm.vcore1 with hv' | hv'
  · rw [hv', if_pos rfl] at hf
    split
    · exact hf
    · exact Nat.lt_trans (by decide) hf
  · have hc : ¬ c.pcm.vcore1 = true := by
      intro hc
      rw [hv hc] at hv'
      cases hv'
    rw [hv'] at hf
    rwa [if_neg hc]

/-- With the DCO as its source MCLK does not depend on the crystals. -/
lemma mclk_of_dco (h : c.reg .CTL1 &&& CS_CTL1_SELM_MASK = CS_CTL1_SELM_DCOCLK) :
    c.mclk = dcoFreq (c.reg .CTL0) / 2 ^ divm (c.reg .CTL1) := by
  unfold mclk sourceFreq
  rw [h]
  rfl

end Chip

end Newlib
