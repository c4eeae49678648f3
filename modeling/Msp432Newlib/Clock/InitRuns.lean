import Msp432Newlib.Clock.Limits

/-!
# The runs of `SystemInit`

An outline of `SystemInit` in the sense of `Effects.Outline`, put together from those of its parts.
-/

namespace Newlib

open Effects

/-! ## The parts of `SystemInit` -/

section Parts

variable {c : Chip}

/-- The limits do not depend on a register other than those of the flash banks. -/
lemma Chip.Allows.set {f : ℕ} {r : ChipReg} {v : BitVec 32} (h : c.Allows f)
    (hr : r ∉ [.BANK0_RDCTL, .BANK1_RDCTL]) : (c.set r v).Allows f := by
  simp only [List.mem_cons, List.not_mem_nil, or_false, not_or] at hr
  refine h.congr (by rw [set_pcm]; exact id) ?_ ?_
  · rw [set_reg_of_ne (Ne.symm hr.1)]
    exact id
  · rw [set_reg_of_ne (Ne.symm hr.2)]
    exact id

end Parts

/-! ## Changes of the power mode -/

section Modes

variable {c : Chip} {m m' : PowerMode}

end Modes

/-! ## The whole function -/

section Whole

variable {c c' c'' : Chip} {dcorsel : BitVec 32} {m : PowerMode}

/-- The state behind the code for a frequency, from the state before it. -/
structure Tuned (c c' : Chip) (dcorsel : BitVec 32) (m : PowerMode) : Prop where
  settled : c'.Settled
  mclk_eq : c'.mclk = Chip.dcoFreq dcorsel
  ctl0_eq : c'.reg .CTL0 = dcorsel
  undivided : c'.reg .CTL1 &&& CS_CTL1_DIVM_MASK = 0
  locked : ¬ c'.Unlocked
  pcm_eq : c'.pcm = .idle m
  wdt_eq : c'.wdt = c.wdt
  cpacr_eq : c'.reg .CPACR = c.reg .CPACR
  sram_eq : c'.reg .SRAM_BANKEN = c.reg .SRAM_BANKEN

/-- What has been tuned behind `initCore` is configured. -/
lemma Tuned.configured {cfg : Config} (h : Tuned c c' dcorsel m)
    (hhz : Chip.dcoFreq dcorsel = cfg.systemClock.hz)
    (htune : dcorsel &&& CS_CTL0_DCOTUNE_MASK = 0)
    (hvcore : m.vcore1 = true ↔ 24000000 < cfg.systemClock.hz)
    (hregulator : (m = .dcdc0 ∨ m = .dcdc1) ↔ cfg.regulator = true)
    (hfpu : cfg.fpuUsed = true → c.reg .CPACR &&& 0x00F00000 = 0x00F00000)
    (hwdt : cfg.haltWDT = true → c.wdt = 0x5A80) (hsram : c.reg .SRAM_BANKEN = 0x00000080) :
    Configured cfg c' where
  mclk := h.mclk_eq.trans hhz
  dco := h.settled.2.source
  untuned := by rw [h.ctl0_eq, htune]
  undivided := h.undivided
  locked := h.locked
  vcore := by rw [h.pcm_eq]; exact hvcore
  regulator := by rw [h.pcm_eq]; exact hregulator
  rest := by rw [h.pcm_eq]; exact ⟨rfl, rfl⟩
  fpu hu := by rw [h.cpacr_eq]; exact hfpu hu
  wdt hw := by rw [h.wdt_eq]; exact hwdt hw
  sram := h.sram_eq.trans hsram

/-- What is configured are the registers and the power mode. -/
lemma Configured.congr {cfg : Config} (h : Configured cfg c) (hreg : c'.reg = c.reg)
    (hwdt : c'.wdt = c.wdt) (hpcm : c'.pcm = c.pcm) : Configured cfg c' := by
  have hdco : c'.reg .CTL1 &&& CS_CTL1_SELM_MASK = CS_CTL1_SELM_DCOCLK := by
    rw [hreg]
    exact h.dco
  refine ⟨?_, hdco, ?_, ?_, ?_, ?_, ?_, ?_, ?_, ?_, ?_⟩
  · rw [Chip.mclk_of_dco hdco, hreg, ← Chip.mclk_of_dco h.dco, h.mclk]
  · rw [hreg]; exact h.untuned
  · rw [hreg]; exact h.undivided
  · unfold Chip.Unlocked
    rw [hreg]
    exact h.locked
  · rw [hpcm]; exact h.vcore
  · rw [hpcm]; exact h.regulator
  · rw [hpcm]; exact h.rest
  · rw [hreg]; exact h.fpu
  · rw [hwdt]; exact h.wdt
  · rw [hreg]; exact h.sram

/-- What is configured does not depend on the crystals. -/
lemma Configured.upTo {cfg : Config} (h : Configured cfg c) (hc : c.UpTo c') :
    Configured cfg c' := by
  obtain ⟨hreg, hwdt, hpcm, -⟩ := hc.eq
  exact h.congr hreg hwdt hpcm

end Whole

/-! ## Runs -/

end Newlib
