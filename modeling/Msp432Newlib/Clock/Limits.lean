import Msp432Newlib.Clock.SystemInit

/-!
# Keeping the limits

Most of `SystemInit` makes accesses that the hardware does not interfere with (`ChipOp.Calm`): such
a part runs as it does alone, up to the crystals (`outline_of_calm`).  What is left to show of it is
that the limits hold after every single access (`Goes`).
-/

namespace Newlib

open Effects

/-! ## Parts that the hardware does not disturb -/

/-- The accesses to what the hardware changes by itself: the power mode and the flags of the
crystals. -/
def ChipOp.Calm : chipSig.Op → Prop
  | .load _ | .store _ _ | .storeWDT _ | .storeClock _ => True
  | .awaitPCM | .loadPCM | .storePCM _ | .loadPCMIFG | .loadIFG | .loadCLRIFG | .storeCLRIFG _ =>
    False

/-- The states differ in the crystals at most. -/
def Chip.UpTo (c c' : Chip) : Prop := c' = { c with lfxt := c'.lfxt, hfxt := c'.hfxt }

/-- No change of the power mode is under way, and the limits hold. -/
def Chip.Settled (c : Chip) : Prop := c.pcm.request = none ∧ c.Safe

namespace Chip

variable {c c' : Chip}

lemma UpTo.refl (c : Chip) : c.UpTo c := rfl

lemma UpTo.eq (h : c.UpTo c') : c'.reg = c.reg ∧ c'.wdt = c.wdt ∧ c'.pcm = c.pcm ∧
    c'.systemCoreClock = c.systemCoreClock ∧ c'.standIn = c.standIn := by
  rw [UpTo] at h
  rw [h]
  exact ⟨rfl, rfl, rfl, rfl, rfl⟩

lemma upTo_iff : c.UpTo c' ↔ c'.reg = c.reg ∧ c'.wdt = c.wdt ∧ c'.pcm = c.pcm ∧
    c'.systemCoreClock = c.systemCoreClock ∧ c'.standIn = c.standIn := by
  refine ⟨UpTo.eq, fun ⟨h1, h2, h3, h4, h5⟩ => ?_⟩
  obtain ⟨reg, wdt, pcm, lfxt, hfxt, standIn, clock⟩ := c'
  subst h1 h2 h3 h4 h5
  rfl

/-- The limits do not depend on the crystals. -/
lemma Safe.upTo (h : c.Safe) (hc : c.UpTo c') : c'.Safe := by
  obtain ⟨hreg, -, hpcm, -⟩ := hc.eq
  have hsource : c'.reg .CTL1 &&& CS_CTL1_SELM_MASK = CS_CTL1_SELM_DCOCLK := by
    rw [hreg]
    exact h.source
  have hmclk : c'.mclk = c.mclk := by rw [mclk_of_dco hsource, mclk_of_dco h.source, hreg]
  refine ⟨hsource, ?_⟩
  rw [hmclk]
  exact h.allows.congr (by rw [hpcm]; exact id) (by rw [hreg]; exact id) (by rw [hreg]; exact id)

/-- A move of the hardware, when no change of the power mode is under way. -/
lemma UpTo.env (hc : c.UpTo c') (hrest : c.pcm.request = none) {e : ChipMove} {c'' : Chip}
    (he : chipWorld.env e c' = some c'') : c.UpTo c'' := by
  obtain ⟨hreg, hwdt, hpcm, hclock⟩ := hc.eq
  rw [upTo_iff]
  cases e with
  | switch =>
    have hnone : c'.pcm.request = none := by rw [hpcm, hrest]
    simp [chipWorld, ChipMove.apply, hnone] at he
  | stopLFXT | startLFXT | stopHFXT | startHFXT =>
    obtain rfl := Option.some.inj he
    exact ⟨hreg, hwdt, hpcm, hclock⟩

/-- A calm access does the same whatever the crystals do. -/
lemma UpTo.handle (hc : c.UpTo c') {o : chipSig.Op} (ho : o.Calm) :
    (chipWorld.handle o c').1 = (chipWorld.handle o c).1 ∧
      (chipWorld.handle o c).2.UpTo (chipWorld.handle o c').2 := by
  obtain ⟨hreg, hwdt, hpcm, hclock⟩ := hc.eq
  cases o with
  | load r => exact ⟨congrFun hreg r, hc⟩
  | store r v =>
    refine ⟨rfl, upTo_iff.2 ?_⟩
    have hlock : c'.Unlocked ↔ c.Unlocked := by
      unfold Unlocked
      rw [hreg]
    simp only [chipWorld, ChipOp.handle, Chip.set, hlock]
    split
    · exact ⟨hreg, hwdt, hpcm, hclock⟩
    · exact ⟨congrArg (Function.update · r v) hreg, hwdt, hpcm, hclock⟩
  | storeWDT v => exact ⟨rfl, upTo_iff.2 ⟨hreg, rfl, hpcm, hclock⟩⟩
  | storeClock v => exact ⟨rfl, upTo_iff.2 ⟨hreg, hwdt, hpcm, rfl, hclock.2⟩⟩
  | awaitPCM | loadPCM | storePCM _ | loadPCMIFG | loadIFG | loadCLRIFG | storeCLRIFG _ => cases ho

end Chip

/-- Alone, the calm part `p` takes `c` to `c'`, and the limits hold all the way. -/
structure Goes (p : Prog chipSig Unit) (c c' : Chip) : Prop where
  calm : p.Uses ChipOp.Calm
  visits : p.Visits ChipOp.handle Chip.Settled c
  eval_eq : (p.eval ChipOp.handle c).2 = c'

namespace Goes

variable {p q : Prog chipSig Unit} {c c' c'' : Chip}

lemma settled (h : Goes p c c') : c'.Settled := by
  obtain ⟨hp, hv, rfl⟩ := h
  induction p generalizing c with
  | ret a => exact hv
  | perform o k ih => exact ih _ (hp.2 _) hv.2

lemma bind (hp : Goes p c c') (hq : Goes q c' c'') : Goes (p.bind fun _ => q) c c'' := by
  refine ⟨hp.calm.bind fun _ => hq.calm, ?_, ?_⟩
  · obtain ⟨hcalm, hv, rfl⟩ := hp
    induction p generalizing c with
    | ret a => exact hq.visits
    | perform o k ih => exact ⟨hv.1, ih _ (hcalm.2 _) hv.2 hq⟩
  · rw [Prog.eval_bind, hp.eval_eq]
    exact hq.eval_eq

lemma ret (hc : c.Settled) : Goes (.ret ()) c c := ⟨trivial, hc, rfl⟩

lemma store {r : ChipReg} {v : BitVec 32} (hc : c.Settled) (hc' : (c.set r v).Settled) :
    Goes (Cs.store r v) c (c.set r v) :=
  ⟨(Prog.uses_op _).2 trivial, ⟨hc, hc'⟩, rfl⟩

lemma storeWDT {v : BitVec 16} (hc : c.Settled) :
    Goes (Cs.storeWDT v) c { c with wdt := v } :=
  ⟨(Prog.uses_op _).2 trivial, ⟨hc, hc.1, hc.2.source, hc.2.allows.congr id id id⟩, rfl⟩

end Goes

namespace Chip

variable {c : Chip} {r : ChipReg} {v : BitVec 32}

@[simp] lemma set_pcm : (c.set r v).pcm = c.pcm := by
  unfold set
  split <;> rfl

lemma set_reg_of_ne {q : ChipReg} (h : q ≠ r) : (c.set r v).reg q = c.reg q := by
  unfold set
  split
  · rfl
  · exact Function.update_of_ne h _ _

lemma Unlocked.set (h : c.Unlocked) (hr : ChipReg.KEY ≠ r) : (c.set r v).Unlocked := by
  unfold Unlocked
  rw [set_reg_of_ne hr]
  exact h

/-- The limits are kept when neither the frequency nor what it depends on changes. -/
lemma Settled.congr {c' : Chip} (h : c.Settled) (hpcm : c'.pcm = c.pcm)
    (h0 : c'.reg .CTL0 = c.reg .CTL0) (h1 : c'.reg .CTL1 = c.reg .CTL1)
    (hb0 : c.reg .BANK0_RDCTL &&& FLCTL_RDCTL_WAIT_MASK ≠ 0 →
      c'.reg .BANK0_RDCTL &&& FLCTL_RDCTL_WAIT_MASK ≠ 0)
    (hb1 : c.reg .BANK1_RDCTL &&& FLCTL_RDCTL_WAIT_MASK ≠ 0 →
      c'.reg .BANK1_RDCTL &&& FLCTL_RDCTL_WAIT_MASK ≠ 0) : c'.Settled := by
  have hsource : c'.reg .CTL1 &&& CS_CTL1_SELM_MASK = CS_CTL1_SELM_DCOCLK := by
    rw [h1]
    exact h.2.source
  refine ⟨by rw [hpcm]; exact h.1, hsource, ?_⟩
  rw [mclk_of_dco hsource, h0, h1, ← mclk_of_dco h.2.source]
  exact h.2.allows.congr (by rw [hpcm]; exact id) hb0 hb1

/-- A register that the limits do not depend on is stored to. -/
lemma Settled.set (h : c.Settled) (hr : r ∉ [.CTL0, .CTL1, .BANK0_RDCTL, .BANK1_RDCTL]) :
    (c.set r v).Settled := by
  simp only [List.mem_cons, List.not_mem_nil, or_false, not_or] at hr
  have h0 := set_reg_of_ne (c := c) (v := v) (Ne.symm hr.1)
  have h1 := set_reg_of_ne (c := c) (v := v) (Ne.symm hr.2.1)
  have hb0 := set_reg_of_ne (c := c) (v := v) (Ne.symm hr.2.2.1)
  have hb1 := set_reg_of_ne (c := c) (v := v) (Ne.symm hr.2.2.2)
  exact h.congr set_pcm h0 h1 (by rw [hb0]; exact id) (by rw [hb1]; exact id)

end Chip


end Newlib
