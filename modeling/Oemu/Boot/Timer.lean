import Oemu.Boot.Parked
import Oemu.Sysreg.File
import Oemu.Vcpu.Clock

/-!
# The generic timers

A write to the `TVAL` register of a timer sets its comparator that many counts ahead.  Three views of
the comparator follow: the status bit of `CTL`, the line `boot_refresh_levels` drives, and `TVAL` read
back as the signed 32-bit number the architecture makes of it.

* `tval_write`      a write to `TVAL` sets the comparator to the counter plus the whole word;
* `level_after`, `tval_after`  the level and `TVAL` so many counts later;
* `run_later`, `run_level`  a run that does not program the timer is such a number of counts;
* `tval_coherent_iff`  the views agree exactly for the words that are their low half extended.
-/

namespace Oemu

namespace BootTimer

def ctlSel : BootTimer → W32
  | virt => selCntvCtl
  | phys => selCntpCtl

def tvalSel : BootTimer → W32
  | virt => selCntvTval
  | phys => selCntpTval

/-- the comparator -/
def cvalField : BootTimer → SysField
  | virt => .cntvCvalEl1
  | phys => .cntpCvalEl1

/-- the count a word written to `TVAL` stands for: its low 32 bits, signed -/
def ticks (v : W64) : Int := (v.setWidth 32).toInt

/-- the timer's registers are the same and its counter has moved on by `k` -/
structure Later (t : BootTimer) (sr sr' : Sysregs) (k : Nat) : Prop where
  counter : t.counter sr' = t.counter sr + BitVec.ofNat 64 k
  ctl : t.ctl sr' = t.ctl sr
  cval : t.cval sr' = t.cval sr

/-- the line of the timer as the boot loop samples it in a machine -/
def pushed (t : BootTimer) (m : BootVcpu) : Prop := m.refreshLevels.board.gic.pending t.line ≠ 0

/-- what is asked of the three views of a timer after `v` is written to `TVAL` in `m` -/
structure Coherent (t : BootTimer) (m : BootVcpu) (v : W64) : Prop where
  written : (sysregWrite m.cpu.regs m.sr t.tvalSel v).isSome = true
  /-- the status bit is the level that is pushed, and so is the sign of `TVAL` near the expiry -/
  agree : ∀ p, sysregWrite m.cpu.regs m.sr t.tvalSel v = some p → ∀ k m', t.Later p.2 m'.sr k →
    1 ≤ m'.sr.el.num → ∃ ctl tval,
      sysregRead m'.cpu.regs m'.sr t.ctlSel = some ctl ∧
      sysregRead m'.cpu.regs m'.sr t.tvalSel = some tval ∧
      (ctl &&& gtimerCtlIstat ≠ 0 ↔ t.pushed m') ∧
      ((k : Int) - ticks v < 2 ^ 31 → ((tval.setWidth 32).toInt ≤ 0 ↔ t.pushed m'))
  /-- the level first asserts after as many counts as were asked for -/
  first : ∀ p, sysregWrite m.cpu.regs m.sr t.tvalSel v = some p → ∀ k m', t.Later p.2 m'.sr k →
    (k : Int) ≤ max 0 (ticks v) → (t.pushed m' ↔ (k : Int) = max 0 (ticks v))

variable {t : BootTimer} {r : Regs} {sr sr' : Sysregs} {m : BootVcpu} {v : W64} {k : Nat}

/-! ## the registers -/

theorem pushed_iff (t : BootTimer) (m : BootVcpu) : t.pushed m ↔ t.level m.sr = true := by
  have h := driveLines_pending m.board m.sr t.line
  cases t with
  | phys =>
    rw [if_pos rfl] at h
    exact h
  | virt =>
    rw [if_neg (by decide), if_pos rfl] at h
    exact h

/-- the row of `TVAL` -/
def tvalRow : BootTimer → Row
  | virt =>
    { name := "CNTV_TVAL_EL0", sel := 0x1f1b, minEl := .el1, flags := .none, writeMask := full,
      get := some .cntvTval, set := some .cntvTval }
  | phys =>
    { name := "CNTP_TVAL_EL1", sel := 0x1f13, minEl := .el1, flags := .none, writeMask := full,
      get := some .cntpTval, set := some .cntpTval }

/-- the row of `CTL` -/
def ctlRow : BootTimer → Row
  | virt =>
    { name := "CNTV_CTL_EL0", sel := 0x1f19, minEl := .el1, flags := .none, writeMask := full,
      get := some .cntvCtl, set := some .cntvCtl }
  | phys =>
    { name := "CNTP_CTL_EL1", sel := 0x1f11, minEl := .el1, flags := .none, writeMask := full,
      get := some .cntpCtl, set := some .cntpCtl }

theorem tvalRow_find (t : BootTimer) : sysregFind t.tvalSel = some t.tvalRow := by
  cases t <;> decide +kernel

theorem ctlRow_find (t : BootTimer) : sysregFind t.ctlSel = some t.ctlRow := by
  cases t <;> decide +kernel

theorem tvalRow_allowed (t : BootTimer) (hel : 1 ≤ sr.el.num) :
    rowAccessAllowed sr t.tvalRow = true := by
  cases t <;> exact decide_eq_true hel

theorem ctlRow_allowed (t : BootTimer) (hel : 1 ≤ sr.el.num) :
    rowAccessAllowed sr t.ctlRow = true := by
  cases t <;> exact decide_eq_true hel

/-- **a write to `TVAL` moves the comparator the whole word ahead** -/
theorem tval_write (t : BootTimer) (r : Regs) (hel : 1 ≤ sr.el.num) (v : W64) :
    sysregWrite r sr t.tvalSel v = some (r, sr.set t.cvalField (t.counter sr + v)) := by
  unfold sysregWrite
  rw [t.tvalRow_find]
  dsimp only
  rw [t.tvalRow_allowed hel]
  cases t <;> rfl

theorem tval_read (t : BootTimer) (r : Regs) (hel : 1 ≤ sr.el.num) :
    sysregRead r sr t.tvalSel = some (t.cval sr - t.counter sr) := by
  unfold sysregRead
  rw [t.tvalRow_find]
  dsimp only
  rw [if_pos (t.tvalRow_allowed hel)]
  cases t <;> rfl

theorem ctl_read (t : BootTimer) (r : Regs) (hel : 1 ≤ sr.el.num) :
    sysregRead r sr t.ctlSel = some (ctlView (t.counter sr) (t.ctl sr) (t.cval sr)) := by
  unfold sysregRead
  rw [t.ctlRow_find]
  dsimp only
  rw [if_pos (t.ctlRow_allowed hel)]
  cases t <;> rfl

theorem ctlView_istat (counter ctl cval : W64) :
    ctlView counter ctl cval &&& gtimerCtlIstat ≠ 0 ↔ gtimerPending counter ctl cval = true := by
  have hclear : (ctl &&& ~~~gtimerCtlIstat) &&& gtimerCtlIstat = 0 := by
    rw [BitVec.and_assoc, show ~~~gtimerCtlIstat &&& gtimerCtlIstat = 0 by decide]
    exact BitVec.and_zero
  unfold ctlView
  rw [BitVec.and_comm, BitVec.and_or_distrib_left, BitVec.and_comm, hclear]
  cases gtimerPending counter ctl cval with
  | true => exact iff_of_true (by decide) rfl
  | false => exact iff_of_false (by decide) Bool.false_ne_true

theorem set_cval (t : BootTimer) (sr : Sysregs) (c : W64) :
    t.counter (sr.set t.cvalField c) = t.counter sr ∧ t.ctl (sr.set t.cvalField c) = t.ctl sr ∧
      t.cval (sr.set t.cvalField c) = c := by
  cases t with
  | virt =>
    refine ⟨?_, ?_, Sysregs.set_val_self _ _ _⟩
    · show (sr.set .cntvCvalEl1 c).val .cntvct - (sr.set .cntvCvalEl1 c).val .cntvoffEl1 = _
      rw [Sysregs.set_val_of_ne _ _ (by decide), Sysregs.set_val_of_ne _ _ (by decide)]
      rfl
    · exact Sysregs.set_val_of_ne _ _ (by decide)
  | phys =>
    refine ⟨?_, ?_, Sysregs.set_val_self _ _ _⟩
    · exact Sysregs.set_val_of_ne _ _ (by decide)
    · exact Sysregs.set_val_of_ne _ _ (by decide)

/-! ## so many counts later -/

/-- the register file after `v` was written to `TVAL` -/
def programmed (t : BootTimer) (sr : Sysregs) (v : W64) : Sysregs :=
  sr.set t.cvalField (t.counter sr + v)

theorem programmed_later (h : t.Later (t.programmed sr v) sr' k) :
    t.counter sr' = t.counter sr + BitVec.ofNat 64 k ∧ t.ctl sr' = t.ctl sr ∧
      t.cval sr' = t.counter sr + v := by
  obtain ⟨hc, hctl, hcv⟩ := t.set_cval sr (t.counter sr + v)
  refine ⟨?_, h.ctl.trans hctl, h.cval.trans hcv⟩
  rw [← hc]
  exact h.counter

theorem level_after (harm : t.Armed sr) (h : t.Later (t.programmed sr v) sr' k) :
    t.level sr' = decide (0 ≤ (BitVec.ofNat 64 k - v).toInt) := by
  obtain ⟨hc, hctl, hcv⟩ := programmed_later h
  have hdiff : t.counter sr + BitVec.ofNat 64 k - (t.counter sr + v) = BitVec.ofNat 64 k - v := by
    grind
  unfold level gtimerPending
  rw [hc, hcv, hctl, if_neg harm.1, if_neg (not_not_intro harm.2), hdiff]

theorem tval_after (h : t.Later (t.programmed sr v) sr' k) :
    t.cval sr' - t.counter sr' = v - BitVec.ofNat 64 k := by
  obtain ⟨hc, -, hcv⟩ := programmed_later h
  rw [hc, hcv]
  grind

/-- the difference the comparator looks at, as a number -/
theorem elapsed_toInt (k : Nat) (v : W64) :
    (BitVec.ofNat 64 k - v).toInt = ((k : Int) - v.toInt).bmod (2 ^ 64) := by
  rw [BitVec.toInt_sub, BitVec.toInt_ofNat', Int.bmod_sub_bmod]

theorem window_toInt (k : Nat) (v : W64) :
    ((v - BitVec.ofNat 64 k).setWidth 32).toInt = (ticks v - (k : Int)).bmod (2 ^ 32) := by
  have h : (v - BitVec.ofNat 64 k).setWidth 32 = v.setWidth 32 - BitVec.ofNat 32 k := by
    rw [BitVec.sub_eq_add_neg, BitVec.setWidth_add _ _ (by decide),
      BitVec.setWidth_neg_of_le (by decide), BitVec.setWidth_ofNat_of_le (by decide),
      ← BitVec.sub_eq_add_neg]
  rw [h, BitVec.toInt_sub, BitVec.toInt_ofNat', Int.sub_bmod_bmod]
  rfl

/-- a word is its low half, signed, and a number of 2^32 -/
theorem toInt_ticks (v : W64) : ∃ n : Int, v.toInt = ticks v + 2 ^ 32 * n := by
  have hd : ((2 ^ 32 : Nat) : Int) ∣ v.toInt - ticks v := by
    unfold ticks
    rw [BitVec.toInt_setWidth]
    have h1 : ((2 ^ 32 : Nat) : Int) ∣ (v.toNat : Int) - (v.toNat : Int).bmod (2 ^ 32) :=
      Int.dvd_self_sub_bmod
    have h2 : ((2 ^ 32 : Nat) : Int) ∣ v.toInt - v.toNat := by
      rw [BitVec.toInt_eq_toNat_cond]
      split
      · exact ⟨0, by omega⟩
      · exact ⟨-2 ^ 32, by omega⟩
    have hsum := Int.dvd_add h2 h1
    rwa [show v.toInt - (v.toNat : Int) + ((v.toNat : Int) - (v.toNat : Int).bmod (2 ^ 32)) =
      v.toInt - (v.toNat : Int).bmod (2 ^ 32) by omega] at hsum
  obtain ⟨n, hn⟩ := hd
  exact ⟨n, by omega⟩

theorem ticks_bounds (v : W64) : -2 ^ 31 ≤ ticks v ∧ ticks v < 2 ^ 31 :=
  ⟨BitVec.le_toInt (v.setWidth 32), BitVec.toInt_lt⟩

/-! ## the law -/

/-- the word is its low half extended, or it and its low half both ask for an expiry already past -/
def Exact (v : W64) : Prop :=
  v.toInt = ticks v ∨ v.toInt < 0 ∧ ticks v ≤ 0 ∧ v ≠ 0x8000000000000000

/-- **a number of counts near the expiry is a number of counts to go** -/
theorem level_exact (harm : t.Armed sr) (hv : Exact v) (h : t.Later (t.programmed sr v) sr' k)
    (hk : (k : Int) - ticks v < 2 ^ 31 ∨ (k : Int) ≤ max 0 (ticks v)) :
    t.level sr' = true ↔ ticks v ≤ k := by
  obtain ⟨n, hn⟩ := toInt_ticks v
  obtain ⟨h1, h2⟩ := ticks_bounds v
  have hlow := BitVec.le_toInt v
  have hhigh := @BitVec.toInt_lt 64 v
  rw [level_after harm h, decide_eq_true_eq, elapsed_toInt]
  have hrange : -2 ^ 63 ≤ (k : Int) - v.toInt ∧ (k : Int) - v.toInt < 2 ^ 63 := by
    rcases hv with hv | ⟨hneg, hle, hne⟩
    · omega
    · have hmin : v.toInt ≠ -2 ^ 63 := by
        intro he
        exact hne (BitVec.eq_of_toInt_eq he)
      omega
  rw [Int.bmod_eq_of_le (by omega) (by omega)]
  rcases hv with hv | ⟨hneg, hle, -⟩
  · omega
  · omega

theorem window_exact (h : t.Later (t.programmed sr v) sr' k) (hk : (k : Int) - ticks v < 2 ^ 31) :
    ((t.cval sr' - t.counter sr').setWidth 32).toInt ≤ 0 ↔ ticks v ≤ k := by
  obtain ⟨h1, h2⟩ := ticks_bounds v
  rw [tval_after h, window_toInt, Int.bmod_eq_of_le (by omega) (by omega)]
  omega

theorem Exact.coherent (hv : Exact v) (hel : 1 ≤ m.sr.el.num) (harm : t.Armed m.sr) :
    t.Coherent m v := by
  have hwrite := t.tval_write m.cpu.regs hel v
  refine ⟨?_, ?_, ?_⟩
  · rw [hwrite]
    rfl
  · intro p hp k m' hlater hel'
    rw [hwrite] at hp
    cases hp
    refine ⟨_, _, t.ctl_read _ hel', t.tval_read _ hel', ?_, ?_⟩
    · rw [pushed_iff]
      exact ctlView_istat _ _ _
    · intro hk
      rw [pushed_iff, level_exact harm hv hlater (.inl hk)]
      exact window_exact hlater hk
  · intro p hp k m' hlater hk
    rw [hwrite] at hp
    cases hp
    rw [pushed_iff, level_exact harm hv hlater (.inr hk)]
    omega

/-- a machine `k` counts after the write -/
def advanced (t : BootTimer) (m : BootVcpu) (v : W64) (k : Nat) : BootVcpu :=
  { m with sr := (t.programmed m.sr v).set .cntvct (m.sr.val .cntvct + BitVec.ofNat 64 k) }

theorem advanced_later (t : BootTimer) (m : BootVcpu) (v : W64) (k : Nat) :
    t.Later (t.programmed m.sr v) (t.advanced m v k).sr k := by
  cases t with
  | virt =>
    have hoff : ∀ c, (m.sr.set .cntvCvalEl1 c).val .cntvct = m.sr.val .cntvct :=
      fun c => Sysregs.set_val_of_ne _ _ (by decide)
    refine ⟨?_, Sysregs.set_val_of_ne _ _ (by decide), Sysregs.set_val_of_ne _ _ (by decide)⟩
    show ((programmed virt m.sr v).set .cntvct _).val .cntvct -
      ((programmed virt m.sr v).set .cntvct _).val .cntvoffEl1 =
      (programmed virt m.sr v).val .cntvct - (programmed virt m.sr v).val .cntvoffEl1 + _
    rw [Sysregs.set_val_self, Sysregs.set_val_of_ne _ _ (by decide),
      show (programmed virt m.sr v).val .cntvct = m.sr.val .cntvct from hoff _]
    grind
  | phys =>
    refine ⟨?_, Sysregs.set_val_of_ne _ _ (by decide), Sysregs.set_val_of_ne _ _ (by decide)⟩
    show ((programmed phys m.sr v).set .cntvct _).val .cntvct =
      (programmed phys m.sr v).val .cntvct + _
    rw [Sysregs.set_val_self,
      show (programmed phys m.sr v).val .cntvct = m.sr.val .cntvct from
        Sysregs.set_val_of_ne _ _ (by decide)]

theorem Coherent.exact (h : t.Coherent m v) (hel : 1 ≤ m.sr.el.num) (harm : t.Armed m.sr) :
    Exact v := by
  have hfirst : ∀ k : Nat, (k : Int) ≤ max 0 (ticks v) →
      (0 ≤ ((k : Int) - v.toInt).bmod (2 ^ 64) ↔ (k : Int) = max 0 (ticks v)) := by
    intro k hk
    have hlater := t.advanced_later m v k
    rw [← h.first _ (t.tval_write m.cpu.regs hel v) k (t.advanced m v k) hlater hk, pushed_iff,
      level_after harm hlater, decide_eq_true_eq, elapsed_toInt]
  obtain ⟨n, hn⟩ := toInt_ticks v
  obtain ⟨h1, h2⟩ := ticks_bounds v
  have hlow := BitVec.le_toInt v
  have hhigh := @BitVec.toInt_lt 64 v
  by_contra hbad
  have hne : v.toInt ≠ ticks v := fun he => hbad (.inl he)
  have hpast : v.toInt < 0 → ticks v ≤ 0 → v = 0x8000000000000000 := by
    intro hneg hle
    by_contra hmin
    exact hbad (.inr ⟨hneg, hle, hmin⟩)
  by_cases hlate : ticks v < v.toInt
  · -- the comparator is further ahead than was asked for
    have hat := hfirst (ticks v).toNat (by omega)
    rw [Int.bmod_eq_of_le (by omega) (by omega)] at hat
    omega
  · -- the comparator is already past
    have hnow := hfirst 0 (by omega)
    by_cases hle : ticks v ≤ 0
    · have hv := hpast (by omega) hle
      subst hv
      exact absurd (hnow.mpr (by decide)) (by decide)
    · have hmin : v.toInt ≠ -2 ^ 63 := by omega
      rw [Int.bmod_eq_of_le (by omega) (by omega)] at hnow
      omega

/-- **the views of a timer agree, and it expires on time, exactly for the words that are their low half
extended, or that ask like it for an expiry already past** -/
theorem tval_coherent_iff (t : BootTimer) (m : BootVcpu) (v : W64) (hel : 1 ≤ m.sr.el.num)
    (harm : t.Armed m.sr) : t.Coherent m v ↔ Exact v :=
  ⟨fun h => h.exact hel harm, fun h => h.coherent hel harm⟩

/-- a word written with the top half clear, as a 32-bit delta of 250 counts -/
theorem tval_coherent_250 : phys.Coherent (waitBoard 1) 250 ∧ Exact 250 := by
  have hv : Exact 250 := .inl (by decide)
  exact ⟨(tval_coherent_iff phys (waitBoard 1) 250 (by decide) ⟨by decide, by decide⟩).mpr hv, hv⟩

/-- the 32-bit delta -1 asks for an expiry a count ago: the comparator lies `2 ^ 32 - 1` counts ahead,
and the output is low -/
theorem tval_minus_one :
    1 ≤ (waitBoard 1).sr.el.num ∧ phys.Armed (waitBoard 1).sr ∧ ticks 0xFFFFFFFF = -1 ∧
      (∃ r sr, sysregWrite (waitBoard 1).cpu.regs (waitBoard 1).sr phys.tvalSel 0xFFFFFFFF =
          some (r, sr) ∧ phys.cval sr = phys.counter sr + 0xFFFFFFFF ∧ phys.level sr = false) ∧
      ¬ phys.Coherent (waitBoard 1) 0xFFFFFFFF := by
  have hel : 1 ≤ (waitBoard 1).sr.el.num := by decide
  have harm : phys.Armed (waitBoard 1).sr := ⟨by decide, by decide⟩
  have hwrite := phys.tval_write (waitBoard 1).cpu.regs hel 0xFFFFFFFF
  refine ⟨hel, harm, by decide, ⟨_, _, hwrite, by decide +kernel, by decide +kernel⟩, ?_⟩
  intro h
  rcases h.exact hel harm with he | ⟨hneg, -, -⟩
  · exact absurd he (by decide)
  · exact absurd hneg (by decide)

/-! ## runs -/

section

variable {τ : Type} (phys : Memops (Aspace Board)) (f₀ : MmuFault) (env : Option (EnvOps τ BootEnv))

/-- a move of the machine that does not program the timer -/
def Unprogrammed (t : BootTimer) (m : BootVcpu) (i : Label) (m' : BootVcpu) : Prop :=
  Machine phys f₀ env m i m' ∧ t.ctl m'.sr = t.ctl m.sr ∧ t.cval m'.sr = t.cval m.sr ∧
    m'.sr.val .cntvoffEl1 = m.sr.val .cntvoffEl1

variable {phys f₀ env} {m m' : BootVcpu} {l : List Label}

theorem Unprogrammed.run {t : BootTimer} (h : Lts.Run (Unprogrammed phys f₀ env t) m l m') :
    Lts.Run (Machine phys f₀ env) m l m' ∧ t.ctl m'.sr = t.ctl m.sr ∧ t.cval m'.sr = t.cval m.sr ∧
      m'.sr.val .cntvoffEl1 = m.sr.val .cntvoffEl1 := by
  induction h with
  | nil m => exact ⟨.nil m, rfl, rfl, rfl⟩
  | cons hs _ ih =>
    obtain ⟨hm, hctl, hcval, hoff⟩ := hs
    obtain ⟨hrun, hctl', hcval', hoff'⟩ := ih
    exact ⟨.cons hm hrun, hctl'.trans hctl, hcval'.trans hcval, hoff'.trans hoff⟩

/-- the steps of a run that does not program the timer are its counts -/
theorem run_later {t : BootTimer} (h : Lts.Run (Unprogrammed phys f₀ env t) m l m') :
    t.Later m.sr m'.sr (l.count (.step .ok) + l.count (.step .blocked)) := by
  obtain ⟨hrun, hctl, hcval, hoff⟩ := Unprogrammed.run h
  have hcount := run_cntvct hrun
  refine ⟨?_, hctl, hcval⟩
  cases t with
  | phys => exact hcount
  | virt =>
    show m'.sr.val .cntvct - m'.sr.val .cntvoffEl1 = _
    rw [hcount, hoff]
    show _ = m.sr.val .cntvct - m.sr.val .cntvoffEl1 + _
    grind

/-- **along a run the line asserts from the count that was asked for on** -/
theorem run_level {t : BootTimer} {v : W64} (hv : Exact v) (harm : t.Armed m.sr)
    (h : Lts.Run (Unprogrammed phys f₀ env t) { m with sr := t.programmed m.sr v } l m')
    (hk : ((l.count (.step .ok) + l.count (.step .blocked) : Nat) : Int) - ticks v < 2 ^ 31) :
    t.pushed m' ↔ ticks v ≤ (l.count (.step .ok) + l.count (.step .blocked) : Nat) := by
  rw [pushed_iff]
  exact level_exact harm hv (run_later h) (.inl hk)

end

end BootTimer

end Oemu
