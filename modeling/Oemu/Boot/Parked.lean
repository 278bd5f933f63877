import Oemu.Dev.Ack
import Oemu.Dev.Preempt
import Oemu.Boot.Loop
import Oemu.Mmu.Off

/-!
# A parked core and what could wake it

Without a console the boot loop leaves on the first core that parks.  `Vcpu.Deadlocked` says that
nothing could have woken it; `Vcpu.Asleep` is the condition on the machine at the wait.

* `irqLevel_forwards`       the interrupt output, line by line;
* `timer_fires_iff`         an armed comparator is reached by the counter sooner or later;
* `deadlocked_iff_asleep`   sampling the lines after the wait makes the one the other;
* `blocked_deadlock`        which turns, and which runs, leave a core that is deadlocked.
-/

namespace Oemu

/-! ## the interrupt output, line by line -/

namespace Gicv2

/-- the controller passes a level of this line on to the core -/
structure Forwards (g : Gicv2) (i : Fin 64) : Prop where
  gate : g.Enabled
  modelled : i.val < g.linesOf
  enabled : g.enable i ≠ 0
  inactive : g.active i = 0
  targeted : g.target i &&& 1 ≠ 0
  unmasked : (g.priority i).toNat < (g.cpuPmr &&& 0xFF).toNat
  preempts : ∀ j, g.active j ≠ 0 → g.priority i < g.priority j

theorem irqLevel_forwards (g : Gicv2) :
    g.irqLevel ≠ 0 ↔ ∃ i, g.pending i ≠ 0 ∧ g.Forwards i := by
  rw [irqLevel_ne_zero_iff]
  constructor
  · rintro ⟨hg, i, h⟩
    exact ⟨i, h.pending, hg, h.modelled, h.enabled, h.inactive, h.targeted, h.unmasked, h.preempts⟩
  · rintro ⟨i, hp, h⟩
    exact ⟨h.gate, i, h.modelled, h.enabled, hp, h.inactive, h.targeted, h.unmasked, h.preempts⟩

/-- a source that drives its line does not change which lines are forwarded -/
theorem setPending_forwards (g : Gicv2) (intid : Nat) (level : Bool) (i : Fin 64) :
    (g.setPending intid level).Forwards i ↔ g.Forwards i :=
  ⟨fun h => ⟨h.gate, h.modelled, h.enabled, h.inactive, h.targeted, h.unmasked, h.preempts⟩,
    fun h => ⟨h.gate, h.modelled, h.enabled, h.inactive, h.targeted, h.unmasked, h.preempts⟩⟩

theorem setPending_pending (g : Gicv2) (intid : Nat) (level : Bool) (i : Fin 64) :
    (g.setPending intid level).pending i ≠ 0 ↔
      if intid = i.val then level = true else g.pending i ≠ 0 := by
  show g.pending.put intid (if level then 1 else 0) i ≠ 0 ↔ _
  rw [Bank.put_apply]
  by_cases h : intid = i.val
  · rw [if_pos h, if_pos h]
    cases level <;> decide
  · rw [if_neg h, if_neg h]

end Gicv2

/-! ## the comparators -/

inductive BootTimer where
  | virt | phys
deriving DecidableEq

namespace BootTimer

def counter (sr : Sysregs) : BootTimer → W64
  | virt => sr.val .cntvct - sr.val .cntvoffEl1
  | phys => sr.val .cntvct

def ctl (sr : Sysregs) : BootTimer → W64
  | virt => sr.val .cntvCtlEl1
  | phys => sr.val .cntpCtlEl1

def cval (sr : Sysregs) : BootTimer → W64
  | virt => sr.val .cntvCvalEl1
  | phys => sr.val .cntpCvalEl1

def line : BootTimer → Fin 64
  | virt => 27
  | phys => 30

/-- does its output assert now -/
def level (sr : Sysregs) (t : BootTimer) : Bool :=
  gtimerPending (t.counter sr) (t.ctl sr) (t.cval sr)

/-- enabled and not masked -/
def Armed (sr : Sysregs) (t : BootTimer) : Prop :=
  t.ctl sr &&& gtimerCtlEnable ≠ 0 ∧ t.ctl sr &&& gtimerCtlImask = 0

/-- its output asserts after some more counts -/
def Fires (sr : Sysregs) (t : BootTimer) : Prop :=
  ∃ n : Nat, gtimerPending (t.counter sr + BitVec.ofNat 64 n) (t.ctl sr) (t.cval sr) = true

variable {sr : Sysregs} {t : BootTimer}

theorem gtimerPending_armed {counter ctl cval : W64} (h : gtimerPending counter ctl cval = true) :
    ctl &&& gtimerCtlEnable ≠ 0 ∧ ctl &&& gtimerCtlImask = 0 := by
  unfold gtimerPending at h
  by_cases he : ctl &&& gtimerCtlEnable = 0
  · rw [if_pos he] at h
    cases h
  · rw [if_neg he] at h
    by_cases hm : ctl &&& gtimerCtlImask = 0
    · exact ⟨he, hm⟩
    · rw [if_pos hm] at h
      cases h

/-- the counter comes round to the comparator of every armed timer -/
theorem fires_iff : t.Fires sr ↔ t.Armed sr := by
  constructor
  · rintro ⟨n, h⟩
    exact gtimerPending_armed h
  · rintro ⟨he, hm⟩
    refine ⟨(t.cval sr - t.counter sr).toNat, ?_⟩
    unfold gtimerPending
    rw [if_neg he, if_neg (not_not_intro hm), BitVec.ofNat_toNat, BitVec.setWidth_eq,
      BitVec.add_comm, BitVec.sub_add_cancel, BitVec.sub_self]
    rfl

theorem armed_of_level (h : t.level sr = true) : t.Armed sr := gtimerPending_armed h

end BootTimer

theorem driveLines_pending (b : Board) (sr : Sysregs) (i : Fin 64) :
    (driveLines b sr).pending i ≠ 0 ↔
      if i = BootTimer.phys.line then BootTimer.phys.level sr = true
      else if i = BootTimer.virt.line then BootTimer.virt.level sr = true
      else if i = 33 then b.uart.irqLevel = true
      else b.gic.pending i ≠ 0 := by
  have hline : ∀ k : Fin 64, k.val = i.val ↔ i = k :=
    fun k => ⟨fun h => Fin.ext h.symm, fun h => congrArg Fin.val h.symm⟩
  unfold driveLines
  rw [Gicv2.setPending_pending, Gicv2.setPending_pending, Gicv2.setPending_pending]
  by_cases h30 : i = BootTimer.phys.line
  · rw [if_pos h30, if_pos (show bootTimerPhysPpi = i.val from (hline 30).mpr h30)]
    exact Iff.rfl
  · rw [if_neg h30, if_neg (show ¬ bootTimerPhysPpi = i.val from fun h => h30 ((hline 30).mp h))]
    by_cases h27 : i = BootTimer.virt.line
    · rw [if_pos h27, if_pos (show bootTimerVirtPpi = i.val from (hline 27).mpr h27)]
      exact Iff.rfl
    · rw [if_neg h27, if_neg (show ¬ bootTimerVirtPpi = i.val from fun h => h27 ((hline 27).mp h))]
      by_cases h33 : i = 33
      · rw [if_pos h33, if_pos (show bootUartSpi = i.val from (hline 33).mpr h33)]
      · rw [if_neg h33, if_neg (show ¬ bootUartSpi = i.val from fun h => h33 ((hline 33).mp h))]

theorem driveLines_forwards (b : Board) (sr : Sysregs) (i : Fin 64) :
    (driveLines b sr).Forwards i ↔ b.gic.Forwards i := by
  unfold driveLines
  rw [Gicv2.setPending_forwards, Gicv2.setPending_forwards, Gicv2.setPending_forwards]

/-! ## the parked core -/

/-- nothing in the machine could wake the core: the devices raise no level, the controller asserts
nothing, and no comparator the counter will reach has a line that is forwarded -/
structure Vcpu.Deadlocked (v : BootVcpu) : Prop where
  device : v.board.uart.irqLevel = false
  output : v.board.gic.irqLevel = 0
  timers : ∀ t : BootTimer, t.Fires v.sr → ¬ v.board.gic.Forwards t.line

/-- the machine at a wait, with the devices as the fetch of the wait leaves them: no received byte or
other cause unmasked in the UART, no forwarded line latched besides the three the boot machine
drives, and no comparator enabled, unmasked and wired to a forwarded line -/
structure Vcpu.Asleep (v : BootVcpu) : Prop where
  device : v.parked.board.uart.ris &&& v.parked.board.uart.imsc = 0
  lines : ∀ i : Fin 64, i ≠ 27 → i ≠ 30 → i ≠ 33 → v.parked.board.gic.pending i ≠ 0 →
    ¬ v.parked.board.gic.Forwards i
  timers : ∀ t : BootTimer, t.Armed v.sr → ¬ v.parked.board.gic.Forwards t.line

/-- a comparator does not depend on the count -/
theorem armed_parked {v : BootVcpu} {t : BootTimer} : t.Armed v.parked.sr ↔ t.Armed v.sr := by
  have h : ∀ f : SysField, f ≠ .cntvct → v.parked.sr.val f = v.sr.val f :=
    fun f hf => Sysregs.set_val_of_ne _ _ hf
  unfold BootTimer.Armed BootTimer.ctl
  cases t
  · rw [h .cntvCtlEl1 (by intro h; cases h)]
  · rw [h .cntpCtlEl1 (by intro h; cases h)]

theorem uart_irqLevel_iff (u : Pl011) : u.irqLevel = false ↔ u.ris &&& u.imsc = 0 := by
  unfold Pl011.irqLevel
  rw [bne_eq_false_iff_eq]

/-- **sampling the lines after a wait leaves a deadlock exactly when the machine was asleep** -/
theorem deadlocked_iff_asleep (v : BootVcpu) {u : Pl011}
    (hu : Pl011.SameReceiver v.parked.board.uart u) :
    (v.parked.refreshLevels.setUart u).Deadlocked ↔ v.Asleep := by
  have hgic : (v.parked.refreshLevels.setUart u).board.gic =
      driveLines v.parked.board v.parked.sr := rfl
  have hfwd : ∀ i, (v.parked.refreshLevels.setUart u).board.gic.Forwards i ↔
      v.parked.board.gic.Forwards i := fun i => driveLines_forwards _ _ i
  have huart : (v.parked.refreshLevels.setUart u).board.uart.irqLevel =
      v.parked.board.uart.irqLevel := hu.irqLevel
  constructor
  · intro h
    have hquiet : ∀ i, (driveLines v.parked.board v.parked.sr).pending i ≠ 0 →
        ¬ v.parked.board.gic.Forwards i := by
      intro i hp hf
      refine (Gicv2.irqLevel_forwards _).mpr ⟨i, ?_, (hfwd i).mpr hf⟩ h.output
      exact hp
    refine ⟨(uart_irqLevel_iff _).mp (huart.symm.trans h.device), ?_, ?_⟩
    · intro i h27 h30 h33 hp
      refine hquiet i ((driveLines_pending _ _ i).mpr ?_)
      rw [if_neg (show i ≠ BootTimer.phys.line from h30),
        if_neg (show i ≠ BootTimer.virt.line from h27), if_neg h33]
      exact hp
    · intro t ht hf
      exact h.timers t (BootTimer.fires_iff.mpr (armed_parked.mpr ht)) ((hfwd _).mpr hf)
  · intro h
    have hdev : v.parked.board.uart.irqLevel = false := (uart_irqLevel_iff _).mpr h.device
    refine ⟨huart.trans hdev, ?_, ?_⟩
    · by_contra hne
      obtain ⟨i, hp, hf⟩ := (Gicv2.irqLevel_forwards _).mp hne
      rw [hfwd] at hf
      rw [hgic, driveLines_pending] at hp
      by_cases h30 : i = BootTimer.phys.line
      · rw [if_pos h30] at hp
        refine h.timers .phys (armed_parked.mp (BootTimer.armed_of_level hp)) ?_
        rw [← h30]
        exact hf
      · rw [if_neg h30] at hp
        by_cases h27 : i = BootTimer.virt.line
        · rw [if_pos h27] at hp
          refine h.timers .virt (armed_parked.mp (BootTimer.armed_of_level hp)) ?_
          rw [← h27]
          exact hf
        · rw [if_neg h27] at hp
          by_cases h33 : i = 33
          · rw [if_pos h33, hdev] at hp
            cases hp
          · rw [if_neg h33] at hp
            exact h.lines i h27 h30 h33 hp hf
    · intro t ht hf
      exact h.timers t (armed_parked.mp (BootTimer.fires_iff.mp ht)) ((hfwd _).mp hf)

/-! ## the turns of the loop -/

section

variable (f₀ : MmuFault)

/-- the slice of a turn ends with the core at this wait -/
def ParksIn (s : BootLoop) (u : BootVcpu) : Prop :=
  u.Parks Aspace.memops ∧ bootHalted u.env = false ∧
    ∃ done, bootSlice f₀ (min s.budget bootQuantum) (min s.budget bootQuantum) .ok 0 s.vcpu =
      some (.blocked, done, u.parked.refreshLevels)

/-- what leaving with `EXIT_BLOCKED` is to mean: nothing could wake the core, and a core that
something could wake is run again -/
structure BlockedRule (s : BootLoop) : Prop where
  deadlock : ∀ s', bootTurn f₀ false s = some (s', some exitBlocked) → s'.vcpu.Deadlocked
  resumes : ∀ u, ParksIn f₀ s u →
    ¬ (u.parked.refreshLevels.setUart u.parked.refreshLevels.board.uart.pump.2).Deadlocked →
    ∃ s', bootTurn f₀ false s = some (s', none)

end

variable {f₀ : MmuFault} {s s' : BootLoop} {u v v' : BootVcpu} {st : Status}

theorem bootHalted_false_event {e : BootEnv} (h : bootHalted e = false) : e.event = .none := by
  unfold bootHalted at h
  rw [Bool.or_eq_false_iff, decide_eq_false_iff_not, not_not] at h
  exact h.1

theorem bootTurn_parks (h : ParksIn f₀ s u) :
    ∃ s', bootTurn f₀ false s = some (s', some exitBlocked) ∧
      s'.vcpu = u.parked.refreshLevels.setUart u.parked.refreshLevels.board.uart.pump.2 := by
  obtain ⟨-, hh, done, hslice⟩ := h
  have hev : u.parked.refreshLevels.env.event = .none := bootHalted_false_event hh
  refine ⟨{ s with
    vcpu := u.parked.refreshLevels.setUart u.parked.refreshLevels.board.uart.pump.2
    budget := s.budget - done }, ?_, rfl⟩
  unfold bootTurn
  dsimp only
  rw [hslice, Option.map_some]
  unfold afterSlice
  rw [serveConsole_false]
  have hev' : (u.parked.refreshLevels.setUart
      u.parked.refreshLevels.board.uart.pump.2).env.event = .none := hev
  dsimp only
  rw [hev']
  rfl

theorem bootSlice_sound {slice n done done' : Nat} {st₁ : Status}
    (h : bootSlice f₀ slice n st done v = some (st₁, done', v')) (hst : st = .ok ∨ st = .timeout)
    (hs : v.env.Sound) :
    v'.env.Sound ∧ ((st₁ = .ok ∨ st₁ = .timeout) ∨ st₁ = .blocked ∧
      ∃ u : BootVcpu, u.env.Sound ∧ bootHalted u.env = false ∧ u.Parks Aspace.memops ∧
        v' = u.parked.refreshLevels) :=
  slice_ends (I := fun v => v.env.Sound) (fun _ _ _ hv hstep => bootStep_sound hstep hv)
    (fun _ hv => hv) h hs hst

theorem exitBlocked_parks (hs : s.vcpu.env.Sound)
    (h : bootTurn f₀ false s = some (s', some exitBlocked)) : ∃ u, ParksIn f₀ s u := by
  unfold bootTurn at h
  dsimp only at h
  rw [Option.map_eq_some_iff] at h
  obtain ⟨⟨st, done, v⟩, hslice, ha⟩ := h
  obtain ⟨hsound, hend⟩ := bootSlice_sound hslice (.inl rfl) hs
  rcases hend with hst | ⟨rfl, u, -, hh, hp, rfl⟩
  · exfalso
    unfold afterSlice at ha
    rw [serveConsole_false] at ha
    dsimp only at ha
    have henv : (v.setUart v.board.uart.pump.2).env = v.env := rfl
    rw [henv] at ha
    cases hev : v.env.event with
    | powerdown =>
      rw [hev] at ha
      have hc : shellCode v.env.exitCode = exitBlocked :=
        Option.some.inj (congrArg Prod.snd ha)
      rw [hsound.code hev] at hc
      revert hc
      decide
    | reset =>
      rw [hev] at ha
      have hc : exitError = exitBlocked := Option.some.inj (congrArg Prod.snd ha)
      revert hc
      decide
    | none =>
      rw [hev] at ha
      have hb : st ≠ .blocked := by
        rcases hst with rfl | rfl <;> exact Status.noConfusion
      have hok : ¬ (st ≠ .ok ∧ st ≠ .timeout) := by
        rintro ⟨h1, h2⟩
        exact hst.elim h1 h2
      dsimp only at ha
      rw [if_neg hb, if_neg hok] at ha
      by_cases h0 : s.budget - done = 0
      · rw [if_pos h0] at ha
        have hc : exitTimeout = exitBlocked := Option.some.inj (congrArg Prod.snd ha)
        revert hc
        decide
      · rw [if_neg h0] at ha
        cases congrArg Prod.snd ha
  · exact ⟨u, hp, hh, done, hslice⟩

theorem parksIn_deadlocked (u : BootVcpu) :
    (u.parked.refreshLevels.setUart u.parked.refreshLevels.board.uart.pump.2).Deadlocked ↔
      u.Asleep := by
  rw [Vcpu.refreshLevels_uart]
  exact deadlocked_iff_asleep u (Pl011.pump_sameReceiver _)

theorem blockedRule_iff (hs : s.vcpu.env.Sound) :
    BlockedRule f₀ s ↔ ∀ u, ParksIn f₀ s u → u.Asleep := by
  constructor
  · intro h u hu
    by_contra hna
    obtain ⟨w, hw, -⟩ := bootTurn_parks hu
    obtain ⟨w', hw'⟩ := h.resumes u hu fun hd => hna ((parksIn_deadlocked u).mp hd)
    have he := hw.symm.trans hw'
    cases congrArg Prod.snd (Option.some.inj he)
  · intro h
    constructor
    · intro s' hexit
      obtain ⟨u, hu⟩ := exitBlocked_parks hs hexit
      obtain ⟨w, hw, hv⟩ := bootTurn_parks hu
      have he : s' = w := congrArg Prod.fst (Option.some.inj (hexit.symm.trans hw))
      rw [he, hv]
      exact (parksIn_deadlocked u).mpr (h u hu)
    · intro u hu hnd
      exact absurd ((parksIn_deadlocked u).mpr (h u hu)) hnd

/-! ## runs -/

theorem afterSlice_env (st : Status) (s : BootLoop) :
    (afterSlice false st s).1.vcpu.env = s.vcpu.env := by
  unfold afterSlice
  rw [serveConsole_false]
  dsimp only
  split
  · rfl
  · rfl
  · split
    · rfl
    · split
      · rfl
      · split <;> rfl

theorem bootTurn_sound {e : Option Nat} (hs : s.vcpu.env.Sound)
    (h : bootTurn f₀ false s = some (s', e)) : s'.vcpu.env.Sound := by
  unfold bootTurn at h
  dsimp only at h
  rw [Option.map_eq_some_iff] at h
  obtain ⟨⟨st, done, v⟩, hslice, ha⟩ := h
  have hs' : s' = (afterSlice false st { s with vcpu := v, budget := s.budget - done }).1 :=
    (congrArg Prod.fst ha).symm
  rw [hs', afterSlice_env]
  exact (bootSlice_sound hslice (.inl rfl) hs).1

/-- **when leaving a parked core means that it is deadlocked**: a turn keeps the rule exactly when
the core it parks, if it parks one, is asleep; so every run whose parked cores are all asleep keeps
it, and the core it leaves is deadlocked -/
theorem blocked_deadlock (f₀ : MmuFault) (s : BootLoop) (hs : s.vcpu.env.Sound) :
    (BlockedRule f₀ s ↔ ∀ u, ParksIn f₀ s u → u.Asleep) ∧
    ((∀ s₁ u, Loop.Reached (bootTurn f₀ false) s s₁ → ParksIn f₀ s₁ u → u.Asleep) →
      (∀ s₁, Loop.Reached (bootTurn f₀ false) s s₁ → BlockedRule f₀ s₁) ∧
      ∀ n s', bootRun f₀ false n s = .exited exitBlocked s' → s'.vcpu.Deadlocked) := by
  refine ⟨blockedRule_iff hs, fun hall => ?_⟩
  have hsound : ∀ s₁, Loop.Reached (bootTurn f₀ false) s s₁ → s₁.vcpu.env.Sound :=
    fun s₁ hr => Loop.reached_invariant (I := fun s => s.vcpu.env.Sound)
      (fun _ _ h hn => bootTurn_sound h hn) hr hs
  have hrule : ∀ s₁, Loop.Reached (bootTurn f₀ false) s s₁ → BlockedRule f₀ s₁ :=
    fun s₁ hr => (blockedRule_iff (hsound s₁ hr)).mpr fun u hu => hall s₁ u hr hu
  refine ⟨hrule, fun n s' hrun => ?_⟩
  obtain ⟨s₁, hr, ht⟩ := Loop.exited_from hrun
  exact (hrule s₁ hr).deadlock s' ht

/-- RAM full of `wfi`, behind a controller and a control word of the physical timer -/
def wfiBoard (gic : Gicv2) (ctl : W64) : BootVcpu :=
  let ram : AspaceRegion Board := ⟨0x40000000, 0x1000, permRead ||| permWrite ||| permExec,
    .ram 0 true⟩
  let wfi : W32 := 0xD503207F
  let bus : Aspace Board :=
    ⟨[ram], 8, fun i => (wfi >>> (8 * (i % 4))).setWidth 8, ⟨Pl011.init (some []), gic⟩⟩
  let v := Vcpu.init bus BootEnv.init .el1 0x40000000 0x40000FF0 (BitVec.ofNat 64 bootQuantum)
  { v with sr := (v.sr.set .cntpCtlEl1 ctl).set .cntpCvalEl1 1000 }

/-- with a controller that forwards the physical timer -/
def waitBoard (ctl : W64) : BootVcpu :=
  wfiBoard { Gicv2.init 64 with
    ctl := 1, cpuCtl := 1, cpuPmr := 0xFF, enable := fun i => if i = 30 then 1 else 0 } ctl

theorem parked_board_off {v : BootVcpu} (hoff : cacheable v.tick.sr v.tick.sr.el = false) :
    v.parked.board = v.board := by
  have hphys : (mmuFetch32 v.tick.sr Aspace.memops v.tick.world v.tick.cpu.regs.pc).2.2.phys =
      v.world.phys := by
    unfold mmuFetch32
    dsimp only
    rw [translate_off hoff]
    dsimp only
    generalize hval : Aspace.memops.validate v.tick.world.phys v.tick.cpu.regs.pc 4 permExec = q
    have hq : q.2 = v.world.phys := by
      rw [← hval]
      rfl
    obtain ⟨st, p⟩ := q
    dsimp only at hq
    subst hq
    cases st <;> try rfl
    dsimp only
    generalize hfe : Aspace.memops.fetch32 v.world.phys v.tick.cpu.regs.pc = r
    have hr : r.2.2 = v.world.phys := by
      rw [← hfe]
      rfl
    obtain ⟨st, word, p⟩ := r
    dsimp only at hr
    subst hr
    cases st <;> rfl
  exact congrArg Aspace.dev hphys

/-- ten instructions of it, without a console -/
def waitLoop (ctl : W64) : BootLoop := .start (waitBoard ctl) 10 []

theorem waitBoard_board (ctl : W64) (h : ctl = 0 ∨ ctl = 1) :
    (waitBoard ctl).parked.board = (waitBoard ctl).board := by
  refine parked_board_off ?_
  rcases h with rfl | rfl <;> decide

theorem waitLoop_parks (ctl : W64) (h : ctl = 0 ∨ ctl = 1) :
    ParksIn ⟨0, 0⟩ (waitLoop ctl) (waitBoard ctl) := by
  have hstep : bootStep ⟨0, 0⟩ (waitBoard ctl) = some (.blocked, (waitBoard ctl).parked) := by
    rcases h with rfl | rfl <;> rfl
  have hp : (waitBoard ctl).Parks Aspace.memops := .of_blocked hstep
  exact ⟨hp, rfl, 0, slice_parks (show 0 < min 10 bootQuantum by decide) rfl hp⟩

theorem waitLoop_parksIn {u : BootVcpu} (hu : ParksIn ⟨0, 0⟩ (waitLoop 0) u) : u.Asleep := by
  obtain ⟨-, -, done, hslice⟩ := hu
  obtain ⟨-, -, done', hslice'⟩ := waitLoop_parks 0 (.inl rfl)
  have he : u.parked.refreshLevels = (waitBoard 0).parked.refreshLevels :=
    congrArg (fun q => q.2.2) (Option.some.inj (hslice.symm.trans hslice'))
  rw [← parksIn_deadlocked, he, parksIn_deadlocked]
  constructor
  · rw [waitBoard_board 0 (.inl rfl)]
    rfl
  · intro i _ _ _ hp
    rw [waitBoard_board 0 (.inl rfl)] at hp
    exact absurd rfl hp
  · rintro (_ | _) ⟨he, -⟩
    · exact absurd rfl he
    · exact absurd rfl he

/-- with no timer armed the exit is right -/
theorem blocked_deadlock_wfi : BlockedRule ⟨0, 0⟩ (waitLoop 0) :=
  (blocked_deadlock ⟨0, 0⟩ (waitLoop 0) BootEnv.init_sound).1.mpr fun _ hu => waitLoop_parksIn hu

/-- with the physical timer armed a thousand counts ahead, the loop leaves all the same -/
theorem armed_timer_blocked :
    ¬ ∀ s : BootLoop, s.vcpu.env.Sound → BlockedRule ⟨0, 0⟩ s := by
  intro h
  have hu := waitLoop_parks 1 (.inr rfl)
  have ha := (blockedRule_iff BootEnv.init_sound).mp (h (waitLoop 1) BootEnv.init_sound) _ hu
  refine ha.timers .phys ⟨by decide, by decide⟩ ?_
  rw [waitBoard_board 1 (.inr rfl)]
  exact ⟨by decide, by decide, by decide, by decide, by decide, by decide, by decide⟩

end Oemu
