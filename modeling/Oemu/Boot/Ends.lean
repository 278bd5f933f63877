import Oemu.Boot.Parked

/-!
# The boot loop ends

A turn of the boot loop spends budget, moves input, or leaves, with one exception: `Stuck`, a parked
guest with input held for a receiver that does not take it, and nothing new on standard input.  The
loop then goes round without doing anything.

* `turn_advances_iff`   which turns move something;
* `boot_run_ends`       a run without stuck turns ends, for every guest and every budget;
* `held_byte_spins`     one byte typed at a guest that sleeps with its receiver off.
-/

namespace Oemu

variable {f₀ : MmuFault} {s s' : BootLoop} {v v' : BootVcpu} {pump : Bool}

/-! ## the progress of a turn -/

/-- budget is spent, or input is moved -/
def Advances (s s' : BootLoop) : Prop := s'.budget < s.budget ∨ Fed s.console s'.console

/-- the core is at a wait with nothing to wake for, and input is jammed -/
structure Stuck (s : BootLoop) : Prop where
  budget : 0 < s.budget
  running : bootHalted s.vcpu.env = false
  parked : s.vcpu.Parks Aspace.memops
  jammed : Jammed s.vcpu.parked.board.uart s.console

/-- what `main` and every turn leave the next turn: a full quantum, and a power state the loop
notices -/
structure BootLoop.Ready (s : BootLoop) : Prop where
  booted : s.vcpu.Booted
  full : s.vcpu.insnsLeft = s.vcpu.quantum

theorem BootLoop.Ready.quantum_ne (h : s.Ready) : s.vcpu.insnsLeft ≠ 0 := by
  rw [h.full, h.booted.quantum]
  decide

theorem afterSlice_next {st : Status} (h : afterSlice pump st s = (s', none)) :
    s'.vcpu.env = s.vcpu.env ∧ s'.vcpu.quantum = s.vcpu.quantum ∧
    s'.vcpu.insnsLeft = s.vcpu.quantum ∧ s.vcpu.env.event = .none ∧ s'.budget = s.budget ∧
    ((st ≠ .blocked ∧ s.budget ≠ 0 ∧ s'.console = (serveConsole pump s).console) ∨
      (st = .blocked ∧ pump = true ∧
        (awaitInput (serveConsole pump s).vcpu.board.uart (serveConsole pump s).console).1 = true ∧
        s'.console =
          (awaitInput (serveConsole pump s).vcpu.board.uart (serveConsole pump s).console).2.2)) := by
  obtain ⟨henv, hquantum, hbudget⟩ := serveConsole_frame pump s
  unfold afterSlice at h
  generalize serveConsole pump s = t at h henv hquantum hbudget ⊢
  dsimp only at h
  rw [← henv, ← hquantum, ← hbudget]
  cases hev : t.vcpu.env.event with
  | powerdown | reset =>
    rw [hev] at h
    cases h
  | none =>
    rw [hev] at h
    dsimp only at h
    by_cases hb : st = .blocked
    · rw [if_pos hb] at h
      cases pump with
      | false =>
        rw [if_neg Bool.false_ne_true] at h
        cases h
      | true =>
        rw [if_pos rfl] at h
        by_cases hm : (awaitInput t.vcpu.board.uart t.console).1 = true
        · rw [if_pos hm] at h
          cases h
          exact ⟨rfl, rfl, rfl, rfl, rfl, .inr ⟨hb, rfl, hm, rfl⟩⟩
        · rw [if_neg hm] at h
          cases h
    · rw [if_neg hb] at h
      by_cases hok : st ≠ .ok ∧ st ≠ .timeout
      · rw [if_pos hok] at h
        cases h
      · rw [if_neg hok] at h
        by_cases h0 : t.budget = 0
        · rw [if_pos h0] at h
          cases h
        · rw [if_neg h0] at h
          cases h
          exact ⟨rfl, rfl, rfl, rfl, rfl, .inl ⟨hb, h0, rfl⟩⟩

theorem accepts_congr {u u' : Pl011} (h : Pl011.SameReceiver u u') : u'.accepts = u.accepts := by
  unfold Pl011.accepts Pl011.listens
  rw [h.cr, h.rxCount]

/-- the receiver as the turn finds it after a slice -/
theorem jammed_pump {u : Pl011} {c : Console} : Jammed u.pump.2 c ↔ Jammed u c := by
  have hacc := accepts_congr (Pl011.pump_sameReceiver u)
  exact ⟨fun h => ⟨h.silent, h.held, hacc.symm.trans h.refused⟩,
    fun h => ⟨h.silent, h.held, hacc.trans h.refused⟩⟩

theorem serveConsole_consumed (pump : Bool) (s : BootLoop) :
    Consumed s.console.bytesLeft s.console (serveConsole pump s).console := by
  cases pump with
  | false => exact ⟨Nat.le_refl _, Nat.le_refl _, fun h => h⟩
  | true => exact pumpStdin_consumed _ _

/-- serving the console of a parked guest and waiting for it moves input, unless it is jammed -/
theorem fed_served {t : BootLoop} (hm : (awaitInput (serveConsole true t).vcpu.board.uart
      (serveConsole true t).console).1 = true) :
    Fed t.console (awaitInput (serveConsole true t).vcpu.board.uart
        (serveConsole true t).console).2.2 ↔ ¬ Jammed t.vcpu.board.uart t.console := by
  obtain ⟨hu, hc⟩ := serveConsole_true t
  rw [hu, hc] at hm ⊢
  exact (fed_iff hm).trans (not_congr jammed_pump)

theorem bootTurn_next (h : Loop.Next (bootTurn f₀ pump) s s') :
    ∃ st done v, bootSlice f₀ (min s.budget bootQuantum) (min s.budget bootQuantum) .ok 0 s.vcpu =
        some (st, done, v) ∧
      afterSlice pump st { s with vcpu := v, budget := s.budget - done } = (s', none) ∧
      s'.budget = s.budget - done ∧
      Consumed s.console.bytesLeft s.console s'.console := by
  unfold Loop.Next bootTurn at h
  dsimp only at h
  rw [Option.map_eq_some_iff] at h
  obtain ⟨⟨st, done, v⟩, hslice, ha⟩ := h
  refine ⟨st, done, v, hslice, ha, ?_⟩
  obtain ⟨-, -, -, -, hbudget, hend⟩ := afterSlice_next ha
  refine ⟨hbudget, ?_⟩
  have hserve := serveConsole_consumed pump { s with vcpu := v, budget := s.budget - done }
  rcases hend with ⟨-, -, hc⟩ | ⟨-, -, hm, hc⟩
  · rw [hc]
    exact hserve
  · rw [hc]
    exact hserve.trans (awaitInput_consumed hm)

/-- **which turns move something**: all but those of a stuck guest -/
theorem turn_advances_iff (hr : s.Ready) (h : Loop.Next (bootTurn f₀ pump) s s') :
    Advances s s' ↔ ¬ (pump = true ∧ Stuck s) := by
  obtain ⟨st, done, v, hslice, ha, hbudget, -⟩ := bootTurn_next h
  obtain ⟨-, -, -, hev, -, hend⟩ := afterSlice_next ha
  have hpos : 0 < s.budget → 0 < min s.budget bootQuantum := by
    have : bootQuantum = 1000000 := rfl
    omega
  obtain ⟨k, hk⟩ : ∃ k, 0 < s.budget → min s.budget bootQuantum = k + 1 :=
    ⟨min s.budget bootQuantum - 1, fun h0 => (Nat.sub_add_cancel (hpos h0)).symm⟩
  constructor
  · rintro hadv ⟨rfl, hstuck⟩
    have hs := hslice
    rw [hk hstuck.budget] at hs
    have hpark : bootSlice f₀ (k + 1) (k + 1) .ok 0 s.vcpu =
        some (.blocked, 0, s.vcpu.parked.refreshLevels) :=
      slice_parks k.succ_pos hstuck.running hstuck.parked
    rw [hpark] at hs
    obtain ⟨rfl, rfl, rfl⟩ : Status.blocked = st ∧ 0 = done ∧ s.vcpu.parked.refreshLevels = v := by
      simpa only [Option.some.injEq, Prod.mk.injEq] using hs
    rcases hend with ⟨hne, -⟩ | ⟨-, -, hm, hc⟩
    · exact hne rfl
    · rcases hadv with hlt | hfed
      · rw [hbudget] at hlt
        exact absurd hlt (lt_irrefl _)
      · rw [hc] at hfed
        refine (fed_served hm).mp hfed ?_
        dsimp only
        rw [Vcpu.refreshLevels_uart]
        exact hstuck.jammed
  · intro hno
    by_cases h0 : s.budget = 0
    · -- without budget the slice is empty, and the turn leaves
      exfalso
      rw [h0] at hslice
      have hst : Status.ok = st := congrArg (fun q => q.1) (Option.some.inj hslice)
      rcases hend with ⟨-, hne, -⟩ | ⟨hb, -⟩
      · refine hne ?_
        show s.budget - done = 0
        rw [h0, Nat.zero_sub]
      · rw [← hst] at hb
        cases hb
    · by_cases hd : done = 0
      · subst hd
        have hs := hslice
        rw [hk (Nat.pos_of_ne_zero h0)] at hs
        rcases slice_idle (Nat.succ_pos k) hr.quantum_ne hs with ⟨hh, -, rfl⟩ | ⟨hh, hp, rfl, rfl⟩
        · -- a halted machine has an event, and the turn leaves
          exfalso
          unfold bootHalted at hh
          rw [Bool.or_eq_true, decide_eq_true_eq] at hh
          exact hh.elim (fun hne => hne hev) fun hp => hr.booted.sound.event hp hev
        · rcases hend with ⟨hne, -⟩ | ⟨-, rfl, hm, hc⟩
          · exact absurd rfl hne
          · right
            rw [hc]
            refine (fed_served hm).mpr fun hj => hno ⟨rfl, ?_⟩
            dsimp only at hj
            rw [Vcpu.refreshLevels_uart] at hj
            exact ⟨Nat.pos_of_ne_zero h0, hh, hp, hj⟩
      · left
        have hle := (bootSlice_count hslice (Nat.zero_le _)).2
        omega

/-! ## a guest that only waits -/

theorem serveConsole_refused (h : s.vcpu.board.uart.accepts = false) :
    serveConsole true s = { s with
      vcpu := s.vcpu.setUart s.vcpu.board.uart.pump.2
      console := Console.drain s.console.stdin s.console } := by
  have hacc : s.vcpu.board.uart.pump.2.accepts = false :=
    (accepts_congr (Pl011.pump_sameReceiver _)).trans h
  have hpump : pumpStdin s.vcpu.board.uart.pump.2 s.console =
      (s.vcpu.board.uart.pump.2, Console.drain s.console.stdin s.console) :=
    deliver_refused hacc _
  unfold serveConsole
  dsimp only
  rw [if_pos rfl]
  have huart : (s.vcpu.setUart s.vcpu.board.uart.pump.2).board.uart =
      s.vcpu.board.uart.pump.2 := rfl
  rw [huart, hpump]
  rfl

/-- the state a turn leaves that found the guest at a wait and its receiver off or full -/
def BootLoop.waited (s : BootLoop) : BootLoop where
  vcpu := (s.vcpu.parked.refreshLevels.setUart
    s.vcpu.parked.refreshLevels.board.uart.pump.2).refreshLevels.rearm
  budget := s.budget
  console := Console.drain s.console.stdin s.console

theorem turn_waits (h0 : 0 < s.budget) (hh : bootHalted s.vcpu.env = false)
    (hp : s.vcpu.Parks Aspace.memops) (hacc : s.vcpu.parked.board.uart.accepts = false)
    (hheld : (Console.drain s.console.stdin s.console).held ≠ []) :
    Loop.Next (bootTurn f₀ true) s s.waited := by
  have hpos : 0 < min s.budget bootQuantum := by
    have : bootQuantum = 1000000 := rfl
    omega
  obtain ⟨k, hk⟩ : ∃ k, min s.budget bootQuantum = k + 1 :=
    ⟨min s.budget bootQuantum - 1, (Nat.sub_add_cancel hpos).symm⟩
  have hpark : bootSlice f₀ (k + 1) (k + 1) .ok 0 s.vcpu =
      some (.blocked, 0, s.vcpu.parked.refreshLevels) := slice_parks k.succ_pos hh hp
  unfold Loop.Next bootTurn
  dsimp only
  rw [hk, hpark, Option.map_some]
  generalize hv : s.vcpu.parked.refreshLevels = v
  have hacc' : v.board.uart.accepts = false := by
    rw [← hv, Vcpu.refreshLevels_uart]
    exact hacc
  have hev : v.env.event = .none := by
    rw [← hv]
    exact bootHalted_false_event hh
  unfold afterSlice
  rw [serveConsole_refused hacc']
  dsimp only
  rw [show (v.setUart v.board.uart.pump.2).env.event = .none from hev]
  dsimp only
  rw [if_pos rfl, if_pos rfl]
  have huart : (v.setUart v.board.uart.pump.2).board.uart = v.board.uart.pump.2 := rfl
  have hacc'' : v.board.uart.pump.2.accepts = false :=
    (accepts_congr (Pl011.pump_sameReceiver _)).trans hacc'
  have hwait : awaitInput v.board.uart.pump.2 (Console.drain s.console.stdin s.console) =
      (true, v.board.uart.pump.2, Console.drain s.console.stdin s.console) := by
    rw [awaitInput_eq, deliver_refused hacc'', if_pos hheld]
  rw [huart, hwait, if_pos rfl]
  unfold BootLoop.waited
  rw [hv]
  rfl

/-- a stuck guest goes on, and so breaks the rule -/
theorem stuck_next (h : Stuck s) : Loop.Next (bootTurn f₀ true) s s.waited := by
  refine turn_waits h.budget h.running h.parked h.jammed.refused ?_
  rw [(drain_silent h.jammed.silent).1]
  exact h.jammed.held

theorem advances_iff (hr : s.Ready) :
    (∀ s', Loop.Next (bootTurn f₀ pump) s s' → Advances s s') ↔ ¬ (pump = true ∧ Stuck s) := by
  constructor
  · rintro h ⟨rfl, hstuck⟩
    have hnext : Loop.Next (bootTurn f₀ true) s s.waited := stuck_next hstuck
    exact (turn_advances_iff hr hnext).mp (h _ hnext) ⟨rfl, hstuck⟩
  · intro h s' hnext
    exact (turn_advances_iff hr hnext).mpr h

/-! ## runs -/

theorem ready_next (hr : s.Ready) (h : Loop.Next (bootTurn f₀ pump) s s') : s'.Ready := by
  obtain ⟨st, done, v, hslice, ha, -⟩ := bootTurn_next h
  obtain ⟨henv, hquantum, hfull, -⟩ := afterSlice_next ha
  have hv : v.Booted :=
    (slice_ends (I := Vcpu.Booted) (fun _ _ _ hv hstep => bootStep_booted hstep hv)
      (fun _ hv => ⟨hv.quantum, hv.sound⟩) hslice hr.booted (.inl rfl)).1
  exact ⟨⟨hquantum.trans hv.quantum, henv ▸ hv.sound⟩, hfull.trans hquantum.symm⟩

def BootLoop.left (s : BootLoop) : Nat :=
  s.budget + (2 * s.console.bytesLeft + s.console.held.length) + if s.console.eof then 0 else 1

theorem left_lt (hb : s'.budget ≤ s.budget) (hc : Consumed s.console.bytesLeft s.console s'.console)
    (h : Advances s s') : s'.left < s.left := by
  obtain ⟨h1, h2, h3⟩ := hc
  have heof : (if s'.console.eof then 0 else 1) ≤ if s.console.eof then 0 else 1 := by
    by_cases he : s.console.eof = true
    · rw [if_pos he, if_pos (h3 he)]
    · rw [if_neg he]
      split <;> omega
  unfold BootLoop.left
  rcases h with h | h | h | ⟨he, he'⟩
  · omega
  · omega
  · omega
  · have : (if s'.console.eof then 0 else 1) < if s.console.eof then 0 else 1 := by
      rw [if_pos he', he]
      decide
    omega

/-- **when the boot loop ends**: the turns from a state it can start in, if they go on, move
something exactly when the guest is not stuck; and a run none of whose turns finds it stuck ends,
with an exit code unless a step of the core stops the program -/
theorem boot_run_ends (f₀ : MmuFault) (pump : Bool) (s : BootLoop) (hr : s.Ready) :
    ((∀ s', Loop.Next (bootTurn f₀ pump) s s' → Advances s s') ↔ ¬ (pump = true ∧ Stuck s)) ∧
    ((∀ s₁, Loop.Reached (bootTurn f₀ pump) s s₁ → ¬ (pump = true ∧ Stuck s₁)) →
      (∃ n, bootRun f₀ pump n s = .aborted ∨ ∃ code s', bootRun f₀ pump n s = .exited code s') ∧
      ∀ n, bootRun f₀ pump n s = .aborted →
        ∃ s₁, Loop.Reached (bootTurn f₀ pump) s s₁ ∧ bootTurn f₀ pump s₁ = none) := by
  refine ⟨advances_iff hr, fun hfree => ⟨?_, fun n h => Loop.aborted_from h⟩⟩
  refine Loop.ends_of_measure (m := BootLoop.left) fun u hu u' hnext => ?_
  have hru : u.Ready := Loop.reached_invariant (fun _ _ h hn => ready_next h hn) hu hr
  obtain ⟨-, done, -, -, -, hbudget, hc⟩ := bootTurn_next hnext
  exact left_lt (hbudget ▸ Nat.sub_le _ _) hc ((advances_iff hru).mpr (hfree u hu) u' hnext)

/-! ## a byte nobody takes -/

/-- a core that waits with its pins low, no translation, and a controller that is off -/
structure Waits (v : BootVcpu) : Prop where
  quantum : v.quantum = BitVec.ofNat 64 bootQuantum
  full : v.insnsLeft = v.quantum
  irq : v.irqLevel = false
  fiq : v.fiqLevel = false
  off : sctlrM (v.sr.val .sctlrEl1) = false
  probe : v.world.phys.validate v.cpu.regs.pc 4 permExec = .ok
  word : v.world.phys.fetch32 v.cpu.regs.pc = (.ok, 0xD503207F)
  running : bootHalted v.env = false
  gic : v.board.gic.ctl = 0
  refused : v.board.uart.accepts = false

theorem Waits.uncached (h : Waits v) : cacheable v.tick.sr v.tick.sr.el = false := by
  have hs : v.tick.sr.val .sctlrEl1 = v.sr.val .sctlrEl1 :=
    Sysregs.set_val_of_ne _ _ (by intro h; cases h)
  unfold cacheable
  rw [hs, h.off]
  rfl

theorem Waits.fetch (h : Waits v) :
    v.fetch Aspace.memops = (.ok, 0xD503207F, { v.world with mmu := epochCheck v.world.mmu v.tick.sr }) := by
  have hp : Aspace.memops.validate v.world.phys v.cpu.regs.pc 4 permExec = (.ok, v.world.phys) :=
    Prod.ext h.probe rfl
  have hf : Aspace.memops.fetch32 v.world.phys v.cpu.regs.pc = (.ok, 0xD503207F, v.world.phys) :=
    congrArg (fun q : Status × W32 => (q.1, q.2, v.world.phys)) h.word
  unfold Vcpu.fetch mmuFetch32
  dsimp only
  rw [translate_off h.uncached]
  dsimp only
  rw [hp]
  dsimp only
  rw [hf]

theorem Waits.parks (h : Waits v) : v.Parks Aspace.memops := by
  have hq : v.insnsLeft ≠ 0 := by
    rw [h.full, h.quantum]
    decide
  have hp : v.pending = none := by
    unfold Vcpu.pending pendingKind
    rw [h.irq, h.fiq]
    rfl
  obtain ⟨insn, hd, hop⟩ : ∃ insn, decode 0xD503207F v.cpu.regs.pc = .ok insn ∧ insn.op = .wfi :=
    ⟨_, rfl, rfl⟩
  refine ⟨insn, ⟨hq, hp, ?_, ?_⟩, .inl hop, ?_⟩
  · rw [h.fetch]
  · rw [h.fetch]
    exact hd
  · unfold Vcpu.wakes
    rw [h.irq, h.fiq, hop]
    rfl

/-- the physical bus after a wait: the devices may have moved, RAM has not -/
theorem Waits.phys (h : Waits v) : v.parked.world.phys = v.world.phys := by
  show (v.fetch Aspace.memops).2.2.phys = _
  rw [h.fetch]

theorem driveLines_ctl (b : Board) (sr : Sysregs) : (driveLines b sr).ctl = b.gic.ctl := rfl

/-- a controller that is off asserts nothing -/
theorem refreshLevels_off (h : v.board.gic.ctl = 0) {u : Pl011} :
    (v.refreshLevels.setUart u).refreshLevels.rearm.irqLevel = false := by
  generalize hw : v.refreshLevels.setUart u = w
  have hctl : w.board.gic.ctl = 0 := by
    rw [← hw]
    exact (driveLines_ctl _ _).trans h
  have hl : (driveLines w.board w.sr).irqLevel = 0 := by
    refine if_pos (.inl ?_)
    rw [driveLines_ctl, hctl]
    rfl
  show decide ((driveLines w.board w.sr).irqLevel ≠ 0) = false
  rw [hl]
  rfl

theorem waited_waits (h : Waits s.vcpu) : Waits s.waited.vcpu := by
  have hphys := h.phys
  have hboard : s.vcpu.parked.board = s.vcpu.board := congrArg Aspace.dev hphys
  have hsctlr : s.vcpu.parked.sr.val .sctlrEl1 = s.vcpu.sr.val .sctlrEl1 :=
    Sysregs.set_val_of_ne _ _ (by intro h; cases h)
  have hcpu : s.vcpu.parked.cpu = s.vcpu.cpu := rfl
  have henv : s.vcpu.parked.env = s.vcpu.env := rfl
  have hq : s.vcpu.parked.quantum = s.vcpu.quantum := rfl
  have hfiq : s.vcpu.parked.fiqLevel = s.vcpu.fiqLevel := rfl
  unfold BootLoop.waited
  generalize s.vcpu.parked = v at *
  have hctl : v.board.gic.ctl = 0 := by
    rw [hboard]
    exact h.gic
  have huart : v.refreshLevels.board.uart.pump.2.accepts = false := by
    rw [Vcpu.refreshLevels_uart, accepts_congr (Pl011.pump_sameReceiver _), hboard]
    exact h.refused
  generalize v.refreshLevels.board.uart.pump.2 = u at huart ⊢
  have hirq := refreshLevels_off hctl (u := u)
  constructor <;> dsimp only [Vcpu.rearm, Vcpu.refreshLevels, Vcpu.setIrq, Vcpu.setUart,
    Vcpu.setBoard, Vcpu.board] at hirq ⊢
  case quantum => exact hq.trans h.quantum
  case irq => exact hirq
  case fiq => exact hfiq.trans h.fiq
  case off =>
    rw [hsctlr]
    exact h.off
  case probe =>
    rw [hphys, hcpu]
    exact h.probe
  case word =>
    rw [hphys, hcpu]
    exact h.word
  case running =>
    rw [henv]
    exact h.running
  case gic =>
    rw [driveLines_ctl, driveLines_ctl]
    exact hctl
  case refused => exact huart

/-- a guest that sleeps with its receiver off, after the end of the input, with a byte held -/
structure Wedged (s : BootLoop) : Prop where
  budget : 0 < s.budget
  waits : Waits s.vcpu
  stdin : s.console.stdin = []
  held : s.console.held ≠ []

theorem wedged_next (h : Wedged s) : Loop.Next (bootTurn f₀ true) s s.waited ∧ Wedged s.waited := by
  have hacc : s.vcpu.parked.board.uart.accepts = false := by
    rw [show s.vcpu.parked.board = s.vcpu.board from congrArg Aspace.dev h.waits.phys]
    exact h.waits.refused
  have hdrain : (Console.drain s.console.stdin s.console).held ≠ [] := by
    rw [h.stdin]
    exact h.held
  refine ⟨turn_waits h.budget h.waits.running h.waits.parks hacc hdrain, h.budget,
    waited_waits h.waits, ?_, hdrain⟩
  show (Console.drain s.console.stdin s.console).stdin = []
  rw [h.stdin]
  rfl

/-- a guest that sleeps, and one byte on standard input -/
def typedLoop : BootLoop := .start (wfiBoard (Gicv2.init 64) 0) 10 [.byte 0x61]

theorem typedLoop_ready : typedLoop.Ready := ⟨⟨rfl, BootEnv.init_sound⟩, rfl⟩

theorem typedLoop_waits : Waits typedLoop.vcpu where
  quantum := rfl
  full := rfl
  irq := rfl
  fiq := rfl
  off := by decide
  probe := by decide
  word := by decide +kernel
  running := by decide
  gic := rfl
  refused := by decide

/-- without a console the sleeping guest is left with an exit code -/
theorem boot_run_ends_wfi : ∃ n, bootRun ⟨0, 0⟩ false n typedLoop = .aborted ∨
    ∃ code s', bootRun ⟨0, 0⟩ false n typedLoop = .exited code s' :=
  ((boot_run_ends ⟨0, 0⟩ false typedLoop typedLoop_ready).2
    fun _ _ h => Bool.false_ne_true h.1).1

/-- the byte is read and never taken: the loop goes round for ever -/
theorem held_byte_spins :
    ¬ ∀ s : BootLoop, s.Ready → ∃ n code s', bootRun ⟨0, 0⟩ true n s = .exited code s' := by
  intro h
  obtain ⟨n, code, s', hn⟩ := h typedLoop typedLoop_ready
  have hacc : typedLoop.vcpu.parked.board.uart.accepts = false := by
    rw [show typedLoop.vcpu.parked.board = typedLoop.vcpu.board from
      congrArg Aspace.dev typedLoop_waits.phys]
    exact typedLoop_waits.refused
  have hfirst : Loop.Next (bootTurn ⟨0, 0⟩ true) typedLoop typedLoop.waited :=
    turn_waits (by decide) typedLoop_waits.running typedLoop_waits.parks hacc (by decide)
  have hwedged : Wedged typedLoop.waited :=
    ⟨by decide, waited_waits typedLoop_waits, rfl, by decide⟩
  cases n with
  | zero => cases hn
  | succ n =>
    unfold bootRun at hn
    rw [Loop.run_next hfirst] at hn
    obtain ⟨w, hw, -⟩ := Loop.never_returns (I := Wedged) (fun u hu => ⟨_, wedged_next hu⟩) hwedged n
    rw [hw] at hn
    cases hn

end Oemu
