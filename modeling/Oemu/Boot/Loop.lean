import Oemu.Lib.Loop
import Oemu.Dev.Gicv2
import Oemu.Fw.Psci
import Oemu.Vcpu.Clock
import Oemu.Vcpu.Firmware
import Oemu.Boot.Console

/-!
# The boot loop

`bootTurn` is one turn of the loop that runs a booted machine.  It gives the core a slice of the
budget, in chunks between which the interrupt lines are sampled, `refreshLevels`; then it serves the
console, and leaves on an event of the machine, on a core that has parked, on a step that failed, or
on a spent budget.

* `slice_ends`       how the slice of a turn can end;
* `bootTurn_parked`  what a turn makes of a core that has parked.

The power state of a booted machine is `Sound`, and stays so: the PSCI halt raises the machine's
event, and the event of a machine that was turned off carries the exit code 0.
-/

namespace Oemu

/-- the devices of the boot machine -/
structure Board where
  uart : Pl011
  gic : Gicv2

/-- the booted core, over the physical bus of the machine -/
abbrev BootVcpu := Vcpu (Aspace Board) BootEnv

/-- `BOOT_QUANTUM` -/
def bootQuantum : Nat := 1000000

/-- `BOOT_LEVEL_QUANTUM` -/
def bootLevelQuantum : Nat := 64

def bootUartSpi : Nat := 33

def bootTimerVirtPpi : Nat := 27

def bootTimerPhysPpi : Nat := 30

def exitError : Nat := 1

def exitTimeout : Nat := 3

def exitBlocked : Nat := 4

/-! ## the devices -/

def Vcpu.board (v : BootVcpu) : Board := v.world.phys.dev

def Vcpu.setBoard (v : BootVcpu) (b : Board) : BootVcpu :=
  { v with world := { v.world with phys := { v.world.phys with dev := b } } }

def Vcpu.setUart (v : BootVcpu) (u : Pl011) : BootVcpu := v.setBoard { v.board with uart := u }

/-- the three lines the boot machine drives: the UART and the two comparators -/
def driveLines (b : Board) (sr : Sysregs) : Gicv2 :=
  let gic := b.gic.setPending bootUartSpi b.uart.irqLevel
  let gic := gic.setPending bootTimerVirtPpi
    (gtimerPending (sr.val .cntvct - sr.val .cntvoffEl1) (sr.val .cntvCtlEl1)
      (sr.val .cntvCvalEl1))
  gic.setPending bootTimerPhysPpi
    (gtimerPending (sr.val .cntvct) (sr.val .cntpCtlEl1) (sr.val .cntpCvalEl1))

/-- `boot_refresh_levels` -/
def Vcpu.refreshLevels (v : BootVcpu) : BootVcpu :=
  let gic := driveLines v.board v.sr
  (v.setBoard { v.board with gic }).setIrq (decide (gic.irqLevel ≠ 0))

theorem Vcpu.refreshLevels_uart (v : BootVcpu) : v.refreshLevels.board.uart = v.board.uart := rfl

section

variable (f₀ : MmuFault)

def bootStep (v : BootVcpu) : Option (Status × BootVcpu) :=
  vcpuStep Aspace.memops f₀ (some (bootEnvops : EnvOps (Aspace Board) BootEnv)) v

def bootVcpuRun (chunk : Nat) (v : BootVcpu) : Option (Status × Nat × BootVcpu) :=
  vcpuRun Aspace.memops f₀ (some (bootEnvops : EnvOps (Aspace Board) BootEnv))
    (BitVec.ofNat 64 chunk) v

/-! ## the loop -/

/-- the sub-slices of a turn; each but the last completes an instruction, so that `slice` of them are
enough -/
def bootSlice (slice : Nat) : Nat → Status → Nat → BootVcpu → Option (Status × Nat × BootVcpu)
  | 0, st, done, v => some (st, done, v)
  | n + 1, st, done, v =>
    if done < slice ∧ (st = .ok ∨ st = .timeout) then
      (bootVcpuRun f₀ (min (slice - done) bootLevelQuantum) v).bind fun q =>
        let v := q.2.2.refreshLevels
        if q.2.1 = 0 then some (q.1, done, v) else bootSlice slice n q.1 (done + q.2.1) v
    else some (st, done, v)

structure BootLoop where
  vcpu : BootVcpu
  budget : Nat
  console : Console

/-- `boot_run` before its first turn -/
def BootLoop.start (v : BootVcpu) (maxInsns : W64) (stdin : List Poll) : BootLoop where
  vcpu := v
  budget := maxInsns.toNat
  console := .start stdin

def shellCode (code : Int) : Nat := (BitVec.ofInt 32 code &&& 0xFF).toNat

/-- the console served: what the guest transmitted goes out, and what was typed comes in -/
def serveConsole (pump : Bool) (s : BootLoop) : BootLoop :=
  let s := { s with vcpu := s.vcpu.setUart s.vcpu.board.uart.pump.2 }
  if pump then
    let (u, c) := pumpStdin s.vcpu.board.uart s.console
    { s with vcpu := s.vcpu.setUart u, console := c }
  else s

/-- a turn after its slice ended with `st` -/
def afterSlice (pump : Bool) (st : Status) (s : BootLoop) : BootLoop × Option Nat :=
  let s := serveConsole pump s
  match s.vcpu.env.event with
  | .powerdown => (s, some (shellCode s.vcpu.env.exitCode))
  | .reset => (s, some exitError)
  | .none =>
    if st = .blocked then
      if pump then
        let (more, u, c) := awaitInput s.vcpu.board.uart s.console
        let s := { s with vcpu := s.vcpu.setUart u, console := c }
        if more then ({ s with vcpu := s.vcpu.refreshLevels.rearm }, none)
        else (s, some exitBlocked)
      else (s, some exitBlocked)
    else if st ≠ .ok ∧ st ≠ .timeout then (s, some exitError)
    else if s.budget = 0 then (s, some exitTimeout)
    else ({ s with vcpu := s.vcpu.rearm }, none)

/-- one turn of `boot_run`; `pump` is whether standard input feeds the console -/
def bootTurn (pump : Bool) (s : BootLoop) : Option (BootLoop × Option Nat) :=
  let slice := min s.budget bootQuantum
  (bootSlice f₀ slice slice .ok 0 s.vcpu).map fun q =>
    afterSlice pump q.1 { s with vcpu := q.2.2, budget := s.budget - q.2.1 }

/-- `boot_run`, as far as a number of turns brings it -/
def bootRun (pump : Bool) : Nat → BootLoop → Loop.Progress BootLoop Nat :=
  Loop.run (bootTurn f₀ pump)

end

/-! ## the power state -/

/-- a power state the boot loop notices: a halt of PSCI raises an event of the machine, and turning
off carries no exit code -/
structure BootEnv.Sound (e : BootEnv) : Prop where
  event : e.psci.halted = true → e.event ≠ .none
  code : e.event = .powerdown → e.exitCode = 0

theorem BootEnv.init_sound : BootEnv.init.Sound := by
  constructor
  · intro h
    cases h
  · intro _
    rfl

theorem bootFwCall_sound {e : BootEnv} (h : e.Sound) (fnid : W64) :
    (bootFwCall fnid e).2.Sound := by
  unfold bootFwCall
  dsimp only
  rcases psciDispatch e.psci fnid with ⟨_ | ret0, psci⟩
  · exact ⟨h.event, h.code⟩
  · dsimp only
    by_cases hh : psci.halted = true
    · rw [if_pos hh]
      split
      · exact ⟨fun _ => MachineEvent.noConfusion, fun _ => rfl⟩
      · exact ⟨fun _ => MachineEvent.noConfusion, fun _ => rfl⟩
    · rw [if_neg hh]
      split
      · exact ⟨fun _ => MachineEvent.noConfusion, fun he => MachineEvent.noConfusion he⟩
      · exact ⟨fun he => absurd he hh, h.code⟩

variable {f₀ : MmuFault} {v v' : BootVcpu} {st st' : Status}

theorem bootStep_sound (h : bootStep f₀ v = some (st, v')) (hs : v.env.Sound) : v'.env.Sound := by
  by_cases hc : ∃ insn, v.Reaches Aspace.memops insn ∧ insn.isConduit
  · obtain ⟨insn, hr, hop⟩ := hc
    obtain ⟨w, hw, -, henv⟩ :=
      step_conduit f₀ (some (bootEnvops : EnvOps (Aspace Board) BootEnv)) hr hop
    have hvw : some (st, v') = some (Status.ok, w) := h.symm.trans hw
    cases hvw
    rw [henv]
    exact bootFwCall_sound hs _
  · rw [step_env h fun insn hr hop => hc ⟨insn, hr, hop⟩]
    exact hs

/-- what a step keeps: the quantum, and a power state the loop notices -/
structure Vcpu.Booted (v : BootVcpu) : Prop where
  quantum : v.quantum = BitVec.ofNat 64 bootQuantum
  sound : v.env.Sound

theorem bootStep_booted (h : bootStep f₀ v = some (st, v')) (hv : v.Booted) : v'.Booted :=
  ⟨(vcpuStep_charge h).2.2.1.trans hv.quantum, bootStep_sound h hv.sound⟩

/-! ## the slice -/

/-- the core after the step that parks it -/
def Vcpu.parked (v : BootVcpu) : BootVcpu :=
  { v.tick with world := (v.fetch Aspace.memops).2.2 }

theorem bootStep_parks (h : v.Parks Aspace.memops) : bootStep f₀ v = some (.blocked, v.parked) :=
  vcpuStep_parks h

theorem chunk_toNat {n : Nat} : (BitVec.ofNat 64 (min n bootLevelQuantum)).toNat =
    min n bootLevelQuantum := by
  rw [BitVec.toNat_ofNat, Nat.mod_eq_of_lt]
  have : bootLevelQuantum = 64 := rfl
  omega

theorem bootSlice_succ (slice n done : Nat) (st : Status) (v : BootVcpu) :
    bootSlice f₀ slice (n + 1) st done v =
      if done < slice ∧ (st = .ok ∨ st = .timeout) then
        (bootVcpuRun f₀ (min (slice - done) bootLevelQuantum) v).bind fun q =>
          if q.2.1 = 0 then some (q.1, done, q.2.2.refreshLevels)
          else bootSlice f₀ slice n q.1 (done + q.2.1) q.2.2.refreshLevels
      else some (st, done, v) :=
  rfl

theorem bootSlice_count {slice n done done' : Nat}
    (h : bootSlice f₀ slice n st done v = some (st', done', v')) (hd : done ≤ slice) :
    done ≤ done' ∧ done' ≤ slice := by
  induction n generalizing st done v with
  | zero =>
    have : done = done' := congrArg (fun x => x.2.1) (Option.some.inj h)
    omega
  | succ n ih =>
    rw [bootSlice_succ] at h
    by_cases hg : done < slice ∧ (st = .ok ∨ st = .timeout)
    · rw [if_pos hg, Option.bind_eq_some_iff] at h
      obtain ⟨⟨st₁, stepped, v₁⟩, hrun, hq⟩ := h
      have hcount := (Budget.before_count hrun).2
      rw [chunk_toNat] at hcount
      dsimp only at hq
      by_cases h0 : stepped = 0
      · rw [if_pos h0] at hq
        have : done = done' := congrArg (fun x => x.2.1) (Option.some.inj hq)
        omega
      · rw [if_neg h0] at hq
        have := ih hq (by omega)
        omega
    · rw [if_neg hg] at h
      have : done = done' := congrArg (fun x => x.2.1) (Option.some.inj h)
      omega

theorem bootSlice_fuel {slice n done : Nat} (hn : slice ≤ done + n) (st : Status) (v : BootVcpu) :
    bootSlice f₀ slice (n + 1) st done v = bootSlice f₀ slice n st done v := by
  induction n generalizing st done v with
  | zero =>
    rw [bootSlice_succ, if_neg]
    · rfl
    · omega
  | succ n ih =>
    rw [bootSlice_succ, bootSlice_succ (n := n)]
    by_cases hg : done < slice ∧ (st = .ok ∨ st = .timeout)
    · rw [if_pos hg, if_pos hg]
      refine congrArg (Option.bind _) (funext fun q => ?_)
      by_cases h0 : q.2.1 = 0
      · rw [if_pos h0, if_pos h0]
      · rw [if_neg h0, if_neg h0]
        exact ih (by omega) _ _
    · rw [if_neg hg, if_neg hg]

/-- a slice ends between instructions, or on a core that has parked; `I` is any fact that steps and
the sampling of the lines keep -/
theorem slice_ends {I : BootVcpu → Prop}
    (hstep : ∀ v st v', I v → bootStep f₀ v = some (st, v') → I v')
    (hrefresh : ∀ v, I v → I v.refreshLevels) {slice n done done' : Nat}
    (h : bootSlice f₀ slice n st done v = some (st', done', v')) (h0 : I v)
    (hst : st = .ok ∨ st = .timeout) :
    I v' ∧ ((st' = .ok ∨ st' = .timeout) ∨ st' = .blocked ∧
      ∃ u, I u ∧ bootHalted u.env = false ∧ u.Parks Aspace.memops ∧ v' = u.parked.refreshLevels) := by
  induction n generalizing st done v with
  | zero =>
    obtain ⟨rfl, -, rfl⟩ : st = st' ∧ done = done' ∧ v = v' := by
      simpa only [bootSlice, Option.some.injEq, Prod.mk.injEq] using h
    exact ⟨h0, .inl hst⟩
  | succ n ih =>
    rw [bootSlice_succ] at h
    by_cases hg : done < slice ∧ (st = .ok ∨ st = .timeout)
    · rw [if_pos hg, Option.bind_eq_some_iff] at h
      obtain ⟨⟨st₁, stepped, v₁⟩, hrun, hq⟩ := h
      dsimp only at hq
      have hend : I v₁ ∧ ((st₁ = .ok ∨ st₁ = .timeout) ∨ st₁ = .blocked ∧
          ∃ u, I u ∧ bootHalted u.env = false ∧ u.Parks Aspace.memops ∧ v₁ = u.parked) := by
        rcases Budget.before_ends (fun s s' hs _ hs' => hstep s .ok s' hs hs') h0 hrun with
          ⟨hr, -, hI⟩ | ⟨hr, -, hI⟩ | ⟨u, hu, hh, hs, hr⟩
        · exact ⟨hI, .inl (.inl hr)⟩
        · exact ⟨hI, .inl (.inr hr)⟩
        · refine ⟨hstep u st₁ v₁ hu hs, ?_⟩
          rcases vcpuStep_status hs with hok | hb | ht
          · exact absurd hok hr
          · subst hb
            have hp : u.Parks Aspace.memops := .of_blocked hs
            have hv : v₁ = u.parked :=
              congrArg Prod.snd (Option.some.inj (hs.symm.trans (bootStep_parks hp)))
            exact .inr ⟨rfl, u, hu, hh, hp, hv⟩
          · exact .inl (.inr ht)
      obtain ⟨hI, hend⟩ := hend
      by_cases hz : stepped = 0
      · rw [if_pos hz] at hq
        obtain ⟨rfl, -, rfl⟩ : st₁ = st' ∧ done = done' ∧ v₁.refreshLevels = v' := by
          simpa only [Option.some.injEq, Prod.mk.injEq] using hq
        refine ⟨hrefresh _ hI, hend.imp_right ?_⟩
        rintro ⟨hb, u, hu, hh, hp, rfl⟩
        exact ⟨hb, u, hu, hh, hp, rfl⟩
      · rw [if_neg hz] at hq
        rcases hend with hend | ⟨rfl, u, hu, hh, hp, rfl⟩
        · exact ih hq (hrefresh _ hI) hend
        · -- the guard of the loop fails on a core that has parked
          have hstop : bootSlice f₀ slice n .blocked (done + stepped) u.parked.refreshLevels =
              some (.blocked, done + stepped, u.parked.refreshLevels) := by
            cases n with
            | zero => rfl
            | succ n =>
              rw [bootSlice_succ, if_neg]
              rintro ⟨-, hc | hc⟩ <;> cases hc
          obtain ⟨rfl, -, rfl⟩ : Status.blocked = st' ∧ done + stepped = done' ∧
              u.parked.refreshLevels = v' := by
            simpa only [Option.some.injEq, Prod.mk.injEq] using hstop.symm.trans hq
          exact ⟨hrefresh _ hI, .inr ⟨rfl, u, hu, hh, hp, rfl⟩⟩
    · rw [if_neg hg] at h
      obtain ⟨rfl, -, rfl⟩ : st = st' ∧ done = done' ∧ v = v' := by
        simpa only [Option.some.injEq, Prod.mk.injEq] using h
      exact ⟨h0, .inl hst⟩

/-- a slice that completes no instruction found the machine halted, or the core at a wait -/
theorem slice_idle {slice n : Nat} (hs : 0 < slice) (hq : v.insnsLeft ≠ 0)
    (h : bootSlice f₀ slice (n + 1) .ok 0 v = some (st', 0, v')) :
    (bootHalted v.env = true ∧ st' = .ok ∧ v' = v.refreshLevels) ∨
      (bootHalted v.env = false ∧ v.Parks Aspace.memops ∧ st' = .blocked ∧
        v' = v.parked.refreshLevels) := by
  rw [bootSlice_succ, if_pos ⟨hs, .inl rfl⟩, Option.bind_eq_some_iff] at h
  obtain ⟨⟨st₁, stepped, v₁⟩, hrun, hr⟩ := h
  dsimp only at hr
  obtain ⟨k, hk⟩ : ∃ k, (BitVec.ofNat 64 (min (slice - 0) bootLevelQuantum)).toNat = k + 1 := by
    rw [chunk_toNat]
    have : bootLevelQuantum = 64 := rfl
    exact ⟨min (slice - 0) bootLevelQuantum - 1, by omega⟩
  unfold bootVcpuRun vcpuRun at hrun
  rw [hk] at hrun
  by_cases hz : stepped = 0
  · rw [if_pos hz] at hr
    obtain ⟨rfl, -, rfl⟩ : st₁ = st' ∧ 0 = 0 ∧ v₁.refreshLevels = v' := by
      simpa only [Option.some.injEq, Prod.mk.injEq] using hr
    subst hz
    rcases Budget.before_none hrun with ⟨hh, rfl, rfl⟩ | ⟨hh, hstep, hne⟩
    · exact .inl ⟨hh, rfl, rfl⟩
    · right
      rcases vcpuStep_status hstep with hok | rfl | rfl
      · exact absurd hok hne
      · have hp : v.Parks Aspace.memops := .of_blocked hstep
        have hv : v₁ = v.parked :=
          congrArg Prod.snd (Option.some.inj (hstep.symm.trans (vcpuStep_parks hp)))
        exact ⟨hh, hp, rfl, congrArg Vcpu.refreshLevels hv⟩
      · exact absurd rfl (vcpuStep_ne_timeout hq hstep)
  · rw [if_neg hz] at hr
    have hle := (Budget.before_count hrun).2
    have hmin : k + 1 ≤ slice := by
      rw [← hk, chunk_toNat]
      omega
    have := (bootSlice_count hr (by omega)).1
    omega

/-- a slice that starts at a wait with nothing to wake for -/
theorem slice_parks {slice n : Nat} (hs : 0 < slice) (hh : bootHalted v.env = false)
    (hp : v.Parks Aspace.memops) :
    bootSlice f₀ slice (n + 1) .ok 0 v = some (.blocked, 0, v.parked.refreshLevels) := by
  obtain ⟨k, hk⟩ : ∃ k, (BitVec.ofNat 64 (min (slice - 0) bootLevelQuantum)).toNat = k + 1 := by
    rw [chunk_toNat]
    have : bootLevelQuantum = 64 := rfl
    exact ⟨min (slice - 0) bootLevelQuantum - 1, by omega⟩
  have hrun : bootVcpuRun f₀ (min (slice - 0) bootLevelQuantum) v = some (.blocked, 0, v.parked) := by
    unfold bootVcpuRun vcpuRun
    rw [hk]
    have hne : Status.blocked ≠ .ok := by decide
    refine Budget.before_refused ?_ (vcpuStep_parks hp) hne k 0
    exact hh
  rw [bootSlice_succ, if_pos ⟨hs, .inl rfl⟩, hrun]
  rfl

/-! ## the console -/

/-- serving the console concerns the UART and the input only -/
theorem serveConsole_frame (pump : Bool) (s : BootLoop) :
    (serveConsole pump s).vcpu.env = s.vcpu.env ∧
      (serveConsole pump s).vcpu.quantum = s.vcpu.quantum ∧
      (serveConsole pump s).budget = s.budget := by
  unfold serveConsole
  cases pump <;> exact ⟨rfl, rfl, rfl⟩

theorem serveConsole_false (s : BootLoop) :
    serveConsole false s = { s with vcpu := s.vcpu.setUart s.vcpu.board.uart.pump.2 } :=
  rfl

theorem serveConsole_true (s : BootLoop) :
    (serveConsole true s).vcpu.board.uart = (pumpStdin s.vcpu.board.uart.pump.2 s.console).1 ∧
      (serveConsole true s).console = (pumpStdin s.vcpu.board.uart.pump.2 s.console).2 :=
  ⟨rfl, rfl⟩

end Oemu
