import Oemu.Vcpu.Irq
import Oemu.Fw.Psci

/-!
# The firmware conduit over runs

A step consults the conduit exactly when it reaches an `HVC` or an `SMC`, at whatever level the core
is: `step_env`.  So the power state of the machine is moved by such steps only, and by those of user
code too.

* `conduitStep_iff`     the steps that keep the conduit from user code;
* `conduit_runs`        runs of such steps.
-/

namespace Oemu

variable {σ ε τ : Type}

def Insn.isConduit (insn : Insn) : Prop := insn.op = .hvc ∨ insn.op = .smc

instance (insn : Insn) : Decidable insn.isConduit := inferInstanceAs (Decidable (_ ∨ _))

/-! ## what a step does to the environment -/

section

variable {mem : Memops (MmuWorld σ)} {phys : Memops σ} {f₀ : MmuFault}
  {env : Option (EnvOps τ ε)} {cpu : Cpu} {sr : Sysregs} {insn : Insn} {word : W32}
  {s s' : MmuWorld σ × ε} {res : Status × Cpu × Sysregs} {v v' : Vcpu σ ε} {st : Status}

theorem onBus_env {α : Type} {m : StateT (MmuWorld σ) Option α} {a : α}
    (h : onBus m s = some (a, s')) : s'.2 = s.2 := by
  unfold onBus at h
  cases hm : m s.1 with
  | none =>
    rw [hm] at h
    cases h
  | some p =>
    rw [hm] at h
    cases h
    rfl

theorem doFirmware_env (env : Option (EnvOps τ ε)) (cpu : Cpu) (sr : Sysregs) (insn : Insn) (e : ε) :
    (doFirmware env cpu sr insn e).2 = (firmwareAnswer env cpu.regs insn e).2 := by
  unfold doFirmware
  rcases firmwareAnswer env cpu.regs insn e with ⟨_ | ret0, e'⟩ <;> rfl

theorem dispatchSystem_env (hop : ¬ insn.isConduit)
    (h : dispatchSystem mem phys env cpu sr insn word s = some (res, s')) : s'.2 = s.2 := by
  by_cases heret : insn.op = .eret
  · rw [dispatchSystem_eret heret] at h
    obtain ⟨p, -, hp⟩ := Option.map_eq_some_iff.mp h
    cases hp
    rfl
  unfold dispatchSystem at h
  cases ho : insn.op <;> rw [ho] at h <;> dsimp only at h
  case hvc => exact absurd (.inl ho) hop
  case smc => exact absurd (.inr ho) hop
  case eret => exact absurd ho heret
  case unknown | svc | brk | hlt | mrs | msr | msrImm =>
    cases h
    rfl
  all_goals exact onBus_env h

theorem dispatchSystem_conduit (hop : insn.isConduit) :
    dispatchSystem mem phys env cpu sr insn word s =
      some ((.ok, (doFirmware env cpu sr insn s.2).1), s.1, (doFirmware env cpu sr insn s.2).2) := by
  unfold dispatchSystem
  rcases hop with hop | hop <;> rw [hop] <;> rfl

theorem execute_env (hop : ¬ insn.isConduit)
    (h : v.execute phys f₀ env insn word = some (st, v')) : v'.env = v.env := by
  unfold Vcpu.execute at h
  cases hs : dispatchSystem (mmuMemops v.sr phys f₀) phys env v.cpu v.sr insn word
      (v.world, v.env) with
  | none =>
    have h' := (congrArg (Option.map _) hs).symm.trans h
    cases h'
  | some q =>
    have h' := (congrArg (Option.map _) hs).symm.trans h
    have he := dispatchSystem_env hop hs
    rw [Option.map_some] at h'
    dsimp only at h'
    split at h' <;> cases h' <;> exact he

theorem step_env (h : vcpuStep phys f₀ env v = some (st, v'))
    (hno : ∀ insn, v.Reaches phys insn → ¬ insn.isConduit) : v'.env = v.env := by
  by_cases hq : v.insnsLeft = 0
  · rw [vcpuStep_timeout hq] at h
    cases h
    rfl
  · cases hp : v.pending with
    | some kind =>
      rw [vcpuStep_pending hq hp] at h
      cases h
      rfl
    | none =>
      have hno' := fun insn hf hd => hno insn ⟨hq, hp, hf, hd⟩
      rw [vcpuStep_quiet hq hp] at h
      unfold Vcpu.fetched at h
      have hfe : v.fetch phys = mmuFetch32 v.tick.sr phys v.tick.world v.tick.cpu.regs.pc := rfl
      rw [← hfe] at h
      rcases hf : v.fetch phys with ⟨fst, word, w⟩
      rw [hf] at h hno'
      cases fst <;> dsimp only at h
      case ok =>
        unfold Vcpu.decoded at h
        cases hd : decode word v.cpu.regs.pc with
        | error e =>
          have hd' : decode word v.tick.cpu.regs.pc = .error e := hd
          dsimp only at h
          rw [hd'] at h
          cases h
          rfl
        | ok insn =>
          have hd' : decode word v.tick.cpu.regs.pc = .ok insn := hd
          dsimp only at h
          rw [hd'] at h
          dsimp only at h
          split at h
          · cases h
            rfl
          · have he := execute_env (hno' insn rfl hd) h
            obtain ⟨b, hb⟩ := Vcpu.noteEvent_eq (v := { v.tick with world := w }) insn
            rw [hb] at he
            exact he
      all_goals
        cases h
        unfold Vcpu.fetchAbort
        dsimp only
        rcases w.mmu.takeFault with ⟨_ | f, m⟩ <;> rfl

theorem step_conduit (f₀ : MmuFault) (env : Option (EnvOps τ ε)) (hr : v.Reaches phys insn)
    (hop : insn.isConduit) :
    ∃ v', vcpuStep phys f₀ env v = some (.ok, v') ∧
      (v'.cpu, v'.sr) = (doFirmware env v.cpu v.tick.sr insn v.env).1 ∧
      v'.env = (firmwareAnswer env v.cpu.regs insn v.env).2 := by
  have hwait : insn.op ≠ .wfi ∧ insn.op ≠ .wfe := by
    rcases hop with hop | hop <;> rw [hop] <;> decide
  have hd : dispatchSystem (mmuMemops v.tick.sr phys f₀) phys env v.cpu v.tick.sr insn
      (v.fetch phys).2.1 ((v.fetch phys).2.2, v.env) = some _ := dispatchSystem_conduit hop
  obtain ⟨v', hv, hcpu, hsr, hw, -⟩ := hr.execute hwait hd
  refine ⟨v', hv, Prod.ext hcpu hsr, ?_⟩
  rw [← doFirmware_env]
  exact congrArg Prod.snd hw

end

/-! ## the conduit and user code -/

section

variable (phys : Memops σ) (f₀ : MmuFault)

/-- the state of the machine's power moves from one environment to the other -/
def PowerMoved (e e' : BootEnv) : Prop := e'.psci ≠ e.psci ∨ e'.event ≠ e.event

/-- the rule of one step: who moves the power state, and what user code gets instead -/
structure ConduitStep (v v' : Vcpu σ BootEnv) : Prop where
  moved : PowerMoved v.env v'.env →
    ∃ insn, v.Reaches phys insn ∧ insn.isConduit ∧ v.sr.el ≠ .el0
  user : ∀ insn, v.Reaches phys insn → insn.isConduit → v.sr.el = .el0 →
    (∃ d : Delivery, v'.sr.taken = v.sr.taken ++ [d] ∧ d.kind = .sync ∧ d.target = .el1 ∧
      d.esr >>> 26 = 0) ∧
      v'.cpu.regs.read 0 .w64 = v.cpu.regs.read 0 .w64 ∧ v'.env.asked = v.env.asked

def UserConduit (v : Vcpu σ BootEnv) : Prop :=
  v.sr.el = .el0 ∧ ∃ insn, v.Reaches phys insn ∧ insn.isConduit

/-- the machine, its power state left alone between steps, while user code does not call -/
def GuardedConduit (v : Vcpu σ BootEnv) (i : Label) (v' : Vcpu σ BootEnv) : Prop :=
  Machine phys f₀ (some (bootEnvops : EnvOps σ BootEnv)) v i v' ∧
    (i = .host → v'.env = v.env) ∧ ∀ st, i = .step st → ¬ UserConduit phys v

end

section

variable {phys : Memops σ} {f₀ : MmuFault} {v v' : Vcpu σ BootEnv} {st : Status}

theorem powerMoved_irrefl (e : BootEnv) : ¬ PowerMoved e e := by
  rintro (h | h) <;> exact h rfl

/-- **a step keeps the conduit from user code exactly when user code does not call it** -/
theorem conduitStep_iff
    (h : vcpuStep phys f₀ (some (bootEnvops : EnvOps σ BootEnv)) v = some (st, v')) :
    ConduitStep phys v v' ↔ ¬ UserConduit phys v := by
  constructor
  · rintro hs ⟨hel, insn, hr, hop⟩
    obtain ⟨w, hw, -, henv⟩ := step_conduit f₀ (some (bootEnvops : EnvOps σ BootEnv)) hr hop
    rw [hw] at h
    cases h
    have hasked := (hs.user insn hr hop hel).2.2
    rw [henv] at hasked
    have hplus : (firmwareAnswer (some (bootEnvops : EnvOps σ BootEnv)) v.cpu.regs insn v.env).2.asked
        = v.env.asked + 1 := bootFwCall_asked _ _
    omega
  · intro hno
    refine ⟨?_, ?_⟩
    · intro hm
      by_contra hne
      have hsame : v'.env = v.env := by
        refine step_env h ?_
        intro insn hr hop
        by_cases hel : v.sr.el = .el0
        · exact hno ⟨hel, insn, hr, hop⟩
        · exact hne ⟨insn, hr, hop, hel⟩
      rw [hsame] at hm
      exact powerMoved_irrefl _ hm
    · intro insn hr hop hel
      exact absurd ⟨hel, insn, hr, hop⟩ hno

/-- a move that is no step leaves the power state alone -/
theorem guarded_moved {i : Label} (h : GuardedConduit phys f₀ v i v')
    (hm : PowerMoved v.env v'.env) : ∃ st, i = .step st ∧
      vcpuStep phys f₀ (some (bootEnvops : EnvOps σ BootEnv)) v = some (st, v') := by
  obtain ⟨hmach, hhost, -⟩ := h
  cases hmach with
  | step st v' h => exact ⟨st, rfl, h⟩
  | irq level => exact absurd hm (powerMoved_irrefl _)
  | fiq level => exact absurd hm (powerMoved_irrefl _)
  | rearm => exact absurd hm (powerMoved_irrefl _)
  | host p e =>
    rw [hhost rfl] at hm
    exact absurd hm (powerMoved_irrefl _)

/-- **who can move the power state**: a step keeps the conduit from user code exactly when user code
does not call it; and in every run in which user code never does, whatever moved the power state was
an `HVC` or `SMC` at EL1 or above -/
theorem conduit_runs (phys : Memops σ) (f₀ : MmuFault) :
    (∀ (v v' : Vcpu σ BootEnv) (st : Status),
      vcpuStep phys f₀ (some (bootEnvops : EnvOps σ BootEnv)) v = some (st, v') →
      (ConduitStep phys v v' ↔ ¬ UserConduit phys v)) ∧
    ∀ (v₀ v : Vcpu σ BootEnv) (l : List Label), Lts.Run (GuardedConduit phys f₀) v₀ l v →
      PowerMoved v₀.env v.env →
      ∃ l₁ st l₂ u u' insn, l = l₁ ++ .step st :: l₂ ∧
        Lts.Run (GuardedConduit phys f₀) v₀ l₁ u ∧
        vcpuStep phys f₀ (some (bootEnvops : EnvOps σ BootEnv)) u = some (st, u') ∧
        Lts.Run (GuardedConduit phys f₀) u' l₂ v ∧ PowerMoved u.env u'.env ∧
        u.Reaches phys insn ∧ insn.isConduit ∧ u.sr.el ≠ .el0 := by
  refine ⟨fun v v' st h => conduitStep_iff h, ?_⟩
  intro v₀ v l hrun hm
  have hend : ¬ ¬ PowerMoved v₀.env v.env := not_not_intro hm
  obtain ⟨l₁, i, l₂, u, u', hl, hr₁, hu, hr₂, hsame, hmoved⟩ :=
    hrun.crossing (I := fun s => ¬ PowerMoved v₀.env s.env) (powerMoved_irrefl _) hend
  have hstep : PowerMoved u.env u'.env := by
    have hu0 : u.env.psci = v₀.env.psci ∧ u.env.event = v₀.env.event := by
      simpa [PowerMoved] using hsame
    rcases not_not.mp hmoved with hp | he
    · left
      rw [hu0.1]
      exact hp
    · right
      rw [hu0.2]
      exact he
  obtain ⟨st, rfl, hst⟩ := guarded_moved hu hstep
  obtain ⟨insn, hr, hop, hel⟩ := ((conduitStep_iff hst).mpr (hu.2.2 st rfl)).moved hstep
  exact ⟨l₁, st, l₂, u, u', insn, hl, hr₁, hst, hr₂, hstep, hr, hop, hel⟩

end

/-- `smc #0` with the identifier of `SYSTEM_OFF` in `x0` -/
def poweroffVcpu (el : El) : Vcpu Memory BootEnv :=
  let v := Vcpu.init (codeMemory 0xD4000003) BootEnv.init el 0x1000 0x8000 10
  { v with cpu := v.cpu.writeG 0 false .w64 psciFnSystemOff }

def poweroffStepped (el : El) : Vcpu Memory BootEnv :=
  match vcpuStep Memory.memops ⟨0, 0⟩ (some (bootEnvops : EnvOps Memory BootEnv)) (poweroffVcpu el)
  with
  | some p => p.2
  | none => poweroffVcpu el

/-- the kernel turns the machine off -/
theorem conduit_runs_kernel :
    ∃ l₁ st l₂ u u' insn, [Label.step .ok] = l₁ ++ .step st :: l₂ ∧
      Lts.Run (GuardedConduit Memory.memops ⟨0, 0⟩) (poweroffVcpu .el1) l₁ u ∧
      vcpuStep Memory.memops ⟨0, 0⟩ (some (bootEnvops : EnvOps Memory BootEnv)) u = some (st, u') ∧
      Lts.Run (GuardedConduit Memory.memops ⟨0, 0⟩) u' l₂ (poweroffStepped .el1) ∧
      PowerMoved u.env u'.env ∧ u.Reaches Memory.memops insn ∧ insn.isConduit ∧
      u.sr.el ≠ .el0 := by
  refine (conduit_runs Memory.memops ⟨0, 0⟩).2 (poweroffVcpu .el1) (poweroffStepped .el1)
    [.step .ok] (.cons ⟨.step .ok _ rfl, ?_, ?_⟩ (.nil _)) (.inr (by decide))
  · intro h
    cases h
  · rintro st - ⟨hel, -⟩
    revert hel
    decide

/-- user code turns the machine off -/
theorem user_poweroff :
    (poweroffVcpu .el0).sr.el = .el0 ∧
      vcpuStep Memory.memops ⟨0, 0⟩ (some (bootEnvops : EnvOps Memory BootEnv)) (poweroffVcpu .el0) =
        some (.ok, poweroffStepped .el0) ∧
      (poweroffStepped .el0).env.psci.halted = true ∧
      (poweroffStepped .el0).env.event = .powerdown ∧
      (poweroffStepped .el0).sr.taken = (poweroffVcpu .el0).sr.taken ∧
      ¬ ConduitStep Memory.memops (poweroffVcpu .el0) (poweroffStepped .el0) := by
  refine ⟨by decide, rfl, by decide, by decide, by decide, ?_⟩
  intro h
  obtain ⟨insn, -, -, hel⟩ := h.moved (.inr (by decide))
  exact hel (by decide)

end Oemu
