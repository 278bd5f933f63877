import Oemu.Lib.Budget
import Oemu.Decode.Refusal
import Oemu.Exec.Total
import Oemu.Vcpu.Step
import Oemu.Aspace

/-!
# The two run loops

`execRunBus` runs a user-mode process and `vcpuRun` a core, each for a budget of steps and until the
environment reports that the guest has stopped.  They are the two loops of `Budget`: `vcpuRun` asks
before each step, `execRunBus` after each step only.

* `execStepBus_ne_timeout`, `vcpuStep_ne_timeout`  a step never answers what a spent budget answers;
* `vcpuStep_charge`   what a step does to the pins and the countdown;
* `run_splits`        when a run of `n` and then of `m` is a run of `n + m`.
-/

namespace Oemu

variable {σ ε τ : Type}

/-- has the guest stopped; without an environment or a callback it is still running -/
def envHalted (env : Option (EnvOps τ ε)) (e : ε) : Bool :=
  match env.bind (·.halted) with
  | some halted => halted e
  | none => false

/-- `oemu_exec_step_bus` over the processor, the bus and the environment -/
def execStep (mem : Memops σ) (env : Option (EnvOps σ ε)) (s : Cpu × σ × ε) :
    Option (Status × Cpu × σ × ε) :=
  (execStepBus mem env s.1 s.2).map fun q => (q.1.1, q.1.2, q.2)

/-- `oemu_exec_run_bus`: status, completed count and final state -/
def execRunBus (mem : Memops σ) (env : Option (EnvOps σ ε)) (maxInsns : W64) (s : Cpu × σ × ε) :
    Option (Status × Nat × Cpu × σ × ε) :=
  Budget.after (execStep mem env) (fun s => envHalted env s.2.2) .ok .timeout maxInsns.toNat 0 s

/-- `oemu_vcpu_run` -/
def vcpuRun (phys : Memops σ) (f₀ : MmuFault) (env : Option (EnvOps τ ε)) (maxInsns : W64)
    (v : Vcpu σ ε) : Option (Status × Nat × Vcpu σ ε) :=
  Budget.before (vcpuStep phys f₀ env) (fun v => envHalted env v.env) .ok .timeout
    maxInsns.toNat 0 v

/-! ## the statuses of a step -/

theorem dispatchBus_status {mem : Memops σ} {env : Option (EnvOps σ ε)} {cpu : Cpu} {insn : Insn}
    (hwf : insn.WellFormed) {s s' : σ × ε} {res : Status × Cpu}
    (h : dispatchBus mem env cpu insn s = some (res, s')) :
    res.1 = .ok ∨ res.1 = .unsupported ∨ res.1 = .fault := by
  unfold dispatchBus at h
  by_cases hop : insn.op = .svc
  · rw [if_pos hop] at h
    have e : (fallThrough <$> doSvc env mem cpu) s =
        (doSvc env mem cpu s).bind fun p => some (fallThrough p.1, p.2) := rfl
    rw [e] at h
    cases hb : env.bind (·.syscall) with
    | none =>
      unfold doSvc at h
      rw [hb] at h
      cases h
      exact .inr (.inl rfl)
    | some syscall =>
      unfold doSvc at h
      rw [hb] at h
      cases h
      exact .inl rfl
  · rw [if_neg hop] at h
    unfold onBus at h
    cases hd : dispatchShared mem cpu insn s.1 with
    | none =>
      rw [hd] at h
      cases h
    | some p =>
      rw [hd] at h
      cases h
      exact dispatchShared_status hwf (show _ = some (p.1, p.2) from hd)

/-- a step never answers what a spent budget answers, on a bus whose fetch does not -/
theorem execStepBus_ne_timeout {mem : Memops σ} (hfetch : ∀ s a, (mem.fetch32 s a).1 ≠ .timeout)
    {env : Option (EnvOps σ ε)} {cpu : Cpu} {s s' : σ × ε} {res : Status × Cpu}
    (h : execStepBus mem env cpu s = some (res, s')) : res.1 ≠ .timeout := by
  unfold execStepBus at h
  rw [Prog.bind_apply] at h
  simp only [onBus, Prog.act, Option.map_some, Option.bind_some] at h
  by_cases hfo : (mem.fetch32 s.1 cpu.regs.pc).1 = .ok
  · rw [if_neg (not_not_intro hfo)] at h
    cases hdec : decode (mem.fetch32 s.1 cpu.regs.pc).2.1 cpu.regs.pc with
    | error st =>
      rw [hdec] at h
      cases h
      rcases decode_refusal _ _ hdec with rfl | rfl <;> exact Status.noConfusion
    | ok insn =>
      rw [hdec] at h
      rcases dispatchBus_status (decode_wellFormed hdec) h with hr | hr | hr <;> rw [hr] <;>
        exact Status.noConfusion
  · rw [if_pos hfo] at h
    cases h
    exact hfetch _ _

/-- the memory of a process and the physical bus refuse a fetch with a fault or a bad argument -/
theorem fetch32_ne_timeout_memory (s : Memory) (a : W64) :
    (Memory.memops.fetch32 s a).1 ≠ .timeout := by
  show (s.fetch32 a).1 ≠ .timeout
  unfold Memory.fetch32
  repeat' split
  all_goals exact Status.noConfusion

theorem fetch32_ne_timeout_aspace {δ : Type} (s : Aspace δ) (a : W64) :
    (Aspace.memops.fetch32 s a).1 ≠ .timeout := by
  show (s.fetch32 a).1 ≠ .timeout
  unfold Aspace.fetch32
  repeat' split
  all_goals exact Status.noConfusion

variable {phys : Memops σ} {f₀ : MmuFault} {env : Option (EnvOps τ ε)} {v v' : Vcpu σ ε}
  {st : Status}

theorem vcpuStep_ne_timeout (hq : v.insnsLeft ≠ 0) (h : vcpuStep phys f₀ env v = some (st, v')) :
    st ≠ .timeout := by
  cases vcpuStep_outcome h with
  | timeout h0 => exact absurd h0 hq
  | interrupt | fetchAbort | undecoded | blocked => exact Status.noConfusion
  | executed hp hf insn hd st v' ho =>
    generalize (v'.cpu, v'.sr) = p at ho
    generalize (v'.world, v'.env) = w at ho
    cases ho with
    | shared st cpu' w hop hfa hu hs =>
      rcases dispatchShared_status (decode_wellFormed hd) hs with hr | hr | hr <;>
        rw [show st = _ from hr] <;> exact Status.noConfusion
    | _ => exact Status.noConfusion

/-- a step leaves the pins and the length of the quantum alone, and charges one unit for success -/
theorem vcpuStep_charge (h : vcpuStep phys f₀ env v = some (st, v')) :
    v'.irqLevel = v.irqLevel ∧ v'.fiqLevel = v.fiqLevel ∧ v'.quantum = v.quantum ∧
      v'.insnsLeft = if st = .ok then v.insnsLeft - 1 else v.insnsLeft := by
  by_cases hq : v.insnsLeft = 0
  · rw [vcpuStep_timeout hq] at h
    cases h
    exact ⟨rfl, rfl, rfl, rfl⟩
  · unfold vcpuStep at h
    rw [if_neg hq] at h
    cases hp : v.tick.takePending with
    | some u =>
      rw [hp] at h
      cases h
      unfold Vcpu.takePending at hp
      cases hk : pendingKind v.tick.sr.pstate v.tick.irqLevel v.tick.fiqLevel with
      | none =>
        rw [hk] at hp
        cases hp
      | some kind =>
        rw [hk] at hp
        cases hp
        exact ⟨rfl, rfl, rfl, rfl⟩
    | none =>
      rw [hp] at h
      change v.tick.fetched phys f₀ env = some (st, v') at h
      unfold Vcpu.fetched at h
      rcases hf : mmuFetch32 v.tick.sr phys v.tick.world v.tick.cpu.regs.pc with ⟨fst, word, w⟩
      rw [hf] at h
      have habort : ∀ u : Vcpu σ ε, u.fetchAbort.irqLevel = u.irqLevel ∧
          u.fetchAbort.fiqLevel = u.fiqLevel ∧ u.fetchAbort.quantum = u.quantum ∧
          u.fetchAbort.insnsLeft = u.insnsLeft := by
        intro u
        unfold Vcpu.fetchAbort
        rcases u.world.mmu.takeFault with ⟨f | f, m⟩ <;> exact ⟨rfl, rfl, rfl, rfl⟩
      cases fst <;> dsimp only at h
      case ok =>
        unfold Vcpu.decoded at h
        cases hd : decode word v.tick.cpu.regs.pc with
        | error e =>
          dsimp only at h
          rw [hd] at h
          cases h
          exact ⟨rfl, rfl, rfl, rfl⟩
        | ok insn =>
          dsimp only at h
          rw [hd] at h
          dsimp only at h
          split at h
          · cases h
            exact ⟨rfl, rfl, rfl, rfl⟩
          · obtain ⟨b, hb⟩ := Vcpu.noteEvent_eq (v := { v.tick with world := w }) insn
            rw [hb] at h
            unfold Vcpu.execute at h
            rw [Option.map_eq_some_iff] at h
            obtain ⟨q, -, hq⟩ := h
            by_cases hok : q.1.1 = .ok
            · rw [if_neg (not_not_intro hok)] at hq
              cases hq
              exact ⟨rfl, rfl, rfl, rfl⟩
            · rw [if_pos hok] at hq
              cases hq
              rw [if_neg hok]
              exact ⟨rfl, rfl, rfl, rfl⟩
      all_goals
        cases h
        obtain ⟨h1, h2, h3, h4⟩ := habort { v.tick with world := w }
        refine ⟨h1, h2, h3, ?_⟩
        show _ - 1 = _
        rw [h4]
        rfl

/-! ## splitting a budget -/

/-- `run(n)` then `run(m)` against `run(n+m)`: wherever the first is not cut short, both give the
same state, status and total count, and a halted machine executes nothing -/
def SplitsAt {S : Type} (run : W64 → S → Option (Status × Nat × S)) (halted : S → Bool)
    (n m : W64) (s : S) : Prop :=
  ∀ st done s', run n s = some (st, done, s') → st = .ok ∨ st = .timeout →
    run (n + m) s = (run m s').map (fun q => (q.1, done + q.2.1, q.2.2)) ∧
    (halted s' = true → run m s' = some (.ok, 0, s'))

theorem toNat_budget {n m : W64} (h : n.toNat + m.toNat < 2 ^ 64) :
    (n + m).toNat = n.toNat + m.toNat := by
  rw [BitVec.toNat_add, Nat.mod_eq_of_lt h]

theorem vcpuRun_splits (phys : Memops σ) (f₀ : MmuFault) (env : Option (EnvOps τ ε)) {n m : W64}
    (v : Vcpu σ ε) (hq : n.toNat + m.toNat ≤ v.insnsLeft.toNat) :
    SplitsAt (vcpuRun phys f₀ env) (fun v => envHalted env v.env) n m v := by
  have hlt : n.toNat + m.toNat < 2 ^ 64 := lt_of_le_of_lt hq v.insnsLeft.isLt
  have hsplit := @Budget.before_splits _ _ _ (vcpuStep phys f₀ env)
    (fun v => envHalted env v.env) .ok .timeout (fun k v => k ≤ v.insnsLeft.toNat) ?_
    n.toNat m.toNat v hq
  · unfold SplitsAt vcpuRun
    rw [toNat_budget hlt]
    exact hsplit
  · intro k v st v' hk hstep
    have hne : v.insnsLeft ≠ 0 := by
      intro h0
      rw [h0] at hk
      exact absurd hk (Nat.not_succ_le_zero k)
    refine ⟨vcpuStep_ne_timeout hne hstep, fun hok => ?_⟩
    rw [(vcpuStep_charge hstep).2.2.2, if_pos hok, BitVec.toNat_sub_of_le]
    · show k ≤ v.insnsLeft.toNat - 1
      omega
    · show 1 ≤ v.insnsLeft.toNat
      omega

theorem execRunBus_splits_iff {mem : Memops σ}
    (hfetch : ∀ s a, (mem.fetch32 s a).1 ≠ .timeout) (env : Option (EnvOps σ ε)) {n m : W64}
    (hnm : n.toNat + m.toNat < 2 ^ 64) (s : Cpu × σ × ε) :
    SplitsAt (execRunBus mem env) (fun s => envHalted env s.2.2) n m s ↔
      ∀ st done s', execRunBus mem env n s = some (st, done, s') → st = .ok ∨ st = .timeout →
        m = 0 ∨ envHalted env s'.2.2 = false := by
  have hspent : ∀ s st s', execStep mem env s = some (st, s') → st ≠ .timeout := by
    intro s st s' h
    unfold execStep at h
    rw [Option.map_eq_some_iff] at h
    obtain ⟨q, hq, he⟩ := h
    rw [show st = q.1.1 from (congrArg Prod.fst he).symm]
    exact execStepBus_ne_timeout hfetch (show _ = some (q.1, q.2) from hq)
  have hm : m.toNat = 0 ↔ m = 0 := by
    constructor
    · intro h
      exact BitVec.eq_of_toNat_eq h
    · intro h
      rw [h]
      rfl
  have hsplit := @Budget.after_splits_iff _ _ _ (execStep mem env)
    (fun s => envHalted env s.2.2) .ok .timeout hspent n.toNat m.toNat s
  unfold SplitsAt execRunBus
  rw [toNat_budget hnm]
  rw [hm] at hsplit
  exact hsplit

/-- **a core's run splits wherever its quantum covers it; a process's run splits exactly where the
second call finds the guest running, or has no budget** -/
theorem run_splits {mem : Memops σ} (hfetch : ∀ s a, (mem.fetch32 s a).1 ≠ .timeout) {n m : W64}
    (hnm : n.toNat + m.toNat < 2 ^ 64) :
    (∀ (phys : Memops σ) (f₀ : MmuFault) (env : Option (EnvOps τ ε)) (v : Vcpu σ ε),
      n.toNat + m.toNat ≤ v.insnsLeft.toNat →
      SplitsAt (vcpuRun phys f₀ env) (fun v => envHalted env v.env) n m v) ∧
    (∀ (env : Option (EnvOps σ ε)) (s : Cpu × σ × ε),
      SplitsAt (execRunBus mem env) (fun s => envHalted env s.2.2) n m s ↔
        ∀ st done s', execRunBus mem env n s = some (st, done, s') → st = .ok ∨ st = .timeout →
          m = 0 ∨ envHalted env s'.2.2 = false) :=
  ⟨fun phys f₀ env v hq => vcpuRun_splits phys f₀ env v hq,
    fun env s => execRunBus_splits_iff hfetch env hnm s⟩

/-! ## a process that exits -/

def exitEnv : EnvOps Memory Bool where
  syscall := some fun _ _ _ s => (0, s.1, true)
  halted := some id
  fwCall := none

/-- `svc #0; nop` -/
def exitProgram : Cpu × Memory × Bool :=
  (Cpu.init 0x1000 0, programMemory [0xD4000001, 0xD503201F], false)

/-- a process that exits with its last budgeted instruction runs on in the next call -/
theorem execRunBus_runs_on :
    ¬ ∀ (n m : W64) (s : Cpu × Memory × Bool), n.toNat + m.toNat < 2 ^ 64 →
      SplitsAt (execRunBus Memory.memops (some exitEnv))
        (fun s => envHalted (some exitEnv) s.2.2) n m s := by
  intro h
  obtain ⟨s', hrun, hhalted, hcount⟩ : ∃ s',
      execRunBus Memory.memops (some exitEnv) 1 exitProgram = some (.ok, 1, s') ∧
      envHalted (some exitEnv) s'.2.2 = true ∧
      (execRunBus Memory.memops (some exitEnv) 1 s').map (fun q => q.2.1) = some 1 :=
    ⟨_, rfl, rfl, rfl⟩
  have hstuck := (h 1 1 exitProgram (by decide) _ _ _ hrun (.inl rfl)).2 hhalted
  rw [hstuck] at hcount
  cases hcount

/-- a core on a `nop` with a quantum of ten, and the process above with no second budget -/
theorem run_splits_exit :
    SplitsAt (vcpuRun Memory.memops ⟨0, 0⟩ (none : Option (EnvOps Memory Unit)))
      (fun v => envHalted (none : Option (EnvOps Memory Unit)) v.env) 1 1
      (codeVcpu 0xD503201F .el0 0x42) ∧
    SplitsAt (execRunBus Memory.memops (some exitEnv))
      (fun s => envHalted (some exitEnv) s.2.2) 1 0 exitProgram := by
  constructor
  · exact (run_splits fetch32_ne_timeout_memory (by decide)).1 _ _ _ _ (by decide)
  · refine ((@run_splits Memory Bool Unit Memory.memops fetch32_ne_timeout_memory 1 0
      (by decide)).2 _ _).mpr ?_
    intro st done s' _ _
    exact .inl rfl

end Oemu
