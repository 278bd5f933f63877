import Oemu.Vcpu.Step
import Oemu.Exec.Monitor
import Oemu.Mmu.Frame
import Oemu.Sysenv.Trace

/-!
# Store-exclusives over whole runs

Both machines, the user-mode step and the core at any level, as transition systems labelled with
what each step is to the exclusive monitor.  In a run whose steps miss nothing the monitor holds
exactly the reservation the history has left, so a store-exclusive succeeds when there is one and
fails when there is not.

* `cleanExec_tracks`, `cleanVcpu_tracks`   one step;
* `execRun_monitor`, `vcpuRun_monitor`     every run;
* `exclusive_runs`                         the store-exclusives of every run.
-/

namespace Oemu

variable {σ ε τ : Type}

/-! ## the user-mode machine -/

section Exec

variable (mem : Memops σ) {env : Option (EnvOps σ ε)} (writes : EnvWrites mem env)

/-- the word a step of user mode fetches -/
def execWord (c : Cpu × σ × ε) : W32 := (mem.fetch32 c.2.1 c.1.regs.pc).2.1

variable {mem}

/-- what the environment writes for a system call made here -/
def svcWrites (c : Cpu × σ × ε) : List Access :=
  writes.writes (c.1.regs.read 8 .w64) (fun i => c.1.regs.read (BitVec.ofNat 5 i) .w64)
    ((mem.fetch32 c.2.1 c.1.regs.pc).2.2, c.2.2)

/-- a step of user mode: an instruction executed, or a refusal -/
inductive ExecMove (c : Cpu × σ × ε) : Event → Cpu × σ × ε → Prop where
  | done (insn : Insn) (c' : Cpu × σ × ε) (hd : decode (execWord mem c) c.1.regs.pc = .ok insn)
      (h : execStepBus mem env c.1 c.2 = some ((.ok, c'.1), c'.2)) :
      ExecMove c (insnEvent c.1 insn (execWord mem c) (svcWrites writes c)) c'
  | refused (st : Status) (c' : Cpu × σ × ε) (hst : st ≠ .ok)
      (h : execStepBus mem env c.1 c.2 = some ((st, c'.1), c'.2)) : ExecMove c .other c'

/-- a step that misses nothing -/
def CleanExec (c : Cpu × σ × ε) (e : Event) (c' : Cpu × σ × ε) : Prop :=
  ExecMove writes c e c' ∧
    ∀ insn, decode (execWord mem c) c.1.regs.pc = .ok insn → ¬ Missed c.1 insn e

end Exec

/-! ## the core -/

section Vcpu

variable (phys : Memops σ) (f₀ : MmuFault) (env : Option (EnvOps τ ε))

/-- a step of the core: an instruction executed without an exception, which no `SVC` is, any other
step, or the host between steps, which leaves the processor and its bank alone -/
inductive VcpuMove (v : Vcpu σ ε) : Event → Vcpu σ ε → Prop where
  | retired (insn : Insn) (v' : Vcpu σ ε) (hp : v.pending = none) (hf : (v.fetch phys).1 = .ok)
      (hd : decode (v.fetch phys).2.1 v.cpu.regs.pc = .ok insn)
      (h : vcpuStep phys f₀ env v = some (.ok, v')) (ht : v'.sr.taken = v.sr.taken) :
      VcpuMove v (insnEvent v.cpu insn (v.fetch phys).2.1 []) v'
  | quiet (st : Status) (v' : Vcpu σ ε) (h : vcpuStep phys f₀ env v = some (st, v'))
      (hq : st ≠ .ok ∨ v'.sr.taken ≠ v.sr.taken) : VcpuMove v .other v'
  | outside (v' : Vcpu σ ε) (hcpu : v'.cpu = v.cpu) (hsr : v'.sr = v.sr) : VcpuMove v .other v'

/-- a step that misses nothing -/
def CleanVcpu (v : Vcpu σ ε) (e : Event) (v' : Vcpu σ ε) : Prop :=
  VcpuMove phys f₀ env v e v' ∧
    ∀ insn, decode (v.fetch phys).2.1 v.cpu.regs.pc = .ok insn → ¬ Missed v.cpu insn e

end Vcpu

/-! ## one step -/

theorem tracks_other {cpu cpu' : Cpu} (h : cpu'.monitor = cpu.monitor) : Tracks cpu .other cpu' :=
  tracks_keep h nofun fun _ => id

/-- an instruction other than a load, a store or one of the monitor's own is nothing to it -/
theorem insnEvent_other {cpu : Cpu} {insn : Insn} {op : Opcode} (hop : insn.op = op)
    (h : op = .mrs ∨ op = .msr ∨ op = .msrImm ∨ op = .hvc ∨ op = .smc) (word : W32)
    (svc : List Access) : insnEvent cpu insn word svc = .other := by
  subst hop
  unfold insnEvent memPlan
  rcases h with h | h | h | h | h <;> rw [h]

theorem insnEvent_svc {cpu : Cpu} {insn : Insn} (hop : insn.op = .svc) (word : W32)
    (svc : List Access) : insnEvent cpu insn word svc = .wrote svc := by
  unfold insnEvent
  rw [hop]

theorem probeFrame_unit (mem : Memops σ) : ProbeFrame mem (fun _ => ()) where
  validate _ _ _ _ := rfl
  fetch32 _ _ := rfl

theorem doSvc_monitor {mem : Memops σ} {env : Option (EnvOps σ ε)} {cpu : Cpu} {s s' : σ × ε}
    {res : Status × Cpu} (h : doSvc env mem cpu s = some (res, s')) :
    res.2.monitor = cpu.monitor := by
  unfold doSvc at h
  cases he : env.bind (·.syscall) with
  | none =>
    rw [he] at h
    cases h
    rfl
  | some syscall =>
    rw [he] at h
    cases h
    rfl

theorem dispatchBus_run {mem : Memops σ} {env : Option (EnvOps σ ε)} {cpu : Cpu} {insn : Insn}
    {s s' : σ × ε} {res : Status × Cpu} (h : dispatchBus mem env cpu insn s = some (res, s')) :
    (insn.op = .svc ∧ res.2.monitor = cpu.monitor) ∨
      dispatchShared mem cpu insn s.1 = some (res, s'.1) := by
  unfold dispatchBus at h
  by_cases hop : insn.op = .svc
  · rw [if_pos hop] at h
    have e : (fallThrough <$> doSvc env mem cpu) s =
        (doSvc env mem cpu s).bind fun p => some (fallThrough p.1, p.2) := rfl
    rw [e] at h
    cases hd : doSvc env mem cpu s with
    | none =>
      rw [hd] at h
      cases h
    | some p =>
      rw [hd] at h
      cases h
      exact .inl ⟨hop, (fallThrough_monitor p.1).trans (doSvc_monitor (show _ = some (p.1, p.2) from hd))⟩
  · rw [if_neg hop] at h
    unfold onBus at h
    cases hd : dispatchShared mem cpu insn s.1 with
    | none =>
      rw [hd] at h
      cases h
    | some p =>
      rw [hd] at h
      cases h
      exact .inr rfl

theorem cleanExec_tracks {mem : Memops σ} {env : Option (EnvOps σ ε)} {writes : EnvWrites mem env}
    {c c' : Cpu × σ × ε} {e : Event} (h : CleanExec writes c e c') (hok : MonitorOk c.1) :
    Tracks c.1 e c'.1 := by
  obtain ⟨hmove, hclean⟩ := h
  cases hmove with
  | done insn c' hd h =>
    rcases execStepBus_run h with ⟨-, -, hr | ⟨st, he⟩⟩ | ⟨insn', hd', hb⟩
    · exact absurd rfl hr
    · rw [show decode (execWord mem c) c.1.regs.pc = .error st from he] at hd
      cases hd
    · obtain rfl : insn = insn' := by
        rw [show decode (execWord mem c) c.1.regs.pc = .ok insn' from hd'] at hd
        exact (Except.ok.inj hd).symm
      rcases dispatchBus_run hb with ⟨hop, hmon⟩ | hsh
      · have hm := hclean insn hd
        rw [insnEvent_svc hop] at hm ⊢
        refine tracks_keep hmon nofun fun hv htouch => ?_
        rcases missed_wrote hm hv htouch with ⟨⟨h, -⟩ | h, -⟩ | ⟨h, -⟩ <;> rw [hop] at h <;> cases h
      · exact dispatchShared_tracks hsh rfl hok (hclean insn hd)
  | refused st c' hst h =>
    have hcpu : c'.1 = c.1 := by
      rcases execStepBus_run h with ⟨h1, -, -⟩ | ⟨insn, -, hb⟩
      · exact h1
      · exact (dispatchBus_refused (probeFrame_unit mem) hb hst).1
    rw [hcpu]
    exact tracks_other rfl

theorem outcome_tracks {mem : Memops (MmuWorld σ)} {phys : Memops σ} {cpu cpu' : Cpu}
    {sr sr' : Sysregs} {insn : Insn} {word : W32} {s s' : MmuWorld σ × ε}
    (h : Outcome mem phys cpu sr insn word s .ok (cpu', sr') s') (ht : sr'.taken = sr.taken)
    (hok : MonitorOk cpu) (hm : ¬ Missed cpu insn (insnEvent cpu insn word [])) :
    Tracks cpu (insnEvent cpu insn word []) cpu' := by
  have sysOther : insn.op = .sys → sysAction insn.sel ≠ .dcZva →
      insnEvent cpu insn word [] = .other := by
    intro hop ha
    unfold insnEvent
    rw [hop]
    dsimp only
    rw [if_neg ha]
  cases h with
  | took => exact (excTake_taken_ne _ _ _ _ _ _ ht).elim
  | eret hop =>
    have e : insnEvent cpu insn word [] = .eret := by
      unfold insnEvent
      rw [hop]
    rw [e] at hm ⊢
    exact tracks_keep rfl nofun fun hv _ => hm ⟨hv, trivial⟩
  | firmware hop =>
    rcases hop with hop | hop <;> rw [insnEvent_other hop (by simp)] <;> exact tracks_other rfl
  | mrs hop =>
    rw [insnEvent_other hop (by simp)]
    exact tracks_other rfl
  | msr hop =>
    rw [insnEvent_other hop (by simp)]
    exact tracks_other rfl
  | msrImm hop =>
    rw [insnEvent_other hop (by simp)]
    exact tracks_other rfl
  | msrImmNop hop =>
    rw [insnEvent_other hop (by simp)]
    exact tracks_other rfl
  | msrImmStuck hop =>
    rw [insnEvent_other hop (by simp)]
    exact tracks_other rfl
  | sysNop hop ha =>
    rw [sysOther hop (by rw [ha]; nofun)]
    exact tracks_other rfl
  | tlbi hop ha =>
    rw [sysOther hop (by rw [ha]; nofun)]
    exact tracks_other rfl
  | «at» hop ha =>
    rw [sysOther hop (by rw [ha]; nofun)]
    exact tracks_other rfl
  | dcZva hop ha =>
    have e : insnEvent cpu insn word [] =
        .wrote (zeroActs (lineOf (readG cpu.regs insn.rd false .w64))) := by
      unfold insnEvent
      rw [hop]
      dsimp only
      rw [if_pos ha]
    rw [e] at hm ⊢
    refine tracks_keep rfl nofun fun hv htouch => ?_
    rcases missed_wrote hm hv htouch with ⟨⟨h, -⟩ | h, -⟩ | ⟨h, -⟩ <;> rw [hop] at h <;> cases h
  | shared _ _ _ _ _ _ hsh => exact dispatchShared_tracks hsh rfl hok hm

/-- a step that delivers an exception or reports something other than success keeps the monitor -/
theorem outcome_quiet {mem : Memops (MmuWorld σ)} {phys : Memops σ} {cpu cpu' : Cpu}
    {sr sr' : Sysregs} {insn : Insn} {word : W32} {s s' : MmuWorld σ × ε} {st : Status}
    (h : Outcome mem phys cpu sr insn word s st (cpu', sr') s')
    (hq : st ≠ .ok ∨ sr'.taken ≠ sr.taken) : cpu'.monitor = cpu.monitor := by
  cases h with
  | shared st cpu' w hop hf hu hsh =>
    rcases hq with hst | ht
    · exact congrArg Cpu.monitor (dispatchShared_refused (probeFrame_unit mem) hsh hst).1
    · exact absurd rfl ht
  | _ => rfl

theorem cleanVcpu_tracks {phys : Memops σ} {f₀ : MmuFault} {env : Option (EnvOps τ ε)}
    {v v' : Vcpu σ ε} {e : Event} (h : CleanVcpu phys f₀ env v e v') (hok : MonitorOk v.cpu) :
    Tracks v.cpu e v'.cpu := by
  obtain ⟨hmove, hclean⟩ := h
  cases hmove with
  | retired insn v' hp hf hd h ht =>
    obtain ⟨-, -, insn', hd', ho⟩ := vcpuStep_executed h ht
    rw [hd] at hd'
    cases hd'
    exact outcome_tracks ho ht hok (hclean insn hd)
  | quiet st v' h hq =>
    refine tracks_other ?_
    cases vcpuStep_outcome h with
    | timeout => rfl
    | interrupt kind hp v' hcpu => exact congrArg (fun q => q.1.monitor) hcpu
    | fetchAbort hp hf esr far v' hcpu => exact congrArg (fun q => q.1.monitor) hcpu
    | undecoded hp hf st hd v' hcpu => exact congrArg (fun q => q.1.monitor) hcpu
    | blocked => rfl
    | executed hp hf insn hd st v' ho => exact outcome_quiet ho hq
  | outside v' hcpu =>
    rw [hcpu]
    exact tracks_other rfl

/-! ## every run -/

def MonitorHolds (h : List Event) (cpu : Cpu) : Prop :=
  ∀ a n, exclusiveHit cpu a n = true ↔ Reserved h a n

/-- every load-exclusive of a history reserves at least one byte -/
def LoadsSome (e : Event) : Prop := ∀ a n, e = .loadEx a n → n ≠ 0

theorem insnEvent_loadsSome (cpu : Cpu) (insn : Insn) (word : W32) (svc : List Access) :
    LoadsSome (insnEvent cpu insn word svc) := by
  intro a n h
  unfold insnEvent at h
  cases hop : insn.op <;> rw [hop] at h <;> dsimp only at h
  case ldxr =>
    cases h
    exact count_ne_zero insn.memSize
  all_goals
    first
    | cases h
    | (split at h <;> cases h)

/-- tracking keeps the monitor and the history together -/
theorem MonitorHolds.tracks {h : List Event} {cpu cpu' : Cpu} {e : Event}
    (hh : MonitorHolds h cpu) (ht : Tracks cpu e cpu') : MonitorHolds (h ++ [e]) cpu' := by
  intro a n
  unfold Reserved
  rw [ht a n, hh a n, Lts.since_snoc]
  rfl

theorem MonitorOk.tracks {cpu cpu' : Cpu} {e : Event} (hok : MonitorOk cpu) (hl : LoadsSome e)
    (ht : Tracks cpu e cpu') : MonitorOk cpu' := by
  intro hv
  rcases (ht _ _).mp (exclusiveHit_iff.mpr ⟨hv, rfl, rfl⟩) with he | ⟨hhit, -⟩
  · exact hl _ _ he
  · obtain ⟨hv', -, hs⟩ := exclusiveHit_iff.mp hhit
    rw [← hs]
    exact hok hv'

theorem monitorHolds_nil {cpu : Cpu} (h : cpu.monitorValid = false) :
    MonitorOk cpu ∧ MonitorHolds [] cpu := by
  constructor
  · intro hv
    rw [h] at hv
    cases hv
  · intro a n
    rw [exclusiveHit_iff, h]
    constructor
    · rintro ⟨hv, -⟩
      cases hv
    · intro hr
      exact absurd hr Lts.not_since_nil

section

variable {mem : Memops σ} {phys : Memops σ} {f₀ : MmuFault}

theorem execMove_loadsSome {env : Option (EnvOps σ ε)} {writes : EnvWrites mem env}
    {c c' : Cpu × σ × ε} {e : Event} (h : ExecMove writes c e c') : LoadsSome e := by
  cases h with
  | done => exact insnEvent_loadsSome _ _ _ _
  | refused => exact nofun

theorem vcpuMove_loadsSome {env : Option (EnvOps τ ε)} {v v' : Vcpu σ ε} {e : Event}
    (h : VcpuMove phys f₀ env v e v') : LoadsSome e := by
  cases h with
  | retired => exact insnEvent_loadsSome _ _ _ _
  | quiet => exact nofun
  | outside => exact nofun

theorem execRun_monitor {env : Option (EnvOps σ ε)} {writes : EnvWrites mem env}
    {c c' : Cpu × σ × ε} {l : List Event} (hrun : Lts.Run (CleanExec writes) c l c')
    (h0 : c.1.monitorValid = false) :
    MonitorOk c'.1 ∧ MonitorHolds l c'.1 := by
  refine hrun.history (I := fun h c => MonitorOk c.1 ∧ MonitorHolds h c.1) (h := []) ?_
    (monitorHolds_nil h0)
  rintro h s e s' ⟨hok, hh⟩ hs
  have ht := cleanExec_tracks hs hok
  exact ⟨hok.tracks (execMove_loadsSome hs.1) ht, hh.tracks ht⟩

theorem vcpuRun_monitor {env : Option (EnvOps τ ε)} {v v' : Vcpu σ ε} {l : List Event}
    (hrun : Lts.Run (CleanVcpu phys f₀ env) v l v') (h0 : v.cpu.monitorValid = false) :
    MonitorOk v'.cpu ∧ MonitorHolds l v'.cpu := by
  refine hrun.history (I := fun h v => MonitorOk v.cpu ∧ MonitorHolds h v.cpu) (h := []) ?_
    (monitorHolds_nil h0)
  rintro h s e s' ⟨hok, hh⟩ hs
  have ht := cleanVcpu_tracks hs hok
  exact ⟨hok.tracks (vcpuMove_loadsSome hs.1) ht, hh.tracks ht⟩

end

/-! ## the store-exclusives of a run -/

/-- only a load or store of the shared switch is a store-exclusive -/
theorem outcome_stxr {mem : Memops (MmuWorld σ)} {phys : Memops σ} {cpu cpu' : Cpu}
    {sr sr' : Sysregs} {insn : Insn} {word : W32} {s s' : MmuWorld σ × ε}
    (h : Outcome mem phys cpu sr insn word s .ok (cpu', sr') s') (ht : sr'.taken = sr.taken)
    (hop : insn.op = .stxr) : dispatchShared mem cpu insn s.1 = some ((.ok, cpu'), s'.1) := by
  cases h with
  | shared _ _ _ _ _ _ hsh => exact hsh
  | took => exact (excTake_taken_ne _ _ _ _ _ _ ht).elim
  | firmware ho =>
    rw [hop] at ho
    rcases ho with ho | ho <;> cases ho
  | eret ho => rw [hop] at ho; cases ho
  | mrs ho => rw [hop] at ho; cases ho
  | msr ho => rw [hop] at ho; cases ho
  | msrImm ho => rw [hop] at ho; cases ho
  | msrImmNop ho => rw [hop] at ho; cases ho
  | msrImmStuck ho => rw [hop] at ho; cases ho
  | sysNop ho => rw [hop] at ho; cases ho
  | tlbi ho => rw [hop] at ho; cases ho
  | «at» ho => rw [hop] at ho; cases ho
  | dcZva ho => rw [hop] at ho; cases ho

theorem StxrResult.congr {mem : Memops σ} {cpu cpu' : Cpu} {insn : Insn} {s s' : σ} {p q : Prop}
    (h : StxrResult mem cpu insn s cpu' s' p) (hpq : p ↔ q) :
    StxrResult mem cpu insn s cpu' s' q :=
  ⟨fun hq => h.stored (hpq.mpr hq), fun hq => h.refused fun hp => hq (hpq.mp hp)⟩

def Insn.reservation (insn : Insn) (cpu : Cpu) : W64 × W64 :=
  (readG cpu.regs insn.rn true .w64, insn.memSize.count)

/-- **a store-exclusive succeeds if and only if the history has left its reservation**, in every run
of user mode, whatever its environment writes, and in every run of the core whose steps miss nothing:
with it the value is stored and the status is zero, without it memory is as before and the status is
one -/
theorem exclusive_runs {μ : Type} (bus : Memops σ) (view : σ → μ)
    (hbus : Quiet bus view) (f₀ : MmuFault)
    (envU : Option (EnvOps σ ε)) (writes : EnvWrites bus envU) (envS : Option (EnvOps τ ε))
    (l : List Event) (insn : Insn) (hop : insn.op = .stxr) :
    (∀ c c' c'' : Cpu × σ × ε, c.1.monitorValid = false → Lts.Run (CleanExec writes) c l c' →
      decode (execWord bus c') c'.1.regs.pc = .ok insn →
      execStepBus bus envU c'.1 c'.2 = some ((.ok, c''.1), c''.2) →
      StxrResult bus c'.1 insn (bus.fetch32 c'.2.1 c'.1.regs.pc).2.2 c''.1 c''.2.1
          (Reserved l (insn.reservation c'.1).1 (insn.reservation c'.1).2) ∧
        (¬ Reserved l (insn.reservation c'.1).1 (insn.reservation c'.1).2 →
          view c''.2.1 = view c'.2.1)) ∧
    (∀ v v' v'' : Vcpu σ ε, v.cpu.monitorValid = false →
      Lts.Run (CleanVcpu bus f₀ envS) v l v' → v'.pending = none → (v'.fetch bus).1 = .ok →
      decode (v'.fetch bus).2.1 v'.cpu.regs.pc = .ok insn →
      vcpuStep bus f₀ envS v' = some (.ok, v'') → v''.sr.taken = v'.sr.taken →
      StxrResult (mmuMemops v'.tick.sr bus f₀) v'.cpu insn (v'.fetch bus).2.2 v''.cpu v''.world
          (Reserved l (insn.reservation v'.cpu).1 (insn.reservation v'.cpu).2) ∧
        (¬ Reserved l (insn.reservation v'.cpu).1 (insn.reservation v'.cpu).2 →
          view v''.world.phys = view v'.world.phys)) := by
  constructor
  · intro c c' c'' h0 hrun hd h
    have hmon := (execRun_monitor hrun h0).2
    have hres : StxrResult bus c'.1 insn (bus.fetch32 c'.2.1 c'.1.regs.pc).2.2 c''.1 c''.2.1
        (Reserved l (insn.reservation c'.1).1 (insn.reservation c'.1).2) := by
      rcases execStepBus_run h with ⟨-, -, hr | ⟨st, he⟩⟩ | ⟨insn', hd', hb⟩
      · exact absurd rfl hr
      · rw [show decode (execWord bus c') c'.1.regs.pc = .error st from he] at hd
        cases hd
      · obtain rfl : insn = insn' := by
          rw [show decode (execWord bus c') c'.1.regs.pc = .ok insn' from hd'] at hd
          exact (Except.ok.inj hd).symm
        rcases dispatchBus_run hb with ⟨hsvc, -⟩ | hsh
        · rw [hop] at hsvc
          cases hsvc
        · exact (stxr_spec hsh rfl hop).congr (hmon _ _)
    refine ⟨hres, fun hn => ?_⟩
    have hv := hbus.validate (bus.fetch32 c'.2.1 c'.1.regs.pc).2.2 (insn.reservation c'.1).1
      (insn.reservation c'.1).2 permWrite
    have hs := (hres.refused hn).1
    unfold Insn.reservation at hv
    rw [hs] at hv
    exact hv.trans (hbus.fetch32 _ _)
  · intro v v' v'' h0 hrun hp hf hd h ht
    have hmon := (vcpuRun_monitor hrun h0).2
    have hres : StxrResult (mmuMemops v'.tick.sr bus f₀) v'.cpu insn (v'.fetch bus).2.2 v''.cpu
        v''.world (Reserved l (insn.reservation v'.cpu).1 (insn.reservation v'.cpu).2) := by
      obtain ⟨-, -, insn', hd', ho⟩ := vcpuStep_executed h ht
      rw [hd] at hd'
      cases hd'
      exact (stxr_spec (outcome_stxr ho ht hop) rfl hop).congr (hmon _ _)
    refine ⟨hres, fun hn => ?_⟩
    have hv := hbus.mmuValidate v'.tick.sr (v'.fetch bus).2.2 (insn.reservation v'.cpu).1
      (insn.reservation v'.cpu).2 permWrite
    have hs : mmuValidate v'.tick.sr bus (v'.fetch bus).2.2 (insn.reservation v'.cpu).1
      (insn.reservation v'.cpu).2 permWrite = (.ok, v''.world) := (hres.refused hn).1
    rw [hs] at hv
    exact hv.trans (hbus.mmuFetch32 v'.tick.sr v'.world v'.cpu.regs.pc)

/-! ## two programs -/

/-- the clock of the host stands at one second -/
def stoppedClock : W64 → Option (W64 × W64) := fun _ => some (1, 0)

/-- user mode at its start, with a pointer to the middle of the page and a system call in hand -/
def programStart (ws : List W32) (nr : W64) : Cpu × Memory × Sysenv :=
  (((Cpu.init 0x1000 0x8000).writeG 1 false .w64 0x1800).writeG 8 false .w64 nr, programMemory ws,
    Sysenv.init none ⟨[], none⟩)

def programEnv : Option (EnvOps Memory Sysenv) := some (Sysenv.envops stoppedClock)

def programWrites : EnvWrites Memory.memops programEnv :=
  Sysenv.sysenvWrites stoppedClock Memory.memops

/-- the next state -/
def programStep (c : Cpu × Memory × Sysenv) : Cpu × Memory × Sysenv :=
  match execStepBus Memory.memops programEnv c.1 c.2 with
  | some p => (p.1.2, p.2)
  | none => c

/-- `ldxr x2, [x1]` -/
def plainLdxr : Insn :=
  { word := 0xC85F7C22, op := .ldxr, operandKind := .mem, rn := 1, rd := 2, rm := 31, rt2 := 2,
    memSize := .dword, rnIsSpForm := true }

/-- `stxr w3, x2, [x1]` -/
def plainStxr : Insn :=
  { word := 0xC8037C22, op := .stxr, operandKind := .mem, rn := 1, rd := 2, rm := 3, rt2 := 2,
    memSize := .dword, rnIsSpForm := true }

/-- `str q0, [x1]` -/
def vectorStore : Insn :=
  { word := 0x3D800020, op := .str, operandKind := .mem, rn := 1, memSize := .m128,
    isVector := true, rnIsSpForm := true }

/-- `svc #0` -/
def plainSvc : Insn := { word := 0xD4000001, op := .svc, operandKind := .imm }

/-- after the first of `ldxr x2, [x1]; svc #0; stxr w3, x2, [x1]` -/
def loadedProgram : Cpu × Memory × Sysenv :=
  programStep (programStart [0xC85F7C22, 0xD4000001, 0xC8037C22] 0)

/-- and after the second; no call has the number 0 -/
def calledProgram : Cpu × Memory × Sysenv := programStep loadedProgram

/-- the reservation is there -/
theorem exclusive_runs_pair :
    Reserved [.loadEx 0x1800 8, .wrote []] 0x1800 8 ∧
      StxrResult Memory.memops calledProgram.1 plainStxr calledProgram.2.1
        (programStep calledProgram).1 (programStep calledProgram).2.1
        (Reserved [.loadEx 0x1800 8, .wrote []] 0x1800 8) := by
  have hnone : ∀ x n, ¬ Touches [] x n := by
    rintro x n ⟨b, m, v, y, hmem, -⟩
    cases hmem
  have hload : ExecMove programWrites (programStart [0xC85F7C22, 0xD4000001, 0xC8037C22] 0)
      (.loadEx 0x1800 8) loadedProgram := .done plainLdxr _ rfl rfl
  have hcall : ExecMove programWrites loadedProgram (.wrote []) calledProgram := by
    have hw : svcWrites programWrites loadedProgram = [] := by decide
    rw [← hw]
    exact .done plainSvc _ rfl rfl
  have hrun : Lts.Run (CleanExec programWrites)
      (programStart [0xC85F7C22, 0xD4000001, 0xC8037C22] 0) [.loadEx 0x1800 8, .wrote []]
      calledProgram := by
    refine .cons ⟨hload, ?_⟩ (.cons ⟨hcall, ?_⟩ (.nil _))
    · rintro insn - ⟨hv, -⟩
      cases hv
    · rintro insn - ⟨-, h, -⟩
      exact hnone _ _ h
  refine ⟨⟨[], _, [.wrote []], rfl, rfl, ?_⟩, ?_⟩
  · intro e he
    rw [List.mem_singleton.mp he]
    exact hnone _ _
  · exact ((exclusive_runs Memory.memops id quiet_memory ⟨0, 0⟩ programEnv programWrites
      (none : Option (EnvOps Memory Sysenv)) [.loadEx 0x1800 8, .wrote []] plainStxr rfl).1
      _ calledProgram (programStep calledProgram) rfl hrun rfl rfl).1

/-- `clock_gettime` writes the reserved bytes, and the store-exclusive succeeds -/
example :
    let c := programStep (programStart [0xC85F7C22, 0xD4000001, 0xC8037C22] 113)
    svcWrites programWrites c = [.write 0x1800 .dword 1, .write 0x1808 .dword 0] ∧
      (programStep (programStep c)).1.regs.read 3 .w32 = 0 := by
  decide

/-- at `ldxr x2, [x1]; str q0, [x1]; stxr w3, x2, [x1]` -/
def vectorProgram : Cpu × Memory × Sysenv := programStart [0xC85F7C22, 0x3D800020, 0xC8037C22] 0

/-- after the load and the vector store -/
def storedProgram : Cpu × Memory × Sysenv := programStep (programStep vectorProgram)

def storedEvent : Event := .wrote [.write 0x1800 .dword 0, .write 0x1808 .dword 0]

/-- the vector store writes the reserved bytes, and the store-exclusive succeeds -/
theorem exclusive_vector_store :
    ∃ l, Lts.Run (ExecMove programWrites) vectorProgram l storedProgram ∧
      decode (execWord Memory.memops storedProgram) storedProgram.1.regs.pc = .ok plainStxr ∧
      execStepBus Memory.memops programEnv storedProgram.1 storedProgram.2 =
        some ((.ok, (programStep storedProgram).1), (programStep storedProgram).2) ∧
      ¬ Reserved l (plainStxr.reservation storedProgram.1).1
          (plainStxr.reservation storedProgram.1).2 ∧
      (programStep storedProgram).1.regs.read 3 .w32 = 0 ∧
      ¬ StxrResult Memory.memops storedProgram.1 plainStxr storedProgram.2.1
        (programStep storedProgram).1 (programStep storedProgram).2.1
        (Reserved l (plainStxr.reservation storedProgram.1).1
          (plainStxr.reservation storedProgram.1).2) := by
  have hload : ExecMove programWrites vectorProgram (.loadEx 0x1800 8) (programStep vectorProgram) :=
    .done plainLdxr _ rfl rfl
  have hstore : ExecMove programWrites (programStep vectorProgram) storedEvent storedProgram :=
    .done vectorStore _ rfl rfl
  have hzero : (programStep storedProgram).1.regs.read 3 .w32 = 0 := by decide
  have hlost : ¬ Reserved ([.loadEx 0x1800 8] ++ [storedEvent]) 0x1800 8 := by
    intro h
    rcases Lts.since_snoc.mp h with h | ⟨-, h⟩
    · cases h
    · exact h ⟨0x1800, .dword, 0, 0x1800, by simp, by decide, by decide⟩
  refine ⟨_, .cons hload (.cons hstore (.nil _)), rfl, rfl, hlost, hzero, fun h => ?_⟩
  have hr := (h.refused hlost).2
  rw [hr] at hzero
  revert hzero
  decide

end Oemu
