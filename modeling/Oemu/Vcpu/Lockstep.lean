import Oemu.Mmu.Flat
import Oemu.Vcpu.Step
import Oemu.Lib.Run

/-!
# The two modes in step

A user-mode run of the executor over one window of RAM, and a core at EL0 with translation, the
alignment policy and the interrupt pins low over the same window, go through the same processors and
the same bytes, as long as no instruction is one the modes treat differently.  Where the user-mode
step then faults or the decoder refuses, the core takes an exception.

* `step_ok`       one instruction;
* `step_refused`  a fault, or a refused word;
* `lockstep`      a run of any length, and the step after it.
-/

namespace Oemu

/-- the instructions the two modes treat differently -/
def Opcode.moded (op : Opcode) : Bool :=
  decide (op ∈ [Opcode.svc, .brk, .hlt, .hvc, .smc, .eret, .mrs, .msr, .sys, .msrImm, .wfi, .wfe])

section

variable {σ ε : Type}

/-- a user-mode instruction that succeeds and means the same in both modes -/
structure UserMove (ops : Memops σ) (env : Option (EnvOps σ ε)) (p : Cpu × σ × ε) (insn : Insn)
    (p' : Cpu × σ × ε) : Prop where
  decoded : decode (ops.fetch32 p.2.1 p.1.regs.pc).2.1 p.1.regs.pc = .ok insn
  plain : insn.op.moded = false
  step : execStepBus ops env p.1 p.2 = some ((.ok, p'.1), p'.2)

/-- a user-mode step that faults, or whose word the decoder refuses -/
structure UserRefusal (ops : Memops σ) (env : Option (EnvOps σ ε)) (p : Cpu × σ × ε) (st : Status)
    (p' : Cpu × σ × ε) : Prop where
  step : execStepBus ops env p.1 p.2 = some ((st, p'.1), p'.2)
  cause : st = .fault ∨ (ops.fetch32 p.2.1 p.1.regs.pc).1 = .ok ∧
    decode (ops.fetch32 p.2.1 p.1.regs.pc).2.1 p.1.regs.pc = .error st

end

/-- `n` steps in a row, all successful -/
def okSteps {α : Type} (step : α → Option (Status × α)) : Nat → α → Option α
  | 0, v => some v
  | n + 1, v => (step v).bind fun r => if r.1 = .ok then okSteps step n r.2 else none

/-- a core at EL0, with translation, the alignment policies and the interrupt pins low -/
structure Vcpu.UserMode {σ ε : Type} (v : Vcpu σ ε) : Prop where
  el : v.sr.el = .el0
  translation : sctlrM (v.sr.val .sctlrEl1) = false
  alignment : sctlrA (v.sr.val .sctlrEl1) = false
  stack : sctlrSa0 (v.sr.val .sctlrEl1) = false
  irq : v.irqLevel = false
  fiq : v.fiqLevel = false

section

variable {σ ε : Type} {v : Vcpu σ ε}

theorem Vcpu.UserMode.pending (h : v.UserMode) : v.pending = none := by
  unfold Vcpu.pending pendingKind
  rw [h.irq, h.fiq]
  rfl

theorem Vcpu.UserMode.off (h : v.UserMode) : cacheable v.tick.sr v.tick.sr.el = false := by
  unfold cacheable
  rw [Vcpu.tick_val (by intro h; cases h), h.translation, Bool.false_and]

theorem Vcpu.UserMode.policy (h : v.UserMode) :
    alignmentRequired v.tick.sr (v.tick.sr.el == .el0) = false := by
  unfold alignmentRequired
  rw [Vcpu.tick_el, h.el, Vcpu.tick_val (by intro h; cases h)]
  exact h.stack

theorem Vcpu.UserMode.tick (h : v.UserMode) {v' : Vcpu σ ε} (hsr : v'.sr = v.tick.sr)
    (hirq : v'.irqLevel = v.irqLevel) (hfiq : v'.fiqLevel = v.fiqLevel) : v'.UserMode where
  el := by rw [hsr, Vcpu.tick_el, h.el]
  translation := by rw [hsr, Vcpu.tick_val (by intro h; cases h), h.translation]
  alignment := by rw [hsr, Vcpu.tick_val (by intro h; cases h), h.alignment]
  stack := by rw [hsr, Vcpu.tick_val (by intro h; cases h), h.stack]
  irq := by rw [hirq, h.irq]
  fiq := by rw [hfiq, h.fiq]

end

/-- an exception was taken, and the general registers are those of `cpu` -/
structure Vcpu.Trapped {σ ε : Type} (v v' : Vcpu σ ε) (cpu : Cpu) : Prop where
  taken : ∃ d, v'.sr.taken = v.sr.taken ++ [d]
  x : v'.cpu.regs.x = cpu.regs.x
  sp : spOf v'.cpu.regs v'.sr .el0 = cpu.regs.sp

theorem Vcpu.UserMode.trapped {σ ε : Type} {v v' : Vcpu σ ε} (h : v.UserMode) {kind : ExcKind}
    {target : ExcTarget} {esr : W32} {far : Option W64}
    (ht : (v'.cpu, v'.sr) = v.cpu.trapped (excTake v.cpu.regs v.tick.sr kind target esr far)) :
    Vcpu.Trapped v v' v.cpu := by
  have hregs : v'.cpu.regs = (excTake v.cpu.regs v.tick.sr kind target esr far).1 :=
    congrArg (fun q => q.1.regs) ht
  have hsr : v'.sr = (excTake v.cpu.regs v.tick.sr kind target esr far).2 := congrArg Prod.snd ht
  have hbank : spBank v.tick.sr.pstate = .el0 := by
    unfold spBank
    split
    · rfl
    · exact Vcpu.tick_el.trans h.el
  refine ⟨⟨⟨kind, target, esr, far⟩, ?_⟩, ?_, ?_⟩
  · rw [hsr, excTake_taken, Vcpu.tick_taken]
  · rw [hregs, excTake_x]
  · rw [hregs, hsr, spOf_excTake]
    unfold spOf
    rw [if_pos hbank]

/-! ## the switch of the two modes -/

section

variable {σ ε τ : Type} {mem : Memops (MmuWorld σ)} {phys : Memops σ} {env : Option (EnvOps τ ε)}
  {cpu cpu' : Cpu} {sr : Sysregs} {insn : Insn} {word : W32}

theorem dispatchSystem_guest (hop : ¬ Intercepted insn.op) (s : MmuWorld σ × ε) :
    dispatchSystem mem phys env cpu sr insn word s =
      onBus (dispatchGuest mem cpu sr insn word) s := by
  unfold dispatchSystem
  unfold Intercepted at hop
  cases h : insn.op <;> rw [h] at hop <;> first | rfl | exact absurd (by simp) hop

theorem dispatchGuest_ok {w w' : MmuWorld σ}
    (h : dispatchShared mem cpu insn w = some ((.ok, cpu'), w')) :
    dispatchGuest mem cpu sr insn word w = some ((.ok, cpu', sr), w') := by
  unfold dispatchGuest
  rw [Prog.bind_apply, h]
  rfl

theorem dispatchGuest_fault (sr : Sysregs) (word : W32) {w w' : MmuWorld σ}
    (h : dispatchShared mem cpu insn w = some ((.fault, cpu'), w')) :
    ∃ esr far w'', dispatchGuest mem cpu sr insn word w =
        some ((.ok, cpu'.trapped (excTake cpu'.regs sr .sync (excRoute sr.el) esr far)), w'') ∧
      w''.phys = w'.phys := by
  have hdel : ∃ r, deliverFault cpu' sr (excDataAbort cpu'.regs sr (faultFarOf cpu'.regs insn)
      insn.memSize.log2 (opIsStore insn.op) (!opIsPair insn.op) 0x2C) w' = some r := ⟨_, rfl⟩
  obtain ⟨⟨q, w''⟩, hr⟩ := hdel
  obtain ⟨hw, esr, far, hq⟩ := deliverFault_took hr
  refine ⟨esr, far, w'', ?_, by rw [hw]⟩
  unfold dispatchGuest
  rw [Prog.bind_apply, h]
  simp only [Option.bind_some]
  rw [if_pos trivial, Prog.bind_apply, hr, hq]
  rfl

/-- what the switch refuses with a fault has committed nothing, and is not a wait -/
theorem dispatchShared_fault {σ : Type} {mem : Memops σ} {s s' : σ}
    (h : dispatchShared mem cpu insn s = some ((.fault, cpu'), s')) :
    cpu' = cpu ∧ insn.op ≠ .wfi ∧ insn.op ≠ .wfe := by
  have hframe : ProbeFrame mem (fun _ => ()) := ⟨fun _ _ _ _ => rfl, fun _ _ => rfl⟩
  refine ⟨(dispatchShared_refused hframe h Status.noConfusion).1, ?_, ?_⟩
  all_goals
    intro hop
    unfold dispatchShared dispatchPure dataProcessing at h
    rw [hop] at h
    cases h

theorem dispatchSystem_fault (phys : Memops σ) (env : Option (EnvOps τ ε)) (sr : Sysregs)
    (word : W32) (e : ε) {w w' : MmuWorld σ}
    (h : dispatchShared mem cpu insn w = some ((.fault, cpu'), w')) :
    ∃ esr far w'', dispatchSystem mem phys env cpu sr insn word (w, e) =
        some ((.ok, cpu.trapped (excTake cpu.regs sr .sync (excRoute sr.el) esr far)), w'', e) ∧
      w''.phys = w'.phys := by
  obtain ⟨rfl, -⟩ := dispatchShared_fault h
  by_cases hint : Intercepted insn.op
  · have hdebug : (insn.op = .brk ∨ insn.op = .hlt) ∧ w' = w := by
      have hplan : memPlan cpu' insn = none := by
        unfold memPlan
        rcases hint with hi | hi | hi | hi | hi | hi | hi | hi | hi | hi | hi <;> rw [hi]
      rcases dispatchShared_run h with ⟨-, hr, hs⟩ | ⟨t, hp, -⟩ | ⟨t, s₁, vs, hp, -⟩
      · exact ⟨dispatchPure_fault (by rw [← hr]), hs⟩
      · rw [hplan] at hp
        cases hp
      · rw [hplan] at hp
        cases hp
    obtain ⟨hop | hop, rfl⟩ := hdebug
    · refine ⟨esrImm16 .brk64 ((insn.imm.setWidth 16).setWidth 32), none, _, ?_, rfl⟩
      unfold dispatchSystem
      rw [hop]
      rfl
    · refine ⟨excEsr .breakpoint (((1 : W32) <<< 24) ||| 0x04), none, _, ?_, rfl⟩
      unfold dispatchSystem
      rw [hop]
      rfl
  · obtain ⟨esr, far, w'', hg, hphys⟩ := dispatchGuest_fault sr word h
    refine ⟨esr, far, w'', ?_, hphys⟩
    rw [dispatchSystem_guest hint]
    unfold onBus
    dsimp only
    rw [hg]
    rfl

theorem dispatchBus_fault {σ ε : Type} {ops : Memops σ} {uenv : Option (EnvOps σ ε)}
    {s s' : σ × ε} (h : dispatchBus ops uenv cpu insn s = some ((.fault, cpu'), s')) :
    dispatchShared ops cpu insn s.1 = some ((.fault, cpu'), s'.1) ∧ s'.2 = s.2 := by
  unfold dispatchBus at h
  by_cases hop : insn.op = .svc
  · rw [if_pos hop] at h
    have e : (fallThrough <$> doSvc uenv ops cpu) s =
        (doSvc uenv ops cpu s).bind fun p => some (fallThrough p.1, p.2) := rfl
    rw [e] at h
    unfold doSvc at h
    cases he : uenv.bind (·.syscall) with
    | none =>
      rw [he] at h
      cases h
    | some syscall =>
      rw [he] at h
      cases h
  · rw [if_neg hop] at h
    unfold onBus at h
    cases hd : dispatchShared ops cpu insn s.1 with
    | none =>
      rw [hd] at h
      cases h
    | some r =>
      obtain ⟨res, t⟩ := r
      rw [hd] at h
      cases h
      exact ⟨rfl, rfl⟩

end

/-! ## one step -/

/-- the step of a user-mode process, from the fetch on -/
theorem execStepBus_decoded {σ ε : Type} {ops : Memops σ} {env : Option (EnvOps σ ε)} {cpu : Cpu}
    {s : σ × ε} {insn : Insn} (hf : (ops.fetch32 s.1 cpu.regs.pc).1 = .ok)
    (hd : decode (ops.fetch32 s.1 cpu.regs.pc).2.1 cpu.regs.pc = .ok insn) :
    execStepBus ops env cpu s =
      dispatchBus ops env cpu insn ((ops.fetch32 s.1 cpu.regs.pc).2.2, s.2) := by
  unfold execStepBus
  rw [Prog.bind_apply]
  simp only [onBus, Prog.act, Option.map_some, Option.bind_some]
  rw [if_neg (not_not_intro hf), hd]

theorem execStepBus_refused {σ ε : Type} {ops : Memops σ} {env : Option (EnvOps σ ε)} {cpu : Cpu}
    {s : σ × ε} (hf : (ops.fetch32 s.1 cpu.regs.pc).1 ≠ .ok) :
    execStepBus ops env cpu s =
      some (((ops.fetch32 s.1 cpu.regs.pc).1, cpu), (ops.fetch32 s.1 cpu.regs.pc).2.2, s.2) := by
  unfold execStepBus
  rw [Prog.bind_apply]
  simp only [onBus, Prog.act, Option.map_some, Option.bind_some]
  rw [if_pos hf]
  rfl

section

variable {σ σ' ε ε' τ : Type} {w : Span} {ops : Memops σ} {phys : Memops σ'}
  {R : σ → (Nat → BitVec 8) → Prop} {R' : σ' → (Nat → BitVec 8) → Prop}
  {uenv : Option (EnvOps σ ε)} {env : Option (EnvOps τ ε')} {f₀ : MmuFault}

section

variable (hf : FlatBus w ops R) (hf' : FlatBus w phys R') (hw : Window w)
  (hq : ∀ p a n q, (phys.validate p a n q).2 = p)

/-- the core runs at the point where the process is -/
structure InStep (R : σ → (Nat → BitVec 8) → Prop) (R' : σ' → (Nat → BitVec 8) → Prop)
    (p : Cpu × σ × ε) (v : Vcpu σ' ε') : Prop where
  cpu : v.cpu = p.1
  bytes : SameBytes R R' p.2.1 v.world.phys
  mode : v.UserMode

include hf hf'

theorem InStep.fetch {p : Cpu × σ × ε} {v : Vcpu σ' ε'} (h : InStep R R' p v) :
    ((ops.fetch32 p.2.1 p.1.regs.pc).1 = .ok ∧ (v.fetch phys).1 = .ok ∧
        (v.fetch phys).2.1 = (ops.fetch32 p.2.1 p.1.regs.pc).2.1 ∨
      (ops.fetch32 p.2.1 p.1.regs.pc).1 ≠ .ok ∧ (v.fetch phys).1 ≠ .ok) ∧
      SameBytes R R' (ops.fetch32 p.2.1 p.1.regs.pc).2.2 (v.fetch phys).2.2.phys := by
  obtain ⟨m, hR, hR'⟩ := h.bytes
  have hv : v.fetch phys = mmuFetch32 v.tick.sr phys v.world p.1.regs.pc := by
    rw [← h.cpu]
    rfl
  rw [hv]
  by_cases hc : p.1.regs.pc.toNat % 4 = 0 ∧ w.Covers p.1.regs.pc.toNat 4
  · obtain ⟨s', hs, hR⟩ := hf.fetch hR hc.1 hc.2
    obtain ⟨w', hw', hR'⟩ := hf'.mmu_fetch h.mode.off hR' hc.1 hc.2
    rw [hs, hw']
    exact ⟨.inl ⟨rfl, rfl, rfl⟩, m, hR, hR'⟩
  · obtain ⟨hs, hR⟩ := hf.fetchRefused hR hc
    obtain ⟨hs', hR'⟩ := hf'.mmu_fetchRefused h.mode.off hR' hc
    exact ⟨.inr ⟨hs, hs'⟩, m, hR, hR'⟩

include hw hq

theorem InStep.dispatch {p : Cpu × σ × ε} {v : Vcpu σ' ε'} (h : InStep R R' p v) (f₀ : MmuFault)
    {insn : Insn} (hwf : insn.WellFormed) :
    Option.Rel (Txn.Alike (SameBytes R (OnPhys R')))
      (dispatchShared ops p.1 insn (ops.fetch32 p.2.1 p.1.regs.pc).2.2)
      (dispatchShared (mmuMemops v.tick.sr phys f₀) p.1 insn (v.fetch phys).2.2) :=
  dispatchShared_sim (hf.sim (hf'.mmu hw hq h.mode.off h.mode.policy f₀)) hwf p.1
    (h.fetch hf hf').2

/-- **one instruction** of the process is one of the core -/
theorem step_ok (f₀ : MmuFault) (env : Option (EnvOps τ ε')) {p p' : Cpu × σ × ε}
    {v : Vcpu σ' ε'} (h : InStep R R' p v)
    (hquant : v.insnsLeft ≠ 0) {insn : Insn} (hm : UserMove ops uenv p insn p') :
    ∃ v', vcpuStep phys f₀ env v = some (.ok, v') ∧ InStep R R' p' v' ∧
      v'.insnsLeft = v.insnsLeft - 1 := by
  obtain ⟨hfetch, -⟩ := h.fetch hf hf'
  have hplain := hm.plain
  unfold Opcode.moded at hplain
  rw [decide_eq_false_iff_not] at hplain
  rcases hfetch with ⟨hok, hok', hword⟩ | ⟨hno, -⟩
  · have hstep := hm.step
    rw [execStepBus_decoded hok hm.decoded] at hstep
    unfold dispatchBus at hstep
    rw [if_neg (by intro hs; rw [hs] at hplain; exact hplain (by decide))] at hstep
    unfold onBus at hstep
    have hdec : decode (v.fetch phys).2.1 v.cpu.regs.pc = .ok insn := by
      rw [hword, h.cpu]
      exact hm.decoded
    have hwf := decode_wellFormed hm.decoded
    have hint : ¬ Intercepted insn.op := by
      intro hi
      rcases hi with hi | hi | hi | hi | hi | hi | hi | hi | hi | hi | hi
      · exact hwf.known hi
      all_goals
        rw [hi] at hplain
        exact hplain (by decide)
    have hwait : insn.op ≠ .wfi ∧ insn.op ≠ .wfe := by
      constructor
      all_goals
        intro hi
        rw [hi] at hplain
        exact hplain (by decide)
    have hrel := h.dispatch hf hf' hw hq f₀ hwf
    cases hd : dispatchShared ops p.1 insn (ops.fetch32 p.2.1 p.1.regs.pc).2.2 with
    | none =>
      dsimp only at hstep
      rw [hd] at hstep
      cases hstep
    | some r =>
      dsimp only at hstep
      rw [hd] at hstep hrel
      rw [Option.map_some, Option.some_inj] at hstep
      generalize hg : dispatchShared (mmuMemops v.tick.sr phys f₀) p.1 insn (v.fetch phys).2.2 = y
        at hrel
      cases hrel with
      | some hab =>
        rename_i r'
        obtain ⟨hres, hbytes⟩ := hab
        have hr1 : r.1 = (.ok, p'.1) := congrArg Prod.fst hstep
        have hr2 : r.2 = p'.2.1 := congrArg (fun q => q.2.1) hstep
        have hguest : dispatchShared (mmuMemops v.tick.sr phys f₀) v.cpu insn (v.fetch phys).2.2 =
            some ((.ok, p'.1), r'.2) := by
          rw [h.cpu, hg, ← hr1, hres]
        have hsys : dispatchSystem (mmuMemops v.tick.sr phys f₀) phys env v.cpu v.tick.sr insn
            (v.fetch phys).2.1 ((v.fetch phys).2.2, v.env) =
            some ((.ok, p'.1, v.tick.sr), r'.2, v.env) := by
          rw [dispatchSystem_guest hint]
          unfold onBus
          dsimp only
          rw [dispatchGuest_ok hguest]
          rfl
        obtain ⟨v', hv, hcpu, hsr, hworld, hleft, hirq, hfiq⟩ :=
          Vcpu.Reaches.execute ⟨hquant, h.mode.pending, hok', hdec⟩ hwait hsys
        refine ⟨v', hv, ⟨hcpu, ?_, h.mode.tick hsr hirq hfiq⟩, hleft⟩
        rw [show v'.world = r'.2 from congrArg Prod.fst hworld, ← hr2]
        exact hbytes
  · have hstep := hm.step
    rw [execStepBus_refused hno] at hstep
    exact absurd (congrArg (fun q => q.1.1) (Option.some.inj hstep)) hno

/-- **a fault or a refused word** of the process is an exception of the core, which leaves the
general registers and memory as the process does -/
theorem step_refused {p p' : Cpu × σ × ε} {v : Vcpu σ' ε'} (h : InStep R R' p v)
    (hquant : v.insnsLeft ≠ 0) {st : Status} (hr : UserRefusal ops uenv p st p') :
    ∃ v', vcpuStep phys f₀ env v = some (.ok, v') ∧ Vcpu.Trapped v v' p'.1 ∧
      SameBytes R R' p'.2.1 v'.world.phys := by
  obtain ⟨hfetch, hbytes⟩ := h.fetch hf hf'
  have hstep := hr.step
  have hcause := hr.cause
  have hearly : ((v.fetch phys).1 = .ok →
      ∃ st, decode (v.fetch phys).2.1 v.cpu.regs.pc = .error st) →
      p' = (p.1, (ops.fetch32 p.2.1 p.1.regs.pc).2.2, p.2.2) →
      ∃ v', vcpuStep phys f₀ env v = some (.ok, v') ∧ Vcpu.Trapped v v' p'.1 ∧
        SameBytes R R' p'.2.1 v'.world.phys := by
    rintro href rfl
    obtain ⟨v', esr, far, hv, hcpu, hworld⟩ := vcpuStep_refused hquant h.mode.pending href
    refine ⟨v', hv, ?_, by rw [hworld]; exact hbytes⟩
    rw [← h.cpu]
    exact h.mode.trapped hcpu
  rcases hfetch with ⟨hok, hok', hword⟩ | ⟨hno, hno'⟩
  · cases hd : decode (ops.fetch32 p.2.1 p.1.regs.pc).2.1 p.1.regs.pc with
    | error e =>
      refine hearly (fun _ => ⟨e, ?_⟩) ?_
      · rw [hword, h.cpu]
        exact hd
      · rcases execStepBus_run hstep with ⟨hcpu, hs, -⟩ | ⟨insn, hd', -⟩
        · exact Prod.ext hcpu hs
        · rw [hd] at hd'
          cases hd'
    | ok insn =>
      have hst : st = .fault := by
        rcases hcause with hst | ⟨-, hd'⟩
        · exact hst
        · rw [hd] at hd'
          cases hd'
      subst hst
      rw [execStepBus_decoded hok hd] at hstep
      obtain ⟨hshared, -⟩ := dispatchBus_fault hstep
      have hdec : decode (v.fetch phys).2.1 v.cpu.regs.pc = .ok insn := by
        rw [hword, h.cpu]
        exact hd
      have hrel := h.dispatch hf hf' hw hq f₀ (decode_wellFormed hd)
      rw [hshared] at hrel
      generalize hg : dispatchShared (mmuMemops v.tick.sr phys f₀) p.1 insn (v.fetch phys).2.2 = y
        at hrel
      cases hrel with
      | some hab =>
        rename_i r'
        obtain ⟨hres, hbytes'⟩ := hab
        have hview : dispatchShared (mmuMemops v.tick.sr phys f₀) v.cpu insn (v.fetch phys).2.2 =
            some ((.fault, p'.1), r'.2) := by
          rw [h.cpu, hg, show ((Status.fault, p'.1) : Status × Cpu) = r'.1 from hres]
        obtain ⟨hcpu, hwait⟩ := dispatchShared_fault hview
        obtain ⟨esr, far, w'', hsys, hphys⟩ := dispatchSystem_fault phys env v.tick.sr
          (v.fetch phys).2.1 v.env hview
        obtain ⟨v', hv, hcpu', hsr, hworld, -⟩ :=
          Vcpu.Reaches.execute ⟨hquant, h.mode.pending, hok', hdec⟩ hwait hsys
        refine ⟨v', hv, ?_, ?_⟩
        · rw [hcpu]
          exact h.mode.trapped (Prod.ext hcpu' hsr)
        · rw [show v'.world = w'' from congrArg Prod.fst hworld]
          obtain ⟨m, hR, hR'⟩ := hbytes'
          refine ⟨m, hR, ?_⟩
          rw [hphys]
          exact hR'
  · refine hearly (fun hok => absurd hok hno') ?_
    rw [execStepBus_refused hno] at hstep
    have := Option.some.inj hstep
    exact Prod.ext (congrArg (fun q => q.1.2) this).symm (congrArg Prod.snd this).symm

/-- **a run of the process** is one of the core, as long as the quantum lasts -/
theorem run_ok {p p' : Cpu × σ × ε} {l : List Insn} (hrun : Lts.Run (UserMove ops uenv) p l p')
    {v : Vcpu σ' ε'} (h : InStep R R' p v) (hquant : l.length ≤ v.insnsLeft.toNat) :
    ∃ v', okSteps (vcpuStep phys f₀ env) l.length v = some v' ∧ InStep R R' p' v' ∧
      v'.insnsLeft.toNat = v.insnsLeft.toNat - l.length := by
  induction hrun generalizing v with
  | nil p => exact ⟨v, rfl, h, rfl⟩
  | cons hm _ ih =>
    rename_i l _
    rw [List.length_cons] at hquant
    have hne : v.insnsLeft ≠ 0 := by
      intro h0
      rw [h0] at hquant
      exact absurd hquant (Nat.not_succ_le_zero _)
    obtain ⟨v₁, hv₁, h₁, hleft⟩ := step_ok hf hf' hw hq f₀ env h hne hm
    have hleft' : v₁.insnsLeft.toNat = v.insnsLeft.toNat - 1 := by
      rw [hleft, BitVec.toNat_sub_of_le]
      · rfl
      · rw [BitVec.le_def]
        exact W64.toNat_pos hne
    obtain ⟨v', hv', h', hend⟩ := ih h₁ (by omega)
    refine ⟨v', ?_, h', by rw [hend, List.length_cons]; omega⟩
    rw [List.length_cons]
    unfold okSteps
    rw [hv₁, Option.bind_some, if_pos rfl]
    exact hv'

end

end

/-! ## the two providers -/

/-- a provider, and what it is for it to hold one window of RAM -/
structure RamBus where
  State : Type
  ops : Memops State
  Holds : Span → State → (Nat → BitVec 8) → Prop

namespace RamBus

def memory : RamBus := ⟨Memory, Memory.memops, Memory.Holds⟩

def aspace (δ : Type) : RamBus := ⟨Aspace δ, Aspace.memops, Aspace.Holds⟩

inductive Provided : RamBus → Prop where
  | memory : Provided memory
  | aspace (δ : Type) : Provided (aspace δ)

variable {b : RamBus}

theorem Provided.flat (h : b.Provided) (w : Span) : FlatBus w b.ops (b.Holds w) := by
  cases h with
  | memory => exact Memory.flat w
  | aspace δ => exact Aspace.flat w

theorem Provided.quiet (h : b.Provided) (p : b.State) (a n : W64) (q : W32) :
    (b.ops.validate p a n q).2 = p := by
  cases h with
  | memory => rfl
  | aspace δ => rfl

theorem Provided.window (h : b.Provided) {w : Span} {s : b.State} {m : Nat → BitVec 8}
    (hs : b.Holds w s m) : Window w := by
  cases h with
  | memory =>
    obtain ⟨hok, r, hone, rfl, -⟩ := hs
    exact ⟨Span.Table.below hok r (by rw [hone]; exact List.mem_singleton_self r), r.size.isLt⟩
  | aspace δ =>
    obtain ⟨hok, r, host, owned, hone, rfl, -⟩ := hs
    exact ⟨Span.Table.below hok r (by rw [hone]; exact List.mem_singleton_self r), r.size.isLt⟩

end RamBus

/-- **the two modes in step**: over one window of RAM with every permission, on either provider each,
`n` instructions of a process that succeed and mean the same in both modes are `n` successful steps
of a core in user mode, with the same processor and the same bytes; and a fault or a refused word of
the process after them is an exception of the core, with the same general registers and bytes -/
theorem lockstep {b b' : RamBus} (hb : b.Provided) (hb' : b'.Provided) {ε ε' τ : Type}
    (uenv : Option (EnvOps b.State ε)) (env : Option (EnvOps τ ε')) (f₀ : MmuFault) (w : Span)
    (m : Nat → BitVec 8) (p p' : Cpu × b.State × ε) (v : Vcpu b'.State ε')
    (hs : b.Holds w p.2.1 m) (hv : b'.Holds w v.world.phys m) (hcpu : v.cpu = p.1)
    (hmode : v.UserMode) (l : List Insn) (hquant : l.length < v.insnsLeft.toNat)
    (hrun : Lts.Run (UserMove b.ops uenv) p l p') :
    ∃ v', okSteps (vcpuStep b'.ops f₀ env) l.length v = some v' ∧ v'.cpu = p'.1 ∧
      (∃ m', b.Holds w p'.2.1 m' ∧ b'.Holds w v'.world.phys m') ∧
      ∀ st p'', UserRefusal b.ops uenv p' st p'' →
        ∃ v'', vcpuStep b'.ops f₀ env v' = some (.ok, v'') ∧ Vcpu.Trapped v' v'' p''.1 ∧
          ∃ m'', b.Holds w p''.2.1 m'' ∧ b'.Holds w v''.world.phys m'' := by
  have hwin := hb.window hs
  have hin : InStep (b.Holds w) (b'.Holds w) p v := ⟨hcpu, ⟨m, hs, hv⟩, hmode⟩
  obtain ⟨v', hsteps, h', hleft⟩ := run_ok (hb.flat w) (hb'.flat w) hwin hb'.quiet hrun hin
    (Nat.le_of_lt hquant)
  refine ⟨v', hsteps, h'.cpu, h'.bytes, fun st p'' hr => ?_⟩
  refine step_refused (hb.flat w) (hb'.flat w) hwin hb'.quiet h' ?_ hr
  intro h0
  rw [h0] at hleft
  have : (0#64).toNat = v.insnsLeft.toNat - l.length := hleft
  rw [BitVec.toNat_zero] at this
  omega

/-- `ADD x0, x0, #1`, then `BRK #0` -/
def addBrk : Memory := programMemory [0x91000400, 0xD4200000]

/-- the process after a step on such a page -/
def userStepped (p : Cpu × Memory × Unit) : Cpu × Memory × Unit :=
  (execStepBus Memory.memops (none : Option (EnvOps Memory Unit)) p.1 p.2).elim p fun r =>
    (r.1.2, r.2)

def addBrkUser : Cpu × Memory × Unit := (Cpu.init 0x1000 0x8000, addBrk, ())

def addBrkVcpu : Vcpu Memory Unit := Vcpu.init addBrk () .el0 0x1000 0x8000 10

def addInsn : Insn := ((decode 0x91000400 0x1000).toOption).getD { word := 0, op := .nop }

theorem addBrk_holds : Memory.Holds ⟨0x1000, 0x1000⟩ addBrk (fun a => addBrk.heap (a - 0x1000)) := by
  refine ⟨⟨by decide, ?_, ?_, ?_, List.pairwise_singleton _ _⟩, _, rfl, rfl, rfl, ?_⟩
  · exact List.forall_mem_singleton.mpr (by decide)
  · exact List.forall_mem_singleton.mpr (by decide)
  · exact List.forall_mem_singleton.mpr (by decide)
  · intro i _
    show addBrk.heap (0 + i) = addBrk.heap (0x1000 + i - 0x1000)
    rw [Nat.zero_add, Nat.add_sub_cancel_left]

theorem lockstep_addBrk :
    Lts.Run (UserMove Memory.memops (none : Option (EnvOps Memory Unit))) addBrkUser [addInsn]
        (userStepped addBrkUser) ∧
      ∃ v', okSteps (vcpuStep Memory.memops ⟨0, 0⟩ (none : Option (EnvOps Unit Unit))) 1 addBrkVcpu =
          some v' ∧ v'.cpu = (userStepped addBrkUser).1 ∧ v'.cpu.regs.read 0 .w64 = 1 ∧
        ∃ v'', vcpuStep Memory.memops ⟨0, 0⟩ (none : Option (EnvOps Unit Unit)) v' =
          some (.ok, v'') ∧ Vcpu.Trapped v' v'' (userStepped (userStepped addBrkUser)).1 := by
  have hrun : Lts.Run (UserMove Memory.memops (none : Option (EnvOps Memory Unit))) addBrkUser
      [addInsn] (userStepped addBrkUser) :=
    .cons ⟨rfl, rfl, rfl⟩ (.nil _)
  have hmode : addBrkVcpu.UserMode :=
    ⟨by decide, by decide, by decide, by decide, rfl, rfl⟩
  obtain ⟨v', hsteps, hcpu, -, hnext⟩ := lockstep RamBus.Provided.memory RamBus.Provided.memory none
    (none : Option (EnvOps Unit Unit)) ⟨0, 0⟩ ⟨0x1000, 0x1000⟩ _ addBrkUser
    (userStepped addBrkUser) addBrkVcpu addBrk_holds addBrk_holds rfl hmode [addInsn] (by decide) hrun
  obtain ⟨v'', hstep, htrap, -⟩ := hnext .fault (userStepped (userStepped addBrkUser)) ⟨rfl, .inl rfl⟩
  refine ⟨hrun, v', hsteps, hcpu, ?_, v'', hstep, htrap⟩
  rw [hcpu]
  decide

end Oemu
