import Oemu.Exec.Dispatch
import Oemu.Memory

/-!
# Precise faults

An instruction that does not report success has committed nothing: the processor is the one it was
handed and guest memory is untouched.  Memory is whatever `view` shows of the bus, and all that is
asked of the bus is that `validate` and the fetch leave the view alone.

* `dispatchPure_refused`   the arms that leave the bus alone;
* `dispatchBus_refused`    the switch with its environment;
* `exec_precise`           the switch and the step.
-/

namespace Oemu

/-! ## the arms -/

theorem fallThrough_refused {res : Status × Cpu} (h : (fallThrough res).1 ≠ .ok) :
    fallThrough res = res := by
  unfold fallThrough at h ⊢
  by_cases hr : res.1 = .ok
  · rw [if_neg (not_not_intro hr)] at h
    exact absurd rfl h
  · rw [if_pos hr]

theorem branchTo_ok (cpu : Cpu) (taken : Bool) (target : W64) (link : Bool) :
    (branchTo cpu taken target link).1 = .ok := by
  unfold branchTo
  cases taken <;> rfl

theorem doMrs_cases (cpu : Cpu) (insn : Insn) :
    (doMrs cpu insn).1 = .ok ∨ doMrs cpu insn = (.unsupported, cpu) := by
  unfold doMrs
  dsimp only
  split
  · exact .inl rfl
  · exact .inr rfl

theorem doMsr_cases (cpu : Cpu) (insn : Insn) :
    (doMsr cpu insn).1 = .ok ∨ doMsr cpu insn = (.unsupported, cpu) := by
  unfold doMsr
  dsimp only
  by_cases h1 : insn.sel = sysregSpEl0
  · rw [if_pos h1]
    exact .inl rfl
  · rw [if_neg h1]
    by_cases h2 : insn.sel = sysregNzcv
    · rw [if_pos h2]
      exact .inl rfl
    · rw [if_neg h2]
      by_cases h3 : insn.sel = sysregTpidrurEl0
      · rw [if_pos h3]
        exact .inl rfl
      · rw [if_neg h3]
        exact .inr rfl

/-- a refused move without a bank is unsupported -/
theorem fallThrough_move {res : Status × Cpu} {cpu : Cpu}
    (hc : res.1 = .ok ∨ res = (.unsupported, cpu)) (h : (fallThrough res).1 ≠ .ok) :
    fallThrough res = (.unsupported, cpu) := by
  have hr := fallThrough_refused h
  rw [hr] at h ⊢
  exact hc.resolve_left h

theorem dispatchPure_refused {cpu : Cpu} {insn : Insn} (h : (dispatchPure cpu insn).1 ≠ .ok) :
    (dispatchPure cpu insn).2 = cpu := by
  unfold dispatchPure at h ⊢
  cases hd : dataProcessing cpu.regs insn with
  | some res =>
    rw [hd] at h
    dsimp only at h ⊢
    rw [fallThrough_refused h]
    have hst : res.1 ≠ .ok := by
      intro hok
      apply h
      unfold fallThrough
      rw [if_neg (not_not_intro hok)]
    rw [dataProcessing_refused cpu.regs insn hd hst]
  | none =>
    rw [hd] at h
    dsimp only at h ⊢
    cases hop : insn.op <;> rw [hop] at h <;> dsimp only at h ⊢ <;>
      first
      | rfl
      | exact absurd (branchTo_ok _ _ _ _) h
      | exact absurd rfl h
      | skip
    case mrs =>
      rw [fallThrough_move (doMrs_cases cpu insn) h]
    case msr =>
      rw [fallThrough_move (doMsr_cases cpu insn) h]
    case msrImm =>
      rw [fallThrough_move (doMsr_cases cpu insn) h]

theorem memPlan_commit {cpu : Cpu} {insn : Insn} {t : Plan} (h : memPlan cpu insn = some t)
    (vs : List W64) : (t.commit vs).1 = .ok := by
  unfold memPlan at h
  cases hop : insn.op <;> rw [hop] at h <;> cases h <;>
    simp only [singleVectorPlan, singlePlan, pairVectorPlan, pairPlan, exclusivePlan, hop] <;>
    (repeat' split) <;> rfl

/-! ## the switch -/

variable {σ ε μ : Type}

/-- what a bus must leave alone for memory to be unchanged by a refusal -/
structure ProbeFrame (mem : Memops σ) (view : σ → μ) : Prop where
  validate : ∀ s a n perm, view (mem.validate s a n perm).2 = view s
  fetch32 : ∀ s a, view (mem.fetch32 s a).2.2 = view s

theorem ProbeFrame.checkAll {mem : Memops σ} {view : σ → μ} (h : ProbeFrame mem view)
    (l : List Check) (s : σ) : view (Txn.checkAll (busOps mem) l s).2 = view s := by
  refine Txn.checkAll_rel (R := fun s s' => view s' = view s) (fun _ => rfl)
    (fun _ _ _ h1 h2 => h2.trans h1) (busOps mem) ?_ s
  exact fun c _ s => h.validate s c.addr c.size c.perm

theorem dispatchShared_refused {mem : Memops σ} {view : σ → μ} (hf : ProbeFrame mem view)
    {cpu : Cpu} {insn : Insn} {s s' : σ} {res : Status × Cpu}
    (h : dispatchShared mem cpu insn s = some (res, s')) (hst : res.1 ≠ .ok) :
    res.2 = cpu ∧ view s' = view s := by
  rcases dispatchShared_run h with ⟨-, hr, hs⟩ | ⟨t, -, hr, hc⟩ | ⟨t, s₁, vs, hp, -, -, hr⟩
  · rw [hr] at hst ⊢
    exact ⟨dispatchPure_refused hst, by rw [hs]⟩
  · have hv := hf.checkAll t.checks s
    rw [hc] at hv
    rw [hr]
    exact ⟨rfl, hv⟩
  · rw [hr] at hst
    rw [fallThrough_refused hst] at hst
    exact absurd (memPlan_commit hp vs) hst

theorem doSvc_refused {mem : Memops σ} {env : Option (EnvOps σ ε)} {cpu : Cpu} {s s' : σ × ε}
    {res : Status × Cpu} (h : doSvc env mem cpu s = some (res, s')) (hst : res.1 ≠ .ok) :
    res.2 = cpu ∧ s' = s := by
  unfold doSvc at h
  cases he : env.bind (·.syscall) with
  | none =>
    rw [he] at h
    cases h
    exact ⟨rfl, rfl⟩
  | some syscall =>
    rw [he] at h
    cases h
    exact absurd rfl hst

theorem dispatchBus_refused {mem : Memops σ} {view : σ → μ} (hf : ProbeFrame mem view)
    {env : Option (EnvOps σ ε)} {cpu : Cpu} {insn : Insn} {s s' : σ × ε} {res : Status × Cpu}
    (h : dispatchBus mem env cpu insn s = some (res, s')) (hst : res.1 ≠ .ok) :
    res.2 = cpu ∧ view s'.1 = view s.1 ∧ s'.2 = s.2 := by
  unfold dispatchBus at h
  by_cases hop : insn.op = .svc
  · rw [if_pos hop] at h
    have e : (fallThrough <$> doSvc env mem cpu) s =
        (doSvc env mem cpu s).bind fun p => some (fallThrough p.1, p.2) := rfl
    rw [e] at h
    cases hd : doSvc env mem cpu s with
    | none =>
      rw [hd] at h
      cases h
    | some p =>
      rw [hd] at h
      cases h
      have hr := fallThrough_refused hst
      rw [hr] at hst ⊢
      obtain ⟨h1, h2⟩ := doSvc_refused (show _ = some (p.1, p.2) from hd) hst
      exact ⟨h1, by rw [h2], by rw [h2]⟩
  · rw [if_neg hop] at h
    unfold onBus at h
    cases hd : dispatchShared mem cpu insn s.1 with
    | none =>
      rw [hd] at h
      cases h
    | some p =>
      rw [hd] at h
      cases h
      obtain ⟨h1, h2⟩ := dispatchShared_refused hf (show _ = some (p.1, p.2) from hd) hst
      exact ⟨h1, h2, rfl⟩

theorem execStepBus_run {mem : Memops σ} {env : Option (EnvOps σ ε)} {cpu : Cpu} {s s' : σ × ε}
    {res : Status × Cpu} (h : execStepBus mem env cpu s = some (res, s')) :
    (res.2 = cpu ∧ s' = ((mem.fetch32 s.1 cpu.regs.pc).2.2, s.2) ∧
        (res.1 ≠ .ok ∨ ∃ st, decode (mem.fetch32 s.1 cpu.regs.pc).2.1 cpu.regs.pc = .error st)) ∨
      ∃ insn, decode (mem.fetch32 s.1 cpu.regs.pc).2.1 cpu.regs.pc = .ok insn ∧
        dispatchBus mem env cpu insn ((mem.fetch32 s.1 cpu.regs.pc).2.2, s.2) =
          some (res, s') := by
  unfold execStepBus at h
  rw [Prog.bind_apply] at h
  simp only [onBus, Prog.act, Option.map_some, Option.bind_some] at h
  by_cases hfo : (mem.fetch32 s.1 cpu.regs.pc).1 = .ok
  · rw [if_neg (not_not_intro hfo)] at h
    cases hdec : decode (mem.fetch32 s.1 cpu.regs.pc).2.1 cpu.regs.pc with
    | error st =>
      rw [hdec] at h
      cases h
      exact .inl ⟨rfl, rfl, .inr ⟨_, rfl⟩⟩
    | ok insn =>
      rw [hdec] at h
      exact .inr ⟨insn, rfl, h⟩
  · rw [if_pos hfo] at h
    cases h
    exact .inl ⟨rfl, rfl, .inl hfo⟩

/-- **a status other than success means that nothing was committed**: registers, flags, vectors,
monitor and thread register are as before, and so is guest memory, for the dispatch of any
instruction and for a step -/
theorem exec_precise (mem : Memops σ) (view : σ → μ) (hf : ProbeFrame mem view)
    (env : Option (EnvOps σ ε)) (cpu cpu' : Cpu) (s s' : σ × ε) (st : Status) (hst : st ≠ .ok) :
    (∀ insn, dispatchBus mem env cpu insn s = some ((st, cpu'), s') →
        cpu' = cpu ∧ view s'.1 = view s.1) ∧
      (execStepBus mem env cpu s = some ((st, cpu'), s') → cpu' = cpu ∧ view s'.1 = view s.1) := by
  constructor
  · intro insn h
    obtain ⟨h1, h2, -⟩ := dispatchBus_refused hf h hst
    exact ⟨h1, h2⟩
  · intro h
    rcases execStepBus_run h with ⟨h1, h2, -⟩ | ⟨insn, -, hd⟩
    · exact ⟨h1, by rw [h2]; exact hf.fetch32 s.1 cpu.regs.pc⟩
    · obtain ⟨h1, h2, -⟩ := dispatchBus_refused hf hd hst
      exact ⟨h1, h2.trans (hf.fetch32 s.1 cpu.regs.pc)⟩

theorem probeFrame_memory : ProbeFrame Memory.memops (id : Memory → Memory) where
  validate _ _ _ _ := rfl
  fetch32 _ _ := rfl

/-- `ldr x0, [x1]` -/
def plainLoad : Insn :=
  { word := 0xF9400020, op := .ldr, operandKind := .mem, rn := 1, memSize := .dword }

/-- a load with nothing mapped -/
theorem exec_precise_unmapped :
    ∃ cpu' s', dispatchBus Memory.memops (none : Option (EnvOps Memory Unit)) (Cpu.init 0x1000 0)
          plainLoad (⟨[], 0, fun _ => 0⟩, ()) = some ((.fault, cpu'), s') ∧
        cpu' = Cpu.init 0x1000 0 ∧ s'.1 = ⟨[], 0, fun _ => 0⟩ := by
  refine ⟨_, _, rfl, ?_⟩
  exact (exec_precise Memory.memops id probeFrame_memory none _ _ (⟨[], 0, fun _ => 0⟩, ()) _ .fault
    (by decide)).1 plainLoad rfl

end Oemu
