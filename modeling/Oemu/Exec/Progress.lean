import Oemu.Exec.Outcome

/-!
# Progress or delivery

An instruction of system mode that reports success has retired, with the program counter where the
instruction sends it, or has entered the guest's vectors exactly once.  `Retired` and `Delivered`
say the two; they exclude each other.  An immediate move to `SPSel` or `DAIF` from EL0 does neither:
the table refuses it, the refusal is handed up as "already delivered", and nothing was.

* `dispatchShared_retires`  the shared switch only ever retires;
* `system_progress_iff`     one of the two happens exactly when the instruction is not such a move.
-/

namespace Oemu

/-! ## the two ways to succeed -/

/-- where an instruction that retires sends the program counter -/
def nextPc (cpu : Cpu) (sr : Sysregs) (insn : Insn) : W64 :=
  let pc4 := cpu.regs.pc + 4
  let v := readG cpu.regs insn.rd false insn.width
  match insn.op with
  | .b | .bl => insn.imm
  | .bCond => if cpu.regs.condHolds insn.cond then insn.imm else pc4
  | .br | .blr | .ret => readG cpu.regs insn.rn false .w64
  | .cbz => if v = 0 then insn.imm else pc4
  | .cbnz => if v = 0 then pc4 else insn.imm
  | .tbz => if v.getLsbD insn.bitPos then pc4 else insn.imm
  | .tbnz => if v.getLsbD insn.bitPos then insn.imm else pc4
  | .eret => sr.val (.elrEl sr.el)
  | _ => pc4

/-- the instruction completed: the next address, and no exception -/
structure Retired (cpu : Cpu) (sr : Sysregs) (insn : Insn) (cpu' : Cpu) (sr' : Sysregs) : Prop where
  pc : cpu'.regs.pc = nextPc cpu sr insn
  taken : sr'.taken = sr.taken

/-- one synchronous exception was entered: the vector of the target level, and its return address,
saved PSTATE and syndrome written -/
structure Delivered (cpu : Cpu) (sr : Sysregs) (insn : Insn) (cpu' : Cpu) (sr' : Sysregs)
    (d : Delivery) : Prop where
  taken : sr'.taken = sr.taken ++ [d]
  kind : d.kind = .sync
  target : d.target = excRoute sr.el
  pc : cpu'.regs.pc = sr.val (.vbarEl d.target) +
    vectorOffset (decide (sr.el = d.target)) (pstateSpSel sr.pstate) .sync
  elr : sr'.val (.elrEl d.target) =
    if insn.op = .svc ∨ insn.op = .hvc then cpu.regs.pc + 4 else cpu.regs.pc
  spsr : sr'.val (.spsrEl d.target) = savedPstate cpu.regs sr
  esr : sr'.val (.esrEl d.target) = d.esr.setWidth 64
  pstate : sr'.pstate = entryPstate d.target

/-- an immediate move whose register the table refuses at this level -/
def StuckMove (sr : Sysregs) (insn : Insn) : Prop :=
  sr.el = .el0 ∧ insn.op = .msrImm ∧
    (insn.uimm.setWidth 32 = msrImmSpSel ∨ insn.uimm.setWidth 32 = msrImmDaifSet ∨
      insn.uimm.setWidth 32 = msrImmDaifClr)

theorem not_retired_and_delivered {cpu cpu' : Cpu} {sr sr' : Sysregs} {insn : Insn} {d : Delivery}
    (hr : Retired cpu sr insn cpu' sr') (hd : Delivered cpu sr insn cpu' sr' d) : False := by
  have h := hd.taken
  rw [hr.taken] at h
  simp at h

/-! ## the shared switch retires -/

theorem fallThrough_pc {res : Status × Cpu} (h : (fallThrough res).1 = .ok) :
    (fallThrough res).2.regs.pc = res.2.regs.pc + 4 := by
  unfold fallThrough at h ⊢
  by_cases hr : res.1 = .ok
  · rw [if_neg (not_not_intro hr)]
    rfl
  · rw [if_pos hr] at h
    exact absurd h hr

theorem branchTo_pc (cpu : Cpu) (taken : Bool) (target : W64) (link : Bool) :
    (branchTo cpu taken target link).2.regs.pc = if taken then target else cpu.regs.pc + 4 := by
  unfold branchTo
  cases taken <;> rfl

theorem doMrs_pc (cpu : Cpu) (insn : Insn) : (doMrs cpu insn).2.regs.pc = cpu.regs.pc := by
  unfold doMrs
  dsimp only
  split
  · exact writeG_pc _ _ _ _ _
  · rfl

theorem doMsr_pc (cpu : Cpu) (insn : Insn) : (doMsr cpu insn).2.regs.pc = cpu.regs.pc := by
  unfold doMsr
  dsimp only
  (repeat' split) <;> rfl

theorem dispatchPure_pc {cpu : Cpu} {insn : Insn} (sr : Sysregs)
    (h : (dispatchPure cpu insn).1 = .ok) :
    (dispatchPure cpu insn).2.regs.pc = nextPc cpu sr insn := by
  unfold dispatchPure at h ⊢
  cases hd : dataProcessing cpu.regs insn with
  | some res =>
    rw [hd] at h
    dsimp only at h ⊢
    rw [fallThrough_pc h]
    dsimp only
    rw [dataProcessing_pc cpu.regs insn hd]
    unfold dataProcessing at hd
    unfold nextPc
    cases hop : insn.op <;> rw [hop] at hd <;> first | rfl | cases hd
  | none =>
    rw [hd] at h
    unfold nextPc
    dsimp only at h ⊢
    cases hop : insn.op <;> rw [hop] at h <;> dsimp only at h ⊢ <;>
      first
      | rfl
      | cases h
      | exact branchTo_pc ..
      | skip
    case cbz =>
      rw [branchTo_pc]
      by_cases hv : readG cpu.regs insn.rd false insn.width = 0 <;> simp [hv]
    case cbnz =>
      rw [branchTo_pc]
      by_cases hv : readG cpu.regs insn.rd false insn.width = 0 <;> simp [hv]
    case tbz =>
      rw [branchTo_pc]
      cases (readG cpu.regs insn.rd false insn.width).getLsbD insn.bitPos <;> rfl
    case tbnz =>
      rw [branchTo_pc]
      cases (readG cpu.regs insn.rd false insn.width).getLsbD insn.bitPos <;> rfl
    case mrs => rw [fallThrough_pc h, doMrs_pc]
    case msr => rw [fallThrough_pc h, doMsr_pc]
    case msrImm => rw [fallThrough_pc h, doMsr_pc]

variable {σ ε τ : Type}

theorem dispatchShared_retires {mem : Memops σ} {cpu : Cpu} {insn : Insn} {s s' : σ}
    {res : Status × Cpu} (sr : Sysregs) (h : dispatchShared mem cpu insn s = some (res, s'))
    (hst : res.1 = .ok) : Retired cpu sr insn res.2 sr := by
  refine ⟨?_, rfl⟩
  rcases dispatchShared_run h with ⟨-, hr, -⟩ | ⟨t, -, hr, -⟩ | ⟨t, s₁, vs, hp, -, -, hr⟩
  · rw [hr] at hst ⊢
    exact dispatchPure_pc sr hst
  · rw [hr] at hst
    cases hst
  · rw [hr] at hst ⊢
    rw [fallThrough_pc hst, show (t.commit vs).2.regs.pc = cpu.regs.pc from
      congrArg Prod.fst (memPlan_commit_aside hp vs)]
    unfold memPlan at hp
    unfold nextPc
    cases hop : insn.op <;> rw [hop] at hp <;> first | rfl | cases hp

/-! ## system mode -/

theorem excTake_delivered {cpu : Cpu} {sr : Sysregs} {insn : Insn} {c : Cause}
    (hc : Raised cpu insn c) (esr : W32) (far : Option W64) :
    Delivered cpu sr insn
      (cpu.trapped (excTake (c.resume cpu.regs) sr .sync (excRoute sr.el) esr far)).1
      (cpu.trapped (excTake (c.resume cpu.regs) sr .sync (excRoute sr.el) esr far)).2
      ⟨.sync, excRoute sr.el, esr, far⟩ where
  taken := excTake_taken ..
  kind := rfl
  target := rfl
  pc := excTake_pc (c.resume cpu.regs) sr .sync (excRoute sr.el) esr far
  elr := by
    show (excTake ..).2.val _ = _
    rw [excTake_val]
    simp only [reduceCtorEq, false_and, if_false, if_true]
    cases c <;> simp only [Raised] at hc <;> simp [Cause.resume, hc]
    -- an abort comes from a memory instruction or `SYS`, neither of which is a call
    rcases hc with hc | hc
    · constructor <;> intro he <;> simp [memPlan, he] at hc
    · simp [hc]
  spsr := by
    show (excTake ..).2.val _ = _
    rw [excTake_val]
    simp only [reduceCtorEq, false_and, if_false, if_true]
    cases c <;> rfl
  esr := by
    show (excTake ..).2.val _ = _
    rw [excTake_val]
    simp
  pstate := by
    show (excTake ..).2.val _ = _
    rw [excTake_val]
    simp

/-- a move that does neither leaves everything as it was -/
theorem stuckMove_run {mem : Memops (MmuWorld σ)} {phys : Memops σ} {env : Option (EnvOps τ ε)}
    {cpu : Cpu} {sr : Sysregs} {insn : Insn} (word : W32) (s : MmuWorld σ × ε)
    (h : StuckMove sr insn) :
    dispatchSystem mem phys env cpu sr insn word s = some ((.ok, cpu, sr), s) := by
  obtain ⟨hel, hop, himm⟩ := h
  have hw := fun v => (sysreg_el1 sysregFind_spsel cpu.regs sr v).1.mpr hel
  have hr := (sysreg_el1 sysregFind_daif cpu.regs sr 0).2.mpr hel
  have hm : doMsrImmediate cpu sr insn word = (.fault, cpu, sr) := by
    unfold doMsrImmediate
    dsimp only
    by_cases h5 : insn.uimm.setWidth 32 = msrImmSpSel
    · rw [if_pos h5, hw]
    · rw [if_neg h5, if_pos (himm.resolve_left h5), hr]
  unfold dispatchSystem
  rw [hop]
  dsimp only
  rw [hm]
  rfl

/-- **an instruction that reports success has retired or has delivered exactly one exception, and
not both, unless it is an immediate move the table refuses at EL0** -/
theorem system_progress_iff (mem : Memops (MmuWorld σ)) (phys : Memops σ)
    (env : Option (EnvOps τ ε)) (cpu : Cpu) (sr : Sysregs) (insn : Insn) (word : W32)
    (s : MmuWorld σ × ε) :
    (∀ cpu' sr' s', dispatchSystem mem phys env cpu sr insn word s = some ((.ok, cpu', sr'), s') →
        Xor (Retired cpu sr insn cpu' sr') (∃ d, Delivered cpu sr insn cpu' sr' d)) ↔
      ¬ StuckMove sr insn := by
  constructor
  · intro h hst
    rcases h cpu sr s (stuckMove_run word s hst) with ⟨hr, -⟩ | ⟨⟨d, hd⟩, -⟩
    · have hpc := hr.pc
      unfold nextPc at hpc
      rw [hst.2.1] at hpc
      dsimp only at hpc
      bv_omega
    · have ht := hd.taken
      simp at ht
  · intro hn cpu' sr' s' h
    have retires : Retired cpu sr insn cpu' sr' →
        Xor (Retired cpu sr insn cpu' sr') (∃ d, Delivered cpu sr insn cpu' sr' d) :=
      fun hr => .inl ⟨hr, fun ⟨_, hd⟩ => not_retired_and_delivered hr hd⟩
    have falls : ∀ r : Regs, r.pc = cpu.regs.pc → nextPc cpu sr insn = cpu.regs.pc + 4 →
        ∀ sr'', sr''.taken = sr.taken →
        Retired cpu sr insn { cpu with regs := r.advancePc } sr'' := by
      intro r hr hnext sr'' ht
      exact ⟨by rw [hnext, ← hr]; rfl, ht⟩
    cases dispatchSystem_outcome h with
    | took c esr far w e hc hfar hw =>
      refine .inr ⟨⟨_, excTake_delivered hc esr far⟩, ?_⟩
      intro hr
      exact not_retired_and_delivered hr (excTake_delivered hc esr far)
    | eret hop =>
      refine retires ⟨?_, excReturn_taken ..⟩
      unfold nextPc
      rw [hop]
      exact excReturn_pc ..
    | firmware hop ret0 =>
      refine retires ⟨?_, rfl⟩
      unfold nextPc
      rcases hop with hop | hop <;> rw [hop] <;> rfl
    | mrs hop =>
      refine retires (falls _ (writeG_pc ..) ?_ _ rfl)
      unfold nextPc
      rw [hop]
    | msr hop p hp =>
      obtain ⟨hpc, ht⟩ := sysregWrite_pc hp
      refine retires (falls _ hpc ?_ _ ht)
      unfold nextPc
      rw [hop]
    | msrImm hop sel v p hsel hp =>
      obtain ⟨hpc, ht⟩ := sysregWrite_pc hp
      refine retires (falls _ hpc ?_ _ ht)
      unfold nextPc
      rw [hop]
    | msrImmNop hop =>
      refine retires (falls _ rfl ?_ _ rfl)
      unfold nextPc
      rw [hop]
    | msrImmStuck hop hel himm => exact absurd ⟨hel, hop, himm⟩ hn
    | sysNop hop =>
      refine retires (falls _ rfl ?_ _ rfl)
      unfold nextPc
      rw [hop]
    | tlbi hop =>
      refine retires (falls _ rfl ?_ _ rfl)
      unfold nextPc
      rw [hop]
    | «at» hop =>
      refine retires (falls _ rfl ?_ _ rfl)
      unfold nextPc
      rw [hop]
    | dcZva hop =>
      refine retires (falls _ rfl ?_ _ rfl)
      unfold nextPc
      rw [hop]
    | shared st cpu' w hop hf hu hd => exact retires (dispatchShared_retires sr hd rfl)

/-- the state a core at a level starts from -/
def bootSysregs (el : El) : Sysregs := Sysregs.init (Regs.init 0x1000 0x8000) el

/-- `msr SPSel, #1` at EL0 reports success and the guest is where it was -/
theorem system_stuck_spsel :
    ∃ insn, decode 0xD50041BF 0x1000 = .ok insn ∧ (bootSysregs .el0).el = .el0 ∧
      dispatchSystem (mmuMemops (bootSysregs .el0) Memory.memops ⟨0, 0⟩) Memory.memops
          (none : Option (EnvOps Memory Unit)) (Cpu.init 0x1000 0x8000) (bootSysregs .el0) insn
          0xD50041BF (⟨Mmu.init, ⟨[], 0, fun _ => 0⟩⟩, ()) =
        some ((.ok, Cpu.init 0x1000 0x8000, bootSysregs .el0),
          (⟨Mmu.init, ⟨[], 0, fun _ => 0⟩⟩, ())) ∧
      ¬ Retired (Cpu.init 0x1000 0x8000) (bootSysregs .el0) insn (Cpu.init 0x1000 0x8000)
        (bootSysregs .el0) ∧
      ∀ d, ¬ Delivered (Cpu.init 0x1000 0x8000) (bootSysregs .el0) insn (Cpu.init 0x1000 0x8000)
        (bootSysregs .el0) d := by
  have hel : (bootSysregs .el0).el = .el0 := by decide
  refine ⟨_, rfl, hel, ?_, ?_, ?_⟩
  · exact stuckMove_run _ _ ⟨hel, rfl, .inl (by decide)⟩
  · intro hr
    have := hr.pc
    revert this
    decide
  · intro d hd
    have := hd.taken
    simp at this

end Oemu
