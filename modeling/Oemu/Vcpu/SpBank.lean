import Oemu.Vcpu.Step

/-!
# The banks of the stack pointer

Each level has a stack pointer, and the one PSTATE selects is live in the register file.  `spOf` is
the value of a bank, wherever it is.  A step changes the value of the one bank its instruction
names, and of none when it enters or returns from an exception or selects another bank.

* `Insn.spNamed`        the bank an instruction names;
* `outcome_banks`       an instruction of system mode;
* `sp_banks`            every step of the core, and what the register moves write and read.
-/

namespace Oemu

variable {σ ε τ : Type}

instance (op : Opcode) : Decidable (Intercepted op) := by
  unfold Intercepted
  infer_instance

/-- the bank an instruction names: that of an `MSR` to one, or the live one -/
def Insn.spNamed (insn : Insn) (pstate : W64) : Option El :=
  if insn.op = .msr then
    if insn.sel = selSpEl0 then some .el0
    else if insn.sel = selSpEl1 then some .el1
    else none
  else if Intercepted insn.op then none
  else if insn.writesSp then some (spBank pstate)
  else none

/-! ## the shared switch -/

theorem fallThrough_sp (res : Status × Cpu) : (fallThrough res).2.regs.sp = res.2.regs.sp := by
  unfold fallThrough
  split <;> rfl

theorem branchTo_sp (cpu : Cpu) (taken : Bool) (target : W64) (link : Bool) :
    (branchTo cpu taken target link).2.regs.sp = cpu.regs.sp := by
  unfold branchTo
  cases taken with
  | false => rfl
  | true =>
    cases link with
    | false => rfl
    | true => exact Regs.write_sp cpu.regs 30 .w64 (cpu.regs.pc + 4)

theorem dispatchPure_sp {cpu : Cpu} {insn : Insn} (hop : ¬ Intercepted insn.op)
    (hw : insn.writesSp = false) : (dispatchPure cpu insn).2.regs.sp = cpu.regs.sp := by
  unfold dispatchPure
  cases hd : dataProcessing cpu.regs insn with
  | some res =>
    dsimp only
    rw [fallThrough_sp]
    exact dataProcessing_sp hd hw
  | none =>
    dsimp only
    cases ho : insn.op <;> rw [ho] at hop <;>
      first
      | rfl
      | exact branchTo_sp _ _ _ _
      | exact absurd hop (by decide)

theorem dispatchShared_sp {mem : Memops σ} {cpu : Cpu} {insn : Insn} {s s' : σ}
    {res : Status × Cpu} (hop : ¬ Intercepted insn.op) (hw : insn.writesSp = false)
    (h : dispatchShared mem cpu insn s = some (res, s')) : res.2.regs.sp = cpu.regs.sp := by
  rcases dispatchShared_run h with ⟨-, hr, -⟩ | ⟨t, -, hr, -⟩ | ⟨t, s₁, vs, hp, -, -, hr⟩
  · rw [hr]
    exact dispatchPure_sp hop hw
  · rw [hr]
  · rw [hr, fallThrough_sp]
    exact memPlan_commit_sp hp hw vs

/-! ## an instruction -/

theorem spOf_resume (c : Cause) (r : Regs) (sr : Sysregs) (e : El) :
    spOf (c.resume r) sr e = spOf r sr e := by
  cases c <;> rfl

/-- with the bank unchanged, only the live stack pointer can move -/
theorem spOf_live {r r' : Regs} {sr : Sysregs} {e : El} (h : r'.sp = r.sp ∨ spBank sr.pstate ≠ e) :
    spOf r' sr e = spOf r sr e := by
  unfold spOf
  rcases h with h | h
  · rw [h]
  · rw [if_neg h, if_neg h]

/-- an instruction changes only the bank it names, and none when it delivers an exception -/
theorem outcome_banks {mem : Memops (MmuWorld σ)} {phys : Memops σ} {cpu cpu' : Cpu}
    {sr sr' : Sysregs} {insn : Insn} {word : W32} {s s' : MmuWorld σ × ε} {st : Status}
    (h : Outcome mem phys cpu sr insn word s st (cpu', sr') s') (e : El)
    (hne : spOf cpu'.regs sr' e ≠ spOf cpu.regs sr e) :
    sr'.taken = sr.taken ∧ insn.spNamed sr.pstate = some e := by
  cases h with
  | took c esr far w e' hc hfar hw =>
    exact absurd ((spOf_excTake _ _ _ _ _ _ e).trans (spOf_resume c _ _ e)) hne
  | eret => exact absurd (spOf_excReturn _ _ e) hne
  | firmware => exact absurd (spOf_live (.inl (Regs.write_sp _ _ _ _))) hne
  | mrs => exact absurd (spOf_live (.inl (writeG_plain_sp _ _ _))) hne
  | msr hop p hp =>
    refine ⟨(sysregWrite_pc hp).2, ?_⟩
    have hb := (sysregWrite_bank hp).spOf e
    unfold Insn.spNamed
    rw [if_pos hop]
    by_cases hs : insn.sel = selSpEl0 ∧ e = .el0 ∨ insn.sel = selSpEl1 ∧ e = .el1
    · rcases hs with ⟨h0, rfl⟩ | ⟨h1, rfl⟩
      · rw [if_pos h0]
      · rw [if_neg (by rw [h1]; decide), if_pos h1]
    · rw [if_neg hs] at hb
      exact absurd hb hne
  | msrImm hop sel value p hsel hp =>
    have hb := (sysregWrite_bank hp).spOf e
    rw [if_neg (by rcases hsel with rfl | rfl <;> cases e <;> decide)] at hb
    exact absurd hb hne
  | shared st cpu' w hop hf hu hsh =>
    refine ⟨rfl, ?_⟩
    have hmsr : insn.op ≠ .msr := by
      intro hm
      rw [hm] at hop
      exact hop (by decide)
    unfold Insn.spNamed
    rw [if_neg hmsr, if_neg hop]
    cases hw : insn.writesSp with
    | false => exact absurd (spOf_live (.inl (dispatchShared_sp hop hw hsh))) hne
    | true =>
      by_cases hb : spBank sr.pstate = e
      · rw [if_pos rfl, hb]
      · exact absurd (spOf_live (.inr hb)) hne
  | _ => exact absurd rfl hne

/-- a register write that delivers nothing is the table's -/
theorem outcome_msr {mem : Memops (MmuWorld σ)} {phys : Memops σ} {cpu cpu' : Cpu}
    {sr sr' : Sysregs} {insn : Insn} {word : W32} {s s' : MmuWorld σ × ε} {st : Status}
    (h : Outcome mem phys cpu sr insn word s st (cpu', sr') s') (ht : sr'.taken = sr.taken)
    (hop : insn.op = .msr) :
    ∃ p, sysregWrite cpu.regs sr insn.sel (readG cpu.regs insn.rd false .w64) = some p ∧
      cpu'.regs = p.1.advancePc ∧ sr' = p.2 := by
  cases h with
  | msr ho p hp => exact ⟨p, hp, rfl, rfl⟩
  | took => exact (excTake_taken_ne _ _ _ _ _ _ ht).elim
  | firmware ho => rcases ho with ho | ho <;> rw [hop] at ho <;> cases ho
  | shared _ _ _ ho =>
    rw [hop] at ho
    exact absurd ho (by decide)
  | _ ho => rw [hop] at ho; cases ho

theorem outcome_mrs {mem : Memops (MmuWorld σ)} {phys : Memops σ} {cpu cpu' : Cpu}
    {sr sr' : Sysregs} {insn : Insn} {word : W32} {s s' : MmuWorld σ × ε} {st : Status}
    (h : Outcome mem phys cpu sr insn word s st (cpu', sr') s') (ht : sr'.taken = sr.taken)
    (hop : insn.op = .mrs) :
    ∃ value, sysregRead cpu.regs sr insn.sel = some value ∧
      cpu'.regs = (writeG cpu.regs insn.rd false .w64 value).advancePc := by
  cases h with
  | mrs ho value hv => exact ⟨value, hv, rfl⟩
  | took => exact (excTake_taken_ne _ _ _ _ _ _ ht).elim
  | firmware ho => rcases ho with ho | ho <;> rw [hop] at ho <;> cases ho
  | shared _ _ _ ho =>
    rw [hop] at ho
    exact absurd ho (by decide)
  | _ ho => rw [hop] at ho; cases ho

/-! ## every step -/

theorem spOf_tick (v : Vcpu σ ε) (r : Regs) (e : El) : spOf r v.tick.sr e = spOf r v.sr e := by
  unfold spOf
  rw [Vcpu.tick_pstate, Vcpu.tick_val (f := .spEl e) (by intro h; cases h)]

/-- what a step may do to the banks -/
structure SpStep (phys : Memops σ) (v v' : Vcpu σ ε) : Prop where
  /-- a bank that changes is the one the executed instruction names -/
  frame : ∀ e, spOf v'.cpu.regs v'.sr e ≠ spOf v.cpu.regs v.sr e →
    v'.sr.taken = v.sr.taken ∧ ∃ insn, v.Reaches phys insn ∧ insn.spNamed v.sr.pstate = some e
  /-- an `MSR` to a bank writes its value there -/
  msr : ∀ insn e, v.Reaches phys insn → v'.sr.taken = v.sr.taken → insn.op = .msr →
    insn.spNamed v.sr.pstate = some e →
    spOf v'.cpu.regs v'.sr e = readG v.cpu.regs insn.rd false .w64
  /-- an `MRS` of a bank reads its value -/
  mrs : ∀ insn e, v.Reaches phys insn → v'.sr.taken = v.sr.taken → insn.op = .mrs →
    (insn.sel = selSpEl0 ∧ e = .el0 ∨ insn.sel = selSpEl1 ∧ e = .el1) →
    v'.cpu.regs = (writeG v.cpu.regs insn.rd false .w64 (spOf v.cpu.regs v.sr e)).advancePc

variable {phys : Memops σ} {f₀ : MmuFault} {env : Option (EnvOps τ ε)} {v v' : Vcpu σ ε}
  {st : Status}

theorem step_banks (h : vcpuStep phys f₀ env v = some (st, v')) (e : El)
    (hne : spOf v'.cpu.regs v'.sr e ≠ spOf v.cpu.regs v.sr e) :
    v'.sr.taken = v.sr.taken ∧ ∃ insn, v.Reaches phys insn ∧ insn.spNamed v.sr.pstate = some e := by
  have htrap : ∀ {kind : ExcKind} {target : ExcTarget} {esr : W32} {far : Option W64},
      (v'.cpu, v'.sr) ≠ v.cpu.trapped (excTake v.cpu.regs v.tick.sr kind target esr far) := by
    intro kind target esr far hcpu
    obtain ⟨hc, hs⟩ := Prod.mk.inj hcpu
    rw [hc, hs] at hne
    exact hne ((spOf_excTake _ _ _ _ _ _ e).trans (spOf_tick v _ e))
  have hq : v.insnsLeft ≠ 0 := by
    intro hq
    rw [vcpuStep_timeout hq] at h
    cases h
    exact hne rfl
  cases vcpuStep_outcome h with
  | timeout hq' => exact absurd hq' hq
  | interrupt kind hp v' hcpu => exact (htrap hcpu).elim
  | fetchAbort hp hf esr far v' hcpu => exact (htrap hcpu).elim
  | undecoded hp hf st hd v' hcpu => exact (htrap hcpu).elim
  | blocked => exact absurd (spOf_tick v _ e) hne
  | executed hp hf insn hd st v' ho =>
    rw [← spOf_tick v v.cpu.regs e] at hne
    obtain ⟨ht, hn⟩ := outcome_banks ho e hne
    rw [Vcpu.tick_pstate] at hn
    exact ⟨ht, insn, ⟨hq, hp, hf, hd⟩, hn⟩

theorem spNamed_msr {insn : Insn} {pstate : W64} {e : El} (hop : insn.op = .msr)
    (h : insn.spNamed pstate = some e) :
    insn.sel = selSpEl0 ∧ e = .el0 ∨ insn.sel = selSpEl1 ∧ e = .el1 := by
  unfold Insn.spNamed at h
  rw [if_pos hop] at h
  by_cases h0 : insn.sel = selSpEl0
  · rw [if_pos h0] at h
    exact .inl ⟨h0, (Option.some.inj h).symm⟩
  · rw [if_neg h0] at h
    by_cases h1 : insn.sel = selSpEl1
    · rw [if_pos h1] at h
      exact .inr ⟨h1, (Option.some.inj h).symm⟩
    · rw [if_neg h1] at h
      cases h

/-- **a step changes only the stack pointer bank its instruction names**, none on exception entry
and return and on a change of `SPSel`; `MSR` to a bank writes it, and `MRS` of a bank reads it, in
the step and in the accessor at every level that may -/
theorem sp_banks (phys : Memops σ) (f₀ : MmuFault) (env : Option (EnvOps τ ε)) :
    (∀ (v v' : Vcpu σ ε) (st : Status), vcpuStep phys f₀ env v = some (st, v') →
      SpStep phys v v') ∧
    (∀ (r : Regs) (sr : Sysregs), sysregRead r sr selSpEl0 = some (spOf r sr .el0) ∧
      sysregRead r sr selSpEl1 = if 2 ≤ sr.el.num then some (spOf r sr .el1) else none) := by
  refine ⟨fun v v' st h => ⟨step_banks h, ?_, ?_⟩, fun r sr =>
    ⟨sysregRead_spEl0 r sr, sysregRead_spEl1 r sr⟩⟩
  · intro insn e hr ht hop hn
    rcases hr.outcome h with ⟨hw, -⟩ | ho
    · rw [hop] at hw
      rcases hw with hw | hw <;> cases hw
    · obtain ⟨p, hp, hregs, hsr⟩ := outcome_msr ho ht hop
      have hb := (sysregWrite_bank hp).spOf e
      rw [if_pos (spNamed_msr hop hn)] at hb
      rw [hregs, hsr]
      exact hb
  · intro insn e hr ht hop hsel
    rcases hr.outcome h with ⟨hw, -⟩ | ho
    · rw [hop] at hw
      rcases hw with hw | hw <;> cases hw
    · obtain ⟨value, hv, hregs⟩ := outcome_mrs ho ht hop
      have hval : value = spOf v.cpu.regs v.sr e := by
        rw [← spOf_tick v v.cpu.regs e]
        rcases hsel with ⟨hs, rfl⟩ | ⟨hs, rfl⟩
        · rw [hs, sysregRead_spEl0] at hv
          exact (Option.some.inj hv).symm
        · rw [hs, sysregRead_spEl1] at hv
          split at hv
          · exact (Option.some.inj hv).symm
          · cases hv
      rw [hregs, hval]

/-- `msr sp_el0, x0` at EL1 -/
theorem sp_banks_msr :
    ∃ v', vcpuStep Memory.memops ⟨0, 0⟩ (none : Option (EnvOps Memory Unit))
        (codeVcpu 0xD5184100 .el1 0x42) = some (.ok, v') ∧
      SpStep Memory.memops (codeVcpu 0xD5184100 .el1 0x42) v' ∧
      spOf v'.cpu.regs v'.sr .el0 = 0x42 ∧ spOf v'.cpu.regs v'.sr .el1 = 0x8000 := by
  refine ⟨_, rfl, (sp_banks Memory.memops ⟨0, 0⟩ (none : Option (EnvOps Memory Unit))).1 _ _ .ok rfl,
    ?_, ?_⟩
  · decide
  · decide

end Oemu
