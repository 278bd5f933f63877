import Oemu.Vcpu.Step
import Oemu.Lib.Run

/-!
# The machine

`Machine` is the core as a transition system: its steps, and what the host does between them, which
is to move the interrupt pins, refill the quantum and let the devices and the environment go on.

`PstateMove` lists what a step can do to PSTATE, and to the history of deliveries beside it:
`step_pstate`.
-/

namespace Oemu

variable {σ ε τ : Type}

/-! ## steps and the host -/

inductive Label where
  | step (st : Status) | irq (level : Bool) | fiq (level : Bool) | rearm | host
deriving DecidableEq, Repr

section

variable (phys : Memops σ) (f₀ : MmuFault) (env : Option (EnvOps τ ε))

inductive Machine (v : Vcpu σ ε) : Label → Vcpu σ ε → Prop where
  | step (st : Status) (v' : Vcpu σ ε) (h : vcpuStep phys f₀ env v = some (st, v')) :
      Machine v (.step st) v'
  | irq (level : Bool) : Machine v (.irq level) (v.setIrq level)
  | fiq (level : Bool) : Machine v (.fiq level) (v.setFiq level)
  | rearm : Machine v .rearm v.rearm
  | host (p : σ) (e : ε) : Machine v .host { v with world := { v.world with phys := p }, env := e }

/-! ## what a step does to PSTATE -/

/-- a delivery, a return, a write of `SPSel` or of the masks, or nothing -/
inductive PstateMove (v v' : Vcpu σ ε) : Prop where
  | delivered (d : Delivery) (hd : v'.sr.taken = v.sr.taken ++ [d])
      (hp : v'.sr.pstate = entryPstate d.target) (ht : d.target = excRoute v.sr.el)
  | returned (insn : Insn) (hr : v.Reaches phys insn) (hop : insn.op = .eret)
      (hel : v.sr.el ≠ .el0)
      (hle : (pstateEl (v.sr.val (.spsrEl v.sr.el) &&& modeMask)).num ≤ v.sr.el.num)
      (hil : v.sr.val (.spsrEl v.sr.el) &&& pstateIl = 0)
      (hmode : modeValid (v.sr.val (.spsrEl v.sr.el) &&& modeMask) = true)
      (ht : v'.sr.taken = v.sr.taken)
      (hp : v'.sr.pstate = v.sr.val (.spsrEl v.sr.el) &&& ~~~nzcvMask64)
  | selected (insn : Insn) (hr : v.Reaches phys insn) (hop : insn.op = .msr ∨ insn.op = .msrImm)
      (hel : v.sr.el ≠ .el0) (value : W64) (ht : v'.sr.taken = v.sr.taken)
      (hp : v'.sr.pstate = (v.sr.pstate &&& ~~~1) ||| (value &&& 1))
  | masked (insn : Insn) (hr : v.Reaches phys insn) (value : W64)
      (hop : insn.op = .msr ∧ insn.sel = selDaif ∧ value = readG v.cpu.regs insn.rd false .w64 ∨
        insn.op = .msrImm ∧ value = daifImm insn v.sr.pstate ∧
          (insn.uimm.setWidth 32 = msrImmDaifSet ∨ insn.uimm.setWidth 32 = msrImmDaifClr))
      (ht : v'.sr.taken = v.sr.taken)
      (hp : v'.sr.pstate = (v.sr.pstate &&& ~~~daifField) ||| (value &&& daifField))
  | kept (ht : v'.sr.taken = v.sr.taken) (hp : v'.sr.pstate = v.sr.pstate)

end

variable {phys : Memops σ} {f₀ : MmuFault} {env : Option (EnvOps τ ε)} {v v' : Vcpu σ ε}
  {st : Status}

theorem excTake_pstate (r : Regs) (sr : Sysregs) (kind : ExcKind) (target : ExcTarget) (esr : W32)
    (far : Option W64) :
    (excTake r sr kind target esr far).2.pstate = entryPstate target := by
  show (excTake r sr kind target esr far).2.val .pstate = _
  rw [excTake_val]
  simp

theorem excReturn_pstate (r : Regs) (sr : Sysregs) :
    (excReturn r sr).2.pstate = sr.val (.spsrEl sr.el) &&& ~~~nzcvMask64 :=
  switchSp_pstate _ _ _

theorem pstateMove_taken {r : Regs} {kind : ExcKind} {esr : W32} {far : Option W64}
    (hcpu : (v'.cpu, v'.sr) =
      v.cpu.trapped (excTake r v.tick.sr kind (excRoute v.sr.el) esr far)) :
    PstateMove phys v v' := by
  have hs : v'.sr = (excTake r v.tick.sr kind (excRoute v.sr.el) esr far).2 :=
    (Prod.mk.inj hcpu).2
  refine .delivered ⟨kind, excRoute v.sr.el, esr, far⟩ ?_ ?_ rfl
  · rw [hs, excTake_taken]
    rfl
  · rw [hs, excTake_pstate]

theorem pstateMove_write {insn : Insn} {sel : W32} {value : W64} {p : Regs × Sysregs}
    (hr : v.Reaches phys insn) (hop : insn.op = .msr ∨ insn.op = .msrImm)
    (hdaif : sel = selDaif →
      insn.op = .msr ∧ insn.sel = selDaif ∧ value = readG v.cpu.regs insn.rd false .w64 ∨
        insn.op = .msrImm ∧ value = daifImm insn v.sr.pstate ∧
          (insn.uimm.setWidth 32 = msrImmDaifSet ∨ insn.uimm.setWidth 32 = msrImmDaifClr))
    (hp : sysregWrite v.cpu.regs v.tick.sr sel value = some p) (hsr : v'.sr = p.2) :
    PstateMove phys v v' := by
  have ht : v'.sr.taken = v.sr.taken := by
    rw [hsr, (sysregWrite_pc hp).2]
    rfl
  cases sysregWrite_bank hp with
  | spSel hsel =>
    subst hsel
    refine .selected insn hr hop ?_ value ht ?_
    · intro h0
      rw [(sysreg_el1 sysregFind_spsel _ _ _).1.mpr (Vcpu.tick_el.trans h0)] at hp
      cases hp
    · rw [hsr, ← Vcpu.tick_pstate]
      exact switchSp_pstate _ _ _
  | daif hsel =>
    refine .masked insn hr value (hdaif hsel) ht ?_
    rw [hsr, ← Vcpu.tick_pstate]
    exact Sysregs.set_val_self _ _ _
  | spEl0 hsel =>
    refine .kept ht ?_
    rw [hsr, ← Vcpu.tick_pstate]
    exact Sysregs.set_val_of_ne _ _ (by intro h; cases h)
  | spEl1 hsel =>
    refine .kept ht ?_
    rw [hsr, ← Vcpu.tick_pstate]
    exact Sysregs.set_val_of_ne _ _ (by intro h; cases h)
  | aside p hsp hval hsel =>
    refine .kept ht ?_
    rw [hsr, ← Vcpu.tick_pstate]
    exact hval .pstate rfl

theorem pstateMove_outcome {insn : Insn} (hr : v.Reaches phys insn)
    (ho : Outcome (mmuMemops v.tick.sr phys f₀) phys v.cpu v.tick.sr insn (v.fetch phys).2.1
      ((v.fetch phys).2.2, v.env) st (v'.cpu, v'.sr) (v'.world, v'.env)) :
    PstateMove phys v v' := by
  generalize hc : v'.cpu = cpu' at ho
  generalize hs : v'.sr = sr' at ho
  generalize hw : v'.world = w' at ho
  generalize he : v'.env = e' at ho
  have kept : sr'.taken = v.tick.sr.taken → sr'.pstate = v.tick.sr.pstate →
      PstateMove phys v v' := by
    intro ht hp
    refine .kept ?_ ?_
    · rw [hs, ht, Vcpu.tick_taken]
    · rw [hs, hp, Vcpu.tick_pstate]
  cases ho with
  | took c esr far w e hcause hfar hpr =>
    rw [Vcpu.tick_el] at hc hs
    exact pstateMove_taken (Prod.ext hc hs)
  | eret hop hel hle hil hmode =>
    have hspsr : v.tick.sr.val (.spsrEl v.tick.sr.el) = v.sr.val (.spsrEl v.sr.el) := by
      rw [Vcpu.tick_el]
      exact Vcpu.tick_val (by intro h; cases h)
    rw [hspsr] at hle hil hmode
    rw [Vcpu.tick_el] at hel hle
    refine .returned insn hr hop hel hle hil hmode ?_ ?_
    · rw [hs, excReturn_taken]
      rfl
    · rw [hs, excReturn_pstate, hspsr]
  | msr hop p hp =>
    exact pstateMove_write hr (.inl hop) (fun hsel => .inl ⟨hop, hsel, rfl⟩) hp hs
  | msrImm hop sel value p hsel hp hval =>
    refine pstateMove_write hr (.inr hop) (fun hd => .inr ⟨hop, ?_⟩) hp hs
    have := hval hd
    rwa [Vcpu.tick_pstate] at this
  | «at» hop ha => exact kept rfl (Sysregs.set_val_of_ne _ _ (by intro h; cases h))
  | _ => exact kept rfl rfl

/-- every step moves PSTATE in one of these ways -/
theorem step_pstate (h : vcpuStep phys f₀ env v = some (st, v')) : PstateMove phys v v' := by
  by_cases hq : v.insnsLeft = 0
  · rw [vcpuStep_timeout hq] at h
    cases h
    exact .kept rfl rfl
  · cases vcpuStep_outcome h with
    | timeout hq' => exact absurd hq' hq
    | interrupt kind hp v' hcpu => exact pstateMove_taken hcpu
    | fetchAbort hp hf esr far v' hcpu => exact pstateMove_taken hcpu
    | undecoded hp hf st hd v' hcpu =>
      unfold excUndefined at hcpu
      rw [Vcpu.tick_el] at hcpu
      exact pstateMove_taken hcpu
    | blocked => exact .kept rfl Vcpu.tick_pstate
    | executed hp hf insn hd st v' ho => exact pstateMove_outcome ⟨hq, hp, hf, hd⟩ ho

end Oemu
