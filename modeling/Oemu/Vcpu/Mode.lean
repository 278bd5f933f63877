import Oemu.Vcpu.Machine

/-!
# The modes a run reaches

The machine implements EL0, EL1 and EL3.  `LegalPstate` is what its PSTATE may be: one of the five
modes of these levels, `IL` clear, and no condition flag, since the register file owns them.  It is
kept by entry, by the register moves and by every return but one: a return from EL3 accepts the two
modes of EL2.

* `step_legal`     what one step keeps, and the return that breaks it;
* `legal_modes`    every run without that return.
-/

namespace Oemu

variable {σ ε τ : Type}

/-- EL0t, EL1t, EL1h, EL3t and EL3h -/
def LegalMode (m : W64) : Prop := m = 0x00 ∨ m = 0x04 ∨ m = 0x05 ∨ m = 0x0C ∨ m = 0x0D

instance (m : W64) : Decidable (LegalMode m) := by
  unfold LegalMode
  infer_instance

structure LegalPstate (p : W64) : Prop where
  mode : LegalMode (p &&& modeMask)
  il : p &&& pstateIl = 0
  flags : p &&& nzcvMask64 = 0

/-! ## masks -/

theorem merge_and (p v a b m : W64) :
    ((p &&& a) ||| (v &&& b)) &&& m = (p &&& (a &&& m)) ||| (v &&& (b &&& m)) := by
  rw [BitVec.and_or_distrib_right, BitVec.and_assoc, BitVec.and_assoc]

theorem legal_entry {target : El} (h : target = .el1 ∨ target = .el3) :
    LegalPstate (entryPstate target) := by
  rcases h with rfl | rfl
  · exact ⟨by decide, by decide, by decide⟩
  · exact ⟨by decide, by decide, by decide⟩

theorem legal_init {el : El} (h : el ≠ .el2) : LegalPstate (pstateMode el ||| daifField) := by
  cases el with
  | el0 => exact ⟨by decide, by decide, by decide⟩
  | el1 => exact ⟨by decide, by decide, by decide⟩
  | el2 => exact absurd rfl h
  | el3 => exact ⟨by decide, by decide, by decide⟩

theorem LegalPstate.el {p : W64} (h : LegalPstate p) :
    pstateEl p = .el0 ∨ pstateEl p = .el1 ∨ pstateEl p = .el3 := by
  have key : ∀ m, LegalMode m → pstateEl m = .el0 ∨ pstateEl m = .el1 ∨ pstateEl m = .el3 := by
    rintro m (rfl | rfl | rfl | rfl | rfl) <;> decide
  rw [← pstateEl_mode]
  exact key _ h.mode

theorem LegalPstate.masked {p : W64} (h : LegalPstate p) (value : W64) :
    LegalPstate ((p &&& ~~~daifField) ||| (value &&& daifField)) where
  mode := by
    rw [daif_mode]
    exact h.mode
  il := by
    rw [merge_and, show ~~~daifField &&& pstateIl = pstateIl from rfl, h.il,
      show daifField &&& pstateIl = 0#64 from rfl]
    simp
  flags := by
    rw [merge_and, show ~~~daifField &&& nzcvMask64 = nzcvMask64 from rfl, h.flags,
      show daifField &&& nzcvMask64 = 0#64 from rfl]
    simp

theorem selected_mode (p value : W64) :
    ((p &&& ~~~1) ||| (value &&& 1)) &&& modeMask = p &&& modeMask &&& ~~~1 ∨
      ((p &&& ~~~1) ||| (value &&& 1)) &&& modeMask = (p &&& modeMask &&& ~~~1) ||| 1 := by
  have hv : value &&& 1 = 0 ∨ value &&& 1 = 1 := by
    have h2 : (value &&& 1).toNat = value.toNat % 2 := by
      rw [BitVec.toNat_and]
      exact Nat.and_one_is_mod _
    bv_omega
  have e : (p &&& ~~~1 ||| value &&& 1) &&& modeMask =
      (p &&& modeMask &&& ~~~1) ||| (value &&& 1) := by
    rw [merge_and, BitVec.and_assoc, BitVec.and_comm modeMask]
    rfl
  rw [e]
  rcases hv with hv | hv
  · rw [hv]
    exact .inl (BitVec.or_zero)
  · rw [hv]
    exact .inr rfl

/-- above EL0 either stack pointer may be selected -/
theorem LegalPstate.selected {p : W64} (h : LegalPstate p) (hel : pstateEl p ≠ .el0)
    (value : W64) : LegalPstate ((p &&& ~~~1) ||| (value &&& 1)) where
  mode := by
    have key : ∀ m, LegalMode m → pstateEl m ≠ .el0 →
        LegalMode (m &&& ~~~1) ∧ LegalMode ((m &&& ~~~1) ||| 1) := by
      rintro m (rfl | rfl | rfl | rfl | rfl) <;> decide
    rw [← pstateEl_mode] at hel
    have hk := key _ h.mode hel
    rcases selected_mode p value with hm | hm <;> rw [hm]
    · exact hk.1
    · exact hk.2
  il := by
    rw [merge_and, show ~~~(1 : W64) &&& pstateIl = pstateIl from rfl, h.il,
      show (1 : W64) &&& pstateIl = 0#64 from rfl]
    simp
  flags := by
    rw [merge_and, show ~~~(1 : W64) &&& nzcvMask64 = nzcvMask64 from rfl, h.flags,
      show (1 : W64) &&& nzcvMask64 = 0#64 from rfl]
    simp

/-! ## returns -/

theorem mode_cases {P : W64 → Prop} (p : W64) (h : ∀ m : BitVec 5, P (m.setWidth 64)) :
    P (p &&& modeMask) := by
  have e : p &&& modeMask = (p.setWidth 5).setWidth 64 := by
    apply BitVec.eq_of_toNat_eq
    have h5 : p.toNat &&& modeMask.toNat = p.toNat % 2 ^ 5 :=
      Nat.and_two_pow_sub_one_eq_mod p.toNat 5
    rw [BitVec.toNat_and, BitVec.toNat_setWidth, BitVec.toNat_setWidth, h5]
    omega
  rw [e]
  exact h _

/-- the modes a return accepts are the legal ones and the two of EL2 -/
theorem modeValid_cases (p : W64) (h : modeValid (p &&& modeMask) = true) :
    LegalMode (p &&& modeMask) ∨ p &&& modeMask = 0x08 ∨ p &&& modeMask = 0x09 := by
  revert h
  refine mode_cases (P := fun m => modeValid m = true → LegalMode m ∨ m = 0x08 ∨ m = 0x09) p ?_
  decide

theorem LegalPstate.returned {saved : W64} (hmode : LegalMode (saved &&& modeMask))
    (hil : saved &&& pstateIl = 0) : LegalPstate (saved &&& ~~~nzcvMask64) where
  mode := by
    rw [BitVec.and_assoc, show ~~~nzcvMask64 &&& modeMask = modeMask from rfl]
    exact hmode
  il := by
    rw [BitVec.and_assoc, show ~~~nzcvMask64 &&& pstateIl = pstateIl from rfl]
    exact hil
  flags := by
    rw [BitVec.and_assoc, show ~~~nzcvMask64 &&& nzcvMask64 = 0#64 from rfl]
    simp

/-! ## one step -/

/-- the step is a return from EL3 to one of the modes of EL2 -/
def ToEl2 (phys : Memops σ) (v : Vcpu σ ε) : Prop :=
  ∃ insn, v.Reaches phys insn ∧ insn.op = .eret ∧ v.sr.el = .el3 ∧
    v.sr.val (.spsrEl .el3) &&& pstateIl = 0 ∧
    (v.sr.val (.spsrEl .el3) &&& modeMask = 0x08 ∨ v.sr.val (.spsrEl .el3) &&& modeMask = 0x09)

/-- what a run keeps: a legal PSTATE, and deliveries to the two levels that take them -/
structure LegalState (v : Vcpu σ ε) : Prop where
  pstate : LegalPstate v.sr.pstate
  targets : ∀ d ∈ v.sr.taken, d.target = .el1 ∨ d.target = .el3

variable {phys : Memops σ} {f₀ : MmuFault} {env : Option (EnvOps τ ε)} {v v' : Vcpu σ ε}
  {st : Status}

theorem legalState_init (p : σ) (e : ε) {el : El} (hel : el ≠ .el2) (pc sp quantum : W64) :
    LegalState (Vcpu.init p e el pc sp quantum) where
  pstate := by
    have h : (Vcpu.init p e el pc sp quantum).sr.pstate = pstateMode el ||| daifField := by
      show ((Sysregs.reset.set .pstate _).set (.spEl el) _).val .pstate = _
      simp
    rw [h]
    exact legal_init hel
  targets := by
    intro d hd
    have h : (Vcpu.init p e el pc sp quantum).sr.taken = [] := rfl
    rw [h] at hd
    cases hd

theorem excRoute_target (e : El) : (excRoute e).1 = .el1 ∨ (excRoute e).1 = .el3 := by
  cases e <;> decide

/-- a step that is not that return keeps the state legal -/
theorem step_legal (h : vcpuStep phys f₀ env v = some (st, v')) (hl : LegalState v)
    (hn : ¬ ToEl2 phys v) : LegalState v' := by
  have keep : v'.sr.taken = v.sr.taken → ∀ d ∈ v'.sr.taken, d.target = .el1 ∨ d.target = .el3 := by
    intro ht
    rw [ht]
    exact hl.targets
  cases step_pstate h with
  | delivered d hd hp ht =>
    have htgt : d.target = .el1 ∨ d.target = .el3 := by
      rw [ht]
      exact excRoute_target _
    refine ⟨?_, ?_⟩
    · rw [hp]
      exact legal_entry htgt
    · rw [hd]
      intro d' hd'
      rcases List.mem_append.mp hd' with hm | hm
      · exact hl.targets d' hm
      · rw [List.mem_singleton.mp hm]
        exact htgt
  | returned insn hr hop hel hle hil hmode ht hp =>
    refine ⟨?_, keep ht⟩
    rw [hp]
    refine .returned ?_ hil
    rcases modeValid_cases _ hmode with hm | hm
    · exact hm
    · -- a mode of EL2 is below no level but EL3
      have h3 : v.sr.el = .el3 := by
        have hnum : (pstateEl (v.sr.val (.spsrEl v.sr.el) &&& modeMask)).num = 2 := by
          rcases hm with hm | hm <;> rw [hm] <;> decide
        rw [hnum] at hle
        rcases hl.pstate.el with h0 | h1 | h3
        · exact absurd h0 hel
        · rw [show v.sr.el = .el1 from h1] at hle
          exact absurd hle (by decide)
        · exact h3
      rw [h3] at hil hm
      exact absurd ⟨insn, hr, hop, h3, hil, hm⟩ hn
  | selected insn hr hop hel value ht hp =>
    refine ⟨?_, keep ht⟩
    rw [hp]
    exact hl.pstate.selected hel value
  | masked insn hr value hop ht hp =>
    refine ⟨?_, keep ht⟩
    rw [hp]
    exact hl.pstate.masked value
  | kept ht hp =>
    refine ⟨?_, keep ht⟩
    rw [hp]
    exact hl.pstate

/-- that return leaves the implemented levels -/
theorem toEl2_run (phys : Memops σ) (f₀ : MmuFault) (env : Option (EnvOps τ ε)) {v : Vcpu σ ε}
    (h : ToEl2 phys v) :
    ∃ v', vcpuStep phys f₀ env v = some (.ok, v') ∧ v'.sr.el = .el2 := by
  obtain ⟨insn, hr, hop, h3, hil, hm⟩ := h
  have htel : v.tick.sr.el = .el3 := Vcpu.tick_el.trans h3
  have hspsr : v.tick.sr.val (.spsrEl .el3) = v.sr.val (.spsrEl .el3) :=
    Vcpu.tick_val (by intro h; cases h)
  have hret : excEret v.cpu.regs v.tick.sr = some (excReturn v.cpu.regs v.tick.sr) := by
    refine excEret_returned (by rw [htel]; decide) ?_
    unfold ReturnRefused
    rw [htel, hspsr, hil]
    show ¬ ((0 : W64) ≠ 0 ∨ (!modeValid (v.sr.val (.spsrEl .el3) &&& modeMask)) = true ∨
      El.el3.num < (pstateEl (v.sr.val (.spsrEl .el3) &&& modeMask)).num)
    rcases hm with hm | hm <;> rw [hm] <;> decide
  have hd : dispatchSystem (mmuMemops v.tick.sr phys f₀) phys env v.cpu v.tick.sr insn
      (v.fetch phys).2.1 ((v.fetch phys).2.2, v.env) =
        some ((.ok, v.cpu.trapped (excReturn v.cpu.regs v.tick.sr)), (v.fetch phys).2.2, v.env) := by
    rw [dispatchSystem_eret hop, hret]
    rfl
  obtain ⟨v', hv, -, hsr, -⟩ := hr.execute (by rw [hop]; decide) hd
  refine ⟨v', hv, ?_⟩
  show pstateEl v'.sr.pstate = _
  rw [hsr]
  show pstateEl (excReturn v.cpu.regs v.tick.sr).2.pstate = _
  rw [excReturn_pstate, htel, hspsr, ← pstateEl_mode, BitVec.and_assoc,
    show ~~~nzcvMask64 &&& modeMask = modeMask from rfl]
  rcases hm with hm | hm <;> rw [hm] <;> decide

/-! ## every run -/

def GuardedMachine (phys : Memops σ) (f₀ : MmuFault) (env : Option (EnvOps τ ε)) (v : Vcpu σ ε)
    (i : Label) (v' : Vcpu σ ε) : Prop :=
  Machine phys f₀ env v i v' ∧ ∀ st, i = .step st → ¬ ToEl2 phys v

theorem guarded_legal {i : Label} (h : GuardedMachine phys f₀ env v i v') (hl : LegalState v) :
    LegalState v' := by
  obtain ⟨hm, hn⟩ := h
  cases hm with
  | step st v' h => exact step_legal h hl (hn st rfl)
  | irq level => exact ⟨hl.pstate, hl.targets⟩
  | fiq level => exact ⟨hl.pstate, hl.targets⟩
  | rearm => exact ⟨hl.pstate, hl.targets⟩
  | host p e => exact ⟨hl.pstate, hl.targets⟩

/-- a legal state has a target for whatever a return raises -/
theorem LegalState.eret (hl : LegalState v) : excEret v.cpu.regs v.tick.sr ≠ none := by
  intro hnone
  have h2 : v.tick.sr.el = .el2 := (excEret_eq_none.mp hnone).1
  rw [Vcpu.tick_el] at h2
  rcases hl.pstate.el with h | h | h <;> cases h.symm.trans h2

/-- **every run from EL0, EL1 or EL3 in which no return from EL3 names a mode of EL2 stays in the
five implemented modes**, with `IL` and the flag bits of PSTATE clear, delivers every exception to
EL1 or EL3, and never comes to a return the host stops at; and where it does make that return it is
at EL2 -/
theorem legal_modes (phys : Memops σ) (f₀ : MmuFault) (env : Option (EnvOps τ ε)) (p : σ) (e : ε)
    (el : El) (hel : el ≠ .el2) (pc sp quantum : W64) (l : List Label) (v : Vcpu σ ε)
    (hrun : Lts.Run (GuardedMachine phys f₀ env) (Vcpu.init p e el pc sp quantum) l v) :
    LegalState v ∧ excEret v.cpu.regs v.tick.sr ≠ none ∧
      (ToEl2 phys v → ∃ v', vcpuStep phys f₀ env v = some (.ok, v') ∧ ¬ LegalState v') := by
  have hlegal : LegalState v := by
    refine hrun.invariant (I := LegalState) (A := fun _ => True) ?_ (fun _ _ => trivial)
      (legalState_init p e hel pc sp quantum)
    intro s i s' hl _ hs
    exact guarded_legal hs hl
  refine ⟨hlegal, hlegal.eret, ?_⟩
  intro h2
  obtain ⟨v', hv, hel2⟩ := toEl2_run phys f₀ env h2
  refine ⟨v', hv, fun hl => ?_⟩
  have := hl.pstate.el
  rw [show pstateEl v'.sr.pstate = .el2 from hel2] at this
  revert this
  decide

/-- a core at EL1 before an `eret`, `SPSR_EL1` clear -/
def returningVcpu : Vcpu Memory Unit :=
  Vcpu.init (programMemory [0xD69F03E0]) () .el1 0x1000 0x8000 10

/-- a pin goes high, the return goes to EL0, and the interrupt is taken from there -/
theorem legal_modes_interrupt :
    (returningVcpu.setIrq true).stepped.sr.el = .el0 ∧
      (returningVcpu.setIrq true).stepped.stepped.sr.taken.length = 1 ∧
        LegalState (returningVcpu.setIrq true).stepped.stepped := by
  have hrun : Lts.Run (GuardedMachine Memory.memops ⟨0, 0⟩ (none : Option (EnvOps Memory Unit)))
      returningVcpu [.irq true, .step .ok, .step .ok]
        (returningVcpu.setIrq true).stepped.stepped := by
    refine .cons ⟨.irq true, nofun⟩ (.cons ⟨.step .ok _ rfl, ?_⟩
      (.cons ⟨.step .ok _ rfl, ?_⟩ (.nil _)))
    · rintro st - ⟨insn, -, -, h3, -⟩
      revert h3
      decide
    · rintro st - ⟨insn, -, -, h3, -⟩
      revert h3
      decide
  exact ⟨by decide, by decide, (legal_modes _ _ _ _ _ .el1 (by decide) _ _ _ _ _ hrun).1⟩

/-- `mov x0, #9; msr spsr_el3, x0; eret` at EL3 -/
def el2Vcpu : Vcpu Memory Unit :=
  Vcpu.init (programMemory [0xD2800120, 0xD51E4000, 0xD69F03E0]) () .el3 0x1000 0x8000 10

/-- the return from EL3 with a mode of EL2 in `SPSR_EL3` -/
theorem reaches_el2 :
    Lts.Run (Machine Memory.memops ⟨0, 0⟩ (none : Option (EnvOps Memory Unit))) el2Vcpu
        [.step .ok, .step .ok, .step .ok] el2Vcpu.stepped.stepped.stepped ∧
      el2Vcpu.stepped.stepped.stepped.sr.el = .el2 ∧
      ¬ LegalState el2Vcpu.stepped.stepped.stepped := by
  refine ⟨?_, ?_, ?_⟩
  · exact .cons (.step .ok _ rfl) (.cons (.step .ok _ rfl) (.cons (.step .ok _ rfl) (.nil _)))
  · decide
  · intro h
    have := h.pstate.mode
    revert this
    decide

end Oemu
