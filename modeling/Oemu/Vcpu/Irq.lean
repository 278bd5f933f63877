import Oemu.Vcpu.Mode

/-!
# Interrupts over runs

`Delivers kind v v'`: the step from `v` to `v'` enters an exception of that kind.

* `step_interrupt`        a step with quantum left delivers an interrupt exactly when `pendingKind`
                          finds one, and then does nothing else;
* `step_unmasks`          the moves that clear a mask: a return, a write of `DAIF`, a `DAIFClr`;
* `interrupts_masked`     from an entry on no interrupt is delivered before such a move.
-/

namespace Oemu

variable {σ ε τ : Type}

/-! ## deliveries -/

def ExcKind.maskBit : ExcKind → Nat
  | .fiq => 6
  | _ => 7

/-- a step enters an exception of a kind -/
def Delivers (kind : ExcKind) (v v' : Vcpu σ ε) : Prop :=
  ∃ d : Delivery, v'.sr.taken = v.sr.taken ++ [d] ∧ d.kind = kind

/-- the state a delivered interrupt leaves: the counter is ticked, the exception entered, one unit
of quantum gone; nothing else, so nothing is fetched and nothing executed -/
def Vcpu.interrupted (v : Vcpu σ ε) (kind : ExcKind) : Vcpu σ ε :=
  (v.tick.trapped
    (v.cpu.trapped (excTake v.cpu.regs v.tick.sr kind (excRoute v.sr.el) 0 none))).charge

variable {phys : Memops σ} {f₀ : MmuFault} {env : Option (EnvOps τ ε)} {v v' : Vcpu σ ε}
  {st : Status}

theorem pending_fiq :
    v.pending = some .fiq ↔ v.fiqLevel = true ∧ v.sr.pstate.getLsbD 6 = false := by
  unfold Vcpu.pending pendingKind
  cases v.fiqLevel <;> cases v.irqLevel <;> cases v.sr.pstate.getLsbD 6 <;>
    cases v.sr.pstate.getLsbD 7 <;> decide

theorem pending_irq :
    v.pending = some .irq ↔ (v.irqLevel = true ∧ v.sr.pstate.getLsbD 7 = false) ∧
      ¬ (v.fiqLevel = true ∧ v.sr.pstate.getLsbD 6 = false) := by
  unfold Vcpu.pending pendingKind
  cases v.fiqLevel <;> cases v.irqLevel <;> cases v.sr.pstate.getLsbD 6 <;>
    cases v.sr.pstate.getLsbD 7 <;> decide

/-- a pending interrupt is all a step does -/
theorem vcpuStep_pending {kind : ExcKind} (hq : v.insnsLeft ≠ 0) (hp : v.pending = some kind) :
    vcpuStep phys f₀ env v = some (.ok, v.interrupted kind) := by
  unfold vcpuStep
  rw [if_neg hq]
  have hp' : pendingKind v.tick.sr.pstate v.tick.irqLevel v.tick.fiqLevel = some kind := by
    rw [Vcpu.tick_pstate]
    exact hp
  unfold Vcpu.takePending
  rw [hp']
  dsimp only
  rw [Vcpu.tick_el]
  rfl

theorem Vcpu.interrupted_taken (v : Vcpu σ ε) (kind : ExcKind) :
    (v.interrupted kind).sr.taken = v.sr.taken ++ [⟨kind, excRoute v.sr.el, 0, none⟩] := by
  show (excTake v.cpu.regs v.tick.sr kind (excRoute v.sr.el) 0 none).2.taken = _
  rw [excTake_taken]
  rfl

/-- what an outcome of an instruction adds to the history is synchronous -/
theorem outcome_sync {mem : Memops (MmuWorld σ)} {cpu : Cpu} {sr : Sysregs} {insn : Insn}
    {word : W32} {s s' : MmuWorld σ × ε} {p : Cpu × Sysregs}
    (ho : Outcome mem phys cpu sr insn word s st p s') {d : Delivery}
    (hd : p.2.taken = sr.taken ++ [d]) : d.kind = .sync := by
  have hsame : sr.taken ≠ sr.taken ++ [d] := by
    intro h
    have := congrArg List.length h
    simp at this
  cases ho with
  | took c esr far =>
    have ht : (excTake (c.resume cpu.regs) sr .sync (excRoute sr.el) esr far).2.taken = sr.taken ++ [d] := hd
    rw [excTake_taken] at ht
    have := List.append_cancel_left ht
    cases this
    rfl
  | eret =>
    have ht : (excReturn cpu.regs sr).2.taken = sr.taken ++ [d] := hd
    rw [excReturn_taken] at ht
    exact absurd ht hsame
  | msr hop p hp =>
    rw [(sysregWrite_pc hp).2] at hd
    exact absurd hd hsame
  | msrImm hop sel value p hsel hp hval =>
    rw [(sysregWrite_pc hp).2] at hd
    exact absurd hd hsame
  | _ => exact absurd hd hsame

theorem step_delivers (h : vcpuStep phys f₀ env v = some (st, v')) (kind : ExcKind)
    (hk : kind = .irq ∨ kind = .fiq) :
    Delivers kind v v' ↔ v.insnsLeft ≠ 0 ∧ v.pending = some kind := by
  constructor
  · rintro ⟨d, hd, hkind⟩
    have hsync : d.kind ≠ .sync := by
      rw [hkind]
      rcases hk with rfl | rfl <;> decide
    have taken : ∀ {r k target esr far}, (v'.cpu, v'.sr) =
        v.cpu.trapped (excTake r v.tick.sr k target esr far) → d = ⟨k, target, esr, far⟩ := by
      intro r k target esr far hcpu
      have ht : v'.sr.taken = v.sr.taken ++ [⟨k, target, esr, far⟩] :=
        (congrArg (fun q => q.2.taken) hcpu).trans (excTake_taken _ _ _ _ _ _)
      rw [hd] at ht
      have := List.append_cancel_left ht
      cases this
      rfl
    by_cases hq : v.insnsLeft = 0
    · rw [vcpuStep_timeout hq] at h
      cases h
      have := congrArg List.length hd
      simp at this
    · refine ⟨hq, ?_⟩
      cases vcpuStep_outcome h with
      | timeout hq' => exact absurd hq' hq
      | interrupt k hp v' hcpu =>
        rw [taken hcpu] at hkind
        rw [hp, ← hkind]
      | fetchAbort hp hf esr far v' hcpu =>
        rw [taken hcpu] at hsync
        exact absurd rfl hsync
      | undecoded hp hf st hdec v' hcpu =>
        rw [taken hcpu] at hsync
        exact absurd rfl hsync
      | blocked =>
        have := congrArg List.length hd
        simp at this
      | executed hp hf insn hdec st v' ho => exact absurd (outcome_sync ho hd) hsync
  · rintro ⟨hq, hp⟩
    rw [vcpuStep_pending hq hp] at h
    cases h
    exact ⟨_, Vcpu.interrupted_taken v kind, rfl⟩

/-! ## masks -/

/-- the instructions that may clear a mask -/
def Insn.unmasks (insn : Insn) : Prop :=
  insn.op = .eret ∨ insn.op = .msr ∧ insn.sel = selDaif ∨
    insn.op = .msrImm ∧ insn.uimm.setWidth 32 = msrImmDaifClr

/-- a move of the machine executes such an instruction, and it clears the mask -/
structure Unmasks (phys : Memops σ) (kind : ExcKind) (v : Vcpu σ ε) (i : Label) (v' : Vcpu σ ε) :
    Prop where
  step : ∃ st, i = .step st
  insn : ∃ insn, v.Reaches phys insn ∧ insn.unmasks
  executed : v'.sr.taken = v.sr.taken
  set : v.sr.pstate.getLsbD kind.maskBit = true
  clear : v'.sr.pstate.getLsbD kind.maskBit = false

theorem entryPstate_masked {target : El} (kind : ExcKind) :
    (entryPstate target).getLsbD kind.maskBit = true := by
  cases kind <;> cases target <;> decide

/-- `SPSel` is not a mask -/
theorem selected_masked (p value : W64) (kind : ExcKind) :
    ((p &&& ~~~1) ||| (value &&& 1)).getLsbD kind.maskBit = p.getLsbD kind.maskBit := by
  rw [BitVec.getLsbD_or, BitVec.getLsbD_and, BitVec.getLsbD_and,
    show (~~~(1 : W64)).getLsbD kind.maskBit = true by cases kind <;> decide,
    show (1 : W64).getLsbD kind.maskBit = false by cases kind <;> decide, Bool.and_true,
    Bool.and_false, Bool.or_false]

theorem written_masked (p value : W64) (kind : ExcKind) :
    ((p &&& ~~~daifField) ||| (value &&& daifField)).getLsbD kind.maskBit =
      value.getLsbD kind.maskBit := by
  rw [BitVec.getLsbD_or, BitVec.getLsbD_and, BitVec.getLsbD_and,
    show (~~~daifField).getLsbD kind.maskBit = false by cases kind <;> decide,
    show daifField.getLsbD kind.maskBit = true by cases kind <;> decide, Bool.and_true,
    Bool.and_false, Bool.false_or]

theorem daifSet_masked {insn : Insn} {p : W64} (h : insn.uimm.setWidth 32 = msrImmDaifSet)
    {kind : ExcKind} (hp : p.getLsbD kind.maskBit = true) :
    (daifImm insn p).getLsbD kind.maskBit = true := by
  unfold daifImm
  dsimp only
  rw [if_pos h, BitVec.getLsbD_or, BitVec.getLsbD_and, hp,
    show daifField.getLsbD kind.maskBit = true by cases kind <;> decide]
  rfl

/-- **what clears a mask**: a return, a write of `DAIF` or a `DAIFClr` -/
theorem step_unmasks {i : Label} (h : Machine phys f₀ env v i v') {kind : ExcKind}
    (hset : v.sr.pstate.getLsbD kind.maskBit = true)
    (hclr : v'.sr.pstate.getLsbD kind.maskBit = false) : Unmasks phys kind v i v' := by
  cases h with
  | step st v' h =>
    cases step_pstate h with
    | delivered d hd hp =>
      rw [hp, entryPstate_masked] at hclr
      cases hclr
    | returned insn hr hop hel hle hil hmode ht =>
      exact ⟨⟨st, rfl⟩, ⟨insn, hr, .inl hop⟩, ht, hset, hclr⟩
    | selected insn hr hop hel value ht hp =>
      rw [hp, selected_masked, hset] at hclr
      cases hclr
    | masked insn hr value hop ht hp =>
      rcases hop with ⟨hop, hsel, -⟩ | ⟨hop, hval, himm | himm⟩
      · exact ⟨⟨st, rfl⟩, ⟨insn, hr, .inr (.inl ⟨hop, hsel⟩)⟩, ht, hset, hclr⟩
      · rw [hp, written_masked, hval, daifSet_masked himm hset] at hclr
        cases hclr
      · exact ⟨⟨st, rfl⟩, ⟨insn, hr, .inr (.inr ⟨hop, himm⟩)⟩, ht, hset, hclr⟩
    | kept ht hp =>
      rw [hp, hset] at hclr
      cases hclr
  | irq level =>
    rw [show (v.setIrq level).sr = v.sr from rfl, hset] at hclr
    cases hclr
  | fiq level =>
    rw [show (v.setFiq level).sr = v.sr from rfl, hset] at hclr
    cases hclr
  | rearm =>
    rw [show v.rearm.sr = v.sr from rfl, hset] at hclr
    cases hclr
  | host p e =>
    rw [hset] at hclr
    cases hclr

/-! ## runs -/

structure InterruptStep (v v' : Vcpu σ ε) (st : Status) : Prop where
  fiq : Delivers .fiq v v' ↔
    v.insnsLeft ≠ 0 ∧ v.fiqLevel = true ∧ v.sr.pstate.getLsbD 6 = false
  irq : Delivers .irq v v' ↔
    v.insnsLeft ≠ 0 ∧ (v.irqLevel = true ∧ v.sr.pstate.getLsbD 7 = false) ∧
      ¬ (v.fiqLevel = true ∧ v.sr.pstate.getLsbD 6 = false)
  alone : ∀ kind, kind = .irq ∨ kind = .fiq → Delivers kind v v' →
    st = .ok ∧ v' = v.interrupted kind

theorem step_interrupt (h : vcpuStep phys f₀ env v = some (st, v')) : InterruptStep v v' st := by
  refine ⟨?_, ?_, ?_⟩
  · rw [step_delivers h .fiq (.inr rfl), pending_fiq]
  · rw [step_delivers h .irq (.inl rfl), pending_irq]
  · intro kind hk hd
    obtain ⟨hq, hp⟩ := (step_delivers h kind hk).mp hd
    rw [vcpuStep_pending hq hp] at h
    cases h
    exact ⟨rfl, rfl⟩

theorem entered_masked (h : vcpuStep phys f₀ env v = some (st, v'))
    (ht : v'.sr.taken ≠ v.sr.taken) (kind : ExcKind) :
    v'.sr.pstate.getLsbD kind.maskBit = true := by
  cases step_pstate h with
  | delivered d hd hp => rw [hp, entryPstate_masked]
  | returned insn hr hop hel hle hil hmode ht' => exact absurd ht' ht
  | selected insn hr hop hel value ht' => exact absurd ht' ht
  | masked insn hr value hop ht' => exact absurd ht' ht
  | kept ht' => exact absurd ht' ht

theorem delivered_unmasked (h : vcpuStep phys f₀ env v = some (st, v')) {kind : ExcKind}
    (hk : kind = .irq ∨ kind = .fiq) (hd : Delivers kind v v') :
    v.sr.pstate.getLsbD kind.maskBit = false := by
  rcases hk with rfl | rfl
  · exact ((step_interrupt h).irq.mp hd).2.1.2
  · exact ((step_interrupt h).fiq.mp hd).2.2

/-- **interrupts follow pins and masks, and masks hold**: a step delivers by the rule, whatever the
pins did before; and between an entry and a delivered interrupt, in every run, some move executes an
instruction that clears the mask -/
theorem interrupts_masked (phys : Memops σ) (f₀ : MmuFault) (env : Option (EnvOps τ ε))
    (v v' : Vcpu σ ε) (st : Status) (h : vcpuStep phys f₀ env v = some (st, v')) :
    InterruptStep v v' st ∧
      ∀ (u u' : Vcpu σ ε) (st₀ : Status) (l : List Label),
        vcpuStep phys f₀ env u = some (st₀, u') → u'.sr.taken ≠ u.sr.taken →
        Lts.Run (Machine phys f₀ env) u' l v →
        ∀ kind, kind = .irq ∨ kind = .fiq → Delivers kind v v' →
          ∃ l₁ i l₂ w w', l = l₁ ++ i :: l₂ ∧ Lts.Run (Machine phys f₀ env) u' l₁ w ∧
            Machine phys f₀ env w i w' ∧ Lts.Run (Machine phys f₀ env) w' l₂ v ∧
            Unmasks phys kind w i w' := by
  refine ⟨step_interrupt h, ?_⟩
  intro u u' st₀ l hu ht hrun kind hk hd
  have hend : ¬ v.sr.pstate.getLsbD kind.maskBit = true := by
    rw [delivered_unmasked h hk hd]
    decide
  obtain ⟨l₁, i, l₂, w, w', hl, hr₁, hm, hr₂, hset, hclr⟩ :=
    hrun.crossing (I := fun s => s.sr.pstate.getLsbD kind.maskBit = true)
      (entered_masked hu ht kind) hend
  exact ⟨l₁, i, l₂, w, w', hl, hr₁, hm, hr₂,
    step_unmasks hm hset (Bool.eq_false_iff.mpr hclr)⟩

/-- a core at EL1 whose code and vectors are all `msr daifclr, #2`, with its pin high -/
def unmaskingVcpu (quantum : W64) : Vcpu Memory Unit :=
  let code := { programMemory [] with
    heap := fun i => ((0xD50342FF : W32) >>> (8 * (i % 4))).setWidth 8 }
  let v := Vcpu.init code () .el1 0x1000 0x8000 quantum
  { v with sr := v.sr.set (.vbarEl .el1) 0x1000, irqLevel := true }

/-- the second step enters, the third clears the mask, the fourth enters again -/
theorem interrupts_masked_again :
    InterruptStep (unmaskingVcpu 10).stepped.stepped.stepped
        (unmaskingVcpu 10).stepped.stepped.stepped.stepped .ok ∧
      ∃ l₁ i l₂ w w', [Label.step .ok] = l₁ ++ i :: l₂ ∧
        Lts.Run (Machine Memory.memops ⟨0, 0⟩ (none : Option (EnvOps Memory Unit)))
          (unmaskingVcpu 10).stepped.stepped l₁ w ∧
        Machine Memory.memops ⟨0, 0⟩ (none : Option (EnvOps Memory Unit)) w i w' ∧
        Lts.Run (Machine Memory.memops ⟨0, 0⟩ (none : Option (EnvOps Memory Unit))) w' l₂
          (unmaskingVcpu 10).stepped.stepped.stepped ∧
        Unmasks Memory.memops .irq w i w' := by
  obtain ⟨hs, hr⟩ := interrupts_masked Memory.memops ⟨0, 0⟩ (none : Option (EnvOps Memory Unit))
    (unmaskingVcpu 10).stepped.stepped.stepped _ .ok rfl
  refine ⟨hs, hr (unmaskingVcpu 10).stepped (unmaskingVcpu 10).stepped.stepped .ok [.step .ok] rfl
    (by decide) (.cons (.step .ok _ rfl) (.nil _)) .irq (.inl rfl) ?_⟩
  exact hs.irq.mpr ⟨by decide, by decide, by decide⟩

/-- a pin that is high and not masked is not served while the quantum is used up -/
theorem unmasked_pin_waits :
    Lts.Run (Machine Memory.memops ⟨0, 0⟩ (none : Option (EnvOps Memory Unit)))
        (unmaskingVcpu 1) [.step .ok] (unmaskingVcpu 1).stepped ∧
      (unmaskingVcpu 1).stepped.irqLevel = true ∧
      (unmaskingVcpu 1).stepped.sr.pstate.getLsbD 7 = false ∧
      vcpuStep Memory.memops ⟨0, 0⟩ (none : Option (EnvOps Memory Unit))
          (unmaskingVcpu 1).stepped = some (.timeout, (unmaskingVcpu 1).stepped) ∧
      ¬ Delivers .irq (unmaskingVcpu 1).stepped (unmaskingVcpu 1).stepped := by
  refine ⟨.cons (.step .ok _ rfl) (.nil _), by decide, by decide, rfl, ?_⟩
  rintro ⟨d, hd, -⟩
  have := congrArg List.length hd
  simp at this

end Oemu
