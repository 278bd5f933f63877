import Oemu.Vcpu.Step
import Oemu.Mmu.Frame

/-!
# The frame of an exception entry

Whatever the reason a step of the core enters an exception, it changes the same few things.
`EntryFrame` states all of them: the general and vector registers, the monitor and guest memory stay
as they were, the four registers of the target level record the interrupted state, those of every
other level are untouched, and no stack pointer is lost.

Guest memory is any part of the physical bus that reads, probes and fetches leave alone.

* `entry_frame`   the frame of every delivering step.
-/

namespace Oemu

variable {σ ε τ μ : Type}

/-! ## causes -/

def Cause.kind : Cause → ExcKind
  | .irq => .irq
  | .fiq => .fiq
  | _ => .sync

def Cause.isAbort : Cause → Bool
  | .instructionAbort | .dataAbort => true
  | _ => false

/-- when a cause occurs in a step: interrupts first, then the fetch, then the decoder, then the
instruction -/
def Occurs (phys : Memops σ) (v : Vcpu σ ε) : Cause → Prop
  | .irq => v.pending = some .irq
  | .fiq => v.pending = some .fiq
  | .instructionAbort => v.pending = none ∧ (v.fetch phys).1 ≠ .ok
  | c => v.pending = none ∧ (v.fetch phys).1 = .ok ∧
      ((∃ st, decode (v.fetch phys).2.1 v.cpu.regs.pc = .error st) ∧ c = .undefined ∨
        ∃ insn, decode (v.fetch phys).2.1 v.cpu.regs.pc = .ok insn ∧ Raised v.cpu insn c)

/-! ## the frame -/

/-- everything an exception entry changes, and that nothing else does -/
structure EntryFrame (phys : Memops σ) (v v' : Vcpu σ ε) (c : Cause) (d : Delivery) : Prop where
  taken : v'.sr.taken = v.sr.taken ++ [d]
  occurs : Occurs phys v c
  kind : d.kind = c.kind
  target : d.target = excRoute v.sr.el
  pc : v'.cpu.regs.pc = excVector v.sr d.kind d.target
  x : v'.cpu.regs.x = v.cpu.regs.x
  vectors : v'.cpu.v = v.cpu.v
  monitor : (v'.cpu.monitorAddr, v'.cpu.monitorSize, v'.cpu.monitorValid) =
    (v.cpu.monitorAddr, v.cpu.monitorSize, v.cpu.monitorValid)
  memory : ∀ (μ : Type) (view : σ → μ), Quiet phys view → view v'.world.phys = view v.world.phys
  elr : v'.sr.val (.elrEl d.target) =
    if c = .svc ∨ c = .hvc then v.cpu.regs.pc + 4 else v.cpu.regs.pc
  spsr : v'.sr.val (.spsrEl d.target) = savedPstate v.cpu.regs v.sr
  esr : v'.sr.val (.esrEl d.target) =
    if c.kind = .sync then d.esr.setWidth 64 else v.sr.val (.esrEl d.target)
  far : v'.sr.val (.farEl d.target) = d.far.getD (v.sr.val (.farEl d.target))
  farAbort : d.far.isSome → c.isAbort
  others : ∀ e, e ≠ d.target →
    v'.sr.val (.elrEl e) = v.sr.val (.elrEl e) ∧ v'.sr.val (.spsrEl e) = v.sr.val (.spsrEl e) ∧
      v'.sr.val (.esrEl e) = v.sr.val (.esrEl e) ∧ v'.sr.val (.farEl e) = v.sr.val (.farEl e)
  pstate : v'.sr.pstate = pstateMode d.target ||| daifField
  banks : ∀ e, spOf v'.cpu.regs v'.sr e = spOf v.cpu.regs v.sr e

theorem Cause.kind_ne_serror (c : Cause) : c.kind ≠ .serror := by
  cases c <;> nofun

@[simp] theorem Cause.resume_x (c : Cause) (r : Regs) : (c.resume r).x = r.x := by
  cases c <;> rfl

@[simp] theorem Cause.resume_sp (c : Cause) (r : Regs) : (c.resume r).sp = r.sp := by
  cases c <;> rfl

@[simp] theorem Cause.resume_nzcv (c : Cause) (r : Regs) : (c.resume r).nzcv = r.nzcv := by
  cases c <;> rfl

theorem Cause.resume_pc (c : Cause) (r : Regs) :
    (c.resume r).pc = if c = .svc ∨ c = .hvc then r.pc + 4 else r.pc := by
  cases c <;> rfl

/-- a register the switch of the stack pointer and the counter leave alone -/
theorem tick_switchSp_val (v : Vcpu σ ε) (r : Regs) (p : W64) {f : SysField} (hp : f ≠ .pstate)
    (hs : ∀ e, f ≠ .spEl e) (hc : f ≠ .cntvct) :
    (switchSp r v.tick.sr p).2.val f = v.sr.val f := by
  rw [switchSp_val r v.tick.sr p hp hs, Vcpu.tick_val hc]

theorem entryFrame_of_take {phys : Memops σ} {v v' : Vcpu σ ε} {c : Cause} (esr : W32)
    (far : Option W64) (hocc : Occurs phys v c)
    (hcpu : (v'.cpu, v'.sr) = v.cpu.trapped (excTake (c.resume v.cpu.regs) v.tick.sr c.kind
      (excRoute v.sr.el) esr far))
    (hfar : far.isSome → c.isAbort)
    (hmem : ∀ R : σ → σ → Prop, Probes phys R → R v.world.phys v'.world.phys) :
    EntryFrame phys v v' c ⟨c.kind, excRoute v.sr.el, esr, far⟩ := by
  obtain ⟨hc, hs⟩ := Prod.mk.inj hcpu
  have hval : ∀ f, v'.sr.val f = _ := fun f =>
    (congrArg (fun s => Sysregs.val s f) hs).trans (excTake_val ..)
  have hsw : ∀ {f : SysField}, f ≠ .pstate → (∀ e, f ≠ .spEl e) → f ≠ .cntvct →
      (switchSp (c.resume v.cpu.regs) v.tick.sr (entryPstate (excRoute v.sr.el))).2.val f =
        v.sr.val f := tick_switchSp_val v _ _
  refine ⟨?_, hocc, rfl, rfl, ?_, ?_, ?_, ?_, ?_, ?_, ?_, ?_, ?_, hfar, ?_, ?_, ?_⟩
  · rw [hs]
    exact excTake_taken ..
  · rw [hc]
    show excVector v.tick.sr c.kind (excRoute v.sr.el) = _
    unfold excVector
    rw [Vcpu.tick_val (f := .vbarEl _) nofun, Vcpu.tick_pstate]
  · rw [hc]
    exact (excTake_x (c.resume v.cpu.regs) v.tick.sr c.kind _ esr far).trans (c.resume_x _)
  · rw [hc]
  · rw [hc]
  · intro μ view hq
    exact hmem _ hq
  · rw [hval]
    simp [Cause.resume_pc]
  · rw [hval]
    simp [savedPstate]
  · rw [hval]
    simp [hsw, Cause.kind_ne_serror]
  · rw [hval]
    cases far <;> simp [hsw]
  · intro e he
    dsimp only at he
    refine ⟨?_, ?_, ?_, ?_⟩ <;> rw [hval] <;> simp [he, hsw]
  · show v'.sr.val .pstate = _
    rw [hval]
    simp [entryPstate]
  · intro e
    rw [hc, hs]
    refine (spOf_excTake (c.resume v.cpu.regs) v.tick.sr c.kind _ esr far e).trans ?_
    unfold spOf
    rw [Vcpu.tick_pstate, Vcpu.tick_val (f := .spEl e) nofun, Cause.resume_sp]

/-! ## every delivering step -/

variable {phys : Memops σ} {f₀ : MmuFault} {env : Option (EnvOps τ ε)} {v v' : Vcpu σ ε}
  {st : Status}

theorem pending_kind (phys : Memops σ) {kind : ExcKind} (h : v.pending = some kind) :
    ∃ c : Cause, c.kind = kind ∧ Occurs phys v c ∧ c.resume v.cpu.regs = v.cpu.regs := by
  have hk : kind = .fiq ∨ kind = .irq := by
    unfold Vcpu.pending pendingKind at h
    split at h
    · exact .inl (by simpa using h.symm)
    · split at h
      · exact .inr (by simpa using h.symm)
      · cases h
  rcases hk with rfl | rfl
  · exact ⟨.fiq, rfl, h, rfl⟩
  · exact ⟨.irq, rfl, h, rfl⟩

/-- an instruction that delivers nothing leaves the history alone -/
theorem Outcome.taken_cases {mem : Memops (MmuWorld σ)} {cpu : Cpu} {sr : Sysregs} {insn : Insn}
    {word : W32} {s s' : MmuWorld σ × ε} {p : Cpu × Sysregs}
    (h : Outcome mem phys cpu sr insn word s st p s') :
    p.2.taken = sr.taken ∨
      ∃ c esr far, Raised cpu insn c ∧ (far.isSome → c = .dataAbort) ∧ Probed mem s.1 s'.1 ∧
        p = cpu.trapped (excTake (c.resume cpu.regs) sr .sync (excRoute sr.el) esr far) := by
  cases h with
  | took c esr far w e hc hfar hw => exact .inr ⟨c, esr, far, hc, hfar, hw, rfl⟩
  | eret => exact .inl (excReturn_taken ..)
  | msr hop p hp => exact .inl (sysregWrite_pc hp).2
  | msrImm hop sel value p hsel hp => exact .inl (sysregWrite_pc hp).2
  | _ => exact .inl rfl

theorem Raised.kind {cpu : Cpu} {insn : Insn} {c : Cause} (h : Raised cpu insn c) :
    c.kind = .sync := by
  cases c <;> first | rfl | exact h.elim

theorem Probed.below {sr : Sysregs} {R : σ → σ → Prop} (hR : Probes phys R) {w w' : MmuWorld σ}
    (h : Probed (mmuMemops sr phys f₀) w w') : R w.phys w'.phys :=
  Probed.rel (R := fun w w' => R w.phys w'.phys) (fun w => hR.refl w.phys)
    (fun _ _ _ h h' => hR.trans _ _ _ h h') (fun w a n perm => hR.mmuValidate sr w a n perm)
    (fun w => hR.refl w.phys) h

/-- **every step that delivers an exception has the frame of an entry** -/
theorem entry_frame (phys : Memops σ) (f₀ : MmuFault) (env : Option (EnvOps τ ε))
    (v v' : Vcpu σ ε) (st : Status) (h : vcpuStep phys f₀ env v = some (st, v'))
    (ht : v'.sr.taken ≠ v.sr.taken) :
    ∃ c d, EntryFrame phys v v' c d := by
  have hfetch : ∀ {R : σ → σ → Prop}, Probes phys R → R v.world.phys (v.fetch phys).2.2.phys :=
    fun hR => hR.mmuFetch32 v.tick.sr v.world v.cpu.regs.pc
  cases vcpuStep_outcome h with
  | timeout => exact absurd rfl ht
  | interrupt kind hp v' hcpu hworld =>
    obtain ⟨c, rfl, hocc, hres⟩ := pending_kind phys hp
    refine ⟨c, _, entryFrame_of_take 0 none hocc ?_ nofun ?_⟩
    · rw [hres]
      exact hcpu
    · intro R hR
      rw [hworld]
      exact hR.refl _
  | fetchAbort hp hf esr far v' hcpu hworld =>
    refine ⟨.instructionAbort, _, entryFrame_of_take esr (some far) ⟨hp, hf⟩ hcpu (fun _ => rfl) ?_⟩
    intro R hR
    rw [hworld]
    exact hfetch hR
  | undecoded hp hf st hd v' hcpu hworld =>
    refine ⟨.undefined, _, entryFrame_of_take (esrUndefined (v.fetch phys).2.1) none
      ⟨hp, hf, .inl ⟨⟨st, hd⟩, rfl⟩⟩ ?_ nofun ?_⟩
    · rw [hcpu]
      unfold excUndefined
      rw [Vcpu.tick_el]
      rfl
    · intro R hR
      rw [hworld]
      exact hfetch hR
  | blocked => exact absurd rfl ht
  | executed hp hf insn hd st v' ho =>
    rcases ho.taken_cases with hn | ⟨c, esr, far, hc, hfar, hw, hcpu⟩
    · exact absurd hn ht
    · have hk := hc.kind
      have hocc : Occurs phys v c := by
        have : v.pending = none ∧ (v.fetch phys).1 = .ok ∧
            ((∃ st, decode (v.fetch phys).2.1 v.cpu.regs.pc = .error st) ∧ c = .undefined ∨
              ∃ insn, decode (v.fetch phys).2.1 v.cpu.regs.pc = .ok insn ∧ Raised v.cpu insn c) :=
          ⟨hp, hf, .inr ⟨insn, hd, hc⟩⟩
        cases c <;> first | exact this | exact hc.elim
      refine ⟨c, _, entryFrame_of_take esr far hocc ?_ ?_ ?_⟩
      · rw [hk, hcpu, Vcpu.tick_el]
      · intro hsome
        rw [hfar hsome]
        rfl
      · intro R hR
        exact hR.trans _ _ _ (hfetch hR) (Probed.below hR hw)

/-- a system call from EL0 -/
theorem entry_frame_svc :
    ∃ v', vcpuStep Memory.memops ⟨0, 0⟩ (none : Option (EnvOps Memory Unit))
        (codeVcpu 0xD4000001 .el0 0) = some (.ok, v') ∧
      v'.sr.taken ≠ (codeVcpu 0xD4000001 .el0 0).sr.taken ∧
        ∃ c d, EntryFrame Memory.memops (codeVcpu 0xD4000001 .el0 0) v' c d := by
  obtain ⟨v', hv, ht⟩ : ∃ v', vcpuStep Memory.memops ⟨0, 0⟩
      (none : Option (EnvOps Memory Unit)) (codeVcpu 0xD4000001 .el0 0) = some (.ok, v') ∧
        v'.sr.taken ≠ (codeVcpu 0xD4000001 .el0 0).sr.taken := by
    refine ⟨_, rfl, ?_⟩
    decide
  exact ⟨v', hv, ht, entry_frame _ _ _ _ _ _ hv ht⟩

end Oemu
