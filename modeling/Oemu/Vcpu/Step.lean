import Oemu.Vcpu
import Oemu.Exec.Outcome
import Oemu.Memory

/-!
# What a step of the core can do

`VcpuOutcome` lists the ways `vcpuStep` can end, over the list for an instruction; the properties of
the core are proved by cases on it.
-/

namespace Oemu

variable {σ ε τ : Type}

section

variable (phys : Memops σ) (f₀ : MmuFault) (v : Vcpu σ ε)

/-- the fetch of a step: status, word and world -/
def Vcpu.fetch : Status × W32 × MmuWorld σ := mmuFetch32 v.tick.sr phys v.world v.cpu.regs.pc

/-- the interrupt a step finds pending -/
def Vcpu.pending : Option ExcKind := pendingKind v.sr.pstate v.irqLevel v.fiqLevel

/-- the ways a step can end -/
inductive VcpuOutcome : Status → Vcpu σ ε → Prop where
  | timeout (hq : v.insnsLeft = 0) : VcpuOutcome .timeout v
  | interrupt (kind : ExcKind) (hp : v.pending = some kind) (v' : Vcpu σ ε)
      (hcpu : (v'.cpu, v'.sr) =
        v.cpu.trapped (excTake v.cpu.regs v.tick.sr kind (excRoute v.sr.el) 0 none))
      (hworld : v'.world = v.world) : VcpuOutcome .ok v'
  | fetchAbort (hp : v.pending = none) (hf : (v.fetch phys).1 ≠ .ok) (esr : W32) (far : W64)
      (v' : Vcpu σ ε)
      (hcpu : (v'.cpu, v'.sr) =
        v.cpu.trapped (excTake v.cpu.regs v.tick.sr .sync (excRoute v.sr.el) esr (some far)))
      (hworld : v'.world.phys = (v.fetch phys).2.2.phys) : VcpuOutcome .ok v'
  | undecoded (hp : v.pending = none) (hf : (v.fetch phys).1 = .ok) (st : Status)
      (hd : decode (v.fetch phys).2.1 v.cpu.regs.pc = .error st) (v' : Vcpu σ ε)
      (hcpu : (v'.cpu, v'.sr) =
        v.cpu.trapped (excUndefined v.cpu.regs v.tick.sr (v.fetch phys).2.1))
      (hworld : v'.world = (v.fetch phys).2.2) : VcpuOutcome .ok v'
  | blocked (hp : v.pending = none) (hf : (v.fetch phys).1 = .ok) (insn : Insn)
      (hd : decode (v.fetch phys).2.1 v.cpu.regs.pc = .ok insn)
      (hop : insn.op = .wfi ∨ insn.op = .wfe) :
      VcpuOutcome .blocked { v.tick with world := (v.fetch phys).2.2 }
  | executed (hp : v.pending = none) (hf : (v.fetch phys).1 = .ok) (insn : Insn)
      (hd : decode (v.fetch phys).2.1 v.cpu.regs.pc = .ok insn) (st : Status) (v' : Vcpu σ ε)
      (ho : Outcome (mmuMemops v.tick.sr phys f₀) phys v.cpu v.tick.sr insn (v.fetch phys).2.1
        ((v.fetch phys).2.2, v.env) st (v'.cpu, v'.sr) (v'.world, v'.env)) : VcpuOutcome st v'

end

variable {phys : Memops σ} {f₀ : MmuFault} {env : Option (EnvOps τ ε)} {v v' : Vcpu σ ε}
  {st : Status}

@[simp] theorem Vcpu.tick_el : v.tick.sr.el = v.sr.el := by
  show pstateEl (v.tick.sr.val .pstate) = pstateEl (v.sr.val .pstate)
  simp [Vcpu.tick]

@[simp] theorem Vcpu.tick_taken : v.tick.sr.taken = v.sr.taken := rfl

theorem Vcpu.tick_val {f : SysField} (h : f ≠ .cntvct) : v.tick.sr.val f = v.sr.val f := by
  simp [Vcpu.tick, h]

@[simp] theorem Vcpu.tick_pstate : v.tick.sr.pstate = v.sr.pstate := Vcpu.tick_val nofun

theorem Vcpu.noteEvent_eq (insn : Insn) :
    ∃ b, v.noteEvent insn = { v with eventReg := b } := by
  unfold Vcpu.noteEvent
  split
  · exact ⟨true, rfl⟩
  · split
    · exact ⟨false, rfl⟩
    · exact ⟨v.eventReg, rfl⟩

theorem fetchAbort_outcome (phys : Memops σ) (f₀ : MmuFault) (hp : v.pending = none) (hf : (v.fetch phys).1 ≠ .ok) :
    VcpuOutcome phys f₀ v .ok
      ({ v.tick with world := (v.fetch phys).2.2 }.fetchAbort).charge := by
  unfold Vcpu.fetchAbort
  dsimp only
  rcases (v.fetch phys).2.2.mmu.takeFault with ⟨f | f, m⟩
  · refine .fetchAbort hp hf (esrInstructionAbort (if v.sr.el.num < (excRoute v.sr.el).1.num then
      .iabortLower else .iabortSame) 0x2C) v.cpu.regs.pc _ ?_ rfl
    show v.cpu.trapped (excInstructionAbort v.cpu.regs v.tick.sr v.cpu.regs.pc) = _
    unfold excInstructionAbort
    dsimp only
    rw [Vcpu.tick_el]
  · refine .fetchAbort hp hf f.esr f.far _ ?_ rfl
    show v.cpu.trapped (excTake v.cpu.regs v.tick.sr .sync (excRoute v.tick.sr.el) f.esr
      (some f.far)) = _
    rw [Vcpu.tick_el]

theorem execute_outcome (phys : Memops σ) (f₀ : MmuFault) (env : Option (EnvOps τ ε))
    (hp : v.pending = none) (hf : (v.fetch phys).1 = .ok) {insn : Insn}
    (hd : decode (v.fetch phys).2.1 v.cpu.regs.pc = .ok insn)
    (h : ({ v.tick with world := (v.fetch phys).2.2 }.noteEvent insn).execute phys f₀ env insn
      (v.fetch phys).2.1 = some (st, v')) : VcpuOutcome phys f₀ v st v' := by
  obtain ⟨b, hb⟩ := Vcpu.noteEvent_eq (v := { v.tick with world := (v.fetch phys).2.2 }) insn
  rw [hb] at h
  unfold Vcpu.execute at h
  dsimp only at h
  cases hs : dispatchSystem (mmuMemops v.tick.sr phys f₀) phys env v.cpu v.tick.sr insn
      (v.fetch phys).2.1 ((v.fetch phys).2.2, v.env) with
  | none =>
    have h' : (none : Option (Status × Vcpu σ ε)) = some (st, v') := by
      rw [← h]
      exact (congrArg (Option.map _) hs).symm
    cases h'
  | some q =>
    obtain ⟨⟨st', cpu', sr'⟩, w', e'⟩ := q
    have ho := dispatchSystem_outcome hs
    have h' := (congrArg (Option.map _) hs).symm.trans h
    rw [Option.map_some] at h'
    dsimp only at h' ho
    by_cases hst : st' = .ok
    · rw [if_neg (not_not_intro hst)] at h'
      cases h'
      subst hst
      exact .executed hp hf insn hd .ok _ ho
    · rw [if_pos hst] at h'
      cases h'
      exact .executed hp hf insn hd _ _ ho

theorem vcpuStep_outcome (h : vcpuStep phys f₀ env v = some (st, v')) :
    VcpuOutcome phys f₀ v st v' := by
  unfold vcpuStep at h
  by_cases hq : v.insnsLeft = 0
  · rw [if_pos hq] at h
    cases h
    exact .timeout hq
  · rw [if_neg hq] at h
    have hpe : v.tick.takePending = v.pending.map fun kind => v.tick.trapped
        (v.cpu.trapped (excTake v.cpu.regs v.tick.sr kind (excRoute v.sr.el) 0 none)) := by
      unfold Vcpu.takePending Vcpu.pending
      rw [Vcpu.tick_pstate, Vcpu.tick_el]
      show _ = Option.map _ (pendingKind v.sr.pstate v.tick.irqLevel v.tick.fiqLevel)
      cases pendingKind v.sr.pstate v.tick.irqLevel v.tick.fiqLevel with
      | none => rfl
      | some kind => rfl
    rw [hpe] at h
    cases hp : v.pending with
    | some kind =>
      rw [hp] at h
      cases h
      exact .interrupt kind hp _ rfl rfl
    | none =>
      rw [hp] at h
      change v.tick.fetched phys f₀ env = some (st, v') at h
      have hab := fetchAbort_outcome phys f₀ hp
      have hex := fun insn hf hd => @execute_outcome _ _ _ v v' st phys f₀ env hp hf insn hd
      have hun := @VcpuOutcome.undecoded _ _ phys f₀ v hp
      have hbl := @VcpuOutcome.blocked _ _ phys f₀ v hp
      unfold Vcpu.fetched at h
      have hfe : v.fetch phys = mmuFetch32 v.tick.sr phys v.tick.world v.tick.cpu.regs.pc := rfl
      rw [← hfe] at h
      rcases hf : v.fetch phys with ⟨fst, word, w⟩
      rw [hf] at h hab hex hun hbl
      cases fst <;> dsimp only at h
      case ok =>
        unfold Vcpu.decoded at h
        cases hd : decode word v.cpu.regs.pc with
        | error e =>
          have hd' : decode word v.tick.cpu.regs.pc = .error e := hd
          dsimp only at h
          rw [hd'] at h
          cases h
          exact hun rfl e hd _ rfl rfl
        | ok insn =>
          have hd' : decode word v.tick.cpu.regs.pc = .ok insn := hd
          dsimp only at h
          rw [hd'] at h
          dsimp only at h
          split at h
          · rename_i hw
            cases h
            exact hbl rfl insn hd hw.1
          · exact hex insn rfl hd h
      all_goals
        cases h
        exact hab (Status.noConfusion ·)

/-- a step that reaches an instruction: there is quantum left, no interrupt is pending, and the fetch
and the decoder answer -/
structure Vcpu.Reaches (phys : Memops σ) (v : Vcpu σ ε) (insn : Insn) : Prop where
  quantum : v.insnsLeft ≠ 0
  quiet : v.pending = none
  fetched : (v.fetch phys).1 = .ok
  decoded : decode (v.fetch phys).2.1 v.cpu.regs.pc = .ok insn

theorem vcpuStep_timeout (hq : v.insnsLeft = 0) :
    vcpuStep phys f₀ env v = some (.timeout, v) := by
  unfold vcpuStep
  rw [if_pos hq]

/-- the instruction a step reaches is the one it executes, or the step waits at it -/
theorem Vcpu.Reaches.outcome {insn : Insn} (hr : v.Reaches phys insn)
    (h : vcpuStep phys f₀ env v = some (st, v')) :
    ((insn.op = .wfi ∨ insn.op = .wfe) ∧ v'.cpu = v.cpu ∧ v'.sr = v.tick.sr) ∨
      Outcome (mmuMemops v.tick.sr phys f₀) phys v.cpu v.tick.sr insn (v.fetch phys).2.1
        ((v.fetch phys).2.2, v.env) st (v'.cpu, v'.sr) (v'.world, v'.env) := by
  cases vcpuStep_outcome h with
  | timeout hq => exact absurd hq hr.quantum
  | interrupt kind hp =>
    rw [hr.quiet] at hp
    cases hp
  | fetchAbort hp hf => exact absurd hr.fetched hf
  | undecoded hp hf st hd =>
    rw [hr.decoded] at hd
    cases hd
  | blocked hp hf insn' hd hop =>
    rw [hr.decoded] at hd
    cases hd
    exact .inl ⟨hop, rfl, rfl⟩
  | executed hp hf insn' hd st v' ho =>
    rw [hr.decoded] at hd
    cases hd
    exact .inr ho

theorem Vcpu.delivered_ne {r : Regs} {kind : ExcKind} {target : ExcTarget} {esr : W32}
    {far : Option W64} (ht : v'.sr.taken = v.sr.taken) :
    (v'.cpu, v'.sr) ≠ v.cpu.trapped (excTake r v.tick.sr kind target esr far) := by
  intro hcpu
  refine excTake_taken_ne r v.tick.sr kind target esr far ?_
  rw [Vcpu.tick_taken, ← ht]
  exact congrArg (fun q => q.2.taken) hcpu.symm

/-- a step that succeeds and delivers nothing has executed an instruction -/
theorem vcpuStep_executed (h : vcpuStep phys f₀ env v = some (.ok, v'))
    (ht : v'.sr.taken = v.sr.taken) :
    v.pending = none ∧ (v.fetch phys).1 = .ok ∧
      ∃ insn, decode (v.fetch phys).2.1 v.cpu.regs.pc = .ok insn ∧
        Outcome (mmuMemops v.tick.sr phys f₀) phys v.cpu v.tick.sr insn (v.fetch phys).2.1
          ((v.fetch phys).2.2, v.env) .ok (v'.cpu, v'.sr) (v'.world, v'.env) := by
  cases vcpuStep_outcome h with
  | interrupt kind hp v' hcpu => exact (Vcpu.delivered_ne ht hcpu).elim
  | fetchAbort hp hf esr far v' hcpu => exact (Vcpu.delivered_ne ht hcpu).elim
  | undecoded hp hf st hd v' hcpu => exact (Vcpu.delivered_ne ht hcpu).elim
  | executed hp hf insn hd st v' ho => exact ⟨hp, hf, insn, hd, ho⟩

theorem vcpuStep_quiet (hq : v.insnsLeft ≠ 0) (hp : v.pending = none) :
    vcpuStep phys f₀ env v = v.tick.fetched phys f₀ env := by
  have hp' : pendingKind v.tick.sr.pstate v.tick.irqLevel v.tick.fiqLevel = none := by
    rw [Vcpu.tick_pstate]
    exact hp
  unfold vcpuStep Vcpu.takePending
  rw [if_neg hq, hp']

theorem vcpuStep_awake (hq : v.insnsLeft ≠ 0) (hp : v.pending = none)
    (hf : (v.fetch phys).1 = .ok) {insn : Insn}
    (hd : decode (v.fetch phys).2.1 v.cpu.regs.pc = .ok insn)
    (hop : ¬ ((insn.op = .wfi ∨ insn.op = .wfe) ∧ v.wakes insn.op = false)) :
    vcpuStep phys f₀ env v =
      ({ v.tick with world := (v.fetch phys).2.2 }.noteEvent insn).execute phys f₀ env insn
        (v.fetch phys).2.1 := by
  rw [vcpuStep_quiet hq hp]
  unfold Vcpu.fetched
  have hfe : v.fetch phys = mmuFetch32 v.tick.sr phys v.tick.world v.tick.cpu.regs.pc := rfl
  rw [← hfe]
  rcases hr : v.fetch phys with ⟨fst, word, w⟩
  rw [hr] at hf hd
  dsimp only at hf hd
  subst hf
  dsimp only
  unfold Vcpu.decoded
  have hd' : decode word v.tick.cpu.regs.pc = .ok insn := hd
  dsimp only
  rw [hd']
  dsimp only
  rw [if_neg]
  rintro ⟨hwait, hsleep⟩
  have hsleep' : (!v.wakes insn.op) = true := hsleep
  rw [Bool.not_eq_true'] at hsleep'
  exact hop ⟨hwait, hsleep'⟩

theorem vcpuStep_execute (hq : v.insnsLeft ≠ 0) (hp : v.pending = none)
    (hf : (v.fetch phys).1 = .ok) {insn : Insn}
    (hd : decode (v.fetch phys).2.1 v.cpu.regs.pc = .ok insn)
    (hop : insn.op ≠ .wfi ∧ insn.op ≠ .wfe) :
    vcpuStep phys f₀ env v =
      ({ v.tick with world := (v.fetch phys).2.2 }.noteEvent insn).execute phys f₀ env insn
        (v.fetch phys).2.1 := by
  refine vcpuStep_awake hq hp hf hd ?_
  rintro ⟨h | h, -⟩
  · exact hop.1 h
  · exact hop.2 h

theorem vcpuStep_refused (hq : v.insnsLeft ≠ 0) (hp : v.pending = none)
    (h : (v.fetch phys).1 = .ok →
      ∃ st, decode (v.fetch phys).2.1 v.cpu.regs.pc = .error st) :
    ∃ v' esr far, vcpuStep phys f₀ env v = some (.ok, v') ∧
      (v'.cpu, v'.sr) =
        v.cpu.trapped (excTake v.cpu.regs v.tick.sr .sync (excRoute v.sr.el) esr far) ∧
      v'.world.phys = (v.fetch phys).2.2.phys := by
  have hstep : ∃ v', vcpuStep phys f₀ env v = some (.ok, v') := by
    rw [vcpuStep_quiet hq hp]
    unfold Vcpu.fetched
    have hfe : v.fetch phys = mmuFetch32 v.tick.sr phys v.tick.world v.tick.cpu.regs.pc := rfl
    rw [← hfe]
    rcases hr : v.fetch phys with ⟨fst, word, w⟩
    rw [hr] at h
    cases fst <;> dsimp only
    case ok =>
      obtain ⟨st, hd⟩ := h rfl
      have hd' : decode word v.tick.cpu.regs.pc = .error st := hd
      unfold Vcpu.decoded
      dsimp only
      rw [hd']
      exact ⟨_, rfl⟩
    all_goals exact ⟨_, rfl⟩
  obtain ⟨v', hv⟩ := hstep
  cases vcpuStep_outcome hv with
  | interrupt kind hp' =>
    rw [hp] at hp'
    cases hp'
  | fetchAbort hp hf esr far v' hcpu hworld => exact ⟨v', esr, some far, hv, hcpu, hworld⟩
  | undecoded hp hf st hd v' hcpu hworld =>
    refine ⟨v', esrUndefined (v.fetch phys).2.1, none, hv, ?_, by rw [hworld]⟩
    rw [hcpu]
    unfold excUndefined
    rw [Vcpu.tick_el]
  | executed hp hf insn hd =>
    obtain ⟨st, hd'⟩ := h hf
    rw [hd] at hd'
    cases hd'

theorem Vcpu.Reaches.execute {insn : Insn} (hr : v.Reaches phys insn)
    (hop : insn.op ≠ .wfi ∧ insn.op ≠ .wfe) {cpu' : Cpu} {sr' : Sysregs} {s' : MmuWorld σ × ε}
    (h : dispatchSystem (mmuMemops v.tick.sr phys f₀) phys env v.cpu v.tick.sr insn
      (v.fetch phys).2.1 ((v.fetch phys).2.2, v.env) = some ((.ok, cpu', sr'), s')) :
    ∃ v', vcpuStep phys f₀ env v = some (.ok, v') ∧ v'.cpu = cpu' ∧ v'.sr = sr' ∧
      (v'.world, v'.env) = s' ∧ v'.insnsLeft = v.insnsLeft - 1 ∧ v'.irqLevel = v.irqLevel ∧
      v'.fiqLevel = v.fiqLevel := by
  rw [vcpuStep_execute hr.quantum hr.quiet hr.fetched hr.decoded hop]
  obtain ⟨b, hb⟩ := Vcpu.noteEvent_eq (v := { v.tick with world := (v.fetch phys).2.2 }) insn
  rw [hb]
  unfold Vcpu.execute
  exact ⟨_, congrArg (Option.map _) h, rfl, rfl, rfl, rfl, rfl, rfl⟩

/-! ## a core on one instruction -/

/-- one page of code that starts with a word -/
def codeMemory (word : W32) : Memory where
  regions := [⟨0x1000, 0x1000, 7, 0, true⟩]
  capacity := 1
  heap := fun i => if i < 4 then (word >>> (8 * i)).setWidth 8 else 0

/-- one page of code and data that starts with a program -/
def programMemory (ws : List W32) : Memory where
  regions := [⟨0x1000, 0x1000, 7, 0, true⟩]
  capacity := 1
  heap := fun i => ((ws.getD (i / 4) 0) >>> (8 * (i % 4))).setWidth 8

/-- the state after a step on such a page, without an environment -/
def Vcpu.stepped (v : Vcpu Memory Unit) : Vcpu Memory Unit :=
  match vcpuStep Memory.memops ⟨0, 0⟩ (none : Option (EnvOps Memory Unit)) v with
  | some p => p.2
  | none => v

theorem Vcpu.stepped_ok {v : Vcpu Memory Unit}
    (h : (vcpuStep Memory.memops ⟨0, 0⟩ (none : Option (EnvOps Memory Unit)) v).map Prod.fst =
      some .ok) :
    vcpuStep Memory.memops ⟨0, 0⟩ (none : Option (EnvOps Memory Unit)) v = some (.ok, v.stepped) := by
  obtain ⟨p, hp, hst⟩ := Option.map_eq_some_iff.mp h
  unfold Vcpu.stepped
  rw [hp, ← hst]

/-- a core at the start of that page, with `x0` set -/
def codeVcpu (word : W32) (el : El) (x0 : W64) : Vcpu Memory Unit :=
  let v := Vcpu.init (codeMemory word) () el 0x1000 0x8000 10
  { v with cpu := v.cpu.writeG 0 false .w64 x0 }

end Oemu
