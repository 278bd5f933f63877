import Oemu.Vcpu.RunLoop
import Oemu.Vcpu.Machine

/-!
# The counter and the parked core

The generic-timer counter moves at the top of a step, before the step knows whether it will park.
So a step that parks is visible: it leaves everything as it was but the counter, which has moved.

* `vcpuStep_status`      a step succeeds, parks, or finds its quantum spent;
* `vcpuStep_parks`       what a step does at a wait with nothing to wake for;
* `vcpuStep_cntvct`      a step that finds quantum left moves the counter by one, no other does;
* `run_cntvct`, `run_insnsLeft`  the counter and the countdown along a run;
* `clock_law`            the parked steps are the ones that show, and a run without them keeps time.
-/

namespace Oemu

variable {σ ε τ μ : Type}

/-! ## the counter -/

theorem kRows_cntvct : ∀ row ∈ kRows, row.field ≠ some .cntvct := by
  decide

/-- no register move reaches the counter -/
theorem sysregWrite_cntvct {r : Regs} {sr : Sysregs} {sel : W32} {value : W64}
    {p : Regs × Sysregs} (h : sysregWrite r sr sel value = some p) :
    p.2.val .cntvct = sr.val .cntvct := by
  obtain ⟨row, hm, -, -, -, ⟨-, rfl⟩ | ⟨-, rfl⟩⟩ := sysregWrite_cases h
  · rfl
  · unfold rowWrite
    cases row.set with
    | some g =>
      cases g with
      | spSel =>
        exact switchSp_val r sr _ (by intro h; cases h) (by intro e h; cases h)
      | nzcv => rfl
      | daif | spEl0 | spEl1 | cntvCtl | cntpCtl | cntvTval | cntpTval =>
        exact Sysregs.set_val_of_ne _ _ (by intro h; cases h)
    | none =>
      dsimp only
      cases hf : row.field with
      | none => rfl
      | some f =>
        refine Sysregs.set_val_of_ne _ _ ?_
        rintro rfl
        exact kRows_cntvct row hm hf

theorem excTake_cntvct (r : Regs) (sr : Sysregs) (kind : ExcKind) (target : ExcTarget)
    (esr : W32) (far : Option W64) : (excTake r sr kind target esr far).2.val .cntvct = sr.val .cntvct := by
  rw [excTake_val]
  simp only [reduceCtorEq, if_false]
  exact switchSp_val _ _ _ (by intro h; cases h) (by intro e h; cases h)

variable {phys : Memops σ} {f₀ : MmuFault} {env : Option (EnvOps τ ε)} {v v' : Vcpu σ ε}
  {st : Status}

theorem Outcome.cntvct {mem : Memops (MmuWorld σ)} {cpu : Cpu} {sr : Sysregs} {insn : Insn}
    {word : W32} {s s' : MmuWorld σ × ε} {p : Cpu × Sysregs}
    (h : Outcome mem phys cpu sr insn word s st p s') : p.2.val .cntvct = sr.val .cntvct := by
  cases h with
  | took => exact excTake_cntvct ..
  | eret => exact switchSp_val _ _ _ (by intro h; cases h) (by intro e h; cases h)
  | msr hop p hp => exact sysregWrite_cntvct hp
  | msrImm hop sel value p hsel hp => exact sysregWrite_cntvct hp
  | «at» => exact Sysregs.set_val_of_ne _ _ (by intro h; cases h)
  | _ => rfl

/-! ## the ways a step ends -/

/-- an instruction the decoder accepts completes, or delivers its exception -/
theorem Outcome.status {mem : Memops (MmuWorld σ)} {cpu : Cpu} {sr : Sysregs} {insn : Insn}
    {word : W32} {s s' : MmuWorld σ × ε} {p : Cpu × Sysregs} (hwf : insn.WellFormed)
    (h : Outcome mem phys cpu sr insn word s st p s') : st = .ok := by
  cases h with
  | invalid hop => exact absurd hop hwf.known
  | shared st cpu' w hop hfa hu hs =>
    rcases dispatchShared_status hwf hs with hr | hr | hr
    · exact hr
    · exact absurd hr hu
    · exact absurd hr hfa
  | _ => rfl

theorem vcpuStep_status (h : vcpuStep phys f₀ env v = some (st, v')) :
    st = .ok ∨ st = .blocked ∨ st = .timeout := by
  cases vcpuStep_outcome h with
  | timeout => exact .inr (.inr rfl)
  | blocked => exact .inr (.inl rfl)
  | interrupt | fetchAbort | undecoded => exact .inl rfl
  | executed hp hf insn hd st v' ho => exact .inl (ho.status (decode_wellFormed hd))

/-- a core at a wait with nothing to wake for -/
def Vcpu.Parks (phys : Memops σ) (v : Vcpu σ ε) : Prop :=
  ∃ insn, v.Reaches phys insn ∧ (insn.op = .wfi ∨ insn.op = .wfe) ∧ v.wakes insn.op = false

/-- what a step does there: the counter and the translation cache move, and nothing else -/
theorem vcpuStep_parks (h : v.Parks phys) :
    vcpuStep phys f₀ env v = some (.blocked, { v.tick with world := (v.fetch phys).2.2 }) := by
  obtain ⟨insn, hr, hop, hw⟩ := h
  obtain ⟨hq, hp, hf, hd⟩ := hr
  rw [vcpuStep_quiet hq hp]
  unfold Vcpu.fetched
  have hfe : v.fetch phys = mmuFetch32 v.tick.sr phys v.tick.world v.tick.cpu.regs.pc := rfl
  rw [← hfe]
  rcases hr : v.fetch phys with ⟨fst, word, w⟩
  rw [hr] at hf hd
  dsimp only at hf hd
  subst hf
  dsimp only
  unfold Vcpu.decoded
  have hd' : decode word v.tick.cpu.regs.pc = .ok insn := hd
  have hw' : ({ v.tick with world := w } : Vcpu σ ε).wakes insn.op = false := hw
  dsimp only
  rw [hd']
  dsimp only
  rw [hw', if_pos ⟨hop, rfl⟩]

theorem Vcpu.Parks.of_blocked (h : vcpuStep phys f₀ env v = some (.blocked, v')) :
    v.Parks phys := by
  have hq : v.insnsLeft ≠ 0 := by
    intro h0
    rw [vcpuStep_timeout h0] at h
    cases h
  have hp : v.pending = none := by
    cases vcpuStep_outcome h with
    | blocked hp => exact hp
    | executed hp => exact hp
  have hok : (v.fetch phys).1 = .ok ∧
      ∃ insn, decode (v.fetch phys).2.1 v.cpu.regs.pc = .ok insn := by
    cases vcpuStep_outcome h with
    | blocked hp hf insn hd => exact ⟨hf, insn, hd⟩
    | executed hp hf insn hd => exact ⟨hf, insn, hd⟩
  obtain ⟨hf, insn, hd⟩ := hok
  refine ⟨insn, ⟨hq, hp, hf, hd⟩, ?_⟩
  rw [vcpuStep_quiet hq hp] at h
  unfold Vcpu.fetched at h
  have hfe : v.fetch phys = mmuFetch32 v.tick.sr phys v.tick.world v.tick.cpu.regs.pc := rfl
  rw [← hfe] at h
  rcases hr : v.fetch phys with ⟨fst, word, w⟩
  rw [hr] at hf hd h
  dsimp only at hf hd
  subst hf
  dsimp only at h
  unfold Vcpu.decoded at h
  have hd' : decode word v.tick.cpu.regs.pc = .ok insn := hd
  dsimp only at h
  rw [hd'] at h
  dsimp only at h
  split at h
  · case _ hw =>
    refine ⟨hw.1, ?_⟩
    have hw2 : (!({ v.tick with world := w } : Vcpu σ ε).wakes insn.op) = true := hw.2
    rw [Bool.not_eq_true'] at hw2
    exact hw2
  · -- a wait that wakes runs as a hint, and a hint completes
    unfold Vcpu.execute at h
    rw [Option.map_eq_some_iff] at h
    obtain ⟨⟨⟨st, cpu', sr'⟩, w', e'⟩, hs, hq⟩ := h
    have hst := (dispatchSystem_outcome hs).status (decode_wellFormed hd)
    dsimp only at hst hq
    rw [hst, if_neg (not_not_intro rfl)] at hq
    cases hq

/-- a step moves the counter by one, unless it finds its quantum spent -/
theorem vcpuStep_cntvct (h : vcpuStep phys f₀ env v = some (st, v')) :
    v'.sr.val .cntvct = if st = .timeout then v.sr.val .cntvct else v.sr.val .cntvct + 1 := by
  have htick : v.tick.sr.val .cntvct = v.sr.val .cntvct + 1 := Sysregs.set_val_self _ _ _
  have htrap : ∀ {c : Cpu} {r : Regs} {kind : ExcKind} {target : ExcTarget} {esr : W32}
      {far : Option W64},
      (v'.cpu, v'.sr) = c.trapped (excTake r v.tick.sr kind target esr far) →
      v'.sr.val .cntvct = v.sr.val .cntvct + 1 := by
    intro c r kind target esr far he
    have hsr : v'.sr = (excTake r v.tick.sr kind target esr far).2 := congrArg Prod.snd he
    rw [hsr, excTake_cntvct, htick]
  cases vcpuStep_outcome h with
  | timeout => rfl
  | interrupt kind hp v' hcpu => exact htrap hcpu
  | fetchAbort hp hf esr far v' hcpu => exact htrap hcpu
  | undecoded hp hf st hd v' hcpu => exact htrap hcpu
  | blocked => exact htick
  | executed hp hf insn hd st v' ho =>
    rw [ho.status (decode_wellFormed hd), if_neg (by intro h; cases h), ← htick]
    exact ho.cntvct

/-! ## runs -/

theorem run_cntvct {l : List Label} (h : Lts.Run (Machine phys f₀ env) v l v') :
    v'.sr.val .cntvct =
      v.sr.val .cntvct + BitVec.ofNat 64 (l.count (.step .ok) + l.count (.step .blocked)) := by
  induction h with
  | nil v => simp
  | cons hs _ ih =>
    rename_i v u v'' i l _
    rw [ih]
    cases hs with
    | step st u hstep =>
      rw [vcpuStep_cntvct hstep]
      rcases vcpuStep_status hstep with rfl | rfl | rfl
      · rw [if_neg (by intro h; cases h), List.count_cons_self, List.count_cons_of_ne (by decide),
          Nat.add_right_comm, BitVec.ofNat_add _ 1, BitVec.add_assoc, BitVec.add_comm 1]
        rfl
      · rw [if_neg (by intro h; cases h), List.count_cons_self, List.count_cons_of_ne (by decide),
          ← Nat.add_assoc, BitVec.ofNat_add _ 1, BitVec.add_assoc, BitVec.add_comm 1]
        rfl
      · rw [if_pos rfl, List.count_cons_of_ne (by decide), List.count_cons_of_ne (by decide)]
    | irq | fiq | rearm =>
      rw [List.count_cons_of_ne (by intro h; cases h), List.count_cons_of_ne (by intro h; cases h)]
      rfl
    | host =>
      rw [List.count_cons_of_ne (by intro h; cases h), List.count_cons_of_ne (by intro h; cases h)]

/-- without a refill the countdown drops by the steps that succeed -/
theorem run_insnsLeft {l : List Label} (h : Lts.Run (Machine phys f₀ env) v l v')
    (hl : .rearm ∉ l) :
    v'.insnsLeft = v.insnsLeft - BitVec.ofNat 64 (l.count (.step .ok)) ∧
      v'.quantum = v.quantum := by
  induction h with
  | nil v => exact ⟨(BitVec.sub_zero _).symm, rfl⟩
  | cons hs _ ih =>
    rename_i v u v'' i l _
    obtain ⟨ihl, ihq⟩ := ih fun hm => hl (List.mem_cons_of_mem _ hm)
    rw [ihl, ihq]
    cases hs with
    | step st u hstep =>
      obtain ⟨-, -, hq, hleft⟩ := vcpuStep_charge hstep
      rw [hq, hleft]
      refine ⟨?_, rfl⟩
      by_cases hok : st = .ok
      · subst hok
        rw [if_pos rfl, List.count_cons_self, BitVec.ofNat_add _ 1, BitVec.add_comm,
          ← BitVec.sub_sub]
        rfl
      · rw [if_neg hok, List.count_cons_of_ne (by intro h; cases h; exact hok rfl)]
    | rearm => exact absurd List.mem_cons_self hl
    | irq | fiq | host =>
      rw [List.count_cons_of_ne (by intro h; cases h)]
      exact ⟨rfl, rfl⟩

/-! ## the law -/

/-- nothing a guest or a scheduler can see has changed; `view` is guest memory -/
structure Vcpu.Unchanged (view : σ → μ) (v v' : Vcpu σ ε) : Prop where
  cpu : v'.cpu = v.cpu
  sr : v'.sr = v.sr
  env : v'.env = v.env
  irqLevel : v'.irqLevel = v.irqLevel
  fiqLevel : v'.fiqLevel = v.fiqLevel
  eventReg : v'.eventReg = v.eventReg
  quantum : v'.quantum = v.quantum
  insnsLeft : v'.insnsLeft = v.insnsLeft
  memory : view v'.world.phys = view v.world.phys

/-- a step from `v` that parks or finds the quantum spent is invisible -/
def StepInvisible (phys : Memops σ) (f₀ : MmuFault) (env : Option (EnvOps τ ε)) (view : σ → μ)
    (v : Vcpu σ ε) : Prop :=
  ∀ st v', vcpuStep phys f₀ env v = some (st, v') → st = .blocked ∨ st = .timeout →
    v.Unchanged view v'

theorem stepInvisible_iff (phys : Memops σ) (f₀ : MmuFault) (env : Option (EnvOps τ ε))
    (view : σ → μ) (v : Vcpu σ ε) : StepInvisible phys f₀ env view v ↔ ¬ v.Parks phys := by
  constructor
  · intro h hpark
    have hsr := (h _ _ (vcpuStep_parks hpark) (.inl rfl)).sr
    have hc : v.sr.val .cntvct + 1 = v.sr.val .cntvct := by
      rw [← Sysregs.set_val_self v.sr .cntvct (v.sr.val .cntvct + 1)]
      exact congrArg (fun sr => sr.val .cntvct) hsr
    have := congrArg BitVec.toNat hc
    have hlt := (v.sr.val .cntvct).isLt
    rw [BitVec.toNat_add] at this
    have h1 : (1 : W64).toNat = 1 := rfl
    rw [h1] at this
    omega
  · intro hpark st v' h hst
    rcases hst with rfl | rfl
    · exact absurd (Vcpu.Parks.of_blocked h) hpark
    · have hq : v.insnsLeft = 0 := by
        by_contra hne
        exact vcpuStep_ne_timeout hne h rfl
      rw [vcpuStep_timeout hq] at h
      cases h
      exact ⟨rfl, rfl, rfl, rfl, rfl, rfl, rfl, rfl, rfl⟩

/-- a move of the machine that is not a step of a parked core -/
def Awake (phys : Memops σ) (f₀ : MmuFault) (env : Option (EnvOps τ ε)) (v : Vcpu σ ε) (i : Label)
    (v' : Vcpu σ ε) : Prop :=
  Machine phys f₀ env v i v' ∧ (∀ st, i = .step st → ¬ v.Parks phys)

theorem Awake.run {l : List Label} (h : Lts.Run (Awake phys f₀ env) v l v') :
    Lts.Run (Machine phys f₀ env) v l v' ∧ l.count (.step .blocked) = 0 := by
  induction h with
  | nil v => exact ⟨.nil v, rfl⟩
  | cons hs _ ih =>
    refine ⟨.cons hs.1 ih.1, ?_⟩
    rw [List.count_cons_of_ne, ih.2]
    rintro rfl
    obtain ⟨hm, hpark⟩ := hs
    cases hm with
    | step st u hstep => exact hpark _ rfl (Vcpu.Parks.of_blocked hstep)

/-- **a parked step is the one step that shows without succeeding; a run without parked steps keeps
time: the counter advances by the steps that succeed, and the countdown drops by those since the
last refill** -/
theorem clock_law (phys : Memops σ) (f₀ : MmuFault) (env : Option (EnvOps τ ε)) (view : σ → μ)
    (v : Vcpu σ ε) :
    (StepInvisible phys f₀ env view v ↔ ¬ v.Parks phys) ∧
    ∀ l v', Lts.Run (Awake phys f₀ env) v l v' →
      v'.sr.val .cntvct = v.sr.val .cntvct + BitVec.ofNat 64 (l.count (.step .ok)) ∧
      (.rearm ∉ l → v'.insnsLeft = v.insnsLeft - BitVec.ofNat 64 (l.count (.step .ok))) ∧
      ∀ l₁ l₂, l = l₁ ++ .rearm :: l₂ → .rearm ∉ l₂ →
        v'.insnsLeft = v'.quantum - BitVec.ofNat 64 (l₂.count (.step .ok)) := by
  refine ⟨stepInvisible_iff phys f₀ env view v, ?_⟩
  intro l v' h
  obtain ⟨hrun, hnone⟩ := Awake.run h
  refine ⟨?_, fun hl => (run_insnsLeft hrun hl).1, ?_⟩
  · rw [run_cntvct hrun, hnone]
    rfl
  · intro l₁ l₂ hsplit hl₂
    subst hsplit
    obtain ⟨u, -, hu⟩ := hrun.split
    cases hu with
    | cons hs hr =>
      cases hs with
      | rearm =>
        obtain ⟨hleft, hquantum⟩ := run_insnsLeft hr hl₂
        rw [hleft, hquantum]
        rfl

/-- `wfi` with nothing to wake for moves the counter -/
theorem parked_step_shows :
    ¬ ∀ v : Vcpu Memory Unit,
      StepInvisible Memory.memops ⟨0, 0⟩ (none : Option (EnvOps Memory Unit)) id v := by
  intro h
  obtain ⟨v', hstep, hne⟩ : ∃ v', vcpuStep Memory.memops ⟨0, 0⟩
      (none : Option (EnvOps Memory Unit)) (codeVcpu 0xD503207F .el1 0) = some (.blocked, v') ∧
      v'.sr.val .cntvct = 1 := ⟨_, rfl, by decide⟩
  have hsr := (h _ _ _ hstep (.inl rfl)).sr
  rw [hsr] at hne
  exact absurd hne (by decide)

end Oemu
