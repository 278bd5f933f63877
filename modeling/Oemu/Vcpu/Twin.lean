import Oemu.Vcpu.Step
import Oemu.Exec.Sim
import Oemu.Mmu.Twin

/-!
# The core over two worlds

Two cores that differ in their worlds only, and those so related that the translated bus cannot tell
them apart, make the same step: `vcpuStep_twin`.  What the two have in common goes on being in
common, registers, exceptions, waits and aborts of the host included.
-/

namespace Oemu

variable {σ σ' ε τ : Type} {sr : Sysregs} {phys : Memops σ} {phys' : Memops σ'}
  {T : MmuWorld σ → MmuWorld σ' → Prop} {f₀ : MmuFault} {w : MmuWorld σ} {w' : MmuWorld σ'}

/-! ## an instruction -/

theorem busSize_bytes {n : MemSize} (h : BusSize n.count) : n.bytes ≤ 8 := by
  cases n with
  | m128 =>
    have hc : MemSize.m128.count = 16 := by decide
    rw [hc] at h
    rcases h with h | h | h | h <;> exact absurd h (by decide)
  | _ => decide

theorem Twin.busSim (hT : Twin sr phys phys' sr.el T) :
    BusSim BusSize T (mmuMemops sr phys f₀) (mmuMemops sr phys' f₀) where
  readOk h a _ sx hn := (hT.load f₀ a (busSize_bytes hn) sx h).1.congr_left
  read h a _ sx hn _ := (hT.load f₀ a (busSize_bytes hn) sx h).2
  writeOk h a _ v hn := (hT.store f₀ a (busSize_bytes hn) v h).1.congr_left
  write h a _ v hn _ := (hT.store f₀ a (busSize_bytes hn) v h).2
  validateOk h a n q _ := (hT.validateRange h a n q).1.congr_left
  validate h a n q _ := (hT.validateRange h a n q).2

theorem Twin.deliverFault (hT : Twin sr phys phys' sr.el T) (h : T w w') (cpu : Cpu)
    (alt : Regs × Sysregs) :
    Option.Rel (Txn.Alike T) (Oemu.deliverFault cpu sr alt w) (Oemu.deliverFault cpu sr alt w') := by
  have ht := hT.take h
  have hm := hT.mmu h
  unfold Oemu.deliverFault Prog.act
  dsimp only
  rw [hm] at ht ⊢
  rcases hf : w.mmu.takeFault with ⟨f | f, m⟩
  all_goals
    rw [hf] at ht
    exact .some ⟨rfl, ht⟩

theorem Twin.zeroLine (hT : Twin sr phys phys' sr.el T) (h : T w w') (line : W64) :
    Option.Rel (Txn.Alike T) (Oemu.zeroLine (mmuMemops sr phys f₀) line w)
      (Oemu.zeroLine (mmuMemops sr phys' f₀) line w') := by
  rw [zeroLine_apply, zeroLine_apply]
  have hacts : Option.Rel (Txn.Alike T)
      (Txn.actAll (busOps (mmuMemops sr phys f₀)) (zeroActs line) w)
      (Txn.actAll (busOps (mmuMemops sr phys' f₀)) (zeroActs line) w') := by
    refine Txn.actAll_sim (fun i hi u u' hu => hT.busSim.act ?_ hu) h
    obtain ⟨k, -, rfl⟩ := List.mem_map.mp hi
    exact .inr (.inr (.inr rfl))
  generalize Txn.actAll (busOps (mmuMemops sr phys f₀)) (zeroActs line) w = x at hacts ⊢
  generalize Txn.actAll (busOps (mmuMemops sr phys' f₀)) (zeroActs line) w' = y at hacts ⊢
  cases hacts with
  | none => exact .none
  | some hp => exact .some ⟨rfl, hp.2⟩

theorem Twin.doDcZva (hT : Twin sr phys phys' sr.el T) (h : T w w') (cpu : Cpu) (insn : Insn) :
    Option.Rel (Txn.Alike T) (Oemu.doDcZva (mmuMemops sr phys f₀) cpu sr insn w)
      (Oemu.doDcZva (mmuMemops sr phys' f₀) cpu sr insn w') := by
  unfold Oemu.doDcZva
  split
  · exact .some ⟨rfl, h⟩
  · refine Txn.bind_sim (.some (hT.validateRange h _ _ _)) ?_
    intro st u u' hu
    split
    · exact Txn.bind_sim (hT.deliverFault hu cpu _) fun p v v' hv => .some ⟨rfl, hv⟩
    · exact Txn.bind_sim (hT.zeroLine hu _) fun _ v v' hv => .some ⟨rfl, hv⟩

theorem Twin.doSys (hT : Twin sr phys phys' sr.el T) (h : T w w') (cpu : Cpu) (insn : Insn)
    (word : W32) :
    Option.Rel (Txn.Alike T) (Oemu.doSys (mmuMemops sr phys f₀) phys cpu sr insn word w)
      (Oemu.doSys (mmuMemops sr phys' f₀) phys' cpu sr insn word w') := by
  unfold Oemu.doSys
  cases sysAction insn.sel with
  | nop => exact .some ⟨rfl, h⟩
  | trap => exact .some ⟨rfl, h⟩
  | tlbi => exact .some ⟨rfl, hT.flush h⟩
  | «at» =>
    have ht : Option.Rel (Txn.Alike T)
        (Prog.act (fun w => mmuTranslate sr phys w (readG cpu.regs insn.rd false .w64)
          (atWrite word) false) w)
        (Prog.act (fun w => mmuTranslate sr phys' w (readG cpu.regs insn.rd false .w64)
          (atWrite word) false) w') :=
      .some (hT.translate h _ _ _)
    refine Txn.bind_sim ht ?_
    intro t u u' hu
    exact .some ⟨rfl, hu⟩
  | dcZva => exact hT.doDcZva h cpu insn

theorem Twin.dispatchGuest (hT : Twin sr phys phys' sr.el T) (h : T w w') (cpu : Cpu)
    {insn : Insn} (hwf : insn.WellFormed) (word : W32) :
    Option.Rel (Txn.Alike T) (Oemu.dispatchGuest (mmuMemops sr phys f₀) cpu sr insn word w)
      (Oemu.dispatchGuest (mmuMemops sr phys' f₀) cpu sr insn word w') := by
  unfold Oemu.dispatchGuest
  refine Txn.bind_sim (dispatchShared_sim hT.busSim hwf cpu h) ?_
  intro res u u' hu
  split
  · exact Txn.bind_sim (hT.deliverFault hu _ _) fun p v v' hv => .some ⟨rfl, hv⟩
  · split
    · exact .some ⟨rfl, hu⟩
    · exact .some ⟨rfl, hu⟩

def Beside (ε : Type) (T : MmuWorld σ → MmuWorld σ' → Prop) (s : MmuWorld σ × ε)
    (s' : MmuWorld σ' × ε) : Prop := T s.1 s'.1 ∧ s.2 = s'.2

theorem onBus_sim {α : Type} {m : StateT (MmuWorld σ) Option α} {m' : StateT (MmuWorld σ') Option α}
    (h : Option.Rel (Txn.Alike T) (m w) (m' w')) (e : ε) :
    Option.Rel (Txn.Alike (Beside ε T)) (onBus m (w, e)) (onBus m' (w', e)) := by
  unfold onBus
  generalize m w = x at h ⊢
  generalize m' w' = y at h ⊢
  cases h with
  | none => exact .none
  | some hp => exact .some ⟨hp.1, hp.2, rfl⟩

/-- **an instruction** -/
theorem Twin.dispatchSystem (hT : Twin sr phys phys' sr.el T) (h : T w w')
    (env : Option (EnvOps τ ε)) (cpu : Cpu) {insn : Insn} (hwf : insn.WellFormed) (word : W32)
    (e : ε) :
    Option.Rel (Txn.Alike (Beside ε T))
      (Oemu.dispatchSystem (mmuMemops sr phys f₀) phys env cpu sr insn word (w, e))
      (Oemu.dispatchSystem (mmuMemops sr phys' f₀) phys' env cpu sr insn word (w', e)) := by
  by_cases heret : insn.op = .eret
  · rw [dispatchSystem_eret heret, dispatchSystem_eret heret]
    cases excEret cpu.regs sr with
    | none => exact .none
    | some p => exact .some ⟨rfl, h, rfl⟩
  unfold Oemu.dispatchSystem
  cases hop : insn.op <;> first
    | exact absurd hop heret
    | exact .some ⟨rfl, h, rfl⟩
    | exact onBus_sim (Txn.map_sim intercept (hT.doSys h cpu insn word)) e
    | exact onBus_sim (hT.dispatchGuest h cpu hwf word) e

/-! ## a step -/

/-- two cores that differ in their worlds only -/
structure TwinCores (T : MmuWorld σ → MmuWorld σ' → Prop) (v : Vcpu σ ε) (v' : Vcpu σ' ε) :
    Prop where
  cpu : v'.cpu = v.cpu
  sr : v'.sr = v.sr
  world : T v.world v'.world
  env : v'.env = v.env
  irq : v'.irqLevel = v.irqLevel
  fiq : v'.fiqLevel = v.fiqLevel
  event : v'.eventReg = v.eventReg
  quantum : v'.quantum = v.quantum
  left : v'.insnsLeft = v.insnsLeft

/-- the core over another physical bus -/
def Vcpu.withPhys (v : Vcpu σ ε) (p : σ') : Vcpu σ' ε :=
  { v with world := ⟨v.world.mmu, p⟩ }

theorem TwinCores.eq_withPhys {v : Vcpu σ ε} {v' : Vcpu σ' ε} (h : TwinCores T v v')
    (hm : v'.world.mmu = v.world.mmu) : v' = v.withPhys v'.world.phys := by
  obtain ⟨hcpu, hsr, -, henv, hirq, hfiq, hev, hq, hl⟩ := h
  obtain ⟨cpu, sr, ⟨m, p⟩, env, irq, fiq, ev, q, l⟩ := v'
  dsimp only at hcpu hsr henv hirq hfiq hev hq hl hm
  subst hcpu hsr henv hirq hfiq hev hq hl hm
  rfl

def SameStep (T : MmuWorld σ → MmuWorld σ' → Prop) :
    Option (Status × Vcpu σ ε) → Option (Status × Vcpu σ' ε) → Prop :=
  Option.Rel fun p q => p.1 = q.1 ∧ TwinCores T p.2 q.2

variable {v : Vcpu σ ε} {v' : Vcpu σ' ε} {env : Option (EnvOps τ ε)}

theorem TwinCores.execute (hT : Twin v.sr phys phys' v.sr.el T) (h : TwinCores T v v')
    {insn : Insn} (hwf : insn.WellFormed) (word : W32) :
    SameStep T (v.execute phys f₀ env insn word) (v'.execute phys' f₀ env insn word) := by
  have hd : Option.Rel (Txn.Alike (Beside ε T))
      (Oemu.dispatchSystem (mmuMemops v.sr phys f₀) phys env v.cpu v.sr insn word (v.world, v.env))
      _ := hT.dispatchSystem h.world env v.cpu hwf word v.env
  unfold Vcpu.execute
  rw [h.sr, h.cpu, h.env]
  generalize Oemu.dispatchSystem (mmuMemops v.sr phys f₀) phys env v.cpu v.sr insn word
    (v.world, v.env) = x at hd ⊢
  generalize Oemu.dispatchSystem (mmuMemops v.sr phys' f₀) phys' env v.cpu v.sr insn word
    (v'.world, v.env) = y at hd ⊢
  cases hd with
  | none => exact .none
  | @some p q hp =>
    obtain ⟨r, u, e⟩ := p
    obtain ⟨r', u', e'⟩ := q
    obtain ⟨hr, hu, he⟩ := hp
    dsimp only at hr hu he
    subst hr he
    have hcores : TwinCores T { v with cpu := r.2.1, sr := r.2.2, world := u, env := e }
        { v' with cpu := r.2.1, sr := r.2.2, world := u', env := e } :=
      ⟨rfl, rfl, hu, rfl, h.irq, h.fiq, h.event, h.quantum, h.left⟩
    refine .some ?_
    dsimp only
    split
    · exact ⟨rfl, hcores⟩
    · refine ⟨rfl, rfl, rfl, hu, rfl, h.irq, h.fiq, h.event, h.quantum, ?_⟩
      exact congrArg (· - 1) h.left

theorem TwinCores.noteEvent (h : TwinCores T v v') (insn : Insn) :
    TwinCores T (v.noteEvent insn) (v'.noteEvent insn) := by
  unfold Vcpu.noteEvent
  split
  · exact ⟨h.cpu, h.sr, h.world, h.env, h.irq, h.fiq, rfl, h.quantum, h.left⟩
  · split
    · exact ⟨h.cpu, h.sr, h.world, h.env, h.irq, h.fiq, rfl, h.quantum, h.left⟩
    · exact h

theorem TwinCores.trapped (h : TwinCores T v v') (p : Cpu × Sysregs) :
    TwinCores T (v.trapped p).charge (v'.trapped p).charge :=
  ⟨rfl, rfl, h.world, h.env, h.irq, h.fiq, h.event, h.quantum, congrArg (· - 1) h.left⟩

theorem TwinCores.decoded (hT : Twin v.sr phys phys' v.sr.el T) (h : TwinCores T v v')
    (word : W32) :
    SameStep T (v.decoded phys f₀ env word) (v'.decoded phys' f₀ env word) := by
  unfold Vcpu.decoded
  rw [h.cpu]
  cases hd : decode word v.cpu.regs.pc with
  | error st =>
    dsimp only
    rw [h.sr]
    exact .some ⟨rfl, h.trapped _⟩
  | ok insn =>
    have hwake : v'.wakes insn.op = v.wakes insn.op := by
      unfold Vcpu.wakes
      rw [h.irq, h.fiq, h.event]
    have hsr : (v.noteEvent insn).sr = v.sr := by
      obtain ⟨b, hb⟩ := Vcpu.noteEvent_eq (v := v) insn
      rw [hb]
    dsimp only
    rw [hwake]
    split
    · exact .some ⟨rfl, h⟩
    · refine (h.noteEvent insn).execute ?_ (decode_wellFormed hd) word
      rw [hsr]
      exact hT

theorem TwinCores.fetchAbort (hT : Twin v.sr phys phys' v.sr.el T) (h : TwinCores T v v') :
    TwinCores T v.fetchAbort.charge v'.fetchAbort.charge := by
  have ht := hT.take h.world
  unfold Vcpu.fetchAbort
  rw [hT.mmu h.world] at ht ⊢
  rw [h.cpu, h.sr]
  rcases hf : v.world.mmu.takeFault with ⟨f | f, m⟩
  all_goals
    rw [hf] at ht
    exact ⟨rfl, rfl, ht, h.env, h.irq, h.fiq, h.event, h.quantum, congrArg (· - 1) h.left⟩

theorem TwinCores.tick (h : TwinCores T v v') : TwinCores T v.tick v'.tick := by
  refine ⟨h.cpu, ?_, h.world, h.env, h.irq, h.fiq, h.event, h.quantum, h.left⟩
  unfold Vcpu.tick
  rw [h.sr]

/-- **one step of two cores that differ in related worlds only**: one status, one effect on
everything else, and related worlds again -/
theorem vcpuStep_twin (hT : Twin v.tick.sr phys phys' v.sr.el T) (h : TwinCores T v v') :
    SameStep T (vcpuStep phys f₀ env v) (vcpuStep phys' f₀ env v') := by
  have ht := h.tick
  rw [← Vcpu.tick_el] at hT
  unfold vcpuStep
  rw [h.left]
  split
  · exact .some ⟨rfl, h⟩
  · unfold Vcpu.takePending
    rw [ht.sr, ht.cpu, ht.irq, ht.fiq]
    cases pendingKind v.tick.sr.pstate v.tick.irqLevel v.tick.fiqLevel with
    | some kind => exact .some ⟨rfl, ht.trapped _⟩
    | none =>
      dsimp only
      unfold Vcpu.fetched
      obtain ⟨st, p, q, hp, hq, hpq⟩ := (hT.fetch ht.world v.tick.cpu.regs.pc).cases
      obtain ⟨word, u, u', rfl, rfl, hu⟩ := hpq.cases
      rw [← ht.sr, ← ht.cpu] at hq
      have hcores : TwinCores T { v.tick with world := u } { v'.tick with world := u' } :=
        ⟨ht.cpu, ht.sr, hu, ht.env, ht.irq, ht.fiq, ht.event, ht.quantum, ht.left⟩
      have hT' : Twin ({ v.tick with world := u } : Vcpu σ ε).sr phys phys'
        ({ v.tick with world := u } : Vcpu σ ε).sr.el T := hT
      rw [hp, hq]
      cases st with
      | ok => exact TwinCores.decoded hT' hcores word
      | _ => exact .some ⟨rfl, TwinCores.fetchAbort hT' hcores⟩

theorem TwinCores.forth (hT : Twin v.tick.sr phys phys' v.sr.el T) (h : TwinCores T v v')
    {st : Status} {u : Vcpu σ ε} (hstep : vcpuStep phys f₀ env v = some (st, u)) :
    ∃ u', vcpuStep phys' f₀ env v' = some (st, u') ∧ TwinCores T u u' := by
  have hsame : SameStep T (vcpuStep phys f₀ env v) _ := vcpuStep_twin hT h
  rw [hstep] at hsame
  generalize vcpuStep phys' f₀ env v' = x at hsame ⊢
  cases hsame with
  | @some _ q hq =>
    obtain ⟨st', u'⟩ := q
    obtain ⟨rfl, hcores⟩ := hq
    exact ⟨u', rfl, hcores⟩

theorem TwinCores.back (hT : Twin v.tick.sr phys phys' v.sr.el T) (h : TwinCores T v v')
    {st : Status} {u' : Vcpu σ' ε} (hstep : vcpuStep phys' f₀ env v' = some (st, u')) :
    ∃ u, vcpuStep phys f₀ env v = some (st, u) ∧ TwinCores T u u' := by
  have hsame : SameStep T _ (vcpuStep phys' f₀ env v') := vcpuStep_twin hT h
  rw [hstep] at hsame
  generalize vcpuStep phys f₀ env v = x at hsame ⊢
  cases hsame with
  | @some p _ hp =>
    obtain ⟨st', u⟩ := p
    obtain ⟨rfl, hcores⟩ := hp
    exact ⟨u, rfl, hcores⟩

/-! ## pins and the quantum -/

theorem TwinCores.setIrq (h : TwinCores T v v') (level : Bool) :
    TwinCores T (v.setIrq level) (v'.setIrq level) :=
  ⟨h.cpu, h.sr, h.world, h.env, rfl, h.fiq, h.event, h.quantum, h.left⟩

theorem TwinCores.setFiq (h : TwinCores T v v') (level : Bool) :
    TwinCores T (v.setFiq level) (v'.setFiq level) :=
  ⟨h.cpu, h.sr, h.world, h.env, h.irq, rfl, h.event, h.quantum, h.left⟩

theorem TwinCores.rearm (h : TwinCores T v v') : TwinCores T v.rearm v'.rearm :=
  ⟨h.cpu, h.sr, h.world, h.env, h.irq, h.fiq, h.event, h.quantum, h.quantum⟩

end Oemu
