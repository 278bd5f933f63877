import Oemu.Vcpu.Step
import Oemu.Mmu.Reach

/-!
# Isolation of EL0

A step at EL0 that delivers no exception changes the general, vector and EL0 registers, and memory
where the translation grants EL0 a write; everything of EL1 and above stays as it was.  `El0Frame`
says so.  Two instructions break it: an address translation request publishes its verdict in
`PAR_EL1`, which has no level check, and `TPIDRRO_EL0` is a writable row of the table at EL0.

* `sysregWrite_el0`        what the table lets EL0 write;
* `dispatchShared_reach`   what the shared switch does to the world;
* `el0_isolation_iff`      the frame holds exactly when the step is neither of the two.
-/

namespace Oemu

variable {σ ε τ : Type}

/-! ## the table at EL0 -/

def selTpidrro : W32 := 0x1E83

/-- the stored fields that are EL0's own, and the counter -/
def El0Field (f : SysField) : Prop :=
  f = .spEl .el0 ∨ f = .fpcr ∨ f = .fpsr ∨ f = .tpidrEl0 ∨ f = .cntvct

instance (f : SysField) : Decidable (El0Field f) := by
  unfold El0Field
  infer_instance

/-- a row EL0 may write, and where it writes -/
def Row.el0Target (row : Row) : Bool :=
  match row.set, row.field with
  | some g, _ => decide (g = .spEl0 ∨ g = .nzcv)
  | none, some f =>
    decide (El0Field f) ||
      decide (f = .tpidrroEl0 ∧ row.sel = selTpidrro ∧ row.writeMask = full)
  | none, none => true

theorem kRows_el0 :
    ∀ row ∈ kRows, row.minEl.num ≤ 0 → row.flags = .none → row.el0Target = true := by
  decide

/-- what the table lets EL0 write: its own registers, and `TPIDRRO_EL0` -/
theorem sysregWrite_el0 {r : Regs} {sr : Sysregs} {sel : W32} {value : W64} {p : Regs × Sysregs}
    (hel : sr.el = .el0) (h : sysregWrite r sr sel value = some p) :
    (sel = selTpidrro ∧ p = (r, sr.set .tpidrroEl0 value)) ∨
      ∀ f, ¬ El0Field f → p.2.val f = sr.val f := by
  obtain ⟨row, hm, hsel, hmin, -, hp⟩ := sysregWrite_cases h
  rcases hp with ⟨-, rfl⟩ | ⟨hfl, rfl⟩
  · exact .inr fun f _ => rfl
  · rw [hel] at hmin
    have ht := kRows_el0 row hm hmin hfl
    unfold Row.el0Target at ht
    unfold rowWrite
    cases hset : row.set with
    | some g =>
      rw [hset] at ht
      right
      intro f hf
      rcases of_decide_eq_true ht with rfl | rfl
      · show (sr.set (.spEl .el0) value).val f = _
        rw [Sysregs.set_val_of_ne]
        rintro rfl
        exact hf (.inl rfl)
      · rfl
    | none =>
      rw [hset] at ht
      cases hfield : row.field with
      | none => exact .inr fun f _ => rfl
      | some f =>
        rw [hfield] at ht
        dsimp only at ht ⊢
        rcases Bool.or_eq_true_iff.mp ht with h' | h'
        · right
          intro g hg
          show (sr.set f _).val g = _
          rw [Sysregs.set_val_of_ne]
          rintro rfl
          exact hg (of_decide_eq_true h')
        · left
          obtain ⟨rfl, hs, hmask⟩ := of_decide_eq_true h'
          refine ⟨hsel.symm.trans hs, ?_⟩
          simp only [hmask, full, BitVec.not_allOnes, BitVec.and_zero, BitVec.zero_or,
            BitVec.and_allOnes]

/-! ## the shared switch -/

theorem fallThrough_tpidrur (res : Status × Cpu) :
    (fallThrough res).2.tpidrurEl0 = res.2.tpidrurEl0 := by
  unfold fallThrough
  split <;> rfl

/-- without a register move the thread register of user mode is not written -/
theorem dispatchPure_tpidrur {cpu : Cpu} {insn : Insn} (hop : ¬ Intercepted insn.op) :
    (dispatchPure cpu insn).2.tpidrurEl0 = cpu.tpidrurEl0 := by
  unfold dispatchPure
  split
  · exact fallThrough_tpidrur _
  · unfold Intercepted at hop
    cases ho : insn.op <;> rw [ho] at hop <;>
      first
      | rfl
      | exact absurd hop (by decide)
      | (dsimp only; unfold branchTo; split <;> rfl)

theorem dispatchShared_tpidrur {mem : Memops σ} {cpu : Cpu} {insn : Insn} {s s' : σ}
    {res : Status × Cpu} (hop : ¬ Intercepted insn.op)
    (h : dispatchShared mem cpu insn s = some (res, s')) :
    res.2.tpidrurEl0 = cpu.tpidrurEl0 := by
  rcases dispatchShared_run h with ⟨-, hr, -⟩ | ⟨t, -, hr, -⟩ | ⟨t, s₁, vs, hp, -, -, hr⟩
  · rw [hr]
    exact dispatchPure_tpidrur hop
  · rw [hr]
  · rw [hr, fallThrough_tpidrur]
    exact congrArg Prod.snd (memPlan_commit_aside hp vs)

section

variable {sr : Sysregs} {phys : Memops σ} {f₀ : MmuFault} {w w' : MmuWorld σ}

theorem checkAll_reach (sr : Sysregs) (phys : Memops σ) (f₀ : MmuFault) (w : MmuWorld σ)
    (l : List Check) :
    Reach sr phys sr.el w (Txn.checkAll (busOps (mmuMemops sr phys f₀)) l w).2 :=
  Txn.checkAll_rel (R := Reach sr phys sr.el) (fun _ => .refl) (fun _ _ _ h h' => h.trans h')
    (busOps (mmuMemops sr phys f₀))
    (fun c _ _ => reach_mmuValidate sr phys _ c.addr c.size c.perm) w

theorem act_reach {i : Access} {b : W64}
    (h : (busOps (mmuMemops sr phys f₀)).act i w = some (b, w')) : Reach sr phys sr.el w w' := by
  cases i with
  | read a n sx =>
    have hr := reach_mmuRead sr phys w f₀ a n sx
    dsimp only [busOps] at h
    split at h
    · have e := congrArg Prod.snd (Option.some.inj h)
      dsimp only at e
      rw [← e]
      exact hr
    · cases h
  | write a n v =>
    have hr := reach_mmuWrite sr phys w f₀ a n v
    dsimp only [busOps] at h
    split at h
    · have e := congrArg Prod.snd (Option.some.inj h)
      dsimp only at e
      rw [← e]
      exact hr
    · cases h

theorem actAll_reach {l : List Access} {vs : List W64}
    (h : Txn.actAll (busOps (mmuMemops sr phys f₀)) l w = some (vs, w')) :
    Reach sr phys sr.el w w' :=
  Txn.actAll_rel (R := Reach sr phys sr.el) (fun _ => .refl) (fun _ _ _ h h' => h.trans h')
    (busOps (mmuMemops sr phys f₀)) (fun _ _ _ _ _ hi => act_reach hi) h

/-- the switch reaches the world through the translated bus only -/
theorem dispatchShared_reach {cpu : Cpu} {insn : Insn} {res : Status × Cpu}
    (h : dispatchShared (mmuMemops sr phys f₀) cpu insn w = some (res, w')) :
    Reach sr phys sr.el w w' := by
  rcases dispatchShared_run h with ⟨-, -, hs⟩ | ⟨t, -, -, hc⟩ | ⟨t, w₁, vs, -, hc, ha, -⟩
  · rw [hs]
    exact .refl
  · have := checkAll_reach sr phys f₀ w t.checks
    rw [hc] at this
    exact this
  · have := checkAll_reach sr phys f₀ w t.checks
    rw [hc] at this
    exact this.trans (actAll_reach ha)

end

/-! ## the frame -/

/-- what a step at EL0 leaves alone: every stored register that is not EL0's own, and memory outside
what the translation grants EL0 to write.  Of the processor only the thread register of user mode is
left to speak of. -/
structure El0Frame (phys : Memops σ) (v v' : Vcpu σ ε) : Prop where
  sysregs : ∀ f, ¬ El0Field f → v'.sr.val f = v.sr.val f
  tpidrur : v'.cpu.tpidrurEl0 = v.cpu.tpidrurEl0
  memory : Reach v.tick.sr phys .el0 v.world v'.world

/-- the step is an address translation request whose verdict is not in `PAR_EL1` yet, or a move to
`TPIDRRO_EL0` of a value it does not hold -/
def El0Leak (phys : Memops σ) (v : Vcpu σ ε) : Prop :=
  v.insnsLeft ≠ 0 ∧ v.pending = none ∧ (v.fetch phys).1 = .ok ∧
    ∃ insn, decode (v.fetch phys).2.1 v.cpu.regs.pc = .ok insn ∧
      ((insn.op = .sys ∧ sysAction insn.sel = .at ∧
          parOf (mmuTranslate v.tick.sr phys (v.fetch phys).2.2
            (readG v.cpu.regs insn.rd false .w64) (atWrite (v.fetch phys).2.1) false).1 ≠
              v.sr.val .parEl1) ∨
        (insn.op = .msr ∧ insn.sel = selTpidrro ∧
          readG v.cpu.regs insn.rd false .w64 ≠ v.sr.val .tpidrroEl0))

variable {phys : Memops σ} {f₀ : MmuFault} {env : Option (EnvOps τ ε)} {v v' : Vcpu σ ε}
  {st : Status}

theorem tick_el0Field {f : SysField} (h : ¬ El0Field f) : v.tick.sr.val f = v.sr.val f := by
  apply Vcpu.tick_val
  rintro rfl
  exact h (by unfold El0Field; simp)

theorem fetch_reach (phys : Memops σ) (hel : v.sr.el = .el0) :
    Reach v.tick.sr phys .el0 v.world (v.fetch phys).2.2 := by
  have := reach_mmuFetch32 v.tick.sr phys v.world v.cpu.regs.pc
  rwa [Vcpu.tick_el, hel] at this

theorem executed_el0Frame (hel : v.sr.el = .el0) (hq : v.insnsLeft ≠ 0) (hp : v.pending = none)
    (hf : (v.fetch phys).1 = .ok) {insn : Insn}
    (hd : decode (v.fetch phys).2.1 v.cpu.regs.pc = .ok insn)
    (ho : Outcome (mmuMemops v.tick.sr phys f₀) phys v.cpu v.tick.sr insn (v.fetch phys).2.1
      ((v.fetch phys).2.2, v.env) st (v'.cpu, v'.sr) (v'.world, v'.env))
    (ht : v'.sr.taken = v.sr.taken) (hn : ¬ El0Leak phys v) : El0Frame phys v v' := by
  have hfetch := fetch_reach phys hel
  have htel : v.tick.sr.el = .el0 := Vcpu.tick_el.trans hel
  have hreach : ∀ {w : MmuWorld σ}, Reach v.tick.sr phys v.tick.sr.el (v.fetch phys).2.2 w →
      Reach v.tick.sr phys .el0 v.world w := by
    intro w hw
    rw [htel] at hw
    exact hfetch.trans hw
  generalize hc : v'.cpu = cpu' at ho
  generalize hs : v'.sr = sr' at ho
  generalize hw : v'.world = w' at ho
  generalize he : v'.env = e' at ho
  have frame : (∀ f, ¬ El0Field f → sr'.val f = v.tick.sr.val f) →
      cpu'.tpidrurEl0 = v.cpu.tpidrurEl0 → Reach v.tick.sr phys .el0 v.world w' →
      El0Frame phys v v' := by
    intro h1 h2 h3
    subst hc hs hw
    exact ⟨fun f hf => (h1 f hf).trans (tick_el0Field hf), h2, h3⟩
  rw [hs] at ht
  cases ho with
  | invalid => exact frame (fun _ _ => rfl) rfl hfetch
  | took => exact (excTake_taken_ne _ _ _ _ _ _ ht).elim
  | eret _ hne => exact absurd htel hne
  | firmware => exact frame (fun _ _ => rfl) rfl hfetch
  | mrs => exact frame (fun _ _ => rfl) rfl hfetch
  | msr hop p hwr =>
    rcases sysregWrite_el0 htel hwr with ⟨hsel, rfl⟩ | h
    · refine frame ?_ rfl hfetch
      intro f hfe
      by_cases hro : f = .tpidrroEl0
      · subst hro
        rw [Sysregs.set_val_self]
        by_contra hne
        refine hn ⟨hq, hp, hf, insn, hd, .inr ⟨hop, hsel, ?_⟩⟩
        rwa [tick_el0Field hfe] at hne
      · exact Sysregs.set_val_of_ne _ _ hro
    · exact frame h rfl hfetch
  | msrImm hop sel value p hsel hwr =>
    have hnone : sysregWrite v.cpu.regs v.tick.sr sel value = none := by
      rcases hsel with rfl | rfl
      · exact (sysreg_el1 sysregFind_spsel _ _ _).1.mpr htel
      · exact (sysreg_el1 sysregFind_daif _ _ _).1.mpr htel
    rw [hnone] at hwr
    cases hwr
  | msrImmNop => exact frame (fun _ _ => rfl) rfl hfetch
  | msrImmStuck => exact frame (fun _ _ => rfl) rfl hfetch
  | sysNop => exact frame (fun _ _ => rfl) rfl hfetch
  | tlbi => exact frame (fun _ _ => rfl) rfl (hreach (.single .flush))
  | «at» hop ha =>
    refine frame ?_ rfl (hreach (reach_translate _ _ _ _ _ _ _))
    intro f hfe
    by_cases hpar : f = .parEl1
    · subst hpar
      rw [Sysregs.set_val_self]
      by_contra hne
      refine hn ⟨hq, hp, hf, insn, hd, .inl ⟨hop, ha, ?_⟩⟩
      rwa [tick_el0Field hfe] at hne
    · exact Sysregs.set_val_of_ne _ _ hpar
  | dcZva hop ha w w' vs hcv hact =>
    refine frame (fun _ _ => rfl) rfl (hreach ?_)
    have h1 := reach_mmuValidate v.tick.sr phys (v.fetch phys).2.2
      (lineOf (readG v.cpu.regs insn.rd false .w64)) cacheLine permWrite
    have h2 : mmuValidate v.tick.sr phys (v.fetch phys).2.2
      (lineOf (readG v.cpu.regs insn.rd false .w64)) cacheLine permWrite = (.ok, w) := hcv
    rw [h2] at h1
    exact h1.trans (actAll_reach hact)
  | shared st cpu' w hop _ _ hsh =>
    exact frame (fun _ _ => rfl) (dispatchShared_tpidrur hop hsh)
      (hreach (dispatchShared_reach hsh))

/-! ## the two instructions -/

theorem at_run (mem : Memops (MmuWorld σ)) (phys : Memops σ) (env : Option (EnvOps τ ε)) (cpu : Cpu)
    (sr : Sysregs) {insn : Insn} (word : W32) (s : MmuWorld σ × ε) (hop : insn.op = .sys) (ha : sysAction insn.sel = .at) :
    ∃ cpu' s', dispatchSystem mem phys env cpu sr insn word s =
      some ((.ok, cpu', sr.set .parEl1 (parOf (mmuTranslate sr phys s.1
        (readG cpu.regs insn.rd false .w64) (atWrite word) false).1)), s') := by
  refine ⟨{ cpu with regs := cpu.regs.advancePc }, ((mmuTranslate sr phys s.1
    (readG cpu.regs insn.rd false .w64) (atWrite word) false).2, s.2), ?_⟩
  unfold dispatchSystem
  rw [hop]
  dsimp only
  unfold doSys
  rw [ha]
  rfl

theorem tpidrro_run (mem : Memops (MmuWorld σ)) (phys : Memops σ) (env : Option (EnvOps τ ε))
    (cpu : Cpu) (sr : Sysregs) {insn : Insn} (word : W32) (s : MmuWorld σ × ε) (hop : insn.op = .msr) (hsel : insn.sel = selTpidrro) :
    ∃ cpu' s', dispatchSystem mem phys env cpu sr insn word s =
      some ((.ok, cpu', sr.set .tpidrroEl0 (readG cpu.regs insn.rd false .w64)), s') := by
  refine ⟨{ cpu with regs := cpu.regs.advancePc }, s, ?_⟩
  have hrow : ∃ row, sysregFind selTpidrro = some row ∧ row.minEl = .el0 ∧ row.flags = .none ∧
      row.set = none ∧ row.field = some .tpidrroEl0 ∧ row.writeMask = full := by
    refine ⟨_, rfl, ?_, ?_, ?_, ?_, ?_⟩ <;> decide
  have hw : sysregWrite cpu.regs sr insn.sel (readG cpu.regs insn.rd false .w64) =
      some (cpu.regs, sr.set .tpidrroEl0 (readG cpu.regs insn.rd false .w64)) := by
    obtain ⟨row, hfind, hmin, hfl, hset, hfield, hmask⟩ := hrow
    unfold sysregWrite rowAccessAllowed rowWrite
    rw [hsel, hfind]
    dsimp only
    rw [hmin, hfl, hset, hfield, hmask]
    simp only [El.num, Nat.zero_le, decide_true, Bool.not_true, reduceCtorEq, decide_false,
      Bool.or_self, Bool.false_eq_true, if_false, full, BitVec.not_allOnes, BitVec.and_zero,
      BitVec.zero_or, BitVec.and_allOnes]
  unfold dispatchSystem
  rw [hop]
  dsimp only
  unfold doMsrSystem
  dsimp only
  rw [hw]
  rfl

theorem leak_breaks (f₀ : MmuFault) (env : Option (EnvOps τ ε)) (hl : El0Leak phys v) :
    ∃ v', vcpuStep phys f₀ env v = some (.ok, v') ∧ v'.sr.taken = v.sr.taken ∧
      ¬ El0Frame phys v v' := by
  obtain ⟨hq, hp, hf, insn, hd, ⟨hop, ha, hne⟩ | ⟨hop, hsel, hne⟩⟩ := hl
  · obtain ⟨cpu', s', hrun⟩ := at_run (mmuMemops v.tick.sr phys f₀) phys env v.cpu v.tick.sr
      (v.fetch phys).2.1 ((v.fetch phys).2.2, v.env) hop ha
    obtain ⟨v', hv, -, hsr, -⟩ := Vcpu.Reaches.execute ⟨hq, hp, hf, hd⟩ (by rw [hop]; decide) hrun
    refine ⟨v', hv, by rw [hsr]; rfl, ?_⟩
    intro hfr
    have := hfr.sysregs .parEl1 (by decide)
    rw [hsr, Sysregs.set_val_self] at this
    exact hne this
  · obtain ⟨cpu', s', hrun⟩ := tpidrro_run (mmuMemops v.tick.sr phys f₀) phys env v.cpu
      v.tick.sr (v.fetch phys).2.1 ((v.fetch phys).2.2, v.env) hop hsel
    obtain ⟨v', hv, -, hsr, -⟩ := Vcpu.Reaches.execute ⟨hq, hp, hf, hd⟩ (by rw [hop]; decide) hrun
    refine ⟨v', hv, by rw [hsr]; rfl, ?_⟩
    intro hfr
    have := hfr.sysregs .tpidrroEl0 (by decide)
    rw [hsr, Sysregs.set_val_self] at this
    exact hne this

/-- **a step at EL0 that delivers no exception keeps everything of EL1 and above and writes memory
only where EL0 may, exactly when it is neither an address translation request with a new verdict nor
a move of a new value to `TPIDRRO_EL0`** -/
theorem el0_isolation_iff (phys : Memops σ) (f₀ : MmuFault) (env : Option (EnvOps τ ε))
    (v : Vcpu σ ε) (hel : v.sr.el = .el0) :
    (∀ st v', vcpuStep phys f₀ env v = some (st, v') → v'.sr.taken = v.sr.taken →
        El0Frame phys v v') ↔
      ¬ El0Leak phys v := by
  constructor
  · intro h hl
    obtain ⟨v', hv, ht, hn⟩ := leak_breaks f₀ env hl
    exact hn (h .ok v' hv ht)
  · intro hn st v' h ht
    have hfetch := fetch_reach phys hel
    by_cases hq : v.insnsLeft = 0
    · unfold vcpuStep at h
      rw [if_pos hq] at h
      cases h
      exact ⟨fun _ _ => rfl, rfl, .refl⟩
    · cases vcpuStep_outcome h with
      | timeout hq' => exact absurd hq' hq
      | interrupt kind hp v' hcpu hworld =>
        rw [(Prod.mk.inj hcpu).2] at ht
        exact (excTake_taken_ne _ _ _ _ _ _ ht).elim
      | fetchAbort hp hf esr far v' hcpu hworld =>
        rw [(Prod.mk.inj hcpu).2] at ht
        exact (excTake_taken_ne _ _ _ _ _ _ ht).elim
      | undecoded hp hf st hd v' hcpu hworld =>
        rw [(Prod.mk.inj hcpu).2] at ht
        exact (excTake_taken_ne _ _ _ _ _ _ ht).elim
      | blocked => exact ⟨fun f hf => tick_el0Field hf, rfl, hfetch⟩
      | executed hp hf insn hd st v' ho => exact executed_el0Frame hel hq hp hf hd ho ht hn

/-- `str x0, [x0]` at EL0 -/
theorem el0_isolation_store :
    (codeVcpu 0xF9000000 .el0 0x1800).sr.el = .el0 ∧
      ∃ v', vcpuStep Memory.memops ⟨0, 0⟩ (none : Option (EnvOps Memory Unit))
          (codeVcpu 0xF9000000 .el0 0x1800) = some (.ok, v') ∧
        v'.sr.taken = (codeVcpu 0xF9000000 .el0 0x1800).sr.taken ∧
        v'.world.phys.heap 0x801 = 0x18 ∧
        El0Frame Memory.memops (codeVcpu 0xF9000000 .el0 0x1800) v' := by
  have hel : (codeVcpu 0xF9000000 .el0 0x1800).sr.el = .el0 := by decide
  have hleak : ¬ El0Leak Memory.memops (codeVcpu 0xF9000000 .el0 0x1800) := by
    obtain ⟨i, hi, hsys, hmsr⟩ : ∃ i, decode ((codeVcpu 0xF9000000 .el0 0x1800).fetch
        Memory.memops).2.1 (codeVcpu 0xF9000000 .el0 0x1800).cpu.regs.pc = .ok i ∧ i.op ≠ .sys ∧
          i.op ≠ .msr := ⟨_, rfl, by decide, by decide⟩
    rintro ⟨-, -, -, insn, hd, h⟩
    rw [hi] at hd
    cases hd
    rcases h with ⟨hop, -⟩ | ⟨hop, -⟩
    · exact hsys hop
    · exact hmsr hop
  have hstep : ∃ v', vcpuStep Memory.memops ⟨0, 0⟩ (none : Option (EnvOps Memory Unit))
      (codeVcpu 0xF9000000 .el0 0x1800) = some (.ok, v') ∧
        v'.sr.taken = (codeVcpu 0xF9000000 .el0 0x1800).sr.taken ∧
        v'.world.phys.heap 0x801 = 0x18 := ⟨_, rfl, by decide, by decide +kernel⟩
  obtain ⟨v', hv, ht, hbyte⟩ := hstep
  exact ⟨hel, v', hv, ht, hbyte, (el0_isolation_iff _ _ _ _ hel).mpr hleak .ok v' hv ht⟩

/-- `msr TPIDRRO_EL0, x0` at EL0 -/
theorem el0_writes_tpidrro :
    (codeVcpu 0xD51BD060 .el0 0x42).sr.el = .el0 ∧
      ∃ v', vcpuStep Memory.memops ⟨0, 0⟩ (none : Option (EnvOps Memory Unit))
          (codeVcpu 0xD51BD060 .el0 0x42) = some (.ok, v') ∧
        v'.sr.taken = (codeVcpu 0xD51BD060 .el0 0x42).sr.taken ∧
        (codeVcpu 0xD51BD060 .el0 0x42).sr.val .tpidrroEl0 = 0 ∧ v'.sr.val .tpidrroEl0 = 0x42 ∧
        ¬ El0Frame Memory.memops (codeVcpu 0xD51BD060 .el0 0x42) v' := by
  refine ⟨by decide, _, rfl, by decide, by decide, by decide, ?_⟩
  intro h
  have := h.sysregs .tpidrroEl0 (by decide)
  revert this
  decide

end Oemu
