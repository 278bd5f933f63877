import Oemu.Vcpu.El0
import Oemu.Vcpu.Machine
import Oemu.Mmu.Integrity

/-!
# Spatial isolation of a program at EL0

A run of the core at EL0, up to and with the step that enters an exception, changes no byte of RAM
outside the pages the tables grant EL0 to write, and none of the registers that decide what those
are.  So it cannot make itself more room either: every translation goes on being answered by the
tables as they were.

The tables have to lie outside those pages themselves, and no two RAM regions may share a buffer;
devices may be mapped anywhere else, and go on between the steps.

* `step_reach`, `step_held`   what one step at EL0 does to the world and to the bank;
* `el0_memory_isolation`      every run.
-/

namespace Oemu

variable {σ ε τ δ : Type}

/-! ## one step -/

/-- the stored fields a step at EL0 can change: EL0's own, the two that leak, and those an exception
entry writes -/
def UserTouched (f : SysField) : Prop :=
  El0Field f ∨ f = .parEl1 ∨ f = .tpidrroEl0 ∨ f = .pstate ∨
    ∃ e, f = .spEl e ∨ f = .farEl e ∨ f = .esrEl e ∨ f = .elrEl e ∨ f = .spsrEl e

section

variable {phys : Memops σ} {f₀ : MmuFault} {env : Option (EnvOps τ ε)} {v v' : Vcpu σ ε}
  {st : Status} {f : SysField}

theorem excTake_held (hf : ¬ UserTouched f) (r : Regs) (sr : Sysregs) (kind : ExcKind)
    (target : ExcTarget) (esr : W32) (far : Option W64) :
    (excTake r sr kind target esr far).2.val f = sr.val f := by
  have hne : ∀ e, f ≠ .spEl e ∧ f ≠ .farEl e ∧ f ≠ .esrEl e ∧ f ≠ .elrEl e ∧ f ≠ .spsrEl e := by
    intro e
    refine ⟨?_, ?_, ?_, ?_, ?_⟩ <;>
      · rintro rfl
        exact hf (by simp [UserTouched])
  have hp : f ≠ .pstate := by
    rintro rfl
    exact hf (by simp [UserTouched])
  rw [excTake_val, if_neg (fun h => (hne target).2.1 h.1), if_neg (fun h => (hne target).2.2.1 h.1),
    if_neg (hne target).2.2.2.1, if_neg (hne target).2.2.2.2]
  exact switchSp_val r sr (entryPstate target) hp (fun e => (hne e).1)

theorem tick_held (hf : ¬ UserTouched f) : v.tick.sr.val f = v.sr.val f :=
  tick_el0Field (fun h => hf (.inl h))

theorem trapped_held (hf : ¬ UserTouched f) {r : Regs} {kind : ExcKind} {target : ExcTarget} {esr : W32}
    {far : Option W64}
    (hcpu : (v'.cpu, v'.sr) = v.cpu.trapped (excTake r v.tick.sr kind target esr far)) :
    v'.sr.val f = v.sr.val f := by
  rw [(Prod.mk.inj hcpu).2]
  exact (excTake_held hf r v.tick.sr kind target esr far).trans (tick_held hf)

theorem outcome_held (hel : v.sr.el = .el0) (hf : ¬ UserTouched f) {mem : Memops (MmuWorld σ)}
    {insn : Insn} {word : W32} {s s' : MmuWorld σ × ε} {p : Cpu × Sysregs}
    (h : Outcome mem phys v.cpu v.tick.sr insn word s st p s') : p.2.val f = v.sr.val f := by
  have htel : v.tick.sr.el = .el0 := Vcpu.tick_el.trans hel
  have ht := tick_held (v := v) hf
  cases h with
  | took c esr far => exact (excTake_held hf _ _ _ _ _ _).trans ht
  | eret _ hne => exact absurd htel hne
  | msr hop q hwr =>
    rcases sysregWrite_el0 htel hwr with ⟨-, rfl⟩ | h
    · refine (Sysregs.set_val_of_ne _ _ ?_).trans ht
      rintro rfl
      exact hf (by simp [UserTouched])
    · exact (h f (fun h0 => hf (.inl h0))).trans ht
  | msrImm hop sel value q hsel hwr =>
    have hnone : sysregWrite v.cpu.regs v.tick.sr sel value = none := by
      rcases hsel with rfl | rfl
      · exact (sysreg_el1 sysregFind_spsel _ _ _).1.mpr htel
      · exact (sysreg_el1 sysregFind_daif _ _ _).1.mpr htel
    rw [hnone] at hwr
    cases hwr
  | «at» =>
    refine (Sysregs.set_val_of_ne _ _ ?_).trans ht
    rintro rfl
    exact hf (by simp [UserTouched])
  | _ => exact ht

/-- **a step at EL0 keeps every register of EL1** but the ones an exception entry writes and the two
that leak -/
theorem step_held (hel : v.sr.el = .el0) (h : vcpuStep phys f₀ env v = some (st, v'))
    (hf : ¬ UserTouched f) : v'.sr.val f = v.sr.val f := by
  cases vcpuStep_outcome h with
  | timeout => rfl
  | interrupt kind hp v' hcpu => exact trapped_held hf hcpu
  | fetchAbort hp hfe esr far v' hcpu => exact trapped_held hf hcpu
  | undecoded hp hfe st hd v' hcpu => exact trapped_held hf hcpu
  | blocked => exact tick_held hf
  | executed hp hfe insn hd st v' ho => exact outcome_held hel hf ho

theorem Probed.reach {sr : Sysregs} {w w' : MmuWorld σ} (h : Probed (mmuMemops sr phys f₀) w w') :
    Reach sr phys sr.el w w' :=
  h.rel (R := Reach sr phys sr.el) (fun _ => .refl) (fun _ _ _ h h' => h.trans h')
    (fun w a n perm => reach_mmuValidate sr phys w a n perm) (fun _ => .single .take)

/-- what an instruction does to the world, at any level -/
theorem Outcome.reach {sr : Sysregs} {cpu : Cpu} {insn : Insn} {word : W32} {s s' : MmuWorld σ × ε}
    {p : Cpu × Sysregs} (h : Outcome (mmuMemops sr phys f₀) phys cpu sr insn word s st p s') :
    Reach sr phys sr.el s.1 s'.1 := by
  cases h with
  | took c esr far w e hc hfar hw => exact hw.reach
  | tlbi => exact .single .flush
  | «at» => exact reach_translate _ _ _ _ _ _ _
  | dcZva hop ha w w' vs hcv hact =>
    have h1 := reach_mmuValidate sr phys s.1 (lineOf (readG cpu.regs insn.rd false .w64)) cacheLine
      permWrite
    rw [show mmuValidate sr phys s.1 _ cacheLine permWrite = (.ok, w) from hcv] at h1
    exact h1.trans (actAll_reach hact)
  | shared st cpu' w hop _ _ hsh => exact dispatchShared_reach hsh
  | _ => exact .refl

/-- the instruction abort consumes the record, if there is one -/
theorem fetchAbort_world (v : Vcpu σ ε) :
    v.fetchAbort.world = { v.world with mmu := v.world.mmu.takeFault.2 } := by
  unfold Vcpu.fetchAbort
  rcases v.world.mmu.takeFault with ⟨f | f, m⟩ <;> rfl

/-- **a step reaches the world through the translated bus only**, also when it delivers -/
theorem step_reach (h : vcpuStep phys f₀ env v = some (st, v')) :
    Reach v.tick.sr phys v.sr.el v.world v'.world := by
  have hfetch : Reach v.tick.sr phys v.sr.el v.world (v.fetch phys).2.2 := by
    rw [← Vcpu.tick_el]
    exact reach_mmuFetch32 v.tick.sr phys v.world v.cpu.regs.pc
  cases vcpuStep_outcome h with
  | timeout => exact .refl
  | interrupt kind hp v' hcpu hworld =>
    rw [hworld]
    exact .refl
  | fetchAbort hp hf esr far v' hcpu hworld =>
    have hq : v.insnsLeft ≠ 0 := by
      intro h0
      rw [vcpuStep_timeout h0] at h
      cases h
    rw [vcpuStep_quiet hq hp] at h
    unfold Vcpu.fetched at h
    have hfe : mmuFetch32 v.tick.sr phys v.tick.world v.tick.cpu.regs.pc = v.fetch phys := rfl
    rw [hfe] at h
    rcases hr : v.fetch phys with ⟨fst, word, w⟩
    rw [hr] at hf h hfetch
    have hstep : some (Status.ok, ({ v.tick with world := w }.fetchAbort).charge) =
        some (Status.ok, v') := by
      cases fst <;> first | exact absurd rfl hf | exact h
    cases hstep
    show Reach v.tick.sr phys v.sr.el v.world ({ v.tick with world := w }.fetchAbort).world
    rw [fetchAbort_world]
    exact .tail hfetch .take
  | undecoded hp hf st hd v' hcpu hworld =>
    rw [hworld]
    exact hfetch
  | blocked => exact hfetch
  | executed hp hf insn hd st v' ho =>
    have hr := ho.reach
    rw [Vcpu.tick_el] at hr
    exact hfetch.trans hr

end

/-! ## runs -/

/-- the core at EL0 and what goes on beside it: steps from EL0 only, the pins, the quantum, and the
devices, which change no RAM -/
def UserMachine (f₀ : MmuFault) (env : Option (EnvOps τ ε)) (v : Vcpu (Aspace δ) ε) (i : Label)
    (v' : Vcpu (Aspace δ) ε) : Prop :=
  Machine Aspace.memops f₀ env v i v' ∧ (∀ st, i = .step st → v.sr.el = .el0) ∧
    (i = .host → v'.world.phys.ram = v.world.phys.ram)

/-- what a program at EL0 has left as it was: memory it may not write, and the registers it may not -/
structure Isolated (sr : Sysregs) (as : Aspace δ) (v : Vcpu (Aspace δ) ε) : Prop where
  confined : Confined sr as v.world
  held : ∀ f, ¬ UserTouched f → v.sr.val f = sr.val f

theorem Isolated.epoch {sr : Sysregs} {as : Aspace δ} {v : Vcpu (Aspace δ) ε}
    (h : Isolated sr as v) : tlbEpochRead v.sr = tlbEpochRead sr := by
  unfold tlbEpochRead
  rw [h.held .sctlrEl1 (by simp [UserTouched, El0Field]),
    h.held .tcrEl1 (by simp [UserTouched, El0Field]),
    h.held .ttbr0El1 (by simp [UserTouched, El0Field]),
    h.held .ttbr1El1 (by simp [UserTouched, El0Field]),
    h.held .mairEl1 (by simp [UserTouched, El0Field])]

theorem tick_epoch (v : Vcpu σ ε) : tlbEpochRead v.tick.sr = tlbEpochRead v.sr := rfl

theorem Isolated.move {f₀ : MmuFault} {env : Option (EnvOps τ ε)} {sr : Sysregs} {as : Aspace δ}
    (hs : as.Separate) (hf : TablesFenced sr as) {v v' : Vcpu (Aspace δ) ε} {i : Label}
    (h : Isolated sr as v) (hm : UserMachine f₀ env v i v') : Isolated sr as v' := by
  obtain ⟨hmove, hstep, hhost⟩ := hm
  cases hmove with
  | step st v' hv =>
    have hel := hstep st rfl
    refine ⟨?_, fun f hf' => (step_held hel hv hf').trans (h.held f hf')⟩
    have he : tlbEpochRead v.tick.sr = tlbEpochRead sr := (tick_epoch v).trans h.epoch
    have hreach := step_reach hv
    rw [hel] at hreach
    have hc := (h.confined.congr he).reach hs (hf.congr he) hreach
    exact hc.congr he.symm
  | irq level => exact ⟨h.confined, h.held⟩
  | fiq level => exact ⟨h.confined, h.held⟩
  | rearm => exact ⟨h.confined, h.held⟩
  | host p e => exact ⟨⟨h.confined.agree.trans (.of_ram (hhost rfl)), h.confined.cache⟩, h.held⟩

/-- **spatial isolation**: with the page tables out of the pages EL0 may write and a cache in step
with them, a run at EL0, the step that ends it with an exception included, changes no byte of RAM
outside those pages and no register of EL1 but those an entry writes and the two that leak; and every
address still translates, at every level, as the tables said at the start -/
theorem el0_memory_isolation (f₀ : MmuFault) (env : Option (EnvOps τ ε))
    {v v' : Vcpu (Aspace δ) ε} (hs : v.world.phys.Separate)
    (hf : TablesFenced v.sr v.world.phys) (hc : Coherent Aspace.memops v.world) {l : List Label}
    (hrun : Lts.Run (UserMachine f₀ env) v l v') :
    (∀ x, ¬ UserWritable v.sr v.world.phys x → v'.world.phys.view x = v.world.phys.view x) ∧
      (∀ f, ¬ UserTouched f → v'.sr.val f = v.sr.val f) ∧
      ∀ va cur isWrite isFetch,
        (translate v'.sr Aspace.memops v'.world va cur isWrite isFetch).1 =
          (walk v.sr Aspace.memops va cur isWrite isFetch v.world.phys).1.answer cur isWrite
            isFetch := by
  have h0 : Isolated v.sr v.world.phys v := ⟨⟨.refl _, hc⟩, fun _ _ => rfl⟩
  have h : Isolated v.sr v.world.phys v' :=
    hrun.invariant (A := fun _ => True) (fun u i u' hu _ hm => hu.move hs hf hm)
      (fun _ _ => trivial) h0
  refine ⟨h.confined.agree.view, h.held, ?_⟩
  intro va cur isWrite isFetch
  have he := h.epoch
  rw [((h.confined.congr he).translate (hf.congr he) va cur isWrite isFetch).1,
    walk_congr_epoch he]

/-! ## a program with one block of its own -/

/-- four megabytes of RAM: a table at `0x1000` that maps the second two for EL0, and in them a store
to `x0` -/
def blockBus : Aspace Unit where
  regions := [⟨0, 0x400000, 7, .ram 0 true⟩]
  capacity := 1
  heap := fun i =>
    if i = 0x1008 then 0x41 else if i = 0x1009 then 0x04 else if i = 0x100A then 0x20
    else if i = 0x200003 then 0xF9 else 0
  dev := ()

/-- translation on, a 25-bit low region with its table at `0x1000`, at EL0 -/
def blockRegs : Sysregs where
  val
    | .sctlrEl1 => 1
    | .tcrEl1 => 39
    | .ttbr0El1 => 0x1000
    | _ => 0
  taken := []

def blockVcpu : Vcpu (Aspace Unit) Unit :=
  { Vcpu.init blockBus () .el0 0x200000 0 10 with
    sr := blockRegs
    cpu := (Cpu.init 0x200000 0).writeG 0 false .w64 0x200100 }

def blockEntry (i : BitVec 9) : W64 := 0x1000 ||| (i.setWidth 64 <<< 3)

theorem blockBus_entry : ∀ i : BitVec 9,
    (blockBus.read (blockEntry i) .dword false).1 = .ok ∧
      (blockBus.read (blockEntry i) .dword false).2.1 = if i = 1 then 0x200441 else 0 := by
  decide +kernel

theorem blockEntry_index (va : W64) :
    (0x1000 : W64) ||| tableIndex va 2 = blockEntry ((va >>> 21).setWidth 9) := by
  unfold blockEntry tableIndex levelShift
  congr 2
  apply BitVec.eq_of_getLsbD_eq
  intro i hi
  have h1ff : (0x1FF : W64) = ((1 : W64) <<< 9) - 1 := by decide
  rw [h1ff, BitVec.getLsbD_and, getLsbD_ones (by decide) hi, BitVec.getLsbD_setWidth,
    BitVec.getLsbD_setWidth]
  simp [hi, Bool.and_comm]

theorem blockEntry_read (i : BitVec 9) : ∃ raw, blockBus.read (blockEntry i) .dword false =
    (.ok, raw, blockBus) ∧ (raw = 0x200441 ∨ raw = 0) := by
  have hram : (blockBus.read (blockEntry i) .dword false).2.2 = blockBus :=
    Aspace.inert_ram.read blockBus _ .dword false (by
      intro r hr
      exact ⟨0, true, by rw [List.mem_singleton.mp hr]⟩)
  obtain ⟨h1, h2⟩ := blockBus_entry i
  refine ⟨if i = 1 then 0x200441 else 0, Prod.ext h1 (Prod.ext h2 hram), ?_⟩
  by_cases hi : i = 1
  · exact .inl (if_pos hi)
  · exact .inr (if_neg hi)

theorem blockEntry_leaf {va : W64} {l : Leaf} (h : walkLeaf va 32 2 0 0x200441 = .ok l) :
    l.pa = 0x200000 ||| (va &&& 0x1FFFFF) := by
  have hv : (decodeDesc 0x200441).valid = true := by decide
  have hb : (decodeDesc 0x200441).blockPage = true := by decide
  have haf : (decodeDesc 0x200441).af = true := by decide
  have haddr : (decodeDesc 0x200441).address &&& ~~~(((1 : W64) <<< levelShift 2) - 1) =
      0x200000 := by decide
  have hmask : ((1 : W64) <<< levelShift 2) - 1 = 0x1FFFFF := by decide
  unfold walkLeaf at h
  dsimp only at h
  rw [hv, hb, haf, haddr, hmask, Bool.or_true] at h
  by_cases ho : ((0x200000 : W64) ||| (va &&& 0x1FFFFF)) >>> 32 = 0
  · rw [if_neg (by decide), if_neg (by decide), if_neg (by decide), if_neg (not_not_intro ho),
      if_neg (by decide)] at h
    cases h
    rfl
  · rw [if_neg (by decide), if_neg (by decide), if_neg (by decide), if_pos ho] at h
    cases h

/-- what decides a walk there: the region, the sign rule and one entry -/
theorem blockRegs_walk (va : W64) :
    (∀ a ∈ walkReads blockRegs Aspace.memops va blockBus, ∃ i, a = blockEntry i) ∧
      ∀ l, (walkStage1 blockRegs Aspace.memops va blockBus).1 = .ok l →
        l.pa = 0x200000 ||| (va &&& 0x1FFFFF) := by
  cases h1 : useTtbr1 va with
  | true =>
    have hs : startLevel (64 - regionTsz (blockRegs.val .tcrEl1) (useTtbr1 va)) = none := by
      rw [h1]
      decide
    unfold walkReads walkStage1
    dsimp only
    rw [hs]
    exact ⟨nofun, nofun⟩
  | false =>
    have hs : startLevel (64 - regionTsz (blockRegs.val .tcrEl1) (useTtbr1 va)) = some 2 := by
      rw [h1]
      decide
    have htag : walkVa (blockRegs.val .tcrEl1) va = va := by
      have ht : tagged (blockRegs.val .tcrEl1) va = false := by
        unfold tagged
        rw [h1]
        decide
      unfold walkVa
      rw [ht]
      rfl
    have hbase : ttbrBase (regionTtbr blockRegs (useTtbr1 va)) &&& ~~~pageMask = 0x1000 := by
      rw [h1]
      decide
    have hout : outBits (blockRegs.val .tcrEl1) = 32 := by decide
    obtain ⟨raw, hr, hraw⟩ := blockEntry_read ((va >>> 21).setWidth 9)
    have hr' : (Aspace.memops : Memops (Aspace Unit)).read blockBus
        (blockEntry ((va >>> 21).setWidth 9)) .dword false = (.ok, raw, blockBus) := hr
    have htab : (decodeDesc raw).table = false := by
      rcases hraw with rfl | rfl <;> decide
    unfold walkReads walkStage1
    dsimp only
    rw [hs]
    dsimp only
    rw [htag, hbase, hout, show 3 - 2 = 0 + 1 from rfl]
    constructor
    · intro a ha
      split at ha
      · unfold tableReads at ha
        rw [Nat.sub_zero, blockEntry_index, hr'] at ha
        exact ⟨_, by simpa [htab] using ha⟩
      · cases ha
    · intro l hl
      split at hl
      · cases hl
      · split at hl
        · cases hl
        · split at hl
          · cases hl
          · unfold walkTable at hl
            dsimp only at hl
            rw [Nat.sub_zero, blockEntry_index, hr'] at hl
            dsimp only at hl
            rw [htab] at hl
            rcases hraw with rfl | rfl
            · exact blockEntry_leaf hl
            · cases hl

theorem blockBus_ok : blockBus.Ok :=
  Span.Table.single (by decide) (by decide) (by decide) (by decide)

theorem blockBus_separate : blockBus.Separate := .single blockBus_ok rfl

/-- EL0 comes to the upper two megabytes at most -/
theorem blockBus_answer {va pa : W64} {isWrite isFetch : Bool}
    (h : (walk blockRegs Aspace.memops va .el0 isWrite isFetch blockBus).1.answer .el0 isWrite
      isFetch = .ok pa) : 0x200000 ≤ pa.toNat := by
  have hleaf : ∀ l, (walkStage1 blockRegs Aspace.memops va blockBus).1 = .ok l →
      0x200000 ≤ l.pa.toNat := by
    intro l hl
    rw [(blockRegs_walk va).2 l hl, BitVec.toNat_or]
    exact Nat.left_le_or
  unfold walk at h
  rw [if_neg (by decide), if_neg (by decide)] at h
  rcases hw : walkStage1 blockRegs Aspace.memops va blockBus with ⟨r, q⟩
  rw [hw] at h hleaf
  cases r with
  | error f => cases h
  | ok l =>
    unfold checkLeaf at h
    dsimp only at h
    split at h
    · cases h
      exact hleaf l rfl
    · cases h

theorem blockBus_writable {x : Nat} (h : UserWritable blockRegs blockBus x) : 0x200000 ≤ x := by
  obtain ⟨va, pa, hpa, hx⟩ := h
  have hle := blockBus_answer hpa
  omega

theorem blockEntry_lt : ∀ i : BitVec 9, (blockEntry i).toNat + 8 ≤ 0x2000 := by
  decide +kernel

theorem blockBus_fenced : TablesFenced blockRegs blockBus := by
  intro va a ha
  obtain ⟨i, rfl⟩ := (blockRegs_walk va).1 a ha
  refine ⟨blockBus_ok, ?_, ?_⟩
  · intro r hr _
    exact ⟨0, true, by rw [List.mem_singleton.mp hr]⟩
  · intro j hj hw
    have := blockBus_writable hw
    have := blockEntry_lt i
    omega

/-- the store lands in the block, and everything below it stays -/
theorem el0_memory_isolation_block :
    ∃ v', vcpuStep Aspace.memops ⟨0, 0⟩ (none : Option (EnvOps (Aspace Unit) Unit)) blockVcpu =
        some (.ok, v') ∧ v'.sr.taken = [] ∧
      ∀ x < 0x200000, v'.world.phys.view x = blockVcpu.world.phys.view x := by
  refine ⟨_, rfl, by decide +kernel, ?_⟩
  intro x hx
  refine (el0_memory_isolation (δ := Unit) ⟨0, 0⟩ (none : Option (EnvOps (Aspace Unit) Unit))
    (v := blockVcpu) blockBus_separate blockBus_fenced (coherent_init _ _)
    (.cons ⟨.step .ok _ rfl, fun _ _ => rfl, nofun⟩ (.nil _))).1 x ?_
  intro hw
  exact absurd (blockBus_writable hw) (by omega)

end Oemu
