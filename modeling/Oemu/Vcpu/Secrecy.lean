import Oemu.Vcpu.Isolation
import Oemu.Vcpu.Twin
import Oemu.Mmu.Secrecy

/-!
# Secrecy of memory from a program at EL0

Two cores that differ only in bytes of RAM that EL0 does not see take the same run: each goes through
the same steps, the one that enters an exception included, and ends in the same state apart from
those bytes.  So neither a register, nor a fault record, nor a counter, nor anything a device is
told depends on them.

* `Secret.move`          one move of the two machines;
* `el0_memory_secrecy`   every run.
-/

namespace Oemu

variable {ε τ δ : Type}

/-- two cores that differ in secret bytes only, on the way from a state of EL0 -/
structure Secret (sr : Sysregs) (as : Aspace δ) (v v' : Vcpu (Aspace δ) ε) : Prop where
  cores : TwinCores (Indistinct sr as) v v'
  held : ∀ f, ¬ UserTouched f → v.sr.val f = sr.val f

variable {f₀ : MmuFault} {env : Option (EnvOps τ ε)} {sr : Sysregs} {as : Aspace δ}
  {v v' u : Vcpu (Aspace δ) ε} {i : Label}

theorem Secret.step (hs : as.Separate) (hf : TablesFenced sr as) (h : Secret sr as v v')
    (hel : v.sr.el = .el0) {st : Status} (hstep : vcpuStep Aspace.memops f₀ env v = some (st, u)) :
    ∃ u', vcpuStep Aspace.memops f₀ env v' = some (st, u') ∧ Secret sr as u u' := by
  have hiso : Isolated sr as v := ⟨h.cores.world.confined, h.held⟩
  have he : tlbEpochRead v.tick.sr = tlbEpochRead sr := (tick_epoch v).trans hiso.epoch
  have hT : Twin v.tick.sr Aspace.memops Aspace.memops v.sr.el (Indistinct sr as) := by
    rw [hel, ← Indistinct.congr he]
    exact indistinct_twin hs (hf.congr he)
  obtain ⟨u', hu', hcores⟩ := h.cores.forth hT hstep
  exact ⟨u', hu', hcores, fun f hf' => (step_held hel hstep hf').trans (h.held f hf')⟩

/-- one move of the two machines; the host does the same to both -/
theorem Secret.move (hs : as.Separate) (hf : TablesFenced sr as) (h : Secret sr as v v')
    (hm : UserMachine f₀ env v i u) : ∃ u', UserMachine f₀ env v' i u' ∧ Secret sr as u u' := by
  obtain ⟨hmove, hstep, hhost⟩ := hm
  have hc := h.cores
  cases hmove with
  | step st u hv =>
    have hel := hstep st rfl
    obtain ⟨u', hu', hsec⟩ := h.step hs hf hel hv
    exact ⟨u', ⟨.step st u' hu', fun _ _ => by rw [hc.sr]; exact hel, nofun⟩, hsec⟩
  | irq level => exact ⟨v'.setIrq level, ⟨.irq level, nofun, nofun⟩, hc.setIrq level, h.held⟩
  | fiq level => exact ⟨v'.setFiq level, ⟨.fiq level, nofun, nofun⟩, hc.setFiq level, h.held⟩
  | rearm => exact ⟨v'.rearm, ⟨.rearm, nofun, nofun⟩, hc.rearm, h.held⟩
  | host p e =>
    have hram : p.ram = v.world.phys.ram := hhost rfl
    have hw : Indistinct sr as ⟨v.world.mmu, p⟩
        ⟨v'.world.mmu, { v'.world.phys with dev := p.dev }⟩ :=
      ⟨hc.world.mmu, rfl, ((Aspace.AgreeOff.of_ram hram).symm.trans hc.world.agree).trans
        (.of_ram rfl), hc.world.confined.agree.trans (.of_ram hram), hc.world.confined.cache⟩
    exact ⟨_, ⟨.host { v'.world.phys with dev := p.dev } e, nofun, fun _ => rfl⟩,
      ⟨hc.cpu, hc.sr, hw, rfl, hc.irq, hc.fiq, hc.event, hc.quantum, hc.left⟩, h.held⟩

/-- **secrecy**: change any bytes of RAM that EL0 neither may access nor has its addresses looked up
in; every run at EL0, the step that ends it with an exception included, is a run from there too,
through the same moves and to the same state, the devices included, but for such bytes -/
theorem el0_memory_secrecy (f₀ : MmuFault) (env : Option (EnvOps τ ε))
    {v u : Vcpu (Aspace δ) ε} (hs : v.world.phys.Separate)
    (hf : TablesFenced v.sr v.world.phys) (hc : Coherent Aspace.memops v.world) {p : Aspace δ}
    (hdev : p.dev = v.world.phys.dev)
    (hp : Aspace.AgreeOff (fun x => ¬ UserVisible v.sr v.world.phys x) v.world.phys p)
    {l : List Label} (hrun : Lts.Run (UserMachine f₀ env) v l u) :
    ∃ q, Lts.Run (UserMachine f₀ env) (v.withPhys p) l (u.withPhys q) ∧
      q.dev = u.world.phys.dev ∧
      Aspace.AgreeOff (fun x => ¬ UserVisible v.sr v.world.phys x) u.world.phys q := by
  have h0 : Secret v.sr v.world.phys v (v.withPhys p) :=
    ⟨⟨rfl, rfl, ⟨rfl, hdev, hp, .refl _, hc⟩, rfl, rfl, rfl, rfl, rfl, rfl⟩, fun _ _ => rfl⟩
  obtain ⟨u', hrun', hsec⟩ := hrun.simulate (fun _ _ _ _ h hm => h.move hs hf hm) h0
  have hu := hsec.cores.eq_withPhys hsec.cores.world.mmu
  refine ⟨u'.world.phys, ?_, hsec.cores.world.dev, hsec.cores.world.agree⟩
  rw [← hu]
  exact hrun'

/-! ## a byte beside the table -/

/-- the block and its table as before, and another byte at `0x3000` -/
def blockSecret : Aspace Unit :=
  { blockBus with heap := fun i => if i = 0x3000 then 0xAA else blockBus.heap i }

theorem blockBus_visible {x : Nat} (h : UserVisible blockRegs blockBus x) : x ≠ 0x3000 := by
  rintro rfl
  rcases h with ⟨va, pa, isWrite, isFetch, hpa, hx⟩ | ⟨va, a, ha, hlo, hhi⟩
  · have hle := blockBus_answer hpa
    omega
  · obtain ⟨i, rfl⟩ := (blockRegs_walk va).1 a ha
    have := blockEntry_lt i
    omega

theorem blockSecret_agree :
    Aspace.AgreeOff (fun x => ¬ UserVisible blockRegs blockBus x) blockBus blockSecret where
  regions := rfl
  capacity := rfl
  view x hx := by
    have hne := blockBus_visible (not_not.mp hx)
    by_cases hram : blockBus.OnRam x
    · obtain ⟨r, hr, hcov, -⟩ := hram
      obtain rfl := List.mem_singleton.mp hr
      rw [@Aspace.view_at _ blockSecret blockBus_ok _ hr _ _ rfl _ hcov,
        Aspace.view_at blockBus_ok hr rfl hcov]
      have hoff : 0 + (x - (0 : W64).toNat) = x := by simp
      rw [hoff]
      exact if_neg hne
    · rw [Aspace.view_off hram, @Aspace.view_off _ blockSecret _ hram]

/-- the store is made whatever that byte holds, and leaves the same state but for it -/
theorem el0_memory_secrecy_block :
    ∃ u q, Lts.Run (UserMachine ⟨0, 0⟩ (none : Option (EnvOps (Aspace Unit) Unit)))
        (blockVcpu.withPhys blockSecret) [.step .ok] (u.withPhys q) ∧
      vcpuStep Aspace.memops ⟨0, 0⟩ (none : Option (EnvOps (Aspace Unit) Unit)) blockVcpu =
        some (.ok, u) ∧ u.sr.taken = [] ∧
      Aspace.AgreeOff (fun x => ¬ UserVisible blockRegs blockBus x) u.world.phys q := by
  obtain ⟨u, hu, ht⟩ : ∃ u, vcpuStep Aspace.memops ⟨0, 0⟩
      (none : Option (EnvOps (Aspace Unit) Unit)) blockVcpu = some (.ok, u) ∧ u.sr.taken = [] :=
    ⟨_, rfl, by decide +kernel⟩
  obtain ⟨q, hrun, -, hagree⟩ := el0_memory_secrecy (δ := Unit) ⟨0, 0⟩
    (none : Option (EnvOps (Aspace Unit) Unit)) (v := blockVcpu) (p := blockSecret)
    blockBus_separate blockBus_fenced (coherent_init _ _) rfl blockSecret_agree
    (.cons ⟨.step .ok u hu, fun _ _ => rfl, nofun⟩ (.nil _))
  exact ⟨u, q, hrun, hu, ht, hagree⟩

end Oemu
