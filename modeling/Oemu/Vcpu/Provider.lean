import Oemu.Vcpu.Twin
import Oemu.Vcpu.Machine
import Oemu.Mmu.Provider

/-!
# The core over either provider of memory

A core over the flat memory and one over an address space with the same RAM take the same runs, at
every exception level, through faults, exceptions, page-table walks and interrupts: one list of
moves, one outcome of each, one state of the core at the end, and the same RAM.

* `provider_runs`
-/

namespace Oemu

variable {σ σ' ε τ δ : Type}

/-- the machine while the host leaves memory alone: steps, pins and the quantum -/
def Undisturbed (phys : Memops σ) (f₀ : MmuFault) (env : Option (EnvOps τ ε)) (v : Vcpu σ ε)
    (i : Label) (u : Vcpu σ ε) : Prop := Machine phys f₀ env v i u ∧ i ≠ .host

variable {phys : Memops σ} {phys' : Memops σ'} {R : σ → σ' → Prop} {f₀ : MmuFault}
  {env : Option (EnvOps τ ε)} {v u : Vcpu σ ε} {v' u' : Vcpu σ' ε} {i : Label}

namespace Provider

theorem forth (hP : Provider phys phys' R) (h : TwinCores (Over R) v v')
    (hm : Undisturbed phys f₀ env v i u) :
    ∃ u', Undisturbed phys' f₀ env v' i u' ∧ TwinCores (Over R) u u' := by
  obtain ⟨hmove, hi⟩ := hm
  cases hmove with
  | step st u hu =>
    obtain ⟨u', hu', hcores⟩ := h.forth (hP.twin _ _) hu
    exact ⟨u', ⟨.step st u' hu', hi⟩, hcores⟩
  | irq level => exact ⟨_, ⟨.irq level, hi⟩, h.setIrq level⟩
  | fiq level => exact ⟨_, ⟨.fiq level, hi⟩, h.setFiq level⟩
  | rearm => exact ⟨_, ⟨.rearm, hi⟩, h.rearm⟩
  | host p e => exact absurd rfl hi

theorem back (hP : Provider phys phys' R) (h : TwinCores (Over R) v v')
    (hm : Undisturbed phys' f₀ env v' i u') :
    ∃ u, Undisturbed phys f₀ env v i u ∧ TwinCores (Over R) u u' := by
  obtain ⟨hmove, hi⟩ := hm
  cases hmove with
  | step st u' hu' =>
    obtain ⟨u, hu, hcores⟩ := h.back (hP.twin _ _) hu'
    exact ⟨u, ⟨.step st u hu, hi⟩, hcores⟩
  | irq level => exact ⟨_, ⟨.irq level, hi⟩, h.setIrq level⟩
  | fiq level => exact ⟨_, ⟨.fiq level, hi⟩, h.setFiq level⟩
  | rearm => exact ⟨_, ⟨.rearm, hi⟩, h.rearm⟩
  | host p e => exact absurd rfl hi

end Provider

/-- **either provider**: the runs of a core over the flat memory are those of the same core over an
address space with the same RAM, and end in the same core and the same RAM -/
theorem provider_runs (f₀ : MmuFault) (env : Option (EnvOps τ ε)) {v : Vcpu Memory ε}
    {as : Aspace δ} (h : Same v.world.phys as) (l : List Label) :
    (∀ u, Lts.Run (Undisturbed Memory.memops f₀ env) v l u →
        ∃ as', Lts.Run (Undisturbed Aspace.memops f₀ env) (v.withPhys as) l (u.withPhys as') ∧
          Same u.world.phys as') ∧
      ∀ u', Lts.Run (Undisturbed Aspace.memops f₀ env) (v.withPhys as) l u' →
        ∃ mem, Lts.Run (Undisturbed Memory.memops f₀ env) v l (u'.withPhys mem) ∧
          Same mem u'.world.phys := by
  have hP : Provider Memory.memops (Aspace.memops : Memops (Aspace δ)) Same := same_provider
  have h0 : TwinCores (Provider.Over Same) v (v.withPhys as) :=
    ⟨rfl, rfl, ⟨rfl, h⟩, rfl, rfl, rfl, rfl, rfl, rfl⟩
  constructor
  · intro u hrun
    have hstep : ∀ w w' i z, TwinCores (Provider.Over Same) w w' →
        Undisturbed Memory.memops f₀ env w i z →
        ∃ z', Undisturbed Aspace.memops f₀ env w' i z' ∧ TwinCores (Provider.Over Same) z z' :=
      fun _ _ _ _ hc hm => hP.forth hc hm
    obtain ⟨u', hrun', hu⟩ := hrun.simulate hstep h0
    refine ⟨u'.world.phys, ?_, hu.world.2⟩
    rw [← hu.eq_withPhys hu.world.1]
    exact hrun'
  · intro u' hrun
    have hstep : ∀ w' w i z', TwinCores (Provider.Over Same) w w' →
        Undisturbed Aspace.memops f₀ env w' i z' →
        ∃ z, Undisturbed Memory.memops f₀ env w i z ∧ TwinCores (Provider.Over Same) z z' :=
      fun _ _ _ _ hc hm => hP.back hc hm
    obtain ⟨u, hrun', hu⟩ := hrun.simulate hstep h0
    have hback : u = u'.withPhys u.world.phys := by
      rw [hu.eq_withPhys hu.world.1]
      rfl
    refine ⟨u.world.phys, ?_, hu.world.2⟩
    rw [← hback]
    exact hrun'

/-- `str x0, [x0]` and `ldr x1, [x2]` -/
def storeCode : List (BitVec 8) := [0x00, 0x00, 0x00, 0xF9, 0x41, 0x00, 0x40, 0xF9]

/-- the page on either side, and a core that enters it at EL1 with `x0` in the page -/
def storeMemory : Memory := ((pageOf storeCode).toMemory ⟨[], 1, fun _ => 0⟩).2

def storeAspace : Aspace Unit := ((pageOf storeCode).toAspace emptyAspace).2

def storeGuest : Vcpu Memory Unit :=
  let v := Vcpu.init storeMemory () .el1 0x1000 0 10
  { v with cpu := { v.cpu with regs := v.cpu.regs.write 0 .w64 0x1800 } }

theorem store_same : Same storeMemory storeAspace := by
  have hm : Memory.init (fun _ => 0) true 1 = .ok ⟨[], 1, fun _ => 0⟩ := rfl
  have ha : Aspace.init (fun _ => 0) () true 1 = .ok emptyAspace := rfl
  exact same_run (pageOf_run (show storeCode.length ≤ 0x1000 by decide)) (same_init hm ha)

def guestStep (v : Vcpu Memory Unit) : Option (Status × Vcpu Memory Unit) :=
  vcpuStep Memory.memops ⟨0, 0⟩ (none : Option (EnvOps Unit Unit)) v

/-- a store, and a load from nowhere that is delivered: both run through either provider, and the
byte that was stored is there -/
theorem provider_runs_store :
    ∃ (u : Vcpu Memory Unit) (as' : Aspace Unit),
      Lts.Run (Undisturbed Aspace.memops ⟨0, 0⟩ (none : Option (EnvOps Unit Unit)))
        (storeGuest.withPhys storeAspace) [.irq false, .step .ok, .step .ok] (u.withPhys as') ∧
      Same u.world.phys as' ∧ u.world.phys.heap 0x801 = 0x18 ∧ u.cpu.regs.pc = 0x200 ∧
      u.sr.taken.length = 1 := by
  have hstep : ∃ u, (guestStep (storeGuest.setIrq false)).bind (fun p => guestStep p.2) =
      some (.ok, u) ∧ u.world.phys.heap 0x801 = 0x18 ∧ u.cpu.regs.pc = 0x200 ∧
        u.sr.taken.length = 1 :=
    ⟨_, rfl, by decide +kernel, by decide +kernel, by decide +kernel⟩
  obtain ⟨u, hu, hbyte, hpc, ht⟩ := hstep
  obtain ⟨⟨st, w⟩, hw, hu⟩ := Option.bind_eq_some_iff.mp hu
  have hst : st = .ok := by
    have h0 : (guestStep (storeGuest.setIrq false)).map Prod.fst = some .ok := by decide +kernel
    rw [hw] at h0
    exact Option.some.inj h0
  subst hst
  have hrun : Lts.Run (Undisturbed Memory.memops ⟨0, 0⟩ (none : Option (EnvOps Unit Unit)))
      storeGuest [.irq false, .step .ok, .step .ok] u :=
    .cons ⟨.irq false, nofun⟩ (.cons ⟨.step .ok w hw, nofun⟩ (.cons ⟨.step .ok u hu, nofun⟩ (.nil _)))
  obtain ⟨as', hrun', hsame⟩ := (provider_runs ⟨0, 0⟩
    (none : Option (EnvOps Unit Unit)) store_same _).1 u hrun
  exact ⟨u, as', hrun', hsame, hbyte, hpc, ht⟩

end Oemu
