import Oemu.Boot.Start
import Oemu.Vcpu.Nest
import Oemu.Vcpu.Panic

/-!
# A booted guest and its host

The devices that boot attaches answer every access the bus hands them.  So what is true of a core over
RAM and devices that answer is true of a booted one, whatever it runs.  It never leaves EL0 and EL1,
so no return of its is refused at EL2.

* `board_serves`         the devices answer;
* `bootStart_settled`    a booted machine is one the executor is safe on;
* `booted_panics_iff`    in every state a booted guest can reach.
-/

namespace Oemu

/-! ## the devices of the board -/

def boardUart : DeviceOps Board where
  read b offset size :=
    let (st, v, uart) := b.uart.read offset size
    (st, v, { b with uart })
  write b offset size value :=
    let (st, uart) := b.uart.write offset size value
    (st, { b with uart })

def boardGic (ops : DeviceOps Gicv2) : DeviceOps Board where
  read b offset size :=
    let (st, v, gic) := ops.read b.gic offset size
    (st, v, { b with gic })
  write b offset size value :=
    let (st, gic) := ops.write b.gic offset size value
    (st, { b with gic })

/-- a host that lends the devices of the board -/
structure OnBoard (host : BootHost Board) : Prop where
  uart : host.uart = boardUart
  dist : host.dist = boardGic Gicv2.distOps
  cpu : host.cpu = boardGic Gicv2.cpuOps

/-- a device answers every access of a bus -/
def DeviceOps.Serves {δ : Type} (ops : DeviceOps δ) : Prop :=
  ∀ dev offset size, size.bytes ≤ 8 →
    (ops.read dev offset size).1 = .ok ∧ ∀ value, (ops.write dev offset size value).1 = .ok

theorem log2_le {size : MemSize} (h : size.bytes ≤ 8) :
    ¬ size.log2 > MemSize.dword.log2 := by
  cases size <;> revert h <;> decide

theorem boardUart_serves : boardUart.Serves := by
  intro b offset size h8
  constructor
  · show (b.uart.read offset size).1 = .ok
    unfold Pl011.read
    rw [if_neg (log2_le h8)]
  · intro value
    show (b.uart.write offset size value).1 = .ok
    unfold Pl011.write
    rw [if_neg (log2_le h8)]

theorem boardDist_serves : (boardGic Gicv2.distOps).Serves :=
  fun _ _ _ _ => ⟨rfl, fun _ => rfl⟩

theorem boardCpu_serves : (boardGic Gicv2.cpuOps).Serves := by
  intro b offset size h8
  constructor
  · show (b.gic.cpuRead offset size).1 = .ok
    unfold Gicv2.cpuRead
    split <;> rfl
  · intro value
    show (b.gic.cpuWrite offset size value).1 = .ok
    unfold Gicv2.cpuWrite
    split <;> rfl

theorem board_serves {host : BootHost Board} (hb : OnBoard host) {ram : W64} {as : Aspace Board}
    (h : bootMachine host ram = some as) : as.Sound := by
  obtain ⟨hok, blk, hregs⟩ := bootMachine_regions h
  refine ⟨hok, ?_⟩
  unfold Aspace.Serving
  rw [hregs, hb.uart, hb.dist, hb.cpu]
  intro r hr ops hops
  simp only [List.mem_cons, List.not_mem_nil, or_false] at hr
  obtain rfl | rfl | rfl | rfl := hr
  · cases hops
  · cases hops
    exact boardUart_serves
  · cases hops
    exact boardDist_serves
  · cases hops
    exact boardCpu_serves

/-! ## the booted machine -/

section

variable {ε τ : Type} {o : BootOpts} {host : BootHost Board} {e : ε} {v : Vcpu (Aspace Board) ε}

theorem bootStart_settled (hb : OnBoard host) (h : bootStart o host e = some v) :
    Settled Aspace.memops Aspace.Sound v.world := by
  obtain ⟨pa, tree, entry, as, as', htree, -, hmachine, hfiles, hworld, -⟩ := bootStart_some h
  have hbus := bootMachine_aspace hmachine
  have hsound := board_serves hb hmachine
  obtain ⟨as₁, hsame, has₁, hregs, -⟩ :=
    bootFiles_ok (bootTree_prepared htree).roomy hbus (bootFiles_placeable hfiles)
  rw [hfiles] at hsame
  cases hsame
  rw [hworld]
  refine ⟨⟨has₁.separate.ok, ?_⟩, .init⟩
  intro r hr
  rw [hregs] at hr
  exact hsound.serving r hr

theorem BoardMachine.low {f₀ : MmuFault} {env : Option (EnvOps τ ε)}
    {v v' : Vcpu (Aspace Board) ε} {i : Label} (hm : BoardMachine f₀ env v i v')
    (hl : v.sr.el.num ≤ 1) : v'.sr.el.num ≤ 1 := by
  cases hm.1 with
  | step st v' h => exact step_low h hl
  | _ => exact hl

/-- **a booted guest**: in every state it can reach, a step takes the host down if and only if it
reaches a load or store that trips -/
theorem booted_panics_iff (hb : OnBoard host) (h : bootStart o host e = some v) (f₀ : MmuFault)
    (env : Option (EnvOps τ ε)) {u : Vcpu (Aspace Board) ε} {l : List Label}
    (hrun : Lts.Run (BoardMachine f₀ env) v l u) :
    vcpuStep Aspace.memops f₀ env u = none ↔
      ∃ insn, u.Reaches Aspace.memops insn ∧
        Trips u.tick.sr Aspace.memops f₀ u.cpu insn (u.fetch Aspace.memops).2.2 := by
  obtain ⟨-, -, -, -, -, -, -, -, -, -, hstart⟩ := bootStart_some h
  have hlow : u.sr.el.num ≤ 1 := by
    refine hrun.invariant (I := fun v => v.sr.el.num ≤ 1) (A := fun _ => True)
      (fun _ _ _ hl _ hm => hm.low hl) (fun _ _ => trivial) ?_
    rw [hstart.el]
    decide
  have hnot : ∀ insn, ¬ Stranded u.tick.sr insn := by
    rintro insn ⟨-, h2, -⟩
    rw [Vcpu.tick_el.symm.trans h2] at hlow
    exact absurd hlow (by decide)
  rw [(bootStart_settled hb h).run_panics env hrun]
  simp only [or_iff_left (hnot _)]

end

def gibBoard : BootHost Board :=
  ⟨fun _ => 0, ⟨Pl011.init none, Gicv2.init 64⟩, true, true, true, some 0, boardUart,
    boardGic Gicv2.distOps, boardGic Gicv2.cpuOps⟩

theorem booted_panics_gib : ∃ v, bootStart gibBoot gibBoard () = some v ∧
    (vcpuStep Aspace.memops ⟨0, 0⟩ (none : Option (EnvOps Unit Unit)) v = none ↔
      ∃ insn, v.Reaches Aspace.memops insn ∧
        Trips v.tick.sr Aspace.memops ⟨0, 0⟩ v.cpu insn (v.fetch Aspace.memops).2.2) := by
  have hpa : gibBoot.initrdPa = some 0x70000000 := by decide +kernel
  have hfits : TreeFits gibBoot gibBoard.scratch gibBoard.blob 0x70000000 :=
    ⟨hpa, rfl, rfl, by decide +kernel⟩
  obtain ⟨v, hv⟩ := bootStart_fits hfits (by decide +kernel) (by decide +kernel)
    gibBoot_placeable ()
  exact ⟨v, hv, booted_panics_iff ⟨rfl, rfl, rfl⟩ hv ⟨0, 0⟩ none (.nil v)⟩

end Oemu
