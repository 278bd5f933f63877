import Oemu.Aspace
import Oemu.Lib.Run
import Oemu.Lib.Scan

/-!
# The interrupt controller

`Gicv2` is the register file of a single-CPU GICv2: a distributor and a CPU interface, two device
windows over one state.  The per-line state is seven banks of bytes indexed by the interrupt id.

* `scan`           the decision of the CPU interface: the id it would acknowledge now;
* `acknowledge`    a read of `GICC_IAR`;
* `irqLevel`       the interrupt output to the core;
* `distRead`, `distWrite`, `cpuRead`, `cpuWrite`  the two windows, `distOps` and `cpuOps` as devices;
* `serve`, `Step`  one request of a source or of the core.

The register reached inside a window is the offset without its two low bits, cut to 32 bits.
-/

namespace Oemu

/-- a byte for each line the controller models -/
abbrev Bank := Fin 64 → BitVec 8

namespace Bank

/-- the byte of a line, zero outside the bank -/
def get (s : Bank) (line : Nat) : BitVec 8 := if h : line < 64 then s ⟨line, h⟩ else 0

/-- a store to a line, dropped outside the bank -/
def put (s : Bank) (line : Nat) (v : BitVec 8) : Bank :=
  if h : line < 64 then Function.update s ⟨line, h⟩ v else s

/-- `pack_bank`: the 32 lines from `base` on as one word -/
def pack (s : Bank) (base : Nat) : W32 :=
  (List.range 32).foldl
    (fun v b => if base + b < 64 ∧ s.get (base + b) ≠ 0 then v ||| (1 : W32) <<< b else v) 0

/-- `poke_bank`: the lines named by `mask` are forced to 1 or to 0 -/
def poke (s : Bank) (base : Nat) (mask : W32) (set : Bool) : Bank :=
  (List.range 32).foldl
    (fun s b => if (mask >>> b) &&& 1 ≠ 0 then s.put (base + b) (if set then 1 else 0) else s) s

/-- the `n` lines from `base` on, each stored -/
def fill (s : Bank) (base n : Nat) (v : Nat → BitVec 8) : Bank :=
  (List.range n).foldl (fun s b => s.put (base + b) (v b)) s

end Bank

structure Gicv2 where
  ctl : W32
  typer : W32
  iidr : W32
  cpuCtl : W32
  cpuPmr : W32
  cpuBpr : W32
  runningPri : W32
  ccpner : W32
  enable : Bank
  pending : Bank
  active : Bank
  config : Bank
  group : Bank
  priority : Bank
  target : Bank
  sgir : W64
deriving DecidableEq

namespace Gicv2

/-- `OEMU_GICV2_SPURIOUS` -/
def spurious : Nat := 1023

/-- `lines_of`: the line count, from `GICD_TYPER` -/
def linesOf (g : Gicv2) : Nat := ((g.typer &&& 0x1F).toNat + 1) * 32

/-- `gic_running_priority`: the least priority byte of an active line, 256 without one -/
def runningPriority (g : Gicv2) : Nat :=
  (List.finRange 64).foldl
    (fun best i => if g.active i ≠ 0 ∧ (g.priority i).toNat < best then (g.priority i).toNat
      else best) 256

/-- the lines the scan passes over whatever their priority -/
def skips (enable pending active target : Bank) (i : Fin 64) : Bool :=
  enable i == 0 || pending i == 0 || active i != 0 || target i &&& 1 == 0

/-- one turn of the scan loop, over the best id and the best priority so far -/
def scanStep (enable pending active priority target : Bank) (pmr : Nat) (s : Nat × Nat)
    (i : Fin 64) : Nat × Nat :=
  if skips enable pending active target i then s
  else
    let pri := (priority i).toNat
    if pri ≥ pmr ∨ pri ≥ s.2 then s else (i.val, pri)

/-- `oemu_gicv2_internal_scan`: the id the CPU interface would acknowledge, or `spurious` -/
def scan (enable pending active priority target : Bank) (runningPri pmr lines : Nat) : Nat :=
  (((List.finRange 64).filter (·.val < lines)).foldl
    (scanStep enable pending active priority target pmr) (spurious, runningPri)).1

/-- the arguments both entry points give the scan -/
def candidate (g : Gicv2) : Nat :=
  scan g.enable g.pending g.active g.priority g.target g.runningPriority (g.cpuPmr &&& 0xFF).toNat
    g.linesOf

/-- `gic_acknowledge`: the candidate becomes active and its pending latch is consumed -/
def acknowledge (g : Gicv2) : Nat × Gicv2 :=
  let id := g.candidate
  if id = spurious then (spurious, g)
  else
    let g := { g with active := g.active.put id 1, pending := g.pending.put id 0 }
    (id, { g with runningPri := BitVec.ofNat 32 g.runningPriority })

/-- `oemu_gicv2_init` -/
def init (lines : Nat) : Gicv2 where
  ctl := 0
  typer := ((16 : W32) <<< 16) ||| BitVec.ofNat 32 (lines / 32 - 1)
  iidr := 0
  cpuCtl := 0
  cpuPmr := 0
  cpuBpr := 0
  runningPri := 0
  ccpner := 0
  enable := fun _ => 0
  pending := fun _ => 0
  active := fun _ => 0
  config := fun _ => 0
  group := fun _ => 0
  priority := fun _ => 0x80
  target := fun _ => 1
  sgir := 0

/-! ## the two windows -/

/-- an offset inside the block of `span` bytes at `base` -/
def within (offset base span : W64) : Bool := decide (offset ≥ base) && decide (offset < base + span)

/-- the word of a block an offset names -/
def wordAt (offset base : W64) : Nat := (offset - base).toNat / 4

/-- `(unsigned)(offset & ~UINT64_C(3))` -/
def regAt (offset : W64) : Nat := (offset &&& ~~~3).toNat % 2 ^ 32

/-- `dist_read` -/
def distRead (g : Gicv2) (offset : W64) (_size : MemSize) : Status × W64 × Gicv2 :=
  let v : W32 :=
    if within offset 0x080 0x20 then g.group.pack (wordAt offset 0x080 * 32)
    else if within offset 0x100 0x80 then g.enable.pack (wordAt offset 0x100 * 32)
    else if within offset 0x180 0x80 then g.enable.pack (wordAt offset 0x180 * 32)
    else if within offset 0x200 0x80 then g.pending.pack (wordAt offset 0x200 * 32)
    else if within offset 0x280 0x80 then g.pending.pack (wordAt offset 0x280 * 32)
    else if within offset 0x300 0x80 then g.active.pack (wordAt offset 0x300 * 32)
    else if within offset 0x380 0x80 then g.active.pack (wordAt offset 0x380 * 32)
    else if within offset 0x400 0x100 then
      (List.range 4).foldl
        (fun v b => v ||| (g.priority.get (wordAt offset 0x400 * 4 + b)).setWidth 32 <<< (b * 8)) 0
    else if within offset 0x800 (4 * BitVec.ofNat 64 g.linesOf) then
      if wordAt offset 0x800 < g.linesOf then (g.target.get (wordAt offset 0x800)).setWidth 32
      else 0
    else if within offset 0xC00 0x40 then
      (List.range 16).foldl
        (fun v b => v ||| (g.config.get (wordAt offset 0xC00 * 16 + b)).setWidth 32 <<< (b * 2)) 0
    else
      match regAt offset with
      | 0x000 => g.ctl
      | 0x004 => g.typer
      | 0x008 => g.iidr
      | 0xF88 => 0x0D
      | 0xF8C => 0xF0
      | 0xF90 => 0x05
      | 0xF94 => 0xB1
      | 0xFE0 => 0x00
      | 0xFE4 => 0x00
      | 0xFE8 => 0x2B
      | 0xFEC => 0x02
      | _ => 0
  (.ok, v.setWidth 64, g)

/-- `dist_write` -/
def distWrite (g : Gicv2) (offset : W64) (_size : MemSize) (value : W64) : Status × Gicv2 :=
  let v : W32 := value.setWidth 32
  let g :=
    if within offset 0x080 0x20 then
      { g with
        group := g.group.fill (wordAt offset 0x080 * 32) 32 fun b =>
          ((v >>> b) &&& 1).setWidth 8 }
    else if within offset 0x100 0x80 then
      { g with enable := g.enable.poke (wordAt offset 0x100 * 32) v true }
    else if within offset 0x180 0x80 then
      { g with enable := g.enable.poke (wordAt offset 0x180 * 32) v false }
    else if within offset 0x200 0x80 then
      { g with pending := g.pending.poke (wordAt offset 0x200 * 32) v true }
    else if within offset 0x280 0x80 then
      { g with pending := g.pending.poke (wordAt offset 0x280 * 32) v false }
    else if within offset 0x300 0x80 then
      { g with active := g.active.poke (wordAt offset 0x300 * 32) v true }
    else if within offset 0x380 0x80 then
      { g with active := g.active.poke (wordAt offset 0x380 * 32) v false }
    else if within offset 0x400 0x100 then
      { g with
        priority := g.priority.fill (wordAt offset 0x400 * 4) 4 fun b =>
          ((v >>> (b * 8)) &&& 0xFF).setWidth 8 }
    else if within offset 0x800 (4 * BitVec.ofNat 64 g.linesOf) then
      -- the targets of the first 32 lines are fixed
      if wordAt offset 0x800 < g.linesOf ∧ wordAt offset 0x800 ≥ 32 then
        { g with target := g.target.put (wordAt offset 0x800) ((v &&& 0xFF).setWidth 8) }
      else g
    else if within offset 0xC00 0x40 then
      { g with
        config := g.config.fill (wordAt offset 0xC00 * 16) 16 fun b =>
          ((v >>> (b * 2)) &&& 0x3).setWidth 8 }
    else
      match regAt offset with
      | 0x000 => { g with ctl := v &&& 0x3F }
      | 0xF00 => { g with sgir := v.setWidth 64 }
      | _ => g
  (.ok, g)

/-- `cpu_read` -/
def cpuRead (g : Gicv2) (offset : W64) (_size : MemSize) : Status × W64 × Gicv2 :=
  match regAt offset with
  | 0x000 => (.ok, g.cpuCtl.setWidth 64, g)
  | 0x004 => (.ok, g.cpuPmr.setWidth 64, g)
  | 0x008 => (.ok, g.cpuBpr.setWidth 64, g)
  | 0x00C =>
    let (id, g) := g.acknowledge
    (.ok, BitVec.ofNat 64 id, g)
  | _ => (.ok, 0, g)

/-- `cpu_write` -/
def cpuWrite (g : Gicv2) (offset : W64) (_size : MemSize) (value : W64) : Status × Gicv2 :=
  match regAt offset with
  | 0x000 => (.ok, { g with cpuCtl := value.setWidth 32 &&& 1 })
  | 0x004 => (.ok, { g with cpuPmr := value.setWidth 32 &&& 0xFF })
  | 0x008 => (.ok, { g with cpuBpr := value.setWidth 32 &&& 0x7 })
  | 0x010 =>
    let id := (value.setWidth 32 &&& (0x3FF : W32)).toNat
    let g := { g with active := g.active.put id 0 }
    (.ok, { g with runningPri := BitVec.ofNat 32 g.runningPriority })
  | _ => (.ok, g)

def distOps : DeviceOps Gicv2 where
  read := distRead
  write := distWrite

def cpuOps : DeviceOps Gicv2 where
  read := cpuRead
  write := cpuWrite

/-- `oemu_gicv2_irq_level` -/
def irqLevel (g : Gicv2) : Nat :=
  if g.ctl &&& 1 = 0 ∨ g.cpuCtl &&& 1 = 0 then 0
  else if g.candidate ≠ spurious then 1 else 0

/-- `oemu_gicv2_set_pending`: a wired source drives its line -/
def setPending (g : Gicv2) (intid : Nat) (level : Bool) : Gicv2 :=
  { g with pending := g.pending.put intid (if level then 1 else 0) }

/-! ## requests -/

/-- what reaches the controller: a wired source, or an access to one of the windows -/
inductive Req where
  | setPending (intid : Nat) (level : Bool)
  | distRead (offset : W64) (size : MemSize)
  | distWrite (offset : W64) (size : MemSize) (value : W64)
  | cpuRead (offset : W64) (size : MemSize)
  | cpuWrite (offset : W64) (size : MemSize) (value : W64)
deriving DecidableEq

/-- a request served: the value read, zero where nothing is read, and the state left -/
def serve (g : Gicv2) : Req → W64 × Gicv2
  | .setPending intid level => (0, g.setPending intid level)
  | .distRead offset size => (g.distRead offset size).2
  | .distWrite offset size value => (0, (g.distWrite offset size value).2)
  | .cpuRead offset size => (g.cpuRead offset size).2
  | .cpuWrite offset size value => (0, (g.cpuWrite offset size value).2)

/-- a request with the value it read -/
structure Event where
  req : Req
  reply : W64
deriving DecidableEq

def Step (g : Gicv2) (e : Event) (g' : Gicv2) : Prop := g.serve e.req = (e.reply, g')

end Gicv2

end Oemu
