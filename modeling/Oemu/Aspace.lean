import Oemu.Memory

/-!
# The physical address space

`Aspace` is the machine's physical bus: RAM regions backed by host memory and device regions whose
accesses go to callbacks over a device state `δ`.  A device serves naturally aligned accesses only
and is never a source of instructions.
-/

namespace Oemu

/-- the callbacks of a device: an access at an offset inside its window -/
structure DeviceOps (δ : Type) where
  read : δ → W64 → MemSize → Status × W64 × δ
  write : δ → W64 → MemSize → W64 → Status × δ

inductive Backing (δ : Type) where
  | ram (host : Nat) (owned : Bool)
  | device (ops : DeviceOps δ)

structure AspaceRegion (δ : Type) where
  pa : W64
  size : W64
  perms : W32
  backing : Backing δ

structure Aspace (δ : Type) where
  regions : List (AspaceRegion δ)
  capacity : Nat
  heap : Nat → BitVec 8
  dev : δ

namespace Aspace

variable {δ : Type}

/-- an empty table for `capacity` regions; `table` is whether the allocator answers -/
def init (heap : Nat → BitVec 8) (dev : δ) (table : Bool) (capacity : Nat) :
    Except Status (Aspace δ) :=
  if capacity = 0 then .error .invalidArg
  else if table then .ok ⟨[], capacity, heap, dev⟩ else .error .noMemory

/-- bus-side normalisation of a loaded value -/
def extend (value : W64) (nbytes : Nat) (sx : Bool) : W64 :=
  if nbytes < 8 then
    let mask : W64 := ((1 : W64) <<< (nbytes * 8)) - 1
    let value := value &&& mask
    if sx ∧ value &&& ((1 : W64) <<< (nbytes * 8 - 1)) ≠ 0 then value ||| ~~~mask else value
  else value

def holds (r : AspaceRegion δ) (pa size : W64) (perms : W32) : Bool :=
  decide (pa ≥ r.pa) && decide (pa - r.pa ≤ r.size - 1) && decide (r.size - (pa - r.pa) ≥ size) &&
    (r.perms &&& perms == perms)

def find (as : Aspace δ) (pa size : W64) (perms : W32) : Option (AspaceRegion δ) :=
  if size = 0 then none else as.regions.find? fun r => holds r pa size perms

def checkRoom (as : Aspace δ) (pa size : W64) : Status :=
  if as.regions.any fun r => Memory.rangesOverlap pa size r.pa r.size then .range
  else if as.regions.length = as.capacity then .range
  else .ok

def mapCommon (as : Aspace δ) (pa size : W64) (perms : W32) : Status :=
  match Memory.checkMapArgs pa size perms with
  | .ok => as.checkRoom pa size
  | st => st

/-- map zeroed RAM; `block` is what the allocator answers -/
def mapRam (as : Aspace δ) (block : Option Nat) (pa size : W64) (perms : W32) :
    Status × Aspace δ :=
  match as.mapCommon pa size perms with
  | .ok =>
    match block with
    | none => (.noMemory, as)
    | some host =>
      (.ok, { as with
        regions := as.regions ++ [⟨pa, size, perms, .ram host true⟩]
        heap := fun i => if host ≤ i ∧ i < host + size.toNat then 0 else as.heap i })
  | st => (st, as)

def mapRamAlias (as : Aspace δ) (pa : W64) (host : Nat) (size : W64) (perms : W32) :
    Status × Aspace δ :=
  match as.mapCommon pa size perms with
  | .ok => (.ok, { as with regions := as.regions ++ [⟨pa, size, perms, .ram host false⟩] })
  | st => (st, as)

/-- attach a device: a power-of-two window aligned to its own size -/
def attachDevice (as : Aspace δ) (pa size : W64) (ops : DeviceOps δ) : Status × Aspace δ :=
  if size = 0 ∨ size &&& (size - 1) ≠ 0 ∨ pa % size ≠ 0 then (.invalidArg, as)
  else
    match as.mapCommon pa size (permRead ||| permWrite) with
    | .ok =>
      (.ok, { as with
        regions := as.regions ++ [⟨pa, size, permRead ||| permWrite, .device ops⟩] })
    | st => (st, as)

def validate (as : Aspace δ) (pa size : W64) (perms : W32) : Status :=
  if size = 0 then .invalidArg
  else
    match as.find pa size perms with
    | some _ => .ok
    | none => .fault

def read (as : Aspace δ) (pa : W64) (size : MemSize) (sx : Bool) : Status × W64 × Aspace δ :=
  match as.find pa (BitVec.ofNat 64 size.bytes) permRead with
  | none => (.fault, 0, as)
  | some r =>
    let offset := pa - r.pa
    match r.backing with
    | .device ops =>
      if pa.toNat % size.bytes ≠ 0 then (.fault, 0, as)
      else
        match ops.read as.dev offset size with
        | (.ok, value, dev) => (.ok, extend value size.bytes sx, { as with dev })
        | (st, _, dev) => (st, 0, { as with dev })
    | .ram host _ =>
      (.ok, extend (disassemble (fun i => as.heap (host + offset.toNat + i)) size.bytes)
        size.bytes sx, as)

def write (as : Aspace δ) (pa : W64) (size : MemSize) (value : W64) : Status × Aspace δ :=
  match as.find pa (BitVec.ofNat 64 size.bytes) permWrite with
  | none => (.fault, as)
  | some r =>
    let offset := pa - r.pa
    match r.backing with
    | .device ops =>
      if pa.toNat % size.bytes ≠ 0 then (.fault, as)
      else
        let (st, dev) := ops.write as.dev offset size (extend value size.bytes false)
        (st, { as with dev })
    | .ram host _ =>
      (.ok, { as with heap := assemble as.heap (host + offset.toNat) size.bytes value })

def fetch32 (as : Aspace δ) (pa : W64) : Status × W32 :=
  if pa.toNat % 4 ≠ 0 then (.invalidArg, 0)
  else
    match as.find pa 4 permExec with
    | none => (.fault, 0)
    | some r =>
      match r.backing with
      | .device _ => (.fault, 0)
      | .ram host _ =>
        (.ok, (disassemble (fun i => as.heap (host + (pa - r.pa).toNat + i)) 4).setWidth 32)

/-- the bus view -/
def memops : Memops (Aspace δ) where
  fetch32 as pa := ((as.fetch32 pa).1, (as.fetch32 pa).2, as)
  read as pa size sx := as.read pa size sx
  write as pa size value := as.write pa size value
  validate as pa size perms := (as.validate pa size perms, as)

/-- RAM and the region table: what only a write can change -/
def ram (as : Aspace δ) : List (AspaceRegion δ) × Nat × (Nat → BitVec 8) :=
  (as.regions, as.capacity, as.heap)

/-- a read may change the state of a device, and nothing else -/
theorem read_ram (as : Aspace δ) (pa : W64) (size : MemSize) (sx : Bool) :
    (as.read pa size sx).2.2.ram = as.ram := by
  unfold read
  split
  · rfl
  · dsimp only
    split
    · split
      · rfl
      · split <;> rfl
    · rfl

end Aspace

end Oemu
