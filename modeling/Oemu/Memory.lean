import Oemu.Basic

/-!
# Region-table guest memory

`Memory` is the flat guest space: a table of regions, each backed by a window of host memory.  The
host is a byte array of its own, so that two regions may alias one buffer, as `mapAlias` allows.
Containment is tested by subtractions only, never by forming an end address, which may be `2^64`.
-/

namespace Oemu

/-- one guest region; `host` is where its backing starts -/
structure Region where
  gva : W64
  size : W64
  perms : W32
  host : Nat
  owned : Bool
deriving DecidableEq

structure Memory where
  regions : List Region
  capacity : Nat
  heap : Nat → BitVec 8

/-- a value assembled from little-endian bytes -/
def disassemble (src : Nat → BitVec 8) : Nat → W64
  | 0 => 0
  | n + 1 => disassemble src n ||| ((src n).setWidth 64 <<< (8 * n))

/-- the low bytes of a value, stored little-endian from `dst` on -/
def assemble (heap : Nat → BitVec 8) (dst nbytes : Nat) (value : W64) : Nat → BitVec 8 :=
  fun i => if dst ≤ i ∧ i < dst + nbytes then (value >>> (8 * (i - dst))).setWidth 8 else heap i

namespace Memory

/-- an empty table for `capacity` regions; `table` is whether the allocator answers, `heap` what the
host memory holds -/
def init (heap : Nat → BitVec 8) (table : Bool) (capacity : Nat) : Except Status Memory :=
  if capacity = 0 then .error .invalidArg
  else if table then .ok ⟨[], capacity, heap⟩ else .error .noMemory

def checkMapArgs (gva size : W64) (perms : W32) : Status :=
  if size = 0 ∨ perms = 0 then .invalidArg
  else if size - 1 > BitVec.allOnes 64 - gva then .overflow
  else .ok

def rangesOverlap (a as b bs : W64) : Bool :=
  if a ≤ b then decide (b - a < as) else decide (a - b < bs)

/-- does a region hold the whole range with the permissions asked for -/
def holds (r : Region) (gva size : W64) (perms : W32) : Bool :=
  if r.perms &&& perms ≠ perms then false
  else if r.gva > gva then false
  else
    let off := gva - r.gva
    !(decide (off ≥ r.size) || decide (size > r.size - off))

def find (mem : Memory) (gva size : W64) (perms : W32) : Option Region :=
  if size = 0 then none else mem.regions.find? fun r => holds r gva size perms

/-- the checks a mapping request passes before anything is allocated -/
def checkMap (mem : Memory) (gva size : W64) (perms : W32) : Status :=
  match checkMapArgs gva size perms with
  | .ok =>
    if mem.regions.length ≥ mem.capacity then .range
    else if mem.regions.any fun r => rangesOverlap gva size r.gva r.size then .range
    else .ok
  | st => st

/-- map a zeroed region with a prefix taken from `contents`; `block` is what the allocator answers -/
def mapImage (mem : Memory) (block : Option Nat) (gva size : W64) (perms : W32)
    (contents : List (BitVec 8)) : Status × Memory :=
  match mem.checkMap gva size perms with
  | .ok =>
    if contents.length > size.toNat then (.invalidArg, mem)
    else
      match block with
      | none => (.noMemory, mem)
      | some host =>
        (.ok, { mem with
          regions := mem.regions ++ [⟨gva, size, perms, host, true⟩]
          heap := fun i =>
            if host ≤ i ∧ i < host + size.toNat then contents.getD (i - host) 0 else mem.heap i })
  | st => (st, mem)

def map (mem : Memory) (block : Option Nat) (gva size : W64) (perms : W32) : Status × Memory :=
  mem.mapImage block gva size perms []

/-- map a region the caller backs -/
def mapAlias (mem : Memory) (gva : W64) (host : Nat) (size : W64) (perms : W32) :
    Status × Memory :=
  match mem.checkMap gva size perms with
  | .ok => (.ok, { mem with regions := mem.regions ++ [⟨gva, size, perms, host, false⟩] })
  | st => (st, mem)

def validate (mem : Memory) (gva size : W64) (perms : W32) : Status :=
  if size = 0 then .invalidArg
  else
    match mem.find gva size perms with
    | some _ => .ok
    | none => .fault

/-- sign-extend a loaded value from its access width -/
def signExtend (value : W64) (nbytes : Nat) : W64 :=
  if value &&& ((1 : W64) <<< (8 * nbytes - 1)) ≠ 0 then
    value ||| ~~~(BitVec.allOnes 64 >>> (64 - 8 * nbytes))
  else value

def read (mem : Memory) (gva : W64) (size : MemSize) (sx : Bool) : Status × W64 :=
  match mem.find gva (BitVec.ofNat 64 size.bytes) permRead with
  | none => (.fault, 0)
  | some r =>
    let off := (gva - r.gva).toNat
    let value := disassemble (fun i => mem.heap (r.host + off + i)) size.bytes
    (.ok, if sx then signExtend value size.bytes else value)

def write (mem : Memory) (gva : W64) (size : MemSize) (value : W64) : Status × Memory :=
  match mem.find gva (BitVec.ofNat 64 size.bytes) permWrite with
  | none => (.fault, mem)
  | some r =>
    let off := (gva - r.gva).toNat
    (.ok, { mem with heap := assemble mem.heap (r.host + off) size.bytes value })

/-- copy bytes into one writable region; nothing to copy is no fault -/
def writeBytes (mem : Memory) (gva : W64) (src : List (BitVec 8)) : Status × Memory :=
  if src.length = 0 then (.ok, mem)
  else
    match mem.find gva (BitVec.ofNat 64 src.length) permWrite with
    | none => (.fault, mem)
    | some r =>
      let dst := r.host + (gva - r.gva).toNat
      (.ok, { mem with
        heap := fun i =>
          if dst ≤ i ∧ i < dst + src.length then src.getD (i - dst) 0 else mem.heap i })

def fetch32 (mem : Memory) (pc : W64) : Status × W32 :=
  if pc &&& 3 ≠ 0 then (.fault, 0)
  else
    match mem.find pc 4 permExec with
    | none => (.fault, 0)
    | some r =>
      let off := (pc - r.gva).toNat
      (.ok, (disassemble (fun i => mem.heap (r.host + off + i)) 4).setWidth 32)

/-- the bus view: the view adds no behaviour of its own -/
def memops : Memops Memory where
  fetch32 mem pa := ((mem.fetch32 pa).1, (mem.fetch32 pa).2, mem)
  read mem pa size sx := ((mem.read pa size sx).1, (mem.read pa size sx).2, mem)
  write mem pa size value := mem.write pa size value
  validate mem pa size perms := (mem.validate pa size perms, mem)

theorem holds_iff {r : Region} {gva size : W64} {perms : W32} :
    holds r gva size perms = true ↔
      r.perms &&& perms = perms ∧ r.gva.toNat ≤ gva.toNat ∧
        gva.toNat - r.gva.toNat < r.size.toNat ∧
        gva.toNat - r.gva.toNat + size.toNat ≤ r.size.toNat := by
  unfold holds
  by_cases hp : r.perms &&& perms = perms
  · rw [if_neg (not_not_intro hp)]
    by_cases hg : r.gva > gva
    · rw [if_pos hg]
      have : ¬ r.gva.toNat ≤ gva.toNat := by bv_omega
      simp [this]
    · rw [if_neg hg]
      have h1 : r.gva.toNat ≤ gva.toNat := by bv_omega
      have h2 : (gva - r.gva).toNat = gva.toNat - r.gva.toNat :=
        BitVec.toNat_sub_of_le (by bv_omega)
      simp only [Bool.not_eq_true', Bool.or_eq_false_iff, decide_eq_false_iff_not, ge_iff_le,
        BitVec.le_def, gt_iff_lt, BitVec.lt_def, h2]
      constructor
      · rintro ⟨h3, h4⟩
        have h5 : (r.size - (gva - r.gva)).toNat = r.size.toNat - (gva.toNat - r.gva.toNat) := by
          rw [BitVec.toNat_sub_of_le (by rw [BitVec.le_def, h2]; omega), h2]
        exact ⟨hp, h1, by omega, by omega⟩
      · rintro ⟨-, -, h3, h4⟩
        have h5 : (r.size - (gva - r.gva)).toNat = r.size.toNat - (gva.toNat - r.gva.toNat) := by
          rw [BitVec.toNat_sub_of_le (by rw [BitVec.le_def, h2]; omega), h2]
        exact ⟨by omega, by omega⟩
  · rw [if_pos hp]
    simp [hp]

end Memory

end Oemu
