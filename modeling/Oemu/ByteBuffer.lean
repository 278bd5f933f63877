import Oemu.Basic
import Oemu.Lib.Buffer
import Oemu.Lib.Consume

/-!
# The growable byte buffer

`ByteBuffer` is a block of the allocator, the bytes in use, and the capacity.  Every call that may
need room takes the answer of the allocator: what a new block holds before it is written, or nothing.
`none` is a write outside the block.

* `growCapacity`   the growth policy, one and a half times as much per turn;
* `grow`           what every appending call goes through;
* `Op`, `serve`    the calls.
-/

namespace Oemu

open Buffer

/-- what the allocator answers: the garbage in a new block, or no block -/
abbrev NewBlock := Option (Nat → BitVec 8)

/-- a string of the host, without its terminator -/
structure HostStr where
  bytes : List (BitVec 8)
  nonzero : (0 : BitVec 8) ∉ bytes
  addressable : bytes.length < 2 ^ 64

/-- `room` is the size of the block, which no field of the program holds -/
structure ByteBuffer where
  data : Option (Nat → BitVec 8)
  room : Nat
  len : W64
  cap : W64

namespace ByteBuffer

/-- the smallest capacity of a first growth -/
def minCap : W64 := 16

def checkedAdd (a b : W64) : Except Status W64 :=
  if a > BitVec.allOnes 64 - b then .error .overflow else .ok (a + b)

/-- one turn of the growth loop; it returns where a half more would wrap, or would not be more -/
def growTurn (required cap : W64) : W64 ⊕ W64 :=
  if cap < required then
    let half := cap / 2
    if cap > BitVec.allOnes 64 - half then .inl required
    else
      let next := cap + half
      if next ≤ cap then .inl required else .inr next
  else .inl cap

def growStart (currentCap : W64) : W64 := if currentCap < minCap then minCap else currentCap

/-- what the growth loop has left to do -/
def shortfall (required cap : W64) : Nat := required.toNat - cap.toNat

/-- `oemu_buffer_internal_grow_capacity` -/
def growCapacity (currentCap required : W64) : W64 :=
  if currentCap ≥ required then currentCap
  else Consume.loop (growTurn required) required (shortfall required) (growStart currentCap)

/-- a buffer without a block -/
def empty : ByteBuffer := ⟨none, 0, 0, 0⟩

variable (b : ByteBuffer)

/-- `realloc`: the bytes of the old block stay, the others are what the allocator left there -/
def realloc (garbage : Nat → BitVec 8) (newCap : W64) : ByteBuffer where
  data := some fun i => if i < b.room then b.data.getD garbage i else garbage i
  room := newCap.toNat
  len := b.len
  cap := newCap

/-- room for the sum, if there is one -/
def growTo (block : NewBlock) : Except Status W64 → Status × ByteBuffer
  | .error st => (st, b)
  | .ok required =>
    if required ≤ b.cap then (.ok, b)
    else
      match block with
      | none => (.noMemory, b)
      | some garbage => (.ok, b.realloc garbage (growCapacity b.cap required))

/-- `buffer_grow` -/
def grow (additional : W64) (block : NewBlock) : Status × ByteBuffer :=
  b.growTo block (checkedAdd b.len additional)

/-- bytes copied behind the last one in use -/
def store (bytes : List (BitVec 8)) : Option ByteBuffer :=
  b.data.bind fun m =>
    if b.len.toNat + bytes.length ≤ b.room then
      some { b with data := some (poke m b.len.toNat bytes) }
    else none

/-- `oemu_buffer_init`, which looks at nothing of the old buffer -/
def init (initialCap : W64) (block : NewBlock) : Status × ByteBuffer :=
  if initialCap = 0 then (.ok, empty)
  else
    match block with
    | none => (.noMemory, empty)
    | some garbage => (.ok, ⟨some garbage, initialCap.toNat, 0, initialCap⟩)

def clear : ByteBuffer := { b with len := 0 }

def reserve (additional : W64) (block : NewBlock) : Status × ByteBuffer := b.grow additional block

/-- so many bytes behind the others, once there is room for them -/
def copyBehind (src : Nat → BitVec 8) (size : W64) :
    Status × ByteBuffer → Option (Status × ByteBuffer)
  | (.ok, b) => (b.store (readout src 0 size.toNat)).map fun b => (.ok, { b with len := b.len + size })
  | (st, b) => some (st, b)

/-- `bytes` is the memory from a pointer on -/
def append (bytes : Option (Nat → BitVec 8)) (size : W64) (block : NewBlock) :
    Option (Status × ByteBuffer) :=
  if size = 0 then some (.ok, b)
  else
    match bytes with
    | none => some (.invalidArg, b)
    | some src => copyBehind src size (b.grow size block)

def appendStr (str : Option HostStr) (block : NewBlock) : Option (Status × ByteBuffer) :=
  match str with
  | none => some (.invalidArg, b)
  | some s => b.append (some fun i => s.bytes.getD i 0) (BitVec.ofNat 64 s.bytes.length) block

/-- the terminator, once there is room for it -/
def terminate : Status × ByteBuffer → Option (Option (Nat → BitVec 8) × ByteBuffer)
  | (.ok, b) => (b.store [0]).map fun b => (b.data, b)
  | (_, b) => some (none, b)

/-- the pointer to the text, or a null pointer -/
def cstr (block : NewBlock) : Option (Option (Nat → BitVec 8) × ByteBuffer) :=
  terminate (b.grow 1 block)

/-! ## the calls -/

inductive Op where
  | init (initialCap : W64) (block : NewBlock)
  | reserve (additional : W64) (block : NewBlock)
  | append (bytes : Option (Nat → BitVec 8)) (size : W64) (block : NewBlock)
  | appendStr (str : Option HostStr) (block : NewBlock)
  | clear
  | cstr (block : NewBlock)

/-- a call, and whether it succeeds -/
def serve : Op → Option (Bool × ByteBuffer)
  | .init initialCap block => some ((init initialCap block).1 = .ok, (init initialCap block).2)
  | .reserve additional block =>
    some ((b.reserve additional block).1 = .ok, (b.reserve additional block).2)
  | .append bytes size block => (b.append bytes size block).map fun r => (r.1 = .ok, r.2)
  | .appendStr str block => (b.appendStr str block).map fun r => (r.1 = .ok, r.2)
  | .clear => some (true, b.clear)
  | .cstr block => (b.cstr block).map fun r => (r.1.isSome, r.2)

/-- the bytes a reader of the buffer sees -/
def contents : List (BitVec 8) :=
  match b.data with
  | some m => readout m 0 b.len.toNat
  | none => []

end ByteBuffer

end Oemu
