import Oemu.Fdt.Builder
import Oemu.Lib.Buffer

/-!
# The builder in its scratch memory

`Scratch` is the builder with the allocation it writes to: the structure block from the start, the
strings block from `sbSize` on, and every length a number of 64 bits.  `none` is a write outside an
allocation.  The calls are those of `Fdt`, whose lengths never wrap.

* `Scratch.init`, `Scratch.step`   the calls;
* `Scratch.emitAll_eq`             appending is one write, in the allocation or not.
-/

namespace Oemu

open Wire Buffer

/-- a number of 64 bits -/
def wrap (n : Nat) : Nat := n % 2 ^ 64

structure Scratch where
  sb : Option (Nat → Byte)
  /-- bytes of the allocation -/
  room : Nat
  sbSize : Nat
  sbUsed : Nat
  strLen : Nat
  cap : Nat
  depth : Nat
  data : Option (List Byte)
  finished : Bool

namespace Scratch

def zero : Scratch := ⟨none, 0, 0, 0, 0, 0, 0, none, false⟩

def fdtPad4 (n : Nat) : Nat := wrap (n + 3) / 4 * 4

variable (s : Scratch)

def fits (needStruct needStr : Nat) : Bool :=
  decide (wrap (s.sbUsed + s.strLen + needStruct + needStr) ≤ s.cap)

def emitRaw (bytes : List Byte) : Option Scratch :=
  s.sb.bind fun m =>
    if s.sbUsed + bytes.length ≤ s.room then
      some { s with sb := some (poke m s.sbUsed bytes), sbUsed := s.sbUsed + bytes.length }
    else none

def emitToken (token : W32) : Option Scratch := s.emitRaw (putBe32 token)

/-- one piece after the other -/
def emitAll (s : Scratch) : List (List Byte) → Option Scratch
  | [] => some s
  | bytes :: rest => (s.emitRaw bytes).bind fun s => s.emitAll rest

/-- the offset of the name, and the builder that holds it -/
def intern (name : CStr) : Option (W32 × Scratch) :=
  s.sb.bind fun m =>
    if s.sbSize + s.strLen + name.wire.length ≤ s.room then
      some (BitVec.ofNat 32 s.strLen, { s with
        sb := some (poke m (s.sbSize + s.strLen) name.wire)
        strLen := s.strLen + name.wire.length })
    else none

def beginNode (name : Option CStr) : Option (Status × Scratch) :=
  if s.sb.isNone then some (.state, s)
  else
    match name with
    | none => some (.invalidArg, s)
    | some name =>
      let nameLen := name.bytes.length
      if nameLen ≥ fdtMaxName then some (.invalidArg, s)
      else
        let inlineBytes := fdtPad4 (nameLen + 1)
        if !s.fits (fdtTokenSize + inlineBytes) 0 then some (.noMemory, s)
        else
          (s.emitAll [putBe32 fdtTokenBeginNode, name.bytes ++ zeros (inlineBytes - nameLen)]).map
            fun s => (.ok, { s with depth := s.depth + 1 })

def endNode : Option (Status × Scratch) :=
  if s.sb.isNone then some (.state, s)
  else if s.depth = 0 then some (.state, s)
  else if !s.fits fdtTokenSize 0 then some (.noMemory, s)
  else (s.emitToken fdtTokenEndNode).map fun s => (.ok, { s with depth := s.depth - 1 })

/-- what `propGuard` checks before it interns -/
def propChecks (name : Option CStr) (valueLen : Nat) : Except Status CStr :=
  if s.sb.isNone then .error .state
  else
    match name with
    | none => .error .invalidArg
    | some name =>
      if name.bytes = [] then .error .invalidArg
      else if s.depth = 0 then .error .state
      else
        let nameBytes := wrap (name.bytes.length + 1)
        if nameBytes > fdtMaxName ∨ !s.fits (fdtTokenSize + 8 + fdtPad4 valueLen) nameBytes then
          .error .noMemory
        else .ok name

/-- the checks of a property, its name interned, and then its pieces -/
def propGuard (name : Option CStr) (valueLen : Nat) (pieces : W32 → List (List Byte)) :
    Option (Status × Scratch) :=
  match s.propChecks name valueLen with
  | .error st => some (st, s)
  | .ok name => (s.intern name).bind fun r => (r.2.emitAll (pieces r.1)).map fun s => (.ok, s)

/-- zeros from the end of a value of `len` bytes to the boundary -/
def padding (len : Nat) : List Byte := zeros (wrap (fdtPad4 len + 2 ^ 64 - len))

def propEmit (val : List Byte) (nameOff : W32) : List (List Byte) :=
  [Fdt.propHead nameOff val.length, val, padding val.length]

def propValue (name : Option CStr) (val : List Byte) : Option (Status × Scratch) :=
  s.propGuard name val.length (propEmit val)

def propEmpty (name : Option CStr) : Option (Status × Scratch) := s.propValue name []

def propU32 (name : Option CStr) (value : W32) : Option (Status × Scratch) :=
  s.propValue name (putBe32 value)

def propU64 (name : Option CStr) (value : W64) : Option (Status × Scratch) :=
  s.propValue name (putBe32 ((value >>> 32).setWidth 32) ++ putBe32 (value.setWidth 32))

def propBytes (name : Option CStr) (data : Option Blob32) : Option (Status × Scratch) :=
  match data with
  | none => some (.invalidArg, s)
  | some data => s.propValue name data.bytes

def propStr (name : Option CStr) (value : Option CStr) : Option (Status × Scratch) :=
  match value with
  | none => some (.invalidArg, s)
  | some value => s.propValue name value.wire

def propCells (name : Option CStr) (cells : Option (List W32)) : Option (Status × Scratch) :=
  match cells with
  | none => some (.invalidArg, s)
  | some cells =>
    let len := wrap (cells.length * 4)
    s.propGuard name len fun off => Fdt.propHead off len :: cells.map putBe32

def propStrv (name : Option CStr) (values : Option (List (Option CStr))) :
    Option (Status × Scratch) :=
  if s.sb.isNone then some (.state, s)
  else
    match values.bind Fdt.strings with
    | none => some (.invalidArg, s)
    | some values =>
      let len := wrap (values.map fun v => v.bytes.length + 1).sum
      s.propGuard name len fun off =>
        Fdt.propHead off len :: values.map CStr.wire ++ [padding len]

/-- close the tree; the blob is written where the header says -/
def finish (allocOk : Bool) : Option (Status × Scratch) :=
  if s.sb.isNone then some (.state, s)
  else if s.depth ≠ 0 then some (.state, s)
  else if !s.fits fdtTokenSize 0 then some (.noMemory, s)
  else
    (s.emitToken fdtTokenEnd).bind fun s =>
      let stringsOff := fdtHeaderSize + fdtRsvMapSize + s.sbUsed
      let total := wrap (stringsOff + s.strLen)
      if !allocOk then some (.noMemory, s)
      else
        s.sb.bind fun m =>
          if stringsOff + s.strLen ≤ total ∧ s.sbSize + s.strLen ≤ s.room then
            some (.ok, { s with
              sb := none
              data := some (Fdt.header s.sbUsed s.strLen ++ readout m 0 s.sbUsed ++
                readout m s.sbSize s.strLen)
              finished := true })
          else none

/-- allocate the scratch, whatever it holds, and open the root -/
def init (junk : Nat → Byte) (cap : Nat) (allocOk : Bool) : Option (Status × Scratch) :=
  if cap < fdtMinCap then some (.invalidArg, zero)
  else if !allocOk then some (.noMemory, zero)
  else
    let s : Scratch := { zero with sb := some junk, room := wrap (cap + cap), sbSize := cap, cap }
    (s.beginNode (some rootName)).map fun r => if r.1 = .ok then r else (r.1, zero)

def step (s : Scratch) : Call → Option (Status × Scratch)
  | .beginNode name => s.beginNode name
  | .endNode => s.endNode
  | .propEmpty name => s.propEmpty name
  | .propU32 name value => s.propU32 name value
  | .propU64 name value => s.propU64 name value
  | .propBytes name data => s.propBytes name data
  | .propStr name value => s.propStr name value
  | .propCells name cells => s.propCells name cells
  | .propStrv name values => s.propStrv name values
  | .finish allocOk => s.finish allocOk
  | .dispose => some (.ok, zero)

/-! ## appending -/

variable {s} {m : Nat → Byte}

/-- **what is emitted piece by piece** is one write behind the structure block -/
theorem emitAll_eq (hm : s.sb = some m) (hu : s.sbUsed ≤ s.room) (pieces : List (List Byte)) :
    s.emitAll pieces = if s.sbUsed + pieces.flatten.length ≤ s.room then
      some { s with
        sb := some (poke m s.sbUsed pieces.flatten)
        sbUsed := s.sbUsed + pieces.flatten.length }
    else none := by
  induction pieces generalizing s m with
  | nil =>
    rw [if_pos (by simpa using hu), List.flatten_nil, poke_nil, ← hm]
    rfl
  | cons bytes rest ih =>
    unfold emitAll emitRaw
    rw [hm, Option.bind_some, List.flatten_cons, List.length_append]
    by_cases hb : s.sbUsed + bytes.length ≤ s.room
    · rw [if_pos hb, Option.bind_some, ih rfl hb]
      dsimp only
      rw [poke_poke, Nat.add_assoc]
    · rw [if_neg hb, if_neg (by omega)]
      rfl

end Scratch

end Oemu
