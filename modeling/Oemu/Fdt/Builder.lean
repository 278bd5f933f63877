import Oemu.Basic
import Oemu.Lib.Wire

/-!
# The device tree builder

A builder appends tokens to a structure block and property names to a strings block; `finish` puts a
header in front of the two.  Every call checks first and refuses with the builder as it was, except
that `finish` has written its last token when the allocation of the blob fails.

A pointer argument that may be null is an `Option`.  A length is a `Nat`: no object of the host is so
long that the sums of the source wrap around, the doubled size of `init` apart.

* `Fdt.init`, `Call`, `Fdt.step`   the calls;
* `Fdt.emits`                      what each accepted call appends.
-/

namespace Oemu

open Wire

/-! ## the wire constants -/

def fdtMagic : W32 := 0xD00DFEED

def fdtTokenBeginNode : W32 := 1

def fdtTokenEndNode : W32 := 2

def fdtTokenProp : W32 := 3

def fdtTokenEnd : W32 := 9

def fdtV17 : W32 := 17

def fdtMaxName : Nat := 128

def fdtHeaderSize : Nat := 40

def fdtTokenSize : Nat := 4

def fdtRsvMapSize : Nat := 16

def fdtMinCap : Nat := 128

/-! ## the builder -/

/-- a string of C: the bytes before its terminator -/
structure CStr where
  bytes : List Byte
  nonzero : (0 : Byte) ∉ bytes
deriving DecidableEq

/-- a string with its terminator -/
def CStr.wire (s : CStr) : List Byte := s.bytes ++ [0]

def slash : Byte := 0x2F

def rootName : CStr := ⟨[], List.not_mem_nil⟩

/-- bytes with a 32-bit length -/
structure Blob32 where
  bytes : List Byte
  bound : bytes.length < 2 ^ 32
deriving DecidableEq

/-- the builder.  `sb` is the structure block while it is being emitted, `strs` the strings block, and
`data` the finished blob. -/
structure Fdt where
  sb : Option (List Byte)
  strs : List Byte
  cap : Nat
  depth : Nat
  data : Option (List Byte)
  finished : Bool
deriving DecidableEq

def Fdt.zero : Fdt := ⟨none, [], 0, 0, none, false⟩

namespace Fdt

variable (f : Fdt)

/-- bytes emitted to the structure block so far -/
def used : Nat := (f.sb.getD []).length

def fits (needStruct needStr : Nat) : Bool :=
  decide (f.used + f.strs.length + needStruct + needStr ≤ f.cap)

def emitRaw (bytes : List Byte) : Fdt := { f with sb := f.sb.map (· ++ bytes) }

def emitToken (token : W32) : Fdt := f.emitRaw (putBe32 token)

def beginNode (name : Option CStr) : Status × Fdt :=
  if f.sb = none then (.state, f)
  else
    match name with
    | none => (.invalidArg, f)
    | some name =>
      let nameLen := name.bytes.length
      if nameLen ≥ fdtMaxName then (.invalidArg, f)
      else
        let inlineBytes := pad4 (nameLen + 1)
        if !f.fits (fdtTokenSize + inlineBytes) 0 then (.noMemory, f)
        else
          let f := f.emitToken fdtTokenBeginNode
          let f := f.emitRaw (name.bytes ++ zeros (inlineBytes - nameLen))
          (.ok, { f with depth := f.depth + 1 })

def endNode : Status × Fdt :=
  if f.sb = none then (.state, f)
  else if f.depth = 0 then (.state, f)
  else if !f.fits fdtTokenSize 0 then (.noMemory, f)
  else
    let f := f.emitToken fdtTokenEndNode
    (.ok, { f with depth := f.depth - 1 })

/-- the checks every property shares; on success its name is interned, and this is its offset -/
def propGuard (name : Option CStr) (valueLen : Nat) : Except Status (W32 × Fdt) :=
  if f.sb = none then .error .state
  else
    match name with
    | none => .error .invalidArg
    | some name =>
      if name.bytes = [] then .error .invalidArg
      else if f.depth = 0 then .error .state
      else
        let nameBytes := name.bytes.length + 1
        if nameBytes > fdtMaxName ∨ !f.fits (fdtTokenSize + 8 + pad4 valueLen) nameBytes then
          .error .noMemory
        else .ok (BitVec.ofNat 32 f.strs.length, { f with strs := f.strs ++ name.wire })

/-- the head of a property: its token, its length and the offset of its name -/
def propHead (nameOff : W32) (len : Nat) : List Byte :=
  putBe32 fdtTokenProp ++ putBe32 (BitVec.ofNat 32 len) ++ putBe32 nameOff

def propEmit (nameOff : W32) (val : List Byte) : Fdt :=
  let f := f.emitRaw (propHead nameOff val.length)
  let f := f.emitRaw val
  f.emitRaw (zeros (pad4 val.length - val.length))

def propValue (name : Option CStr) (val : List Byte) : Status × Fdt :=
  match f.propGuard name val.length with
  | .error st => (st, f)
  | .ok (off, f) => (.ok, f.propEmit off val)

def propEmpty (name : Option CStr) : Status × Fdt := f.propValue name []

def propU32 (name : Option CStr) (value : W32) : Status × Fdt := f.propValue name (putBe32 value)

def propU64 (name : Option CStr) (value : W64) : Status × Fdt :=
  f.propValue name (putBe32 ((value >>> 32).setWidth 32) ++ putBe32 (value.setWidth 32))

def propBytes (name : Option CStr) (data : Option Blob32) : Status × Fdt :=
  match data with
  | none => (.invalidArg, f)
  | some data => f.propValue name data.bytes

def propStr (name : Option CStr) (value : Option CStr) : Status × Fdt :=
  match value with
  | none => (.invalidArg, f)
  | some value => f.propValue name value.wire

/-- the cells are written word by word: whole words need no padding -/
def propCells (name : Option CStr) (cells : Option (List W32)) : Status × Fdt :=
  match cells with
  | none => (.invalidArg, f)
  | some cells =>
    let len := cells.length * 4
    match f.propGuard name len with
    | .error st => (st, f)
    | .ok (off, f) =>
      (.ok, cells.foldl (fun f cell => f.emitRaw (putBe32 cell)) (f.emitRaw (propHead off len)))

/-- the strings of a list, if none of them is null -/
def strings : List (Option CStr) → Option (List CStr)
  | [] => some []
  | none :: _ => none
  | some s :: rest => (strings rest).map (s :: ·)

def propStrv (name : Option CStr) (values : Option (List (Option CStr))) : Status × Fdt :=
  if f.sb = none then (.state, f)
  else
    match values.bind strings with
    | none => (.invalidArg, f)
    | some values =>
      let len := (values.map fun s => s.bytes.length + 1).sum
      match f.propGuard name len with
      | .error st => (st, f)
      | .ok (off, f) =>
        let f := values.foldl (fun f s => f.emitRaw s.wire) (f.emitRaw (propHead off len))
        (.ok, f.emitRaw (zeros (pad4 len - len)))

/-- the header of version 17 and the empty reservation map -/
def header (sbUsed strLen : Nat) : List Byte :=
  let structOff := fdtHeaderSize + fdtRsvMapSize
  let stringsOff := structOff + sbUsed
  let total := stringsOff + strLen
  putBe32 fdtMagic ++ putBe32 (BitVec.ofNat 32 total) ++ putBe32 (BitVec.ofNat 32 structOff) ++
    putBe32 (BitVec.ofNat 32 stringsOff) ++ putBe32 (BitVec.ofNat 32 fdtHeaderSize) ++
    putBe32 fdtV17 ++ putBe32 16 ++ putBe32 0 ++ putBe32 (BitVec.ofNat 32 strLen) ++
    putBe32 (BitVec.ofNat 32 sbUsed) ++ zeros fdtRsvMapSize

/-- close the tree.  The last token is in place before the blob is allocated. -/
def finish (allocOk : Bool) : Status × Fdt :=
  match f.sb with
  | none => (.state, f)
  | some _ =>
    if f.depth ≠ 0 then (.state, f)
    else if !f.fits fdtTokenSize 0 then (.noMemory, f)
    else
      let f := f.emitToken fdtTokenEnd
      if !allocOk then (.noMemory, f)
      else
        let sb := f.sb.getD []
        (.ok, { f with
          sb := none
          data := some (header sb.length f.strs.length ++ sb ++ f.strs)
          finished := true })

/-- allocate the scratch and open the root.  `none`: the doubled size wraps around, the scratch is
smaller than the builder takes it to be, and what follows is undefined. -/
def init (cap : Nat) (allocOk : Bool) : Option (Status × Fdt) :=
  if cap < fdtMinCap then some (.invalidArg, zero)
  else if !allocOk then some (.noMemory, zero)
  else if cap ≥ 2 ^ 63 then none
  else
    let f : Fdt := { zero with sb := some [], cap := cap }
    match f.beginNode (some rootName) with
    | (.ok, f) => some (.ok, f)
    | (st, _) => some (st, zero)

end Fdt

/-! ## the calls -/

/-- a call with its arguments; `finish` with what the allocator answers -/
inductive Call where
  | beginNode (name : Option CStr)
  | endNode
  | propEmpty (name : Option CStr)
  | propU32 (name : Option CStr) (value : W32)
  | propU64 (name : Option CStr) (value : W64)
  | propBytes (name : Option CStr) (data : Option Blob32)
  | propStr (name : Option CStr) (value : Option CStr)
  | propCells (name : Option CStr) (cells : Option (List W32))
  | propStrv (name : Option CStr) (values : Option (List (Option CStr)))
  | finish (allocOk : Bool)
  | dispose

def Fdt.step (f : Fdt) : Call → Status × Fdt
  | .beginNode name => f.beginNode name
  | .endNode => f.endNode
  | .propEmpty name => f.propEmpty name
  | .propU32 name value => f.propU32 name value
  | .propU64 name value => f.propU64 name value
  | .propBytes name data => f.propBytes name data
  | .propStr name value => f.propStr name value
  | .propCells name cells => f.propCells name cells
  | .propStrv name values => f.propStrv name values
  | .finish allocOk => f.finish allocOk
  | .dispose => (.ok, Fdt.zero)

/-! ## tokens -/

inductive Tok where
  | beginNode (name : CStr)
  | endNode
  | prop (nameOff : W32) (val : List Byte)
  | fin

def Tok.bytes : Tok → List Byte
  | .beginNode name => putBe32 fdtTokenBeginNode ++ padded name.wire
  | .endNode => putBe32 fdtTokenEndNode
  | .prop nameOff val => Fdt.propHead nameOff val.length ++ padded val
  | .fin => putBe32 fdtTokenEnd

/-- the name and the value a call attaches -/
def Call.property : Call → Option (CStr × List Byte)
  | .propEmpty (some name) => some (name, [])
  | .propU32 (some name) value => some (name, putBe32 value)
  | .propU64 (some name) value =>
    some (name, putBe32 ((value >>> 32).setWidth 32) ++ putBe32 (value.setWidth 32))
  | .propBytes (some name) (some data) => some (name, data.bytes)
  | .propStr (some name) (some value) => some (name, value.wire)
  | .propCells (some name) (some cells) => some (name, cells.flatMap putBe32)
  | .propStrv (some name) (some values) =>
    (Fdt.strings values).map fun l => (name, l.flatMap CStr.wire)
  | _ => none

namespace Fdt

variable {f : Fdt} {sb : List Byte}

theorem emitRaw_sb (hsb : f.sb = some sb) (bytes : List Byte) :
    f.emitRaw bytes = { f with sb := some (sb ++ bytes) } := by
  unfold emitRaw
  rw [hsb]
  rfl

/-- what a call can do -/
inductive Moves (f : Fdt) : Call → Status × Fdt → Prop where
  | refused (c : Call) (st : Status) (h : st ≠ .ok) : Moves f c (st, f)
  | began (sb : List Byte) (name : CStr) (hsb : f.sb = some sb)
      (hname : name.bytes.length < fdtMaxName)
      (hfit : sb.length + f.strs.length + (Tok.beginNode name).bytes.length ≤ f.cap) :
      Moves f (.beginNode (some name))
        (.ok, { f with sb := some (sb ++ (Tok.beginNode name).bytes), depth := f.depth + 1 })
  | ended (sb : List Byte) (hsb : f.sb = some sb) (hdepth : 0 < f.depth)
      (hfit : sb.length + f.strs.length + Tok.endNode.bytes.length ≤ f.cap) :
      Moves f .endNode
        (.ok, { f with sb := some (sb ++ Tok.endNode.bytes), depth := f.depth - 1 })
  | attached (c : Call) (sb : List Byte) (name : CStr) (val : List Byte) (hsb : f.sb = some sb)
      (hc : c.property = some (name, val)) (hname : name.bytes ≠ []) (hdepth : 0 < f.depth)
      (hfit : sb.length + f.strs.length +
        (Tok.prop (BitVec.ofNat 32 f.strs.length) val).bytes.length + name.wire.length ≤ f.cap) :
      Moves f c (.ok, { f with
        sb := some (sb ++ (Tok.prop (BitVec.ofNat 32 f.strs.length) val).bytes)
        strs := f.strs ++ name.wire })
  | finished (sb : List Byte) (hsb : f.sb = some sb) (hdepth : f.depth = 0)
      (hfit : sb.length + f.strs.length + Tok.fin.bytes.length ≤ f.cap) :
      Moves f (.finish true) (.ok, { f with
        sb := none
        data := some (header (sb ++ Tok.fin.bytes).length f.strs.length ++ (sb ++ Tok.fin.bytes) ++
          f.strs)
        finished := true })
  | starved (sb : List Byte) (hsb : f.sb = some sb) (hdepth : f.depth = 0)
      (hfit : sb.length + f.strs.length + Tok.fin.bytes.length ≤ f.cap) :
      Moves f (.finish false) (.noMemory, { f with sb := some (sb ++ Tok.fin.bytes) })
  | disposed : Moves f .dispose (.ok, zero)

/-! ## each call does one of these -/

theorem emitRaw_emitRaw (f : Fdt) (a b : List Byte) :
    (f.emitRaw a).emitRaw b = f.emitRaw (a ++ b) := by
  unfold emitRaw
  cases f.sb with
  | none => rfl
  | some sb =>
    show ({ f with sb := some (sb ++ a ++ b) } : Fdt) = { f with sb := some (sb ++ (a ++ b)) }
    rw [List.append_assoc]

theorem foldl_emitRaw {α : Type} (g : α → List Byte) (l : List α) (f : Fdt) (a : List Byte) :
    l.foldl (fun f x => f.emitRaw (g x)) (f.emitRaw a) = f.emitRaw (a ++ l.flatMap g) := by
  induction l generalizing a with
  | nil =>
    show f.emitRaw a = f.emitRaw (a ++ [])
    rw [List.append_nil]
  | cons x l ih =>
    show l.foldl _ ((f.emitRaw a).emitRaw (g x)) = _
    rw [emitRaw_emitRaw, ih, List.append_assoc]
    rfl

theorem fits_some (hsb : f.sb = some sb) (a b : Nat) :
    f.fits a b = true ↔ sb.length + f.strs.length + a + b ≤ f.cap := by
  unfold fits used
  rw [hsb]
  exact decide_eq_true_iff

theorem propHead_length (off : W32) (len : Nat) : (propHead off len).length = 12 := rfl

theorem beginNode_length (name : CStr) :
    (Tok.beginNode name).bytes.length = fdtTokenSize + pad4 (name.bytes.length + 1) := by
  show (putBe32 fdtTokenBeginNode ++ padded name.wire).length = _
  rw [List.length_append, padded_length, CStr.wire, List.length_append]
  rfl

theorem prop_length (off : W32) (val : List Byte) :
    (Tok.prop off val).bytes.length = fdtTokenSize + 8 + pad4 val.length := by
  show (propHead off val.length ++ padded val).length = _
  rw [List.length_append, padded_length, propHead_length]
  rfl

theorem padded_name (s : List Byte) :
    s ++ zeros (pad4 (s.length + 1) - s.length) = padded (s ++ [0]) := by
  have h := pad4_le (s.length + 1)
  have hn : pad4 (s.length + 1) - s.length = (pad4 (s.length + 1) - (s.length + 1)) + 1 := by
    omega
  unfold padded
  rw [List.append_assoc, hn, List.length_append]
  rfl

theorem beginNode_moves (f : Fdt) (name : Option CStr) :
    f.Moves (.beginNode name) (f.beginNode name) := by
  unfold beginNode
  cases hsb : f.sb with
  | none => exact .refused _ _ Status.noConfusion
  | some sb =>
    rw [if_neg (Option.some_ne_none sb)]
    cases name with
    | none => exact .refused _ _ Status.noConfusion
    | some name =>
      dsimp only
      by_cases hlen : name.bytes.length ≥ fdtMaxName
      · rw [if_pos hlen]
        exact .refused _ _ Status.noConfusion
      · rw [if_neg hlen]
        by_cases hfit : f.fits (fdtTokenSize + pad4 (name.bytes.length + 1)) 0 = true
        · rw [hfit, if_neg (by decide), emitToken, emitRaw_emitRaw, padded_name,
            emitRaw_sb hsb]
          refine .began sb name hsb (by omega) ?_
          rw [beginNode_length]
          exact (fits_some hsb _ _).mp hfit
        · rw [Bool.not_eq_true] at hfit
          rw [hfit, if_pos Bool.not_false]
          exact .refused _ _ Status.noConfusion

theorem endNode_moves (f : Fdt) : f.Moves .endNode f.endNode := by
  unfold endNode
  cases hsb : f.sb with
  | none => exact .refused _ _ Status.noConfusion
  | some sb =>
    rw [if_neg (Option.some_ne_none sb)]
    by_cases hd : f.depth = 0
    · rw [if_pos hd]
      exact .refused _ _ Status.noConfusion
    · rw [if_neg hd]
      by_cases hfit : f.fits fdtTokenSize 0 = true
      · rw [hfit, if_neg (by decide), emitToken, emitRaw_sb hsb]
        exact .ended sb hsb (by omega) ((fits_some hsb _ _).mp hfit)
      · rw [Bool.not_eq_true] at hfit
        rw [hfit, if_pos Bool.not_false]
        exact .refused _ _ Status.noConfusion

theorem propGuard_cases (f : Fdt) (name : Option CStr) (valueLen : Nat) :
    (∃ st, st ≠ .ok ∧ f.propGuard name valueLen = .error st) ∨
      ∃ n sb, name = some n ∧ f.sb = some sb ∧ n.bytes ≠ [] ∧ 0 < f.depth ∧
        sb.length + f.strs.length + (fdtTokenSize + 8 + pad4 valueLen) + n.wire.length ≤ f.cap ∧
        f.propGuard name valueLen =
          .ok (BitVec.ofNat 32 f.strs.length, { f with strs := f.strs ++ n.wire }) := by
  unfold propGuard
  cases hsb : f.sb with
  | none => exact .inl ⟨_, Status.noConfusion, rfl⟩
  | some sb =>
    rw [if_neg (Option.some_ne_none sb)]
    cases name with
    | none => exact .inl ⟨_, Status.noConfusion, rfl⟩
    | some n =>
      dsimp only
      by_cases hn : n.bytes = []
      · rw [if_pos hn]
        exact .inl ⟨_, Status.noConfusion, rfl⟩
      · rw [if_neg hn]
        by_cases hd : f.depth = 0
        · rw [if_pos hd]
          exact .inl ⟨_, Status.noConfusion, rfl⟩
        · rw [if_neg hd]
          by_cases hc : n.bytes.length + 1 > fdtMaxName ∨
              (!f.fits (fdtTokenSize + 8 + pad4 valueLen) (n.bytes.length + 1)) = true
          · rw [if_pos hc]
            exact .inl ⟨_, Status.noConfusion, rfl⟩
          · rw [if_neg hc]
            rw [not_or, Bool.not_eq_true, Bool.not_eq_false'] at hc
            refine .inr ⟨n, sb, rfl, rfl, hn, by omega, ?_, rfl⟩
            rw [CStr.wire, List.length_append]
            exact (fits_some hsb _ _).mp hc.2

theorem property_moves (f : Fdt) (c : Call) (name : Option CStr) (val : List Byte)
    (hc : ∀ n, name = some n → c.property = some (n, val))
    (emit : W32 → Fdt → Fdt)
    (hemit : ∀ off g, emit off g = g.emitRaw (Tok.prop off val).bytes) :
    f.Moves c (match f.propGuard name val.length with
      | .error st => (st, f)
      | .ok (off, g) => (.ok, emit off g)) := by
  rcases f.propGuard_cases name val.length with ⟨st, hst, he⟩ | ⟨n, sb, hn, hsb, hne, hd, hfit, he⟩
  · rw [he]
    exact .refused _ _ hst
  · rw [he]
    dsimp only
    have hsb' : ({ f with strs := f.strs ++ n.wire } : Fdt).sb = some sb := hsb
    rw [hemit, emitRaw_sb hsb']
    refine .attached c sb n val hsb (hc n hn) hne hd ?_
    rw [prop_length]
    exact hfit

theorem propValue_moves (f : Fdt) (c : Call) (name : Option CStr) (val : List Byte)
    (hc : ∀ n, name = some n → c.property = some (n, val)) :
    f.Moves c (f.propValue name val) := by
  refine f.property_moves c name val hc (fun off g => g.propEmit off val) ?_
  intro off g
  unfold propEmit
  dsimp only
  rw [emitRaw_emitRaw, emitRaw_emitRaw]
  show g.emitRaw _ = g.emitRaw (propHead off val.length ++ padded val)
  unfold padded
  rfl

theorem cells_length (cells : List W32) : (cells.flatMap putBe32).length = cells.length * 4 := by
  induction cells with
  | nil => rfl
  | cons c cells ih =>
    rw [List.flatMap_cons, List.length_append, ih, List.length_cons, putBe32_length]
    omega

theorem strings_length (l : List CStr) :
    (l.flatMap CStr.wire).length = (l.map fun s => s.bytes.length + 1).sum := by
  induction l with
  | nil => rfl
  | cons s l ih =>
    rw [List.flatMap_cons, List.length_append, ih, List.map_cons, List.sum_cons, CStr.wire,
      List.length_append]
    rfl

theorem propCells_moves (f : Fdt) (name : Option CStr) (cells : Option (List W32)) :
    f.Moves (.propCells name cells) (f.propCells name cells) := by
  cases cells with
  | none => exact .refused _ _ Status.noConfusion
  | some cells =>
    unfold propCells
    dsimp only
    rw [← cells_length]
    refine f.property_moves _ name _ ?_ (fun off g => cells.foldl
      (fun f cell => f.emitRaw (putBe32 cell))
      (g.emitRaw (propHead off (cells.flatMap putBe32).length))) ?_
    · intro n hn
      rw [hn]
      rfl
    · intro off g
      have hpad : padded (cells.flatMap putBe32) = cells.flatMap putBe32 := by
        have h : pad4 (cells.flatMap putBe32).length - (cells.flatMap putBe32).length = 0 := by
          rw [cells_length]
          unfold pad4
          omega
        unfold padded
        rw [h]
        exact List.append_nil _
      rw [foldl_emitRaw]
      show _ = g.emitRaw (propHead off _ ++ padded _)
      rw [hpad]

theorem propStrv_moves (f : Fdt) (name : Option CStr) (values : Option (List (Option CStr))) :
    f.Moves (.propStrv name values) (f.propStrv name values) := by
  unfold propStrv
  cases hsb : f.sb with
  | none => exact .refused _ _ Status.noConfusion
  | some sb =>
    rw [if_neg (Option.some_ne_none sb)]
    cases hl : values.bind strings with
    | none => exact .refused _ _ Status.noConfusion
    | some l =>
      dsimp only
      rw [← strings_length]
      refine f.property_moves _ name _ ?_ (fun off g =>
        (l.foldl (fun f s => f.emitRaw s.wire)
          (g.emitRaw (propHead off (l.flatMap CStr.wire).length))).emitRaw
          (zeros (pad4 (l.flatMap CStr.wire).length - (l.flatMap CStr.wire).length))) ?_
      · intro n hn
        cases values with
        | none => cases hl
        | some vs =>
          rw [hn]
          show (strings vs).map _ = _
          rw [show strings vs = some l from hl]
          rfl
      · intro off g
        rw [foldl_emitRaw, emitRaw_emitRaw, List.append_assoc]
        rfl

theorem finish_moves (f : Fdt) (allocOk : Bool) :
    f.Moves (.finish allocOk) (f.finish allocOk) := by
  unfold finish
  cases hsb : f.sb with
  | none => exact .refused _ _ Status.noConfusion
  | some sb =>
    dsimp only
    by_cases hd : f.depth = 0
    · rw [if_neg (not_not.mpr hd)]
      by_cases hfit : f.fits fdtTokenSize 0 = true
      · have hle := (fits_some hsb _ _).mp hfit
        rw [hfit, if_neg (by decide), emitToken, emitRaw_sb hsb]
        cases allocOk with
        | true => exact .finished sb hsb hd hle
        | false => exact .starved sb hsb hd hle
      · rw [Bool.not_eq_true] at hfit
        rw [hfit, if_pos Bool.not_false]
        exact .refused _ _ Status.noConfusion
    · rw [if_pos hd]
      exact .refused _ _ Status.noConfusion

/-- **each call does one of these** -/
theorem step_moves (f : Fdt) (c : Call) : f.Moves c (f.step c) := by
  cases c with
  | beginNode name => exact f.beginNode_moves name
  | endNode => exact f.endNode_moves
  | propEmpty name =>
    refine f.propValue_moves _ name [] fun n hn => ?_
    rw [hn]
    rfl
  | propU32 name value =>
    refine f.propValue_moves _ name _ fun n hn => ?_
    rw [hn]
    rfl
  | propU64 name value =>
    refine f.propValue_moves _ name _ fun n hn => ?_
    rw [hn]
    rfl
  | propBytes name data =>
    cases data with
    | none => exact .refused _ _ Status.noConfusion
    | some data =>
      refine f.propValue_moves _ name _ fun n hn => ?_
      rw [hn]
      rfl
  | propStr name value =>
    cases value with
    | none => exact .refused _ _ Status.noConfusion
    | some value =>
      refine f.propValue_moves _ name _ fun n hn => ?_
      rw [hn]
      rfl
  | propCells name cells => exact f.propCells_moves name cells
  | propStrv name values => exact f.propStrv_moves name values
  | finish allocOk => exact f.finish_moves allocOk
  | dispose => exact .disposed

theorem init_ok {cap : Nat} {allocOk : Bool} (h : init cap allocOk = some (.ok, f)) :
    f = ⟨some (Tok.beginNode rootName).bytes, [], cap, 1, none, false⟩ ∧ fdtMinCap ≤ cap := by
  unfold init at h
  by_cases hmin : cap < fdtMinCap
  · rw [if_pos hmin] at h
    cases h
  rw [if_neg hmin] at h
  cases allocOk with
  | false =>
    rw [if_pos Bool.not_false] at h
    cases h
  | true =>
    rw [if_neg (by decide)] at h
    by_cases hmax : cap ≥ 2 ^ 63
    · rw [if_pos hmax] at h
      cases h
    rw [if_neg hmax] at h
    have hm := beginNode_moves ({ zero with sb := some [], cap := cap } : Fdt) (some rootName)
    dsimp only at h
    generalize beginNode _ _ = r at hm h
    cases hm with
    | refused c st hst =>
      cases st <;> first | exact absurd rfl hst | cases h
    | began sb name hsb =>
      cases hsb
      cases h
      exact ⟨rfl, Nat.le_of_not_lt hmin⟩
    | attached c sb name val hsb hc => cases hc

end Fdt

end Oemu
