import Oemu.Fdt.Scratch
import Oemu.Lib.Run

/-!
# Emission is all or nothing

`Scratch.Ok` is what every call keeps that stays inside its allocations.  A call is clean if it stays
inside and leaves the builder as it was unless it answers `ok`; which calls are clean is
`Scratch.Safe`.

* `step_property`     a property is its checks, its name and the bytes of its token;
* `Ok.step`           the invariant;
* `emission_atomic`   in every state a builder reaches, the clean calls are the safe ones.
-/

namespace Oemu

open Wire Buffer

namespace Call

/-- the name a property is given and the bytes of its value, if no pointer to them is null -/
def value? : Call → Option (Option CStr × List Byte)
  | .propEmpty name => some (name, [])
  | .propU32 name value => some (name, putBe32 value)
  | .propU64 name value =>
    some (name, putBe32 ((value >>> 32).setWidth 32) ++ putBe32 (value.setWidth 32))
  | .propBytes name (some data) => some (name, data.bytes)
  | .propStr name (some value) => some (name, value.wire)
  | .propCells name (some cells) => some (name, cells.flatMap putBe32)
  | .propStrv name (some values) => (Fdt.strings values).map fun l => (name, l.flatMap CStr.wire)
  | _ => none

def name? : Call → Option CStr
  | .beginNode name | .propEmpty name | .propU32 name _ | .propU64 name _ | .propBytes name _
  | .propStr name _ | .propCells name _ | .propStrv name _ => name
  | .endNode | .finish _ | .dispose => none

theorem value?_name {c : Call} {name : Option CStr} {val : List Byte}
    (h : c.value? = some (name, val)) : c.name? = name := by
  cases c with
  | propEmpty n | propU32 n _ | propU64 n _ =>
    cases h
    rfl
  | propBytes n data =>
    cases data with
    | none => cases h
    | some data =>
      cases h
      rfl
  | propStr n value =>
    cases value with
    | none => cases h
    | some value =>
      cases h
      rfl
  | propCells n cells =>
    cases cells with
    | none => cases h
    | some cells =>
      cases h
      rfl
  | propStrv n values =>
    cases values with
    | none => cases h
    | some vs =>
      have h : (Fdt.strings vs).map (fun l => (n, l.flatMap CStr.wire)) = some (name, val) := h
      cases hl : Fdt.strings vs with
      | none =>
        rw [hl] at h
        cases h
      | some l =>
        rw [hl] at h
        cases h
        rfl
  | beginNode _ | endNode | finish _ | dispose => cases h

/-- strings and arrays are counted by 64 bits -/
structure Sized (c : Call) : Prop where
  name : ∀ name, c.name? = some name → name.bytes.length + 1 < 2 ^ 64
  str : ∀ name value, c = .propStr name (some value) → value.bytes.length + 1 < 2 ^ 64

end Call

namespace Scratch

variable {s s' : Scratch} {c : Call} {m : Nat → Byte}

/-- the builder keeps within the capacity, of which the scratch has twice; no object of the host has
2^63 bytes -/
structure Held (s : Scratch) : Prop where
  used : s.sbUsed + s.strLen ≤ s.cap
  base : s.sbSize = s.cap
  room : s.room = s.cap + s.cap
  object : s.room < 2 ^ 63

def Ok (s : Scratch) : Prop := s.sb ≠ none → s.Held

/-- a call that stays inside its allocations, and that changes nothing unless it succeeds -/
def Clean (s : Scratch) (c : Call) : Prop :=
  ∃ st s', s.step c = some (st, s') ∧ (st ≠ .ok → s' = s)

/-- the size of an accepted property does not wrap, and a `finish` that gets as far as its allocation
gets its block -/
structure Safe (s : Scratch) (c : Call) : Prop where
  size : ∀ name val n, c.value? = some (name, val) →
    s.propChecks name (wrap val.length) = .ok n →
    s.sbUsed + s.strLen + (12 + pad4 val.length) + n.wire.length < 2 ^ 64
  block : c = .finish false → s.sb = none ∨ s.depth ≠ 0 ∨ s.fits fdtTokenSize 0 = false

/-! ## the checks -/

theorem wrap_of_lt {n : Nat} (h : n < 2 ^ 64) : wrap n = n := Nat.mod_eq_of_lt h

theorem fdtPad4_eq {n : Nat} (h : n + 3 < 2 ^ 64) : fdtPad4 n = pad4 n := by
  unfold fdtPad4 pad4
  rw [wrap_of_lt h]

theorem fits_iff {a b : Nat} (h : s.sbUsed + s.strLen + a + b < 2 ^ 64) :
    s.fits a b = true ↔ s.sbUsed + s.strLen + a + b ≤ s.cap := by
  unfold fits
  rw [wrap_of_lt h, decide_eq_true_iff]

theorem propChecks_ok {name : Option CStr} {len : Nat} {n : CStr}
    (h : s.propChecks name len = .ok n) :
    s.sb ≠ none ∧ name = some n ∧ n.bytes ≠ [] ∧ s.depth ≠ 0 ∧
      wrap (n.bytes.length + 1) ≤ fdtMaxName ∧
      s.fits (fdtTokenSize + 8 + fdtPad4 len) (wrap (n.bytes.length + 1)) = true := by
  unfold propChecks at h
  by_cases hsb : s.sb.isNone = true
  · rw [if_pos hsb] at h
    cases h
  · rw [if_neg hsb] at h
    cases name with
    | none => cases h
    | some name =>
      dsimp only at h
      by_cases hn : name.bytes = []
      · rw [if_pos hn] at h
        cases h
      · rw [if_neg hn] at h
        by_cases hd : s.depth = 0
        · rw [if_pos hd] at h
          cases h
        · rw [if_neg hd] at h
          by_cases hc : wrap (name.bytes.length + 1) > fdtMaxName ∨
              (!s.fits (fdtTokenSize + 8 + fdtPad4 len) (wrap (name.bytes.length + 1))) = true
          · rw [if_pos hc] at h
            cases h
          · rw [if_neg hc] at h
            cases h
            rw [not_or, Bool.not_eq_true, Bool.not_eq_false'] at hc
            exact ⟨fun he => hsb (by rw [he]; rfl), rfl, hn, hd, Nat.not_lt.mp hc.1, hc.2⟩

/-! ## properties -/

/-- the pieces of a property: its head, its value, and zeros to the boundary -/
structure Pieces (val : List Byte) (pieces : W32 → List (List Byte)) : Prop where
  covers : ∀ off, 12 + val.length ≤ (pieces off).flatten.length
  token : val.length + 3 < 2 ^ 64 → ∀ off, (pieces off).flatten = (Tok.prop off val).bytes

theorem padding_eq {n : Nat} (h : n + 3 < 2 ^ 64) : padding n = zeros (pad4 n - n) := by
  have hle := pad4_le n
  unfold padding
  rw [fdtPad4_eq h, show pad4 n + 2 ^ 64 - n = pad4 n - n + 2 ^ 64 by omega]
  unfold wrap
  rw [Nat.add_mod_right, Nat.mod_eq_of_lt (by omega)]

/-- a head, the bytes of the value in some pieces, and the padding -/
theorem Pieces.of_parts {val : List Byte} {parts : List (List Byte)} (hparts : parts.flatten = val) :
    Pieces val fun off =>
      Fdt.propHead off (wrap val.length) :: parts ++ [padding (wrap val.length)] := by
  have hflat : ∀ off, (Fdt.propHead off (wrap val.length) :: parts ++
      [padding (wrap val.length)]).flatten =
        Fdt.propHead off (wrap val.length) ++ (val ++ padding (wrap val.length)) := by
    intro off
    rw [List.flatten_append, List.flatten_cons, hparts, List.flatten_singleton, List.append_assoc]
  constructor
  · intro off
    rw [hflat, List.length_append, List.length_append, Fdt.propHead_length]
    omega
  · intro hlen off
    rw [hflat, wrap_of_lt (by omega), padding_eq hlen]
    rfl

theorem pieces_value {val : List Byte} (h : val.length < 2 ^ 64) : Pieces val (propEmit val) := by
  have hp := @Pieces.of_parts val [val] (List.append_nil val)
  rw [wrap_of_lt h] at hp
  exact hp

theorem pieces_cells (cells : List W32) : Pieces (cells.flatMap putBe32) fun off =>
    Fdt.propHead off (wrap (cells.length * 4)) :: cells.map putBe32 := by
  have hflat : ∀ off, (Fdt.propHead off (wrap (cells.length * 4)) :: cells.map putBe32).flatten =
      Fdt.propHead off (wrap (cells.length * 4)) ++ cells.flatMap putBe32 := fun off => rfl
  constructor
  · intro off
    rw [hflat, List.length_append, Fdt.propHead_length]
  · intro hlen off
    have hpad : padded (cells.flatMap putBe32) = cells.flatMap putBe32 := by
      have h : pad4 (cells.flatMap putBe32).length - (cells.flatMap putBe32).length = 0 := by
        rw [Fdt.cells_length]
        unfold pad4
        omega
      unfold padded
      rw [h]
      exact List.append_nil _
    rw [Fdt.cells_length] at hlen
    rw [hflat, wrap_of_lt (by omega)]
    show _ = Fdt.propHead off (cells.flatMap putBe32).length ++ padded (cells.flatMap putBe32)
    rw [hpad, Fdt.cells_length]

/-- **a property** is its checks, and then its name and the pieces of its token -/
theorem step_property (hc : c.Sized) {name : Option CStr} {val : List Byte}
    (hv : c.value? = some (name, val)) :
    ∃ pieces, s.step c = s.propGuard name (wrap val.length) pieces ∧ Pieces val pieces := by
  have hvalue : ∀ {val : List Byte}, val.length < 2 ^ 64 →
      ∃ pieces, s.propValue name val = s.propGuard name (wrap val.length) pieces ∧
        Pieces val pieces := by
    intro val h
    refine ⟨propEmit val, ?_, pieces_value h⟩
    rw [wrap_of_lt h]
    rfl
  cases c with
  | propEmpty n =>
    cases hv
    exact hvalue (by decide)
  | propU32 n value =>
    cases hv
    exact hvalue (show 4 < 2 ^ 64 by decide)
  | propU64 n value =>
    cases hv
    exact hvalue (show 8 < 2 ^ 64 by decide)
  | propBytes n data =>
    cases data with
    | none => cases hv
    | some data =>
      cases hv
      exact hvalue (lt_trans data.bound (by decide))
  | propStr n value =>
    cases value with
    | none => cases hv
    | some value =>
      cases hv
      refine hvalue ?_
      rw [CStr.wire, List.length_append]
      exact hc.str _ _ rfl
  | propCells n cells =>
    cases cells with
    | none => cases hv
    | some cells =>
      cases hv
      refine ⟨_, ?_, pieces_cells cells⟩
      rw [Fdt.cells_length]
      rfl
  | propStrv n values =>
    cases values with
    | none => cases hv
    | some vs =>
      have hv : (Fdt.strings vs).map (fun l => (n, l.flatMap CStr.wire)) = some (name, val) := hv
      cases hl : Fdt.strings vs with
      | none =>
        rw [hl] at hv
        cases hv
      | some l =>
        rw [hl] at hv
        cases hv
        refine ⟨_, ?_, @Pieces.of_parts _ (l.map CStr.wire) rfl⟩
        have hbind : (some vs).bind Fdt.strings = some l := hl
        show s.propStrv _ (some vs) = _
        unfold propStrv
        rw [hbind, Fdt.strings_length]
        dsimp only
        by_cases hsb : s.sb.isNone = true
        · rw [if_pos hsb]
          unfold propGuard propChecks
          rw [if_pos hsb]
        · rw [if_neg hsb]
  | beginNode n => cases hv
  | endNode => cases hv
  | finish b => cases hv
  | dispose => cases hv

/-- the property as it is when its size does not wrap -/
theorem propGuard_fits (hs : s.Held) (hm : s.sb = some m) {name : Option CStr} {val : List Byte}
    {n : CStr} {pieces : W32 → List (List Byte)} (hp : Pieces val pieces)
    (hok : s.propChecks name (wrap val.length) = .ok n)
    (hsize : s.sbUsed + s.strLen + (12 + pad4 val.length) + n.wire.length < 2 ^ 64) :
    s.sbUsed + s.strLen + (12 + pad4 val.length) + n.wire.length ≤ s.cap ∧
      s.propGuard name (wrap val.length) pieces = some (.ok, { s with
        sb := some (poke (poke m (s.sbSize + s.strLen) n.wire) s.sbUsed
          (Tok.prop (BitVec.ofNat 32 s.strLen) val).bytes)
        sbUsed := s.sbUsed + (12 + pad4 val.length)
        strLen := s.strLen + n.wire.length }) := by
  have hle := pad4_le val.length
  have hwire : n.wire.length = n.bytes.length + 1 := List.length_append
  have hlen : val.length + 3 < 2 ^ 64 := by omega
  obtain ⟨-, -, -, -, -, hfits⟩ := propChecks_ok hok
  rw [wrap_of_lt (show val.length < 2 ^ 64 by omega), fdtPad4_eq hlen, ← hwire,
    wrap_of_lt (show n.wire.length < 2 ^ 64 by omega)] at hfits
  have hfit : s.sbUsed + s.strLen + (12 + pad4 val.length) + n.wire.length ≤ s.cap :=
    (fits_iff hsize).mp hfits
  have hcap := hs.room
  have hbase := hs.base
  refine ⟨hfit, ?_⟩
  unfold propGuard
  rw [hok]
  dsimp only
  unfold intern
  rw [hm, Option.bind_some, if_pos (by omega), Option.bind_some]
  dsimp only
  have htok : (Tok.prop (BitVec.ofNat 32 s.strLen) val).bytes.length = 12 + pad4 val.length :=
    Fdt.prop_length _ _
  have hemit := @emitAll_eq { s with
      sb := some (poke m (s.sbSize + s.strLen) n.wire), strLen := s.strLen + n.wire.length }
    _ rfl (show s.sbUsed ≤ s.room by omega) (pieces (BitVec.ofNat 32 s.strLen))
  dsimp only at hemit
  rw [hemit, hp.token hlen, htok, if_pos (by omega)]
  rfl

/-- a property whose size wraps past the checks is written outside the scratch -/
theorem propGuard_wraps (hs : s.Held) {name : Option CStr} {val : List Byte} {n : CStr}
    {pieces : W32 → List (List Byte)} (hp : Pieces val pieces)
    (hn : n.bytes.length + 1 < 2 ^ 64)
    (hok : s.propChecks name (wrap val.length) = .ok n)
    (hsize : ¬ s.sbUsed + s.strLen + (12 + pad4 val.length) + n.wire.length < 2 ^ 64) :
    s.propGuard name (wrap val.length) pieces = none := by
  have hle := pad4_le val.length
  have hwire : n.wire.length = n.bytes.length + 1 := List.length_append
  obtain ⟨hsb, -, -, -, hmax, -⟩ := propChecks_ok hok
  rw [wrap_of_lt hn] at hmax
  have hmax : n.bytes.length + 1 ≤ 128 := hmax
  have hused := hs.used
  have hroom := hs.room
  have hobj := hs.object
  unfold propGuard
  rw [hok]
  dsimp only
  unfold intern
  cases hm : s.sb with
  | none => exact absurd hm hsb
  | some m =>
    rw [Option.bind_some]
    split
    · rw [Option.bind_some]
      dsimp only
      have hcov := hp.covers (BitVec.ofNat 32 s.strLen)
      have hemit := @emitAll_eq { s with
          sb := some (poke m (s.sbSize + s.strLen) n.wire), strLen := s.strLen + n.wire.length }
        _ rfl (show s.sbUsed ≤ s.room by omega) (pieces (BitVec.ofNat 32 s.strLen))
      dsimp only at hemit
      rw [hemit, if_neg (by omega)]
      rfl
    · rfl

/-! ## the other calls -/

theorem emitAll_singleton (s : Scratch) (bytes : List Byte) : s.emitAll [bytes] = s.emitRaw bytes := by
  unfold emitAll
  cases s.emitRaw bytes <;> rfl

theorem emit_token (hs : s.Held) (hm : s.sb = some m) {bytes : List Byte}
    (hfit : s.sbUsed + s.strLen + bytes.length ≤ s.cap) {pieces : List (List Byte)}
    (hp : pieces.flatten = bytes) :
    s.emitAll pieces = some { s with
      sb := some (poke m s.sbUsed bytes), sbUsed := s.sbUsed + bytes.length } := by
  have hroom := hs.room
  rw [emitAll_eq hm (by omega), hp, if_pos (by omega)]

/-- what the calls that are not properties can do -/
inductive Moves (s : Scratch) : Call → Option (Status × Scratch) → Prop where
  | refused (c : Call) (st : Status) (h : st ≠ .ok) : Moves s c (some (st, s))
  | began (m : Nat → Byte) (name : CStr) (hm : s.sb = some m)
      (hname : name.bytes.length < fdtMaxName)
      (hfit : s.sbUsed + s.strLen + (Tok.beginNode name).bytes.length ≤ s.cap) :
      Moves s (.beginNode (some name)) (some (.ok, { s with
        sb := some (poke m s.sbUsed (Tok.beginNode name).bytes)
        sbUsed := s.sbUsed + (Tok.beginNode name).bytes.length
        depth := s.depth + 1 }))
  | ended (m : Nat → Byte) (hm : s.sb = some m) (hdepth : s.depth ≠ 0)
      (hfit : s.sbUsed + s.strLen + Tok.endNode.bytes.length ≤ s.cap) :
      Moves s .endNode (some (.ok, { s with
        sb := some (poke m s.sbUsed Tok.endNode.bytes)
        sbUsed := s.sbUsed + Tok.endNode.bytes.length
        depth := s.depth - 1 }))
  | finished (m : Nat → Byte) (hm : s.sb = some m) (hdepth : s.depth = 0)
      (hfit : s.sbUsed + s.strLen + Tok.fin.bytes.length ≤ s.cap) :
      Moves s (.finish true) (some (.ok, { s with
        sb := none
        sbUsed := s.sbUsed + Tok.fin.bytes.length
        data := some (Fdt.header (s.sbUsed + Tok.fin.bytes.length) s.strLen ++
          readout (poke m s.sbUsed Tok.fin.bytes) 0 (s.sbUsed + Tok.fin.bytes.length) ++
          readout (poke m s.sbUsed Tok.fin.bytes) s.sbSize s.strLen)
        finished := true }))
  | starved (m : Nat → Byte) (hm : s.sb = some m) (hdepth : s.depth = 0)
      (hfit : s.sbUsed + s.strLen + Tok.fin.bytes.length ≤ s.cap) :
      Moves s (.finish false) (some (.noMemory, { s with
        sb := some (poke m s.sbUsed Tok.fin.bytes)
        sbUsed := s.sbUsed + Tok.fin.bytes.length }))
  | disposed : Moves s .dispose (some (.ok, zero))

theorem beginNode_moves (hs : s.Ok) (name : Option CStr) :
    s.Moves (.beginNode name) (s.beginNode name) := by
  unfold beginNode
  cases hm : s.sb with
  | none => exact .refused _ _ Status.noConfusion
  | some m =>
    have hs := hs (by rw [hm]; exact Option.some_ne_none m)
    have hused := hs.used
    have hroom := hs.room
    have hobj := hs.object
    rw [if_neg (show ¬ (some m).isNone = true from Bool.false_ne_true)]
    cases name with
    | none => exact .refused _ _ Status.noConfusion
    | some name =>
      dsimp only
      by_cases hlen : name.bytes.length ≥ fdtMaxName
      · rw [if_pos hlen]
        exact .refused _ _ Status.noConfusion
      · rw [if_neg hlen]
        have hlen : name.bytes.length < 128 := Nat.not_le.mp hlen
        have hle := pad4_le (name.bytes.length + 1)
        have htok := Fdt.beginNode_length name
        have hsize : fdtTokenSize = 4 := rfl
        rw [fdtPad4_eq (show name.bytes.length + 1 + 3 < 2 ^ 64 by omega)]
        by_cases hfit : s.fits (fdtTokenSize + pad4 (name.bytes.length + 1)) 0 = true
        · rw [hfit, if_neg (by decide)]
          have hfit := (fits_iff (by omega)).mp hfit
          rw [@emit_token _ _ hs hm (Tok.beginNode name).bytes (by omega)]
          · exact .began m name hm hlen (by omega)
          · rw [List.flatten_cons, List.flatten_singleton, Fdt.padded_name]
            rfl
        · rw [Bool.not_eq_true] at hfit
          rw [hfit, if_pos Bool.not_false]
          exact .refused _ _ Status.noConfusion

theorem endNode_moves (hs : s.Ok) : s.Moves .endNode s.endNode := by
  unfold endNode
  cases hm : s.sb with
  | none => exact .refused _ _ Status.noConfusion
  | some m =>
    have hs := hs (by rw [hm]; exact Option.some_ne_none m)
    have hused := hs.used
    have hroom := hs.room
    have hobj := hs.object
    have hsize : fdtTokenSize = 4 := rfl
    have htok : Tok.endNode.bytes.length = 4 := rfl
    rw [if_neg (show ¬ (some m).isNone = true from Bool.false_ne_true)]
    by_cases hd : s.depth = 0
    · rw [if_pos hd]
      exact .refused _ _ Status.noConfusion
    · rw [if_neg hd]
      by_cases hfit : s.fits fdtTokenSize 0 = true
      · rw [hfit, if_neg (by decide)]
        have hfit := (fits_iff (by omega)).mp hfit
        have hemit := @emit_token _ _ hs hm Tok.endNode.bytes (by omega) [Tok.endNode.bytes]
          (List.append_nil _)
        rw [emitAll_singleton] at hemit
        rw [show s.emitToken fdtTokenEndNode = _ from hemit]
        exact .ended m hm hd (by omega)
      · rw [Bool.not_eq_true] at hfit
        rw [hfit, if_pos Bool.not_false]
        exact .refused _ _ Status.noConfusion

theorem finish_moves (hs : s.Ok) (allocOk : Bool) : s.Moves (.finish allocOk) (s.finish allocOk) := by
  unfold finish
  cases hm : s.sb with
  | none => exact .refused _ _ Status.noConfusion
  | some m =>
    have hs := hs (by rw [hm]; exact Option.some_ne_none m)
    have hused := hs.used
    have hroom := hs.room
    have hobj := hs.object
    have hbase := hs.base
    have hsize : fdtTokenSize = 4 := rfl
    have htok : Tok.fin.bytes.length = 4 := rfl
    have hhead : fdtHeaderSize + fdtRsvMapSize = 56 := rfl
    rw [if_neg (show ¬ (some m).isNone = true from Bool.false_ne_true)]
    by_cases hd : s.depth = 0
    · rw [if_neg (not_not.mpr hd)]
      by_cases hfit : s.fits fdtTokenSize 0 = true
      · rw [hfit, if_neg (by decide)]
        have hfit := (fits_iff (by omega)).mp hfit
        have hemit := @emit_token _ _ hs hm Tok.fin.bytes (by omega) [Tok.fin.bytes]
          (List.append_nil _)
        rw [emitAll_singleton] at hemit
        rw [show s.emitToken fdtTokenEnd = _ from hemit, Option.bind_some]
        dsimp only
        cases allocOk with
        | false => exact .starved m hm hd (by omega)
        | true =>
          rw [if_neg (by decide), Option.bind_some, wrap_of_lt (by omega), if_pos (by omega)]
          exact .finished m hm hd (by omega)
      · rw [Bool.not_eq_true] at hfit
        rw [hfit, if_pos Bool.not_false]
        exact .refused _ _ Status.noConfusion
    · rw [if_pos hd]
      exact .refused _ _ Status.noConfusion

/-- **a call that attaches no property** -/
theorem step_moves (hs : s.Ok) (hv : c.value? = none) : s.Moves c (s.step c) := by
  cases c with
  | beginNode name => exact beginNode_moves hs name
  | endNode => exact endNode_moves hs
  | propEmpty name => cases hv
  | propU32 name value => cases hv
  | propU64 name value => cases hv
  | propBytes name data =>
    cases data with
    | none => exact .refused _ _ Status.noConfusion
    | some data => cases hv
  | propStr name value =>
    cases value with
    | none => exact .refused _ _ Status.noConfusion
    | some value => cases hv
  | propCells name cells =>
    cases cells with
    | none => exact .refused _ _ Status.noConfusion
    | some cells => cases hv
  | propStrv name values =>
    have hnone : values.bind Fdt.strings = none := by
      cases values with
      | none => rfl
      | some vs =>
        have hv : (Fdt.strings vs).map _ = none := hv
        exact Option.map_eq_none_iff.mp hv
    show s.Moves _ (s.propStrv name values)
    unfold propStrv
    rw [hnone]
    split
    · exact .refused _ _ Status.noConfusion
    · exact .refused _ _ Status.noConfusion
  | finish allocOk => exact finish_moves hs allocOk
  | dispose => exact .disposed

theorem propChecks_error {name : Option CStr} {len : Nat} {st : Status}
    (h : s.propChecks name len = .error st) : st ≠ .ok := by
  unfold propChecks at h
  by_cases hsb : s.sb.isNone = true
  · rw [if_pos hsb] at h
    cases h
    exact Status.noConfusion
  · rw [if_neg hsb] at h
    cases name with
    | none =>
      cases h
      exact Status.noConfusion
    | some name =>
      dsimp only at h
      split at h
      · cases h
        exact Status.noConfusion
      · split at h
        · cases h
          exact Status.noConfusion
        · split at h
          · cases h
            exact Status.noConfusion
          · cases h

/-! ## the invariant -/

theorem Held.written (h : s.Held) {sb : Option (Nat → Byte)} {used strLen depth : Nat}
    (hfit : used + strLen ≤ s.cap) :
    Held { s with sb := sb, sbUsed := used, strLen := strLen, depth := depth } :=
  ⟨hfit, h.base, h.room, h.object⟩

theorem Ok.step (hs : s.Ok) (hc : c.Sized) {st : Status} (h : s.step c = some (st, s')) : s'.Ok := by
  cases hv : c.value? with
  | some nv =>
    obtain ⟨name, val⟩ := nv
    obtain ⟨pieces, hstep, hp⟩ := step_property (s := s) hc hv
    rw [hstep] at h
    cases hok : s.propChecks name (wrap val.length) with
    | error st' =>
      unfold propGuard at h
      rw [hok] at h
      cases h
      exact hs
    | ok n =>
      obtain ⟨hsb, hname, -, -, -, -⟩ := propChecks_ok hok
      have hheld := hs hsb
      obtain ⟨m, hm⟩ := Option.ne_none_iff_exists'.mp hsb
      by_cases hsize : s.sbUsed + s.strLen + (12 + pad4 val.length) + n.wire.length < 2 ^ 64
      · obtain ⟨hfit, hres⟩ := propGuard_fits hheld hm hp hok hsize
        rw [hres] at h
        cases h
        exact fun _ => hheld.written (by omega)
      · have hn : n.bytes.length + 1 < 2 ^ 64 := by
          exact hc.name n ((Call.value?_name hv).trans hname)
        rw [propGuard_wraps hheld hp hn hok hsize] at h
        cases h
  | none =>
    have hmove := step_moves hs hv
    rw [h] at hmove
    cases hmove with
    | refused => exact hs
    | began m name hm hname hfit =>
      have hheld := hs (by rw [hm]; exact Option.some_ne_none m)
      exact fun _ => hheld.written (by omega)
    | ended m hm hd hfit =>
      have hheld := hs (by rw [hm]; exact Option.some_ne_none m)
      exact fun _ => hheld.written (by omega)
    | finished m hm hd hfit => exact fun h => absurd rfl h
    | starved m hm hd hfit =>
      have hheld := hs (by rw [hm]; exact Option.some_ne_none m)
      exact fun _ => hheld.written (by omega)
    | disposed => exact fun h => absurd rfl h

theorem ok_init {junk : Nat → Byte} {cap : Nat} {allocOk : Bool} {st : Status}
    (hcap : cap < 2 ^ 63) (hobj : allocOk = true → wrap (cap + cap) < 2 ^ 63)
    (h : init junk cap allocOk = some (st, s)) : s.Ok := by
  unfold init at h
  by_cases hmin : cap < fdtMinCap
  · rw [if_pos hmin] at h
    cases h
    exact fun h => absurd rfl h
  · rw [if_neg hmin] at h
    cases allocOk with
    | false =>
      cases h
      exact fun h => absurd rfl h
    | true =>
      rw [if_neg (by decide)] at h
      dsimp only at h
      have hok : Ok { zero with sb := some junk, room := wrap (cap + cap), sbSize := cap, cap } :=
        fun _ => ⟨Nat.zero_le _, rfl, wrap_of_lt (by omega), hobj rfl⟩
      have hsized : (Call.beginNode (some rootName)).Sized :=
        ⟨fun name hn => by cases hn; decide, fun _ _ hn => by cases hn⟩
      cases hb : beginNode { zero with sb := some junk, room := wrap (cap + cap), sbSize := cap, cap }
          (some rootName) with
      | none =>
        rw [hb] at h
        cases h
      | some r =>
        obtain ⟨st', s₁⟩ := r
        rw [hb] at h
        have hok' := @Ok.step _ _ (.beginNode (some rootName)) hok hsized _ hb
        by_cases hst : st' = .ok
        · rw [Option.map_some, if_pos hst] at h
          cases h
          exact hok'
        · rw [Option.map_some, if_neg hst] at h
          cases h
          exact fun h => absurd rfl h

/-! ## all or nothing -/

/-- a `finish` that is refused its block is clean if it never asks for it -/
theorem clean_finish_iff : s.Clean (.finish false) ↔
    s.sb = none ∨ s.depth ≠ 0 ∨ s.fits fdtTokenSize 0 = false := by
  have hstep : s.step (.finish false) = s.finish false := rfl
  constructor
  · rintro ⟨st, s', h, hkeep⟩
    rw [hstep] at h
    by_contra hne
    obtain ⟨hsb, hd, hfit⟩ := not_or.mp hne |>.imp_right not_or.mp
    obtain ⟨m, hm⟩ := Option.ne_none_iff_exists'.mp hsb
    have hfit := Bool.not_eq_false _ ▸ hfit
    unfold finish at h
    rw [if_neg (by rw [hm]; exact Bool.false_ne_true), if_neg hd, hfit, if_neg (by decide)] at h
    cases he : s.emitToken fdtTokenEnd with
    | none =>
      rw [he] at h
      cases h
    | some s₁ =>
      rw [he] at h
      cases h
      have hs₁ := hkeep (by decide)
      unfold emitToken emitRaw at he
      rw [hm, Option.bind_some] at he
      split at he
      · have hused := congrArg (Option.map sbUsed) he
        rw [hs₁] at hused
        exact absurd (Option.some.inj hused) (by
          show s.sbUsed + 4 ≠ s.sbUsed
          omega)
      · cases he
  · intro h
    unfold Clean
    rw [hstep]
    unfold finish
    by_cases hsb : s.sb.isNone = true
    · rw [if_pos hsb]
      exact ⟨_, _, rfl, fun _ => rfl⟩
    · rw [if_neg hsb]
      by_cases hd : s.depth ≠ 0
      · rw [if_pos hd]
        exact ⟨_, _, rfl, fun _ => rfl⟩
      · rw [if_neg hd]
        rcases h with h | h | h
        · exact absurd (by rw [h]; rfl) hsb
        · exact absurd h hd
        · rw [h, if_pos Bool.not_false]
          exact ⟨_, _, rfl, fun _ => rfl⟩

/-- what a move leaves, a refused block apart -/
theorem Moves.clean (h : s.Moves c (s.step c)) (hc : c ≠ .finish false) : s.Clean c := by
  unfold Clean
  generalize s.step c = r at h
  cases h with
  | refused _ st hst => exact ⟨_, _, rfl, fun _ => rfl⟩
  | starved m hm hd hfit => exact absurd rfl hc
  | _ => exact ⟨_, _, rfl, fun h => absurd rfl h⟩

theorem clean_iff (hs : s.Ok) (hc : c.Sized) : s.Clean c ↔ s.Safe c := by
  cases hv : c.value? with
  | some nv =>
    obtain ⟨name, val⟩ := nv
    obtain ⟨pieces, hstep, hp⟩ := step_property (s := s) hc hv
    have hblock : c ≠ .finish false := by
      intro h
      rw [h] at hv
      cases hv
    have hsafe : s.Safe c ↔ ∀ n, s.propChecks name (wrap val.length) = .ok n →
        s.sbUsed + s.strLen + (12 + pad4 val.length) + n.wire.length < 2 ^ 64 := by
      constructor
      · exact fun h n hok => h.size name val n hv hok
      · refine fun h => ⟨fun name' val' n hv' hok => ?_, fun he => absurd he hblock⟩
        rw [hv] at hv'
        cases hv'
        exact h n hok
    rw [hsafe]
    unfold Clean
    rw [hstep]
    cases hok : s.propChecks name (wrap val.length) with
    | error st =>
      refine iff_of_true ⟨st, s, ?_, fun _ => rfl⟩ (fun n h => by cases h)
      unfold propGuard
      rw [hok]
    | ok n =>
      obtain ⟨hsb, hname, -⟩ := propChecks_ok hok
      obtain ⟨m, hm⟩ := Option.ne_none_iff_exists'.mp hsb
      by_cases hsize : s.sbUsed + s.strLen + (12 + pad4 val.length) + n.wire.length < 2 ^ 64
      · obtain ⟨-, hres⟩ := propGuard_fits (hs hsb) hm hp hok hsize
        refine iff_of_true ⟨_, _, hres, fun h => absurd rfl h⟩ ?_
        rintro n' ⟨⟩
        exact hsize
      · have hn := hc.name n ((Call.value?_name hv).trans hname)
        refine iff_of_false ?_ (fun h => hsize (h n rfl))
        rintro ⟨st, s', hres, -⟩
        rw [propGuard_wraps (hs hsb) hp hn hok hsize] at hres
        cases hres
  | none =>
    have hsize : ∀ name val n, c.value? = some (name, val) →
        s.propChecks name (wrap val.length) = .ok n →
        s.sbUsed + s.strLen + (12 + pad4 val.length) + n.wire.length < 2 ^ 64 := by
      intro name val n h
      rw [hv] at h
      cases h
    by_cases hfin : c = .finish false
    · subst hfin
      rw [clean_finish_iff]
      exact ⟨fun h => ⟨hsize, fun _ => h⟩, fun h => h.block rfl⟩
    · exact iff_of_true ((step_moves hs hv).clean hfin) ⟨hsize, fun h => absurd h hfin⟩

/-- a call of a builder, inside its allocations -/
def Stays (s : Scratch) (c : Call) (s' : Scratch) : Prop :=
  c.Sized ∧ ∃ st, s.step c = some (st, s')

theorem run_ok {calls : List Call} (hrun : Lts.Run Stays s calls s') (hs : s.Ok) : s'.Ok :=
  @Lts.Run.invariant _ _ _ _ _ Ok (fun _ => True)
    (fun _ _ _ hok _ h => h.2.elim fun _ hstep => hok.step h.1 hstep) _ hrun (fun _ _ => trivial) hs

/-- **emission is all or nothing**: whatever calls a builder has been through, the next one stays
inside its allocations and changes nothing unless it succeeds exactly when the size it asks for does
not wrap past the checks and it is not refused the block of the finished tree -/
theorem emission_atomic (junk : Nat → Byte) (cap : Nat) (allocOk : Bool) (st : Status)
    (s₀ s : Scratch) (calls : List Call) (c : Call) (hcap : cap < 2 ^ 63)
    (hobj : allocOk = true → wrap (cap + cap) < 2 ^ 63)
    (hinit : init junk cap allocOk = some (st, s₀)) (hrun : Lts.Run Stays s₀ calls s)
    (hc : c.Sized) : s.Clean c ↔ s.Safe c :=
  clean_iff (run_ok hrun (ok_init hcap hobj hinit)) hc

/-- the names `k` and `n` -/
def nameK : CStr := ⟨[0x6B], by decide⟩

def nameN : CStr := ⟨[0x6E], by decide⟩

/-- the builder of 128 bytes with its root open -/
def rootScratch : Scratch := ((init (fun _ => 0) 128 true).map Prod.snd).getD zero

/-- where a call leaves the builder -/
def next (s : Scratch) (c : Call) : Scratch := ((s.step c).map Prod.snd).getD s

theorem next_eq {s : Scratch} {c : Call} {st : Status} (h : (s.step c).map Prod.fst = some st) :
    s.step c = some (st, s.next c) := by
  unfold next
  obtain ⟨p, hp, rfl⟩ := Option.map_eq_some_iff.mp h
  rw [hp]
  rfl

/-- a property of the root, and a node under it -/
def crowdedRun : List Call := [.propU32 (some nameK) 7, .beginNode (some nameN)]

def crowded : Scratch := (rootScratch.next (.propU32 (some nameK) 7)).next (.beginNode (some nameN))

/-- a property of 24 cells, for which there is no room left -/
def crowdedCall : Call := .propCells (some nameN) (some (List.replicate 24 0))

theorem crowded_sized : ∀ c ∈ crowdedCall :: crowdedRun, c.Sized := by
  intro c hc
  simp only [crowdedCall, crowdedRun, List.mem_cons, List.not_mem_nil, or_false] at hc
  rcases hc with rfl | rfl | rfl
  · exact ⟨fun _ h => (by cases h; decide), fun _ _ h => (by cases h)⟩
  · exact ⟨fun _ h => (by cases h; decide), fun _ _ h => (by cases h)⟩
  · exact ⟨fun _ h => (by cases h; decide), fun _ _ h => (by cases h)⟩

/-- a property after calls that succeed, which is refused and leaves what they left -/
theorem emission_atomic_crowded :
    init (fun _ => 0) 128 true = some (.ok, rootScratch) ∧
      Lts.Run Stays rootScratch crowdedRun crowded ∧ crowded.sbUsed = 32 ∧ crowded.strLen = 2 ∧
      crowded.Safe crowdedCall ∧ crowded.step crowdedCall = some (.noMemory, crowded) := by
  have hinit : init (fun _ => 0) 128 true = some (.ok, rootScratch) := rfl
  have hrun : Lts.Run Stays rootScratch crowdedRun crowded :=
    .cons ⟨crowded_sized _ (by simp [crowdedRun]), .ok, next_eq (by decide +kernel)⟩
      (.cons ⟨crowded_sized _ (by simp [crowdedRun]), .ok, next_eq (by decide +kernel)⟩ (.nil _))
  have hst : (crowded.step crowdedCall).map Prod.fst = some .noMemory := by decide +kernel
  have hsafe : crowded.Safe crowdedCall := by
    refine ⟨fun name val n hv hn => ?_, fun h => (by cases h)⟩
    cases hv
    have hno : (crowded.propChecks (some nameN)
        (wrap ((List.replicate 24 (0 : W32)).flatMap putBe32).length)).toOption = none := by
      decide +kernel
    rw [hn] at hno
    cases hno
  refine ⟨hinit, hrun, by decide +kernel, by decide +kernel, hsafe, ?_⟩
  obtain ⟨st, s', hs, hkeep⟩ := (emission_atomic (fun _ => 0) 128 true .ok rootScratch crowded
    crowdedRun crowdedCall (by decide) (fun _ => by decide) hinit hrun
    (crowded_sized _ (by simp))).mpr hsafe
  rw [hs] at hst
  obtain rfl := Option.some.inj hst
  rw [hs, hkeep (by decide)]

/-- a finished tree whose block is refused has its last token all the same -/
theorem finish_not_clean : ∃ s₀ s, init (fun _ => 0) 128 true = some (.ok, s₀) ∧
    s₀.step .endNode = some (.ok, s) ∧ ¬ s.Clean (.finish false) := by
  refine ⟨_, _, rfl, rfl, ?_⟩
  rintro ⟨st, s', h, hkeep⟩
  cases h
  exact absurd (congrArg sbUsed (hkeep (by decide))) (by decide)

end Scratch

end Oemu
