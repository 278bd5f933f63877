import Oemu.Exc

/-!
# The stage-1 walk

The table walk of the EL1&0 regime, 4 KiB granule.  `walkTable` descends from the start table to a
leaf and knows neither the exception level nor the kind of the access; `walk` puts the identity
paths before it and the permission check after it.
-/

namespace Oemu

/-! ## control and descriptor fields -/

def tcrT0sz (t : W64) : Nat := t.toNat % 64

def tcrT1sz (t : W64) : Nat := (t.toNat >>> 16) % 64

def tcrPs (t : W64) : Nat := (t.toNat >>> 27) % 64

def tcrEpd0 (t : W64) : Bool := t.getLsbD 7

def tcrEpd1 (t : W64) : Bool := t.getLsbD 23

def tcrTbi0 (t : W64) : Bool := t.getLsbD 24

def tcrTbi1 (t : W64) : Bool := t.getLsbD 63

def sctlrM (s : W64) : Bool := s.getLsbD 0

def sctlrA (s : W64) : Bool := s.getLsbD 1

def sctlrSa0 (s : W64) : Bool := s.getLsbD 4

def descAddrMask : W64 := 0x0000FFFFFFFFF000

/-- output address size from the `PS` encoding -/
def pamaxMap : Nat → Nat
  | 0 => 32
  | 1 => 36
  | 2 => 40
  | 3 => 42
  | 4 => 44
  | 5 => 48
  | _ => 52

/-- what `ID_AA64MMFR0.PARANGE` advertises -/
def paRangeId : Nat := 1

def pageMask : W64 := 0xFFF

/-- where the index field of a level starts: 39, 30, 21, 12 -/
def levelShift (level : Nat) : Nat := 12 + (3 - level) * 9

/-! ## pure internals -/

inductive FaultClass where
  | translation | translationNoWalk | accessFlag | permission | addressSize | alignment
deriving DecidableEq, Repr

/-- the `DFSC` of a class at a level; `-1` is "no level" -/
def dfsc (cls : FaultClass) (level : Int) : W32 :=
  match cls with
  | .translation => BitVec.ofInt 32 (0x04 + level)
  | .translationNoWalk => 0x2C
  | .accessFlag => BitVec.ofInt 32 (0x08 + level)
  | .permission => BitVec.ofInt 32 (0x0C + level)
  | .addressSize =>
    if level < 0 then (if level = -1 then 0x29 else 0x2C) else BitVec.ofInt 32 level
  | .alignment => 0x21

/-- the starting level of a walk of an `inputsize`-bit space; `none` is a width the granule cannot
walk -/
def startLevel (inputsize : Nat) : Option Nat :=
  if inputsize < 25 ∨ inputsize > 48 then none else some (4 - (inputsize - 4) / 9)

def useTtbr1 (va : W64) : Bool := va.getLsbD 55

/-- the address-space sign rule -/
def regionOk (va : W64) (inputsize addrsize : Nat) (ttbr1 : Bool) : Bool :=
  if inputsize ≥ addrsize then true
  else
    let width := addrsize - inputsize
    let mask : W64 := if width ≥ 64 then BitVec.allOnes 64 else ((1 : W64) <<< width) - 1
    let top := (va >>> inputsize) &&& mask
    if ttbr1 then top == mask else top == 0

/-- must an access be naturally aligned: `SCTLR.SA0` for EL0, `SCTLR.A` above -/
def alignmentRequired (sr : Sysregs) (el0 : Bool) : Bool :=
  if el0 then sctlrSa0 (sr.val .sctlrEl1) else sctlrA (sr.val .sctlrEl1)

structure MmuDesc where
  valid : Bool
  table : Bool
  blockPage : Bool
  address : W64
  ng : Bool
  af : Bool
  ap : BitVec 2
  xn : Bool
  pxn : Bool

/-- the two-bit `AP` field: `AP[2]` above `AP[1]` -/
def apBits (ap2 ap1 : Bool) : BitVec 2 := BitVec.ofBool ap2 ++ BitVec.ofBool ap1

def decodeDesc (raw : W64) : MmuDesc where
  valid := raw.getLsbD 0
  table := raw &&& 3 == 3
  blockPage := raw &&& 3 == 1
  address := raw &&& descAddrMask
  ng := raw.getLsbD 11
  af := raw.getLsbD 10
  ap := apBits (raw.getLsbD 7) (raw.getLsbD 6)
  xn := raw.getLsbD 54
  pxn := raw.getLsbD 53

/-- the constraint bits of a table descriptor, `PXN XN APTable[0] APTable[1] NS` from bit 0 up -/
def tableAttrs (raw : W64) : BitVec 5 := raw.extractLsb' 59 5

/-- the permission table: `AP[1]` (bit 0) admits EL0, `AP[2]` (bit 1) denies writes -/
def permits (ap : BitVec 2) (xn pxn el0 isWrite isFetch : Bool) : Bool :=
  let user := ap.getLsbD 0
  let ro := ap.getLsbD 1
  let readOk := if el0 then user else true
  let writeOk := if el0 then user && !ro else !ro
  if isFetch then (if el0 then readOk && !xn else !pxn)
  else if isWrite then writeOk else readOk

def mmuEsr (toLowerEl isFetch isWrite : Bool) (dfsc : W32) : W32 :=
  let ec :=
    if isFetch then (if toLowerEl then ExcEc.iabortLower else .iabortSame)
    else (if toLowerEl then ExcEc.dabortLower else .dabortSame)
  (ec.code <<< 26) ||| ((1 : W32) <<< 25) ||| dfsc |||
    (if !isFetch && isWrite then (1 : W32) <<< 6 else 0)

/-- the byte offset of the entry of an address in a table of a level -/
def tableIndex (va : W64) (level : Nat) : W64 := ((va >>> levelShift level) &&& 0x1FF) <<< 3

/-! ## the walk -/

structure WalkFault where
  cls : FaultClass
  level : Int
  far : W64
deriving DecidableEq

/-- a leaf, with the table constraints merged into its attributes -/
structure Leaf where
  pa : W64
  level : Nat
  ap : BitVec 2
  xn : Bool
  pxn : Bool
  ng : Bool
deriving DecidableEq

/-- a clear tag: `va & ~(0xFF << 56)` -/
def stripTag (va : W64) : W64 := va &&& ~~~((0xFF : W64) <<< 56)

/-- does top-byte-ignore apply to an address -/
def tagged (tcr va : W64) : Bool := if useTtbr1 va then tcrTbi1 tcr else tcrTbi0 tcr

/-- the address the walk and the cache are keyed on -/
def walkVa (tcr va : W64) : W64 := if tagged tcr va then stripTag va else va

/-- the output size of a walk, clamped to what is advertised -/
def outBits (tcr : W64) : Nat := pamaxMap (if tcrPs tcr > paRangeId then paRangeId else tcrPs tcr)

/-- the answer of a descriptor that is not a table: everything up to the access flag -/
def walkLeaf (va : W64) (out : Nat) (level : Nat) (tattrs : BitVec 5) (raw : W64) :
    Except WalkFault Leaf :=
  let d := decodeDesc raw
  if !d.valid then .error ⟨.translation, level, va⟩
  else if !(d.table || d.blockPage) then .error ⟨.translation, level, va⟩
  else if level = 0 then .error ⟨.translation, 0, va⟩
  else
    let pageSize : W64 := (1 : W64) <<< levelShift level
    let addr := (d.address &&& ~~~(pageSize - 1)) ||| (va &&& (pageSize - 1))
    if addr >>> out ≠ 0 then .error ⟨.addressSize, level, va⟩
    else
      let pxn := d.pxn || tattrs.getLsbD 0
      let xn := d.xn || tattrs.getLsbD 1
      let ap := if tattrs.getLsbD 2 then d.ap &&& 2 else d.ap
      let ap := if tattrs.getLsbD 3 then ap ||| 2 else ap
      if !d.af then .error ⟨.accessFlag, level, va⟩
      else .ok ⟨addr, level, ap, xn, pxn, d.ng⟩

variable {σ : Type}

/-- the descent.  The count is of the levels below the current one, so that the level is
`3 - rem`, and at level 3 a type-`0b11` descriptor is a page, not a table. -/
def walkTable (phys : Memops σ) (va : W64) (out : Nat) :
    Nat → W64 → BitVec 5 → σ → Except WalkFault Leaf × σ
  | 0, base, tattrs, p =>
    match phys.read p (base ||| tableIndex va 3) .dword false with
    | (.ok, raw, p) => (walkLeaf va out 3 tattrs raw, p)
    | (_, _, p) => (.error ⟨.translationNoWalk, -1, va⟩, p)
  | rem + 1, base, tattrs, p =>
    let level := 2 - rem
    match phys.read p (base ||| tableIndex va level) .dword false with
    | (.ok, raw, p) =>
      let d := decodeDesc raw
      if d.table then
        if d.address >>> out ≠ 0 then (.error ⟨.addressSize, level, va⟩, p)
        else walkTable phys va out rem (d.address &&& ~~~pageMask) (tattrs ||| tableAttrs raw) p
      else (walkLeaf va out level tattrs raw, p)
    | (_, _, p) => (.error ⟨.translationNoWalk, -1, va⟩, p)

/-- the base field of a table base register: bits 47:1 -/
def ttbrBase (ttbr : W64) : W64 := ttbr &&& (((1 : W64) <<< 48) - 2)

/-- the fields of the region an address belongs to -/
def regionTsz (tcr : W64) (ttbr1 : Bool) : Nat := if ttbr1 then tcrT1sz tcr else tcrT0sz tcr

def regionEpd (tcr : W64) (ttbr1 : Bool) : Bool := if ttbr1 then tcrEpd1 tcr else tcrEpd0 tcr

def regionTtbr (sr : Sysregs) (ttbr1 : Bool) : W64 :=
  if ttbr1 then sr.val .ttbr1El1 else sr.val .ttbr0El1

/-- the width of an address: top-byte-ignore strips one byte -/
def addrSize (tbi : Bool) : Nat := if tbi then 56 else 64

/-- the walk from the control registers, before the permission check -/
def walkStage1 (sr : Sysregs) (phys : Memops σ) (va : W64) (p : σ) : Except WalkFault Leaf × σ :=
  let tcr := sr.val .tcrEl1
  let ttbr1 := useTtbr1 va
  let tbi := tagged tcr va
  let va := walkVa tcr va
  let inputsize := 64 - regionTsz tcr ttbr1
  let out := outBits tcr
  match startLevel inputsize with
  | none => (.error ⟨.translation, 0, va⟩, p)
  | some level =>
    if !regionOk va inputsize (addrSize tbi) ttbr1 then (.error ⟨.translation, level, va⟩, p)
    else if regionEpd tcr ttbr1 then (.error ⟨.translation, level, va⟩, p)
    else
      let base := ttbrBase (regionTtbr sr ttbr1)
      if base >>> out ≠ 0 then (.error ⟨.addressSize, -1, va⟩, p)
      else walkTable phys va out (3 - level) (base &&& ~~~pageMask) 0 p

/-- the answer of a walk: an address, with the leaf when a table walk produced it, or a fault -/
inductive WalkResult where
  | identity (pa : W64)
  | leaf (l : Leaf)
  | fault (f : WalkFault)
deriving DecidableEq

def checkLeaf (va : W64) (cur : El) (isWrite isFetch : Bool) (l : Leaf) : WalkResult :=
  if permits l.ap l.xn l.pxn (cur == .el0) isWrite isFetch then .leaf l
  else .fault ⟨.permission, l.level, va⟩

def walk (sr : Sysregs) (phys : Memops σ) (va : W64) (cur : El) (isWrite isFetch : Bool) (p : σ) :
    WalkResult × σ :=
  if cur = .el3 then (.identity va, p)
  else if !sctlrM (sr.val .sctlrEl1) then (.identity va, p)
  else
    match walkStage1 sr phys va p with
    | (.error f, p) => (.fault f, p)
    | (.ok l, p) => (checkLeaf (walkVa (sr.val .tcrEl1) va) cur isWrite isFetch l, p)

/-! ## fault records -/

/-- the record a failing access leaves behind -/
structure MmuFault where
  esr : W32
  far : W64
deriving DecidableEq

def toLowerFrom (cur : El) : Bool := decide (cur.num < (excRoute cur).1.num)

def composeEsr (cur : El) (isFetch isWrite : Bool) (cls : FaultClass) (level : Int) : W32 :=
  mmuEsr (toLowerFrom cur) isFetch isWrite (dfsc cls level)

def WalkFault.record (cur : El) (isWrite isFetch : Bool) (f : WalkFault) : MmuFault :=
  ⟨composeEsr cur isFetch isWrite f.cls f.level, f.far⟩

def WalkResult.answer (cur : El) (isWrite isFetch : Bool) : WalkResult → Except MmuFault W64
  | .identity pa => .ok pa
  | .leaf l => .ok l.pa
  | .fault f => .error (f.record cur isWrite isFetch)

end Oemu
