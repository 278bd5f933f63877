import Oemu.Mmu.Walk

/-!
# The TLB and the translation

A direct-mapped cache in front of the walk.  The set is `VA[23:12]` and the tag is the whole
tag-stripped page address.  An entry stores the inputs of the permission check, never its verdict,
and the control epoch is compared by value on every translation: a changed control register flushes
before the lookup proceeds.
-/

namespace Oemu

/-- one entry; `level` doubles as the valid bit (0 is free) -/
structure TlbEntry where
  va : W64
  pa : W64
  asid : W32
  level : Nat
  flags : BitVec 8
  vmid : BitVec 8
deriving DecidableEq

def TlbEntry.free : TlbEntry := ⟨0, 0, 0, 0, 0, 0⟩

/-- the five registers a change to must invalidate every entry -/
structure Epoch where
  sctlr : W64
  tcr : W64
  ttbr0 : W64
  ttbr1 : W64
  mair : W64
deriving DecidableEq

structure Mmu where
  fault : MmuFault
  faultValid : Bool
  tlb : BitVec 12 → TlbEntry
  epoch : Epoch
  epochValid : Bool
  tlbHits : W64
  tlbMisses : W64
  tlbFlushes : W64

def tlbEpochRead (sr : Sysregs) : Epoch where
  sctlr := sr.val .sctlrEl1
  tcr := sr.val .tcrEl1
  ttbr0 := sr.val .ttbr0El1
  ttbr1 := sr.val .ttbr1El1
  mair := sr.val .mairEl1

def Mmu.init : Mmu where
  fault := ⟨0, 0⟩
  faultValid := false
  tlb := fun _ => TlbEntry.free
  epoch := ⟨0, 0, 0, 0, 0⟩
  epochValid := false
  tlbHits := 0
  tlbMisses := 0
  tlbFlushes := 0

def tlbIndex (va : W64) : BitVec 12 := va.extractLsb' 12 12

def pageBase (va : W64) : W64 := va &&& ~~~pageMask

def tlbNg : BitVec 8 := 0x01

def tlbXn : BitVec 8 := 0x08

def tlbPxn : BitVec 8 := 0x10

/-- pack the inputs of the verdict into one byte: nG, `AP` at bits 2:1, `XN`, `PXN` -/
def tlbFlags (ap : BitVec 2) (xn pxn ng : Bool) : BitVec 8 :=
  (if ng then tlbNg else 0) ||| (ap.setWidth 8 <<< 1) ||| (if xn then tlbXn else 0) |||
    (if pxn then tlbPxn else 0)

namespace TlbEntry

def ap (e : TlbEntry) : BitVec 2 := e.flags.extractLsb' 1 2

def xn (e : TlbEntry) : Bool := e.flags &&& tlbXn != 0

def pxn (e : TlbEntry) : Bool := e.flags &&& tlbPxn != 0

end TlbEntry

def Mmu.flushAll (m : Mmu) : Mmu :=
  { m with tlb := fun _ => TlbEntry.free, tlbFlushes := m.tlbFlushes + 1 }

/-- cache service for one access; a denied hit is still a served hit -/
inductive TlbServed where
  | served (pa : W64)
  | denied (f : MmuFault)
  | miss

def tlbLookup (m : Mmu) (va : W64) (cur : El) (isWrite isFetch : Bool) : TlbServed × Mmu :=
  let e := m.tlb (tlbIndex va)
  if e.level = 0 ∨ e.va ≠ pageBase va then (.miss, { m with tlbMisses := m.tlbMisses + 1 })
  else if !permits e.ap e.xn e.pxn (cur == .el0) isWrite isFetch then
    (.denied ⟨composeEsr cur isFetch isWrite .permission e.level, va⟩,
      { m with tlbHits := m.tlbHits + 1 })
  else (.served (e.pa ||| (va &&& pageMask)), { m with tlbHits := m.tlbHits + 1 })

/-- the entry a served translation is stored as -/
def tlbEntryOf (sr : Sysregs) (va : W64) (l : Leaf) : TlbEntry where
  va := pageBase va
  pa := pageBase l.pa
  asid := ((if useTtbr1 va then sr.val .ttbr1El1 else sr.val .ttbr0El1) >>> 48).setWidth 32
  level := l.level
  flags := tlbFlags l.ap l.xn l.pxn l.ng
  vmid := 0

def tlbFill (m : Mmu) (sr : Sysregs) (va : W64) (l : Leaf) : Mmu :=
  { m with tlb := Function.update m.tlb (tlbIndex va) (tlbEntryOf sr va l) }

/-- the epoch check: a stale epoch flushes, and the live one is adopted -/
def epochCheck (m : Mmu) (sr : Sysregs) : Mmu :=
  let now := tlbEpochRead sr
  let m :=
    if m.epochValid then (if m.epoch ≠ now then m.flushAll else m)
    else { m with epochValid := true }
  { m with epoch := now }

/-- the translation layer over a physical bus -/
structure MmuWorld (σ : Type) where
  mmu : Mmu
  phys : σ

def cacheable (sr : Sysregs) (cur : El) : Bool := sctlrM (sr.val .sctlrEl1) && cur != .el3

variable {σ : Type}

/-- the walk and the fill: what a translation does when the cache has no answer -/
def translateMiss (sr : Sysregs) (phys : Memops σ) (w : MmuWorld σ) (va : W64) (cur : El)
    (isWrite isFetch : Bool) : Except MmuFault W64 × MmuWorld σ :=
  match walk sr phys va cur isWrite isFetch w.phys with
  | (.fault f, p) => (.error (f.record cur isWrite isFetch), { w with phys := p })
  | (.identity pa, p) => (.ok pa, { w with phys := p })
  | (.leaf l, p) =>
    (.ok l.pa,
      { mmu := if cacheable sr cur then tlbFill w.mmu sr (walkVa (sr.val .tcrEl1) va) l else w.mmu
        phys := p })

/-- one translation: epoch first, cache second, walk last -/
def translate (sr : Sysregs) (phys : Memops σ) (w : MmuWorld σ) (va : W64) (cur : El)
    (isWrite isFetch : Bool) : Except MmuFault W64 × MmuWorld σ :=
  let w := { w with mmu := epochCheck w.mmu sr }
  let tva := walkVa (sr.val .tcrEl1) va
  if cacheable sr cur then
    match tlbLookup w.mmu tva cur isWrite isFetch with
    | (.served pa, m) => (.ok pa, { w with mmu := m })
    | (.denied f, m) => (.error f, { w with mmu := m })
    | (.miss, m) => translateMiss sr phys { w with mmu := m } va cur isWrite isFetch
  else translateMiss sr phys w va cur isWrite isFetch

/-- the public entry: the level is that of PSTATE -/
def mmuTranslate (sr : Sysregs) (phys : Memops σ) (w : MmuWorld σ) (va : W64)
    (isWrite isFetch : Bool) : Except MmuFault W64 × MmuWorld σ :=
  translate sr phys w va sr.el isWrite isFetch

def mmuInternalWalk (sr : Sysregs) (phys : Memops σ) (w : MmuWorld σ) (va : W64) (cur : El)
    (isWrite isFetch : Bool) : Except MmuFault W64 :=
  (walk sr phys va cur isWrite isFetch w.phys).1.answer cur isWrite isFetch

end Oemu
