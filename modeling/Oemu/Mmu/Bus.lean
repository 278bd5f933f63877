import Oemu.Mmu.Tlb

/-!
# The translated bus

The `Memops` view of the translation layer.  The order is that of hardware: the walk first, then
the alignment policy, then the verdict of the physical bus.  A misaligned access the policy permits
is split into byte transfers, all of which are checked before any is made.

`f₀` stands for the indeterminate contents of the fault record a callback leaves uninitialised on
its stack: `splitCheck` completes only its syndrome when the physical bus refuses a byte.
-/

namespace Oemu

variable {σ : Type}

/-- leave a record pending and refuse -/
def Mmu.pend (m : Mmu) (f : MmuFault) : Mmu := { m with fault := f, faultValid := true }

def MmuWorld.pend (w : MmuWorld σ) (f : MmuFault) : MmuWorld σ := { w with mmu := w.mmu.pend f }

/-- the record of a refusal by the bus layer itself -/
def refuseRecord (cur : El) (isFetch isWrite : Bool) (cls : FaultClass) (level : Int) (far : W64) :
    MmuFault :=
  ⟨composeEsr cur isFetch isWrite cls level, far⟩

/-- consume the pending record, if any -/
def Mmu.takeFault (m : Mmu) : Option MmuFault × Mmu :=
  if m.faultValid then (some m.fault, { m with faultValid := false }) else (none, m)

def mmuFetch32 (sr : Sysregs) (phys : Memops σ) (w : MmuWorld σ) (va : W64) :
    Status × W32 × MmuWorld σ :=
  let cur := sr.el
  match translate sr phys w va cur false true with
  | (.error f, w) => (.fault, 0, w.pend f)
  | (.ok pa, w) =>
    let refusal := refuseRecord cur true false .translationNoWalk (-1) va
    match phys.validate w.phys pa 4 permExec with
    | (.ok, p) =>
      match phys.fetch32 p pa with
      | (.ok, word, p) => (.ok, word, { w with phys := p })
      | (_, _, p) => (.fault, 0, { w with phys := p }.pend refusal)
    | (_, p) => (.fault, 0, { w with phys := p }.pend refusal)

def accessPerm (isWrite : Bool) : W32 := if isWrite then permWrite else permRead

/-- validate `k` more bytes of a split access, from the `i`-th on -/
def splitCheck (sr : Sysregs) (phys : Memops σ) (f₀ : MmuFault) (va : W64) (cur : El)
    (isWrite : Bool) : Nat → Nat → MmuWorld σ → Option MmuFault × MmuWorld σ
  | 0, _, w => (none, w)
  | k + 1, i, w =>
    match translate sr phys w (va + BitVec.ofNat 64 i) cur isWrite false with
    | (.error f, w) => (some f, w)
    | (.ok pa, w) =>
      match phys.validate w.phys pa 1 (accessPerm isWrite) with
      | (.ok, p) => splitCheck sr phys f₀ va cur isWrite k (i + 1) { w with phys := p }
      | (_, p) =>
        (some { f₀ with esr := composeEsr cur false isWrite .translationNoWalk (-1) },
          { w with phys := p })

/-- the address a translation leaves in its out-parameter, which starts at zero -/
def outAddr : Except MmuFault W64 → W64
  | .ok pa => pa
  | .error _ => 0

/-- read `k` more bytes of a split access, from the `i`-th on -/
def splitRead (sr : Sysregs) (phys : Memops σ) (va : W64) (cur : El) :
    Nat → Nat → W64 → MmuWorld σ → Option W64 × MmuWorld σ
  | 0, _, value, w => (some value, w)
  | k + 1, i, value, w =>
    let (t, w) := translate sr phys w (va + BitVec.ofNat 64 i) cur false false
    match phys.read w.phys (outAddr t) .byte false with
    | (.ok, byte, p) =>
      splitRead sr phys va cur k (i + 1) (value ||| ((byte &&& 0xFF) <<< (i * 8)))
        { w with phys := p }
    | (_, _, p) => (none, { w with phys := p })

/-- write `k` more bytes of a split access, from the `i`-th on -/
def splitWrite (sr : Sysregs) (phys : Memops σ) (va : W64) (cur : El) (value : W64) :
    Nat → Nat → MmuWorld σ → Bool × MmuWorld σ
  | 0, _, w => (true, w)
  | k + 1, i, w =>
    let (t, w) := translate sr phys w (va + BitVec.ofNat 64 i) cur true false
    match phys.write w.phys (outAddr t) .byte ((value >>> (i * 8)) &&& 0xFF) with
    | (.ok, p) => splitWrite sr phys va cur value k (i + 1) { w with phys := p }
    | (_, p) => (false, { w with phys := p })

/-- is an access not naturally aligned -/
def misaligned (va : W64) (size : MemSize) : Bool :=
  va &&& BitVec.ofNat 64 (size.bytes - 1) != 0

def mmuSignExtend (value : W64) (bytes : Nat) : W64 :=
  if bytes < 8 ∧ (value >>> (bytes * 8 - 1)) &&& 1 ≠ 0 then
    value ||| ~~~(((1 : W64) <<< (bytes * 8)) - 1)
  else value

/-- the untranslated part of a read: one transfer, or bytes when misaligned -/
def mmuReadPhys (sr : Sysregs) (phys : Memops σ) (f₀ : MmuFault) (w : MmuWorld σ) (va pa : W64)
    (size : MemSize) : Option W64 × MmuWorld σ :=
  let cur := sr.el
  let refusal := refuseRecord cur false false .translationNoWalk (-1) va
  if misaligned va size then
    match splitCheck sr phys f₀ va cur false size.bytes 0 w with
    | (some f, w) => (none, w.pend f)
    | (none, w) =>
      match splitRead sr phys va cur size.bytes 0 0 w with
      | (some value, w) => (some value, w)
      | (none, w) => (none, w.pend refusal)
  else
    match phys.validate w.phys pa (BitVec.ofNat 64 size.bytes) permRead with
    | (.ok, p) =>
      match phys.read p pa size false with
      | (.ok, value, p) => (some value, { w with phys := p })
      | (_, _, p) => (none, { w with phys := p }.pend refusal)
    | (_, p) => (none, { w with phys := p }.pend refusal)

def mmuRead (sr : Sysregs) (phys : Memops σ) (f₀ : MmuFault) (w : MmuWorld σ) (va : W64)
    (size : MemSize) (sx : Bool) : Status × W64 × MmuWorld σ :=
  let cur := sr.el
  match translate sr phys w va cur false false with
  | (.error f, w) => (.fault, 0, w.pend f)
  | (.ok pa, w) =>
    if misaligned va size && alignmentRequired sr (cur == .el0) then
      (.fault, 0, w.pend (refuseRecord cur false false .alignment (-1) va))
    else
      match mmuReadPhys sr phys f₀ w va pa size with
      | (some value, w) => (.ok, if sx then mmuSignExtend value size.bytes else value, w)
      | (none, w) => (.fault, 0, w)

def mmuWrite (sr : Sysregs) (phys : Memops σ) (f₀ : MmuFault) (w : MmuWorld σ) (va : W64)
    (size : MemSize) (value : W64) : Status × MmuWorld σ :=
  let cur := sr.el
  match translate sr phys w va cur true false with
  | (.error f, w) => (.fault, w.pend f)
  | (.ok pa, w) =>
    if misaligned va size && alignmentRequired sr (cur == .el0) then
      (.fault, w.pend (refuseRecord cur false true .alignment (-1) va))
    else
      let refusal := refuseRecord cur false true .translationNoWalk (-1) va
      if misaligned va size then
        match splitCheck sr phys f₀ va cur true size.bytes 0 w with
        | (some f, w) => (.fault, w.pend f)
        | (none, w) =>
          match splitWrite sr phys va cur value size.bytes 0 w with
          | (true, w) => (.ok, w)
          | (false, w) => (.fault, w.pend refusal)
      else
        match phys.validate w.phys pa (BitVec.ofNat 64 size.bytes) permWrite with
        | (.ok, p) =>
          match phys.write p pa size value with
          | (.ok, p) => (.ok, { w with phys := p })
          | (_, p) => (.fault, { w with phys := p }.pend refusal)
        | (_, p) => (.fault, { w with phys := p }.pend refusal)

/-- the loop of `mmuValidate` over the pages a range spans.  Every turn covers at least one byte,
so a fuel of the size is never spent before the range is. -/
def validateLoop (sr : Sysregs) (phys : Memops σ) (va size : W64) (perms : W32) :
    Nat → W64 → MmuWorld σ → Status × MmuWorld σ
  | 0, _, w => (.ok, w)
  | fuel + 1, off, w =>
    if off < size then
      let cur := sr.el
      let isFetch := perms.getLsbD 2
      let isWrite := perms.getLsbD 1
      let pageOff := (va + off) &&& pageMask
      let span := 4096 - pageOff
      let chunk := if span ≤ size - off then span else size - off
      match translate sr phys w (va + off) cur isWrite isFetch with
      | (.error f, w) => (.fault, w.pend f)
      | (.ok pa, w) =>
        match phys.validate w.phys pa chunk perms with
        | (.ok, p) => validateLoop sr phys va size perms fuel (off + chunk) { w with phys := p }
        | (_, p) =>
          (.fault, { w with phys := p }.pend
            (refuseRecord cur isFetch isWrite .translationNoWalk (-1) (va + off)))
    else (.ok, w)

/-- a permission probe: every page of the range must translate and be backed -/
def mmuValidate (sr : Sysregs) (phys : Memops σ) (w : MmuWorld σ) (va size : W64) (perms : W32) :
    Status × MmuWorld σ :=
  validateLoop sr phys va size perms size.toNat 0 w

/-- the translated bus -/
def mmuMemops (sr : Sysregs) (phys : Memops σ) (f₀ : MmuFault) : Memops (MmuWorld σ) where
  fetch32 := mmuFetch32 sr phys
  read := mmuRead sr phys f₀
  write := mmuWrite sr phys f₀
  validate := mmuValidate sr phys

end Oemu
