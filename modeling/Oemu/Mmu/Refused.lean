import Oemu.Mmu.Split
import Oemu.Mmu.Transparent

/-!
# Refused accesses

What the layer leaves pending when it refuses an access.  `Refusal` says what refused it and which
byte of it failed first; `refusal` computes it from the state before the access, byte by byte.

* `translate_refused`  a translation leaves the record of the failure the line or the walk found;
* `splitCheck_refusal`, `splitRead_stop`, `splitWrite_stop`  where the loops of a split access stop;
* `leaves_op`          what an access leaves: its status, and the record of its refusal.
-/

namespace Oemu

variable {σ : Type}

/-! ## what refuses an access -/

/-- what refuses an access, with the byte that failed first -/
inductive Refusal where
  /-- the translation of the byte at an offset -/
  | walk (off : W64) (cls : FaultClass) (level : Int)
  /-- the alignment policy -/
  | policy
  /-- the physical bus, probed for one byte of a split access -/
  | check (off : W64)
  /-- the physical bus, in a transfer from an offset on; `first` counts the bytes served before -/
  | transfer (off first : W64)
deriving DecidableEq

namespace Refusal

def byte : Refusal → W64
  | walk off _ _ => off
  | policy => 0
  | check off => off
  | transfer off first => off + first

/-- the class and the level of the failure -/
def cls : Refusal → FaultClass
  | walk _ c _ => c
  | policy => .alignment
  | check _ => .translationNoWalk
  | transfer _ _ => .translationNoWalk

def level : Refusal → Int
  | walk _ _ l => l
  | _ => -1

/-- the record the layer leaves, over an uninitialised `f₀` -/
def left (sr : Sysregs) (f₀ : MmuFault) (isFetch isWrite : Bool) (va : W64) (r : Refusal) :
    MmuFault where
  esr := composeEsr sr.el isFetch isWrite r.cls r.level
  far :=
    match r with
    | walk off _ _ => walkVa (sr.val .tcrEl1) (va + off)
    | policy => va
    | check _ => f₀.far
    | transfer off _ => va + off

end Refusal

/-! ## translations -/

/-- why a translation fails: the line of the page denies it, or the walk finds a fault -/
def translateRefusal (sr : Sysregs) (phys : Memops σ) (w : MmuWorld σ) (va : W64) (cur : El)
    (isWrite isFetch : Bool) : Option (FaultClass × Int) :=
  if cacheable sr cur then
    match (epochCheck w.mmu sr).line (walkVa (sr.val .tcrEl1) va) with
    | some l =>
      if permits l.ap l.xn l.pxn (cur == .el0) isWrite isFetch then none
      else some (.permission, l.level)
    | none =>
      match (walk sr phys va cur isWrite isFetch w.phys).1 with
      | .fault f => some (f.cls, f.level)
      | _ => none
  else none

variable {sr : Sysregs} {phys : Memops σ} {w : MmuWorld σ} {va : W64} {cur : El}
  {isWrite isFetch : Bool}

theorem walkStage1_far {f : WalkFault} {p : σ} (h : (walkStage1 sr phys va p).1 = .error f) :
    f.far = walkVa (sr.val .tcrEl1) va := by
  have hw := congrArg Prod.fst (walkStage1_page sr phys (walkVa (sr.val .tcrEl1) va) p)
  rw [walkStage1_walkVa, walkVa_walkVa, h] at hw
  dsimp only at hw
  cases hr : (walkStage1 sr phys (pageBase (walkVa (sr.val .tcrEl1) va)) p).1 with
  | error f' =>
    rw [hr] at hw
    cases hw
    rfl
  | ok l =>
    rw [hr] at hw
    cases hw

theorem walk_far {f : WalkFault} {p : σ}
    (h : (walk sr phys va cur isWrite isFetch p).1 = .fault f) :
    f.far = walkVa (sr.val .tcrEl1) va := by
  unfold walk at h
  split at h
  · cases h
  · split at h
    · cases h
    · rcases hw : walkStage1 sr phys va p with ⟨f' | l, p'⟩
      · rw [hw] at h
        cases h
        exact walkStage1_far (congrArg Prod.fst hw)
      · rw [hw] at h
        dsimp only at h
        unfold checkLeaf at h
        split at h
        · cases h
        · cases h
          rfl

/-- **a translation that fails** leaves the record of the failure the line or the walk found -/
theorem translate_refused (phys : Memops σ) (w : MmuWorld σ) (va : W64) (cur : El)
    (isWrite isFetch : Bool) :
    (translateRefusal sr phys w va cur isWrite isFetch = none ∧
      ∃ pa, (translate sr phys w va cur isWrite isFetch).1 = .ok pa) ∨
    ∃ c l, translateRefusal sr phys w va cur isWrite isFetch = some (c, l) ∧
      (translate sr phys w va cur isWrite isFetch).1 =
        .error ⟨composeEsr cur isFetch isWrite c l, walkVa (sr.val .tcrEl1) va⟩ := by
  unfold translateRefusal
  cases hc : cacheable sr cur with
  | false =>
    rw [if_neg (by decide), translate_identity phys w va isWrite isFetch hc]
    exact .inl ⟨rfl, va, rfl⟩
  | true =>
    rw [if_pos rfl, translate_answer phys w va isWrite isFetch hc]
    cases (epochCheck w.mmu sr).line (walkVa (sr.val .tcrEl1) va) with
    | some l =>
      dsimp only
      unfold Line.serve
      by_cases hp : permits l.ap l.xn l.pxn (cur == .el0) isWrite isFetch = true
      · rw [if_pos hp, if_pos hp]
        exact .inl ⟨rfl, _, rfl⟩
      · rw [if_neg hp, if_neg hp]
        exact .inr ⟨_, _, rfl, rfl⟩
    | none =>
      dsimp only
      cases hr : (walk sr phys va cur isWrite isFetch w.phys).1 with
      | identity pa => exact .inl ⟨rfl, pa, rfl⟩
      | leaf l => exact .inl ⟨rfl, l.pa, rfl⟩
      | fault f =>
        refine .inr ⟨f.cls, f.level, rfl, ?_⟩
        have hfar := walk_far hr
        show Except.error (f.record cur isWrite isFetch) = _
        unfold WalkFault.record
        rw [hfar]

/-! ## accesses -/

/-- how many bytes of a transfer the bus would serve one by one before it refuses one; none where it
refuses the transfer as a whole -/
def firstRefused (phys : Memops σ) (p : σ) (pa : W64) (perms : W32) (n : Nat) : W64 :=
  BitVec.ofNat 64 (((List.range n).find? fun i =>
    decide ((phys.validate p (pa + BitVec.ofNat 64 i) 1 perms).1 ≠ .ok)).getD 0)

/-- what refuses one of `k` more bytes of a split access, from the `i`-th on -/
def splitRefusal (sr : Sysregs) (phys : Memops σ) (va : W64) (isWrite : Bool) :
    Nat → Nat → MmuWorld σ → Option Refusal × MmuWorld σ
  | 0, _, w => (none, w)
  | k + 1, i, w =>
    let t := translate sr phys w (va + BitVec.ofNat 64 i) sr.el isWrite false
    match translateRefusal sr phys w (va + BitVec.ofNat 64 i) sr.el isWrite false with
    | some (c, l) => (some (.walk (BitVec.ofNat 64 i) c l), t.2)
    | none =>
      match phys.validate t.2.phys (outAddr t.1) 1 (accessPerm isWrite) with
      | (.ok, p) => splitRefusal sr phys va isWrite k (i + 1) { t.2 with phys := p }
      | (_, p) => (some (.check (BitVec.ofNat 64 i)), { t.2 with phys := p })

def readStop (sr : Sysregs) (phys : Memops σ) (va : W64) : Nat → Nat → MmuWorld σ → Option Nat
  | 0, _, _ => none
  | k + 1, i, w =>
    let t := translate sr phys w (va + BitVec.ofNat 64 i) sr.el false false
    match phys.read t.2.phys (outAddr t.1) .byte false with
    | (.ok, _, p) => readStop sr phys va k (i + 1) { t.2 with phys := p }
    | _ => some i

def writeStop (sr : Sysregs) (phys : Memops σ) (va value : W64) :
    Nat → Nat → MmuWorld σ → Option Nat
  | 0, _, _ => none
  | k + 1, i, w =>
    let t := translate sr phys w (va + BitVec.ofNat 64 i) sr.el true false
    match phys.write t.2.phys (outAddr t.1) .byte ((value >>> (i * 8)) &&& 0xFF) with
    | (.ok, p) => writeStop sr phys va value k (i + 1) { t.2 with phys := p }
    | _ => some i

/-- does the bus serve a transfer -/
def busFetches (phys : Memops σ) (p : σ) (pa : W64) : Bool :=
  match phys.validate p pa 4 permExec with
  | (.ok, p) => (phys.fetch32 p pa).1 == .ok
  | _ => false

def busReads (phys : Memops σ) (p : σ) (pa : W64) (size : MemSize) : Bool :=
  match phys.validate p pa (BitVec.ofNat 64 size.bytes) permRead with
  | (.ok, p) => (phys.read p pa size false).1 == .ok
  | _ => false

def busWrites (phys : Memops σ) (p : σ) (pa : W64) (size : MemSize) (value : W64) : Bool :=
  match phys.validate p pa (BitVec.ofNat 64 size.bytes) permWrite with
  | (.ok, p) => (phys.write p pa size value).1 == .ok
  | _ => false

def fetchRefusal (sr : Sysregs) (phys : Memops σ) (w : MmuWorld σ) (va : W64) : Option Refusal :=
  let t := translate sr phys w va sr.el false true
  match translateRefusal sr phys w va sr.el false true with
  | some (c, l) => some (.walk 0 c l)
  | none =>
    if busFetches phys t.2.phys (outAddr t.1) then none
    else some (.transfer 0 (firstRefused phys t.2.phys (outAddr t.1) permExec 4))

def readRefusal (sr : Sysregs) (phys : Memops σ) (w : MmuWorld σ) (va : W64) (size : MemSize) :
    Option Refusal :=
  let t := translate sr phys w va sr.el false false
  match translateRefusal sr phys w va sr.el false false with
  | some (c, l) => some (.walk 0 c l)
  | none =>
    if misaligned va size && alignmentRequired sr (sr.el == .el0) then some .policy
    else if misaligned va size then
      let s := splitRefusal sr phys va false size.bytes 0 t.2
      s.1.or ((readStop sr phys va size.bytes 0 s.2).map fun i => .transfer 0 (BitVec.ofNat 64 i))
    else if busReads phys t.2.phys (outAddr t.1) size then none
    else some (.transfer 0 (firstRefused phys t.2.phys (outAddr t.1) permRead size.bytes))

def writeRefusal (sr : Sysregs) (phys : Memops σ) (w : MmuWorld σ) (va : W64) (size : MemSize)
    (value : W64) : Option Refusal :=
  let t := translate sr phys w va sr.el true false
  match translateRefusal sr phys w va sr.el true false with
  | some (c, l) => some (.walk 0 c l)
  | none =>
    if misaligned va size && alignmentRequired sr (sr.el == .el0) then some .policy
    else if misaligned va size then
      let s := splitRefusal sr phys va true size.bytes 0 t.2
      s.1.or ((writeStop sr phys va value size.bytes 0 s.2).map fun i =>
        .transfer 0 (BitVec.ofNat 64 i))
    else if busWrites phys t.2.phys (outAddr t.1) size value then none
    else some (.transfer 0 (firstRefused phys t.2.phys (outAddr t.1) permWrite size.bytes))

def probeRefusal (sr : Sysregs) (phys : Memops σ) (va size : W64) (perms : W32) :
    Nat → W64 → MmuWorld σ → Option Refusal
  | 0, _, _ => none
  | fuel + 1, off, w =>
    if off < size then
      let t := translate sr phys w (va + off) sr.el (perms.getLsbD 1) (perms.getLsbD 2)
      match translateRefusal sr phys w (va + off) sr.el (perms.getLsbD 1) (perms.getLsbD 2) with
      | some (c, l) => some (.walk off c l)
      | none =>
        match phys.validate t.2.phys (outAddr t.1) (pageChunk va size off) perms with
        | (.ok, p) =>
          probeRefusal sr phys va size perms fuel (off + pageChunk va size off)
            { t.2 with phys := p }
        | _ => some (.transfer off (firstRefused phys t.2.phys (outAddr t.1) perms
            (pageChunk va size off).toNat))
    else none

/-- the kind and the address of an access -/
def BusOp.fetches : BusOp → Bool
  | .fetch32 _ => true
  | .validate _ _ perms => perms.getLsbD 2
  | _ => false

def BusOp.writes : BusOp → Bool
  | .write _ _ _ => true
  | .validate _ _ perms => perms.getLsbD 1
  | _ => false

def BusOp.addr : BusOp → W64
  | .fetch32 va => va
  | .read va _ _ => va
  | .write va _ _ => va
  | .validate va _ _ => va

/-- **what refuses an access**, from the state before it -/
def refusal (sr : Sysregs) (phys : Memops σ) (w : MmuWorld σ) : BusOp → Option Refusal
  | .fetch32 va => fetchRefusal sr phys w va
  | .read va size _ => readRefusal sr phys w va size
  | .write va size value => writeRefusal sr phys w va size value
  | .validate va size perms => probeRefusal sr phys va size perms size.toNat 0 w

/-! ## what the callbacks leave -/

def SamePending (m m' : Mmu) : Prop := m'.fault = m.fault ∧ m'.faultValid = m.faultValid

theorem SamePending.trans {m m' m'' : Mmu} (h : SamePending m m') (h' : SamePending m' m'') :
    SamePending m m'' := ⟨h'.1.trans h.1, h'.2.trans h.2⟩

/-- what an access leaves in the layer: the pending record as it was, or that of its refusal -/
def Leaves (sr : Sysregs) (f₀ : MmuFault) (isFetch isWrite : Bool) (va : W64) (st : Status)
    (m m' : Mmu) : Option Refusal → Prop
  | none => st = .ok ∧ SamePending m m'
  | some r => st = .fault ∧ m'.faultValid = true ∧ m'.fault = r.left sr f₀ isFetch isWrite va

variable {f₀ : MmuFault}

theorem left_walk (sr : Sysregs) (f₀ : MmuFault) (isFetch isWrite : Bool) (va : W64)
    (c : FaultClass) (l : Int) :
    (Refusal.walk 0 c l).left sr f₀ isFetch isWrite va =
      ⟨composeEsr sr.el isFetch isWrite c l, walkVa (sr.val .tcrEl1) va⟩ := by
  have h0 : va + 0 = va := BitVec.add_zero va
  show (⟨_, walkVa (sr.val .tcrEl1) (va + 0)⟩ : MmuFault) = _
  rw [h0]
  rfl

theorem left_transfer (sr : Sysregs) (f₀ : MmuFault) (isFetch isWrite : Bool) (va first : W64) :
    (Refusal.transfer 0 first).left sr f₀ isFetch isWrite va =
      refuseRecord sr.el isFetch isWrite .translationNoWalk (-1) va := by
  have h0 : va + 0 = va := BitVec.add_zero va
  show (⟨_, va + 0⟩ : MmuFault) = _
  rw [h0]
  rfl

section

variable {w₁ : MmuWorld σ} {pa value : W64} {size : MemSize}

theorem mmuFetch32_served (ht : translate sr phys w va sr.el false true = (.ok pa, w₁))
    (hb : busFetches phys w₁.phys pa = true) :
    ∃ word p, mmuFetch32 sr phys w va = (.ok, word, { w₁ with phys := p }) := by
  unfold busFetches at hb
  unfold mmuFetch32
  dsimp only
  rw [ht]
  dsimp only
  rcases hv : phys.validate w₁.phys pa 4 permExec with ⟨st, p⟩
  rw [hv] at hb
  cases st <;> first | cases hb | skip
  dsimp only at hb ⊢
  rcases hr : phys.fetch32 p pa with ⟨st, word, p'⟩
  rw [hr] at hb
  have hst : st = .ok := eq_of_beq hb
  subst hst
  exact ⟨_, _, rfl⟩

theorem mmuFetch32_denied (ht : translate sr phys w va sr.el false true = (.ok pa, w₁))
    (hb : ¬ busFetches phys w₁.phys pa = true) :
    ∃ p, mmuFetch32 sr phys w va = (.fault, 0, ({ w₁ with phys := p } : MmuWorld σ).pend
      (refuseRecord sr.el true false .translationNoWalk (-1) va)) := by
  unfold busFetches at hb
  unfold mmuFetch32
  dsimp only
  rw [ht]
  dsimp only
  rcases hv : phys.validate w₁.phys pa 4 permExec with ⟨st, p⟩
  rw [hv] at hb
  cases st <;> first | exact ⟨_, rfl⟩ | skip
  dsimp only at hb ⊢
  rcases hr : phys.fetch32 p pa with ⟨st, word, p'⟩
  rw [hr] at hb
  cases st <;> first | exact ⟨_, rfl⟩ | exact absurd rfl hb

theorem mmuRead_served (f₀ : MmuFault) (hal : misaligned va size = false) (sx : Bool)
    (ht : translate sr phys w va sr.el false false = (.ok pa, w₁))
    (hb : busReads phys w₁.phys pa size = true) :
    ∃ v p, mmuRead sr phys f₀ w va size sx = (.ok, v, { w₁ with phys := p }) := by
  unfold busReads at hb
  rcases hv : phys.validate w₁.phys pa (BitVec.ofNat 64 size.bytes) permRead with ⟨st, p⟩
  rw [hv] at hb
  cases st <;> first | cases hb | skip
  dsimp only at hb
  rcases hr : phys.read p pa size false with ⟨st, v, p'⟩
  rw [hr] at hb
  have hst : st = .ok := eq_of_beq hb
  subst hst
  exact ⟨_, _, mmuRead_one f₀ hal sx ht hv hr⟩

theorem mmuRead_denied (f₀ : MmuFault) (hal : misaligned va size = false) (sx : Bool)
    (ht : translate sr phys w va sr.el false false = (.ok pa, w₁))
    (hb : ¬ busReads phys w₁.phys pa size = true) :
    ∃ p, mmuRead sr phys f₀ w va size sx = (.fault, 0, ({ w₁ with phys := p } : MmuWorld σ).pend
      (refuseRecord sr.el false false .translationNoWalk (-1) va)) := by
  unfold busReads at hb
  rcases hv : phys.validate w₁.phys pa (BitVec.ofNat 64 size.bytes) permRead with ⟨st, p⟩
  by_cases hst : st = .ok
  · subst hst
    rw [hv] at hb
    dsimp only at hb
    unfold mmuRead mmuReadPhys
    dsimp only
    rw [ht, hal, Bool.false_and]
    dsimp only
    rw [if_neg (by decide), if_neg (by decide), hv]
    dsimp only
    rcases hr : phys.read p pa size false with ⟨st, v, p'⟩
    rw [hr] at hb
    cases st <;> first | exact ⟨_, rfl⟩ | exact absurd rfl hb
  · exact ⟨p, mmuRead_refused f₀ hal sx ht hv hst⟩

theorem mmuWrite_served (f₀ : MmuFault) (hal : misaligned va size = false)
    (ht : translate sr phys w va sr.el true false = (.ok pa, w₁))
    (hb : busWrites phys w₁.phys pa size value = true) :
    ∃ p, mmuWrite sr phys f₀ w va size value = (.ok, { w₁ with phys := p }) := by
  unfold busWrites at hb
  rcases hv : phys.validate w₁.phys pa (BitVec.ofNat 64 size.bytes) permWrite with ⟨st, p⟩
  rw [hv] at hb
  cases st <;> first | cases hb | skip
  dsimp only at hb
  rcases hr : phys.write p pa size value with ⟨st, p'⟩
  rw [hr] at hb
  have hst : st = .ok := eq_of_beq hb
  subst hst
  exact ⟨_, mmuWrite_one f₀ hal value ht hv hr⟩

theorem mmuWrite_denied (f₀ : MmuFault) (hal : misaligned va size = false)
    (ht : translate sr phys w va sr.el true false = (.ok pa, w₁))
    (hb : ¬ busWrites phys w₁.phys pa size value = true) :
    ∃ p, mmuWrite sr phys f₀ w va size value = (.fault, ({ w₁ with phys := p } : MmuWorld σ).pend
      (refuseRecord sr.el false true .translationNoWalk (-1) va)) := by
  unfold busWrites at hb
  rcases hv : phys.validate w₁.phys pa (BitVec.ofNat 64 size.bytes) permWrite with ⟨st, p⟩
  by_cases hst : st = .ok
  · subst hst
    rw [hv] at hb
    dsimp only at hb
    unfold mmuWrite
    dsimp only
    rw [ht, hal, Bool.false_and]
    dsimp only
    rw [if_neg (by decide), if_neg (by decide), hv]
    dsimp only
    rcases hr : phys.write p pa size value with ⟨st, p'⟩
    rw [hr] at hb
    cases st <;> first | exact ⟨_, rfl⟩ | exact absurd rfl hb
  · exact ⟨p, mmuWrite_refused f₀ hal value ht hv hst⟩

end

theorem leaves_fetch (sr : Sysregs) (phys : Memops σ) (f₀ : MmuFault) (w : MmuWorld σ) (va : W64) :
    Leaves sr f₀ true false va (mmuFetch32 sr phys w va).1 w.mmu (mmuFetch32 sr phys w va).2.2.mmu
      (fetchRefusal sr phys w va) := by
  have hpend : SamePending w.mmu (translate sr phys w va sr.el false true).2.mmu :=
    translate_pending sr phys w va sr.el false true
  unfold fetchRefusal
  rcases translate_refused phys w va sr.el false true with ⟨hn, pa, hpa⟩ | ⟨c, l, hs, he⟩
  · rw [hn]
    rcases hr : translate sr phys w va sr.el false true with ⟨t, w'⟩
    rw [hr] at hpa hpend
    dsimp only at hpa hpend
    subst hpa
    show Leaves sr f₀ true false va _ _ _ (if busFetches phys w'.phys pa then none
      else some (.transfer 0 (firstRefused phys w'.phys pa permExec 4)))
    by_cases hb : busFetches phys w'.phys pa = true
    · obtain ⟨word, p, hf⟩ := mmuFetch32_served hr hb
      rw [if_pos hb, hf]
      exact ⟨rfl, hpend⟩
    · obtain ⟨p, hf⟩ := mmuFetch32_denied hr hb
      rw [if_neg hb, hf]
      exact ⟨rfl, rfl, (left_transfer sr f₀ true false va _).symm⟩
  · rw [hs]
    unfold mmuFetch32
    dsimp only
    rcases hr : translate sr phys w va sr.el false true with ⟨t, w'⟩
    rw [hr] at he
    dsimp only at he
    subst he
    exact ⟨rfl, rfl, (left_walk sr f₀ true false va c l).symm⟩

/-- the check loop leaves what refuses the first byte -/
theorem splitCheck_refusal (sr : Sysregs) (phys : Memops σ) (f₀ : MmuFault) (va : W64)
    (isWrite : Bool) (k : Nat) :
    ∀ (i : Nat) (w : MmuWorld σ),
      splitCheck sr phys f₀ va sr.el isWrite k i w =
        ((splitRefusal sr phys va isWrite k i w).1.map (Refusal.left sr f₀ false isWrite va),
          (splitRefusal sr phys va isWrite k i w).2) ∧
      SamePending w.mmu (splitRefusal sr phys va isWrite k i w).2.mmu := by
  induction k with
  | zero =>
    intro i w
    exact ⟨rfl, rfl, rfl⟩
  | succ k ih =>
    intro i w
    have hpend : SamePending w.mmu
        (translate sr phys w (va + BitVec.ofNat 64 i) sr.el isWrite false).2.mmu :=
      translate_pending sr phys w (va + BitVec.ofNat 64 i) sr.el isWrite false
    unfold splitRefusal
    dsimp only
    rcases translate_refused phys w (va + BitVec.ofNat 64 i) sr.el isWrite false with
      ⟨hn, pa, hpa⟩ | ⟨c, l, hs, he⟩
    · rw [hn]
      rcases hr : translate sr phys w (va + BitVec.ofNat 64 i) sr.el isWrite false with ⟨t, w'⟩
      rw [hr] at hpa hpend
      dsimp only at hpa hpend
      subst hpa
      dsimp only [outAddr]
      rcases hv : phys.validate w'.phys pa 1 (accessPerm isWrite) with ⟨st, p⟩
      by_cases hst : st = .ok
      · subst hst
        rw [splitCheck_next hr hv]
        obtain ⟨h1, h2⟩ := ih (i + 1) { w' with phys := p }
        exact ⟨h1, hpend.trans h2⟩
      · rw [splitCheck_refused hr hv hst]
        cases st <;> first | exact absurd rfl hst | exact ⟨rfl, hpend⟩
    · rw [hs]
      rcases hr : translate sr phys w (va + BitVec.ofNat 64 i) sr.el isWrite false with ⟨t, w'⟩
      rw [hr] at he hpend
      dsimp only at he hpend
      subst he
      rw [splitCheck_fault hr]
      exact ⟨rfl, hpend⟩

theorem splitRead_stop (sr : Sysregs) (phys : Memops σ) (va : W64) (k : Nat) :
    ∀ (i : Nat) (value : W64) (w : MmuWorld σ),
      ((splitRead sr phys va sr.el k i value w).1 = none ↔
        (readStop sr phys va k i w).isSome = true) ∧
      SamePending w.mmu (splitRead sr phys va sr.el k i value w).2.mmu := by
  induction k with
  | zero =>
    intro i value w
    refine ⟨⟨fun h => ?_, fun h => ?_⟩, rfl, rfl⟩
    · cases h
    · cases h
  | succ k ih =>
    intro i value w
    have hpend : SamePending w.mmu
        (translate sr phys w (va + BitVec.ofNat 64 i) sr.el false false).2.mmu :=
      translate_pending sr phys w (va + BitVec.ofNat 64 i) sr.el false false
    unfold splitRead readStop
    rcases hr : translate sr phys w (va + BitVec.ofNat 64 i) sr.el false false with ⟨t, w'⟩
    rw [hr] at hpend
    dsimp only at hpend ⊢
    rcases phys.read w'.phys (outAddr t) .byte false with ⟨st, byte, p⟩
    by_cases hst : st = .ok
    · subst hst
      obtain ⟨h1, h2⟩ := ih (i + 1) (value ||| ((byte &&& 0xFF) <<< (i * 8))) { w' with phys := p }
      exact ⟨h1, hpend.trans h2⟩
    · cases st <;>
        first | exact absurd rfl hst | exact ⟨⟨fun _ => rfl, fun _ => rfl⟩, hpend⟩

theorem splitWrite_stop (sr : Sysregs) (phys : Memops σ) (va value : W64) (k : Nat) :
    ∀ (i : Nat) (w : MmuWorld σ),
      ((splitWrite sr phys va sr.el value k i w).1 = false ↔
        (writeStop sr phys va value k i w).isSome = true) ∧
      SamePending w.mmu (splitWrite sr phys va sr.el value k i w).2.mmu := by
  induction k with
  | zero =>
    intro i w
    refine ⟨⟨fun h => ?_, fun h => ?_⟩, rfl, rfl⟩
    · cases h
    · cases h
  | succ k ih =>
    intro i w
    have hpend : SamePending w.mmu
        (translate sr phys w (va + BitVec.ofNat 64 i) sr.el true false).2.mmu :=
      translate_pending sr phys w (va + BitVec.ofNat 64 i) sr.el true false
    unfold splitWrite writeStop
    rcases hr : translate sr phys w (va + BitVec.ofNat 64 i) sr.el true false with ⟨t, w'⟩
    rw [hr] at hpend
    dsimp only at hpend ⊢
    rcases phys.write w'.phys (outAddr t) .byte ((value >>> (i * 8)) &&& 0xFF) with ⟨st, p⟩
    by_cases hst : st = .ok
    · subst hst
      obtain ⟨h1, h2⟩ := ih (i + 1) { w' with phys := p }
      exact ⟨h1, hpend.trans h2⟩
    · cases st <;>
        first | exact absurd rfl hst | exact ⟨⟨fun _ => rfl, fun _ => rfl⟩, hpend⟩

theorem left_policy (sr : Sysregs) (f₀ : MmuFault) (isWrite : Bool) (va : W64) :
    Refusal.policy.left sr f₀ false isWrite va =
      refuseRecord sr.el false isWrite .alignment (-1) va := rfl

theorem leaves_read (sr : Sysregs) (phys : Memops σ) (f₀ : MmuFault) (w : MmuWorld σ) (va : W64)
    (size : MemSize) (sx : Bool) :
    Leaves sr f₀ false false va (mmuRead sr phys f₀ w va size sx).1 w.mmu
      (mmuRead sr phys f₀ w va size sx).2.2.mmu (readRefusal sr phys w va size) := by
  have hpend : SamePending w.mmu (translate sr phys w va sr.el false false).2.mmu :=
    translate_pending sr phys w va sr.el false false
  unfold readRefusal
  dsimp only
  rcases translate_refused phys w va sr.el false false with ⟨hn, pa, hpa⟩ | ⟨c, l, hs, he⟩
  · rw [hn]
    rcases hr : translate sr phys w va sr.el false false with ⟨t, w'⟩
    rw [hr] at hpa hpend
    dsimp only at hpa hpend
    subst hpa
    show Leaves sr f₀ false false va _ _ _
      (if misaligned va size && alignmentRequired sr (sr.el == .el0) then some .policy
      else if misaligned va size then
        (splitRefusal sr phys va false size.bytes 0 w').1.or
          ((readStop sr phys va size.bytes 0 (splitRefusal sr phys va false size.bytes 0 w').2).map
            fun i => .transfer 0 (BitVec.ofNat 64 i))
      else if busReads phys w'.phys pa size then none
      else some (.transfer 0 (firstRefused phys w'.phys pa permRead size.bytes)))
    by_cases hpol : (misaligned va size && alignmentRequired sr (sr.el == .el0)) = true
    · rw [if_pos hpol]
      unfold mmuRead
      dsimp only
      rw [hr]
      dsimp only
      rw [if_pos hpol]
      exact ⟨rfl, rfl, (left_policy sr f₀ false va).symm⟩
    · rw [if_neg hpol]
      by_cases hmis : misaligned va size = true
      · rw [if_pos hmis]
        obtain ⟨hcheck, hsame⟩ := splitCheck_refusal sr phys f₀ va false size.bytes 0 w'
        rcases hsr : splitRefusal sr phys va false size.bytes 0 w' with ⟨r, w₁⟩
        rw [hsr] at hcheck hsame
        unfold mmuRead
        dsimp only
        rw [hr]
        dsimp only
        rw [if_neg hpol]
        unfold mmuReadPhys
        dsimp only
        rw [if_pos hmis, hcheck]
        cases r with
        | some r => exact ⟨rfl, rfl, rfl⟩
        | none =>
          rw [Option.map_none, Option.none_or]
          dsimp only
          obtain ⟨hstop, hsame'⟩ := splitRead_stop sr phys va size.bytes 0 0 w₁
          rcases hsp : splitRead sr phys va sr.el size.bytes 0 0 w₁ with ⟨v, w₂⟩
          rw [hsp] at hstop hsame'
          dsimp only at hstop hsame'
          cases hst : readStop sr phys va size.bytes 0 w₁ with
          | none =>
            rw [hst] at hstop
            cases v with
            | none => exact absurd (hstop.mp rfl) (by decide)
            | some v => exact ⟨rfl, (hpend.trans hsame).trans hsame'⟩
          | some i =>
            rw [hst] at hstop
            cases v with
            | none => exact ⟨rfl, rfl, (left_transfer sr f₀ false false va _).symm⟩
            | some v => exact absurd (hstop.mpr rfl) (by simp)
      · rw [if_neg hmis]
        have hal : misaligned va size = false := Bool.eq_false_iff.mpr hmis
        by_cases hb : busReads phys w'.phys pa size = true
        · obtain ⟨v, p, hf⟩ := mmuRead_served f₀ hal sx hr hb
          rw [if_pos hb, hf]
          exact ⟨rfl, hpend⟩
        · obtain ⟨p, hf⟩ := mmuRead_denied f₀ hal sx hr hb
          rw [if_neg hb, hf]
          exact ⟨rfl, rfl, (left_transfer sr f₀ false false va _).symm⟩
  · rw [hs]
    unfold mmuRead
    dsimp only
    rcases hr : translate sr phys w va sr.el false false with ⟨t, w'⟩
    rw [hr] at he
    dsimp only at he
    subst he
    exact ⟨rfl, rfl, (left_walk sr f₀ false false va c l).symm⟩

theorem leaves_write (sr : Sysregs) (phys : Memops σ) (f₀ : MmuFault) (w : MmuWorld σ) (va : W64)
    (size : MemSize) (value : W64) :
    Leaves sr f₀ false true va (mmuWrite sr phys f₀ w va size value).1 w.mmu
      (mmuWrite sr phys f₀ w va size value).2.mmu (writeRefusal sr phys w va size value) := by
  have hpend : SamePending w.mmu (translate sr phys w va sr.el true false).2.mmu :=
    translate_pending sr phys w va sr.el true false
  unfold writeRefusal
  dsimp only
  rcases translate_refused phys w va sr.el true false with ⟨hn, pa, hpa⟩ | ⟨c, l, hs, he⟩
  · rw [hn]
    rcases hr : translate sr phys w va sr.el true false with ⟨t, w'⟩
    rw [hr] at hpa hpend
    dsimp only at hpa hpend
    subst hpa
    show Leaves sr f₀ false true va _ _ _
      (if misaligned va size && alignmentRequired sr (sr.el == .el0) then some .policy
      else if misaligned va size then
        (splitRefusal sr phys va true size.bytes 0 w').1.or
          ((writeStop sr phys va value size.bytes 0
            (splitRefusal sr phys va true size.bytes 0 w').2).map fun i => .transfer 0 (BitVec.ofNat 64 i))
      else if busWrites phys w'.phys pa size value then none
      else some (.transfer 0 (firstRefused phys w'.phys pa permWrite size.bytes)))
    by_cases hpol : (misaligned va size && alignmentRequired sr (sr.el == .el0)) = true
    · rw [if_pos hpol]
      unfold mmuWrite
      dsimp only
      rw [hr]
      dsimp only
      rw [if_pos hpol]
      exact ⟨rfl, rfl, (left_policy sr f₀ true va).symm⟩
    · rw [if_neg hpol]
      by_cases hmis : misaligned va size = true
      · rw [if_pos hmis]
        obtain ⟨hcheck, hsame⟩ := splitCheck_refusal sr phys f₀ va true size.bytes 0 w'
        rcases hsr : splitRefusal sr phys va true size.bytes 0 w' with ⟨r, w₁⟩
        rw [hsr] at hcheck hsame
        unfold mmuWrite
        dsimp only
        rw [hr]
        dsimp only
        rw [if_neg hpol, if_pos hmis, hcheck]
        cases r with
        | some r => exact ⟨rfl, rfl, rfl⟩
        | none =>
          rw [Option.map_none, Option.none_or]
          dsimp only
          obtain ⟨hstop, hsame'⟩ := splitWrite_stop sr phys va value size.bytes 0 w₁
          rcases hsp : splitWrite sr phys va sr.el value size.bytes 0 w₁ with ⟨b, w₂⟩
          rw [hsp] at hstop hsame'
          dsimp only at hstop hsame'
          cases hst : writeStop sr phys va value size.bytes 0 w₁ with
          | none =>
            rw [hst] at hstop
            cases b with
            | false => exact absurd (hstop.mp rfl) (by decide)
            | true => exact ⟨rfl, (hpend.trans hsame).trans hsame'⟩
          | some i =>
            rw [hst] at hstop
            cases b with
            | false => exact ⟨rfl, rfl, (left_transfer sr f₀ false true va _).symm⟩
            | true => exact absurd (hstop.mpr rfl) (by decide)
      · rw [if_neg hmis]
        have hal : misaligned va size = false := Bool.eq_false_iff.mpr hmis
        by_cases hb : busWrites phys w'.phys pa size value = true
        · obtain ⟨p, hf⟩ := mmuWrite_served f₀ hal hr hb
          rw [if_pos hb, hf]
          exact ⟨rfl, hpend⟩
        · obtain ⟨p, hf⟩ := mmuWrite_denied f₀ hal hr hb
          rw [if_neg hb, hf]
          exact ⟨rfl, rfl, (left_transfer sr f₀ false true va _).symm⟩
  · rw [hs]
    unfold mmuWrite
    dsimp only
    rcases hr : translate sr phys w va sr.el true false with ⟨t, w'⟩
    rw [hr] at he
    dsimp only at he
    subst he
    exact ⟨rfl, rfl, (left_walk sr f₀ false true va c l).symm⟩

theorem leaves_probe (sr : Sysregs) (phys : Memops σ) (f₀ : MmuFault) (va size : W64) (perms : W32)
    (fuel : Nat) :
    ∀ (off : W64) (w : MmuWorld σ),
      Leaves sr f₀ (perms.getLsbD 2) (perms.getLsbD 1) va
        (validateLoop sr phys va size perms fuel off w).1 w.mmu
        (validateLoop sr phys va size perms fuel off w).2.mmu
        (probeRefusal sr phys va size perms fuel off w) := by
  induction fuel with
  | zero =>
    intro off w
    exact ⟨rfl, rfl, rfl⟩
  | succ fuel ih =>
    intro off w
    unfold validateLoop probeRefusal
    by_cases hlt : off < size
    · rw [if_pos hlt, if_pos hlt]
      have hpend : SamePending w.mmu (translate sr phys w (va + off) sr.el (perms.getLsbD 1)
          (perms.getLsbD 2)).2.mmu :=
        translate_pending sr phys w (va + off) sr.el (perms.getLsbD 1) (perms.getLsbD 2)
      dsimp only
      have hfold : (if 4096 - ((va + off) &&& pageMask) ≤ size - off then
          4096 - ((va + off) &&& pageMask) else size - off) = pageChunk va size off := rfl
      rw [hfold]
      rcases translate_refused phys w (va + off) sr.el (perms.getLsbD 1) (perms.getLsbD 2) with
        ⟨hn, pa, hpa⟩ | ⟨c, l, hs, he⟩
      · rw [hn]
        rcases hr : translate sr phys w (va + off) sr.el (perms.getLsbD 1) (perms.getLsbD 2)
          with ⟨t, w'⟩
        rw [hr] at hpa hpend
        dsimp only at hpa hpend
        subst hpa
        dsimp only [outAddr]
        rcases phys.validate w'.phys pa (pageChunk va size off) perms with ⟨st, p⟩
        by_cases hst : st = .ok
        · subst hst
          have hrest := ih (off + pageChunk va size off) { w' with phys := p }
          dsimp only
          cases hq : probeRefusal sr phys va size perms fuel (off + pageChunk va size off)
              { w' with phys := p } with
          | none =>
            rw [hq] at hrest
            exact ⟨hrest.1, hpend.trans hrest.2⟩
          | some r =>
            rw [hq] at hrest
            exact hrest
        · cases st <;> first | exact absurd rfl hst | exact ⟨rfl, rfl, rfl⟩
      · rw [hs]
        rcases hr : translate sr phys w (va + off) sr.el (perms.getLsbD 1) (perms.getLsbD 2)
          with ⟨t, w'⟩
        rw [hr] at he
        dsimp only at he
        subst he
        exact ⟨rfl, rfl, rfl⟩
    · rw [if_neg hlt, if_neg hlt]
      exact ⟨rfl, rfl, rfl⟩

/-- **what an access leaves**: its status and the pending record, from what refuses it -/
theorem leaves_op (sr : Sysregs) (phys : Memops σ) (f₀ : MmuFault) (w : MmuWorld σ) (op : BusOp) :
    Leaves sr f₀ op.fetches op.writes op.addr (op.run (mmuMemops sr phys f₀) w).1 w.mmu
      (op.run (mmuMemops sr phys f₀) w).2.2.mmu (refusal sr phys w op) := by
  cases op with
  | fetch32 va => exact leaves_fetch sr phys f₀ w va
  | read va size sx => exact leaves_read sr phys f₀ w va size sx
  | write va size value => exact leaves_write sr phys f₀ w va size value
  | validate va size perms => exact leaves_probe sr phys f₀ va size perms size.toNat 0 w

end Oemu
