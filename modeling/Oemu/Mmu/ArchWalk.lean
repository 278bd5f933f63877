import Oemu.Mmu.TcrAttr

/-!
# The architecture's walk

The VMSAv8-64 stage-1 walk for the 4 KiB granule, in the scope the layer documents: EL1&0 regime,
36-bit output that `TCR_EL1.IPS` may only shrink, no hardware access flag, the fault address without
its tag.  A table read that the bus refuses is an abort of the bus and no business of the tables; it
is recorded the way the layer documents, without a level.

* `archWalk`               the specification;
* `permits_eq_iff`         the permission table of the layer is the architecture's off execution;
* `walkTable_archDescend`  the descent of the layer is that one off the reserved page type;
* `walkTable_reserved`     and never is on it.
-/

namespace Oemu

/-! ## the specification -/

/-- top-byte-ignore: `TBI1` is bit 38, `TBI0` bit 37 -/
def archTbi (tcr : W64) (ttbr1 : Bool) : Bool := if ttbr1 then tcr.getLsbD 38 else tcr.getLsbD 37

/-- `IPS`, bits 34:32 -/
def archIps (tcr : W64) : Nat := (tcr.toNat >>> 32) % 8

/-- 32 bits for `IPS = 0`, else the 36 bits that are implemented -/
def archOutBits (tcr : W64) : Nat := if archIps tcr = 0 then 32 else 36

/-- the address without its tag -/
def archVa (tcr va : W64) : W64 := if archTbi tcr (va.getLsbD 55) then stripTag va else va

/-- all bits from the input size up to the top of the address equal bit 55 -/
def ArchInRegion (va : W64) (inputsize addrsize : Nat) : Prop :=
  ∀ i < 64, inputsize ≤ i → i < addrsize → va.getLsbD i = va.getLsbD 55

instance (va : W64) (n a : Nat) : Decidable (ArchInRegion va n a) :=
  inferInstanceAs (Decidable (∀ i < 64, _ → _ → _))

/-- as few levels as resolve the bits above the page offset, nine at a time -/
def archStartLevel (inputsize : Nat) : Nat := 4 - (inputsize - 12 + 8) / 9

/-- the lowest address bit a level resolves -/
def archShift (level : Nat) : Nat := 39 - 9 * level

/-- bits `inputsize-1` down to the shift, times the entry size -/
def archStartIndex (va : W64) (inputsize level : Nat) : W64 :=
  ((va &&& (((1 : W64) <<< inputsize) - 1)) >>> archShift level) <<< 3

/-- nine bits from the shift up, times the entry size -/
def archIndex (va : W64) (level : Nat) : W64 := ((va >>> archShift level) &&& 0x1FF) <<< 3

/-- log2 of the size of the start table -/
def archTableBits (inputsize level : Nat) : Nat := inputsize - archShift level + 3

/-- bits 47 down to the size of the start table -/
def archTtbrBase (ttbr : W64) (x : Nat) : W64 :=
  (ttbr &&& (((1 : W64) <<< 48) - 1)) &&& ~~~(((1 : W64) <<< x) - 1)

inductive DescKind where
  | invalid | table | leaf
deriving DecidableEq

/-- type `0b11` is a table at levels 0-2 and a page at level 3, type `0b01` a block at levels 1-2
and reserved elsewhere -/
def kindOf (level : Nat) (bit0 bit1 : Bool) : DescKind :=
  if !bit0 then .invalid
  else if bit1 then (if level = 3 then .leaf else .table)
  else if level = 1 ∨ level = 2 then .leaf
  else .invalid

def descKind (level : Nat) (raw : W64) : DescKind := kindOf level (raw.getLsbD 0) (raw.getLsbD 1)

/-- what the table descriptors on the way down forbid -/
structure Hier where
  apt0 : Bool
  apt1 : Bool
  xnt : Bool
  pxnt : Bool
deriving DecidableEq

def Hier.none : Hier := ⟨false, false, false, false⟩

/-- the constraints accumulate -/
def Hier.add (h : Hier) (raw : W64) : Hier :=
  ⟨h.apt0 || raw.getLsbD 61, h.apt1 || raw.getLsbD 62, h.xnt || raw.getLsbD 60,
    h.pxnt || raw.getLsbD 59⟩

/-- the output address of a leaf: its base joined with the untranslated bits -/
def archOutput (va : W64) (level : Nat) (raw : W64) : W64 :=
  (raw &&& descAddrMask &&& ~~~(((1 : W64) <<< archShift level) - 1)) |||
    (va &&& (((1 : W64) <<< archShift level) - 1))

/-- address size before access flag; `AP` after the table constraints -/
def archLeaf (va : W64) (out level : Nat) (h : Hier) (raw : W64) : Except WalkFault Leaf :=
  if archOutput va level raw >>> out ≠ 0 then .error ⟨.addressSize, level, va⟩
  else if !raw.getLsbD 10 then .error ⟨.accessFlag, level, va⟩
  else
    .ok ⟨archOutput va level raw, level,
      apBits (raw.getLsbD 7 || h.apt1) (raw.getLsbD 6 && !h.apt0),
      raw.getLsbD 54 || h.xnt, raw.getLsbD 53 || h.pxnt, raw.getLsbD 11⟩

variable {σ : Type}

/-- the descent from the entry at an address, with `rem` levels below it -/
def archDescend (phys : Memops σ) (va : W64) (out : Nat) :
    Nat → W64 → Hier → σ → Except WalkFault Leaf × σ
  | 0, entry, h, p =>
    match phys.read p entry .dword false with
    | (.ok, raw, p) =>
      match descKind 3 raw with
      | .leaf => (archLeaf va out 3 h raw, p)
      | _ => (.error ⟨.translation, 3, va⟩, p)
    | (_, _, p) => (.error ⟨.translationNoWalk, -1, va⟩, p)
  | rem + 1, entry, h, p =>
    let level := 2 - rem
    match phys.read p entry .dword false with
    | (.ok, raw, p) =>
      match descKind level raw with
      | .table =>
        if (raw &&& descAddrMask) >>> out ≠ 0 then (.error ⟨.addressSize, level, va⟩, p)
        else
          archDescend phys va out rem ((raw &&& descAddrMask) ||| archIndex va (3 - rem)) (h.add raw)
            p
      | .leaf => (archLeaf va out level h raw, p)
      | .invalid => (.error ⟨.translation, level, va⟩, p)
    | (_, _, p) => (.error ⟨.translationNoWalk, -1, va⟩, p)

/-- the descent ends at level 3 on a descriptor of the reserved type `0b01` -/
def ReachesReserved (phys : Memops σ) (va : W64) (out : Nat) : Nat → W64 → σ → Prop
  | 0, entry, p =>
    match phys.read p entry .dword false with
    | (.ok, raw, _) => raw.getLsbD 0 = true ∧ raw.getLsbD 1 = false
    | _ => False
  | rem + 1, entry, p =>
    match phys.read p entry .dword false with
    | (.ok, raw, p) =>
      descKind (2 - rem) raw = .table ∧ (raw &&& descAddrMask) >>> out = 0 ∧
        ReachesReserved phys va out rem ((raw &&& descAddrMask) ||| archIndex va (3 - rem)) p
    | _ => False

/-- the region admits the address and its walks are enabled -/
def ArchGo (tcr va : W64) : Prop :=
  ArchInRegion (archVa tcr va) (64 - regionTsz tcr (va.getLsbD 55))
      (addrSize (archTbi tcr (va.getLsbD 55))) ∧
    regionEpd tcr (va.getLsbD 55) = false

/-- the base and the first entry of a walk -/
def archBase (sr : Sysregs) (va : W64) : W64 :=
  let n := 64 - regionTsz (sr.val .tcrEl1) (va.getLsbD 55)
  archTtbrBase (regionTtbr sr (va.getLsbD 55)) (archTableBits n (archStartLevel n))

def archEntry (sr : Sysregs) (va : W64) : W64 :=
  let n := 64 - regionTsz (sr.val .tcrEl1) (va.getLsbD 55)
  archBase sr va ||| archStartIndex (archVa (sr.val .tcrEl1) va) n (archStartLevel n)

/-- an address outside its region, a region without walks and a table base beyond the output range
all fault at level 0 -/
def archStage1 (sr : Sysregs) (phys : Memops σ) (va : W64) (p : σ) : Except WalkFault Leaf × σ :=
  let tcr := sr.val .tcrEl1
  let ttbr1 := va.getLsbD 55
  let tva := archVa tcr va
  let inputsize := 64 - regionTsz tcr ttbr1
  let level := archStartLevel inputsize
  if ¬ ArchInRegion tva inputsize (addrSize (archTbi tcr ttbr1)) then
    (.error ⟨.translation, 0, tva⟩, p)
  else if regionEpd tcr ttbr1 then (.error ⟨.translation, 0, tva⟩, p)
  else if archBase sr va >>> archOutBits tcr ≠ 0 then (.error ⟨.addressSize, 0, tva⟩, p)
  else archDescend phys tva (archOutBits tcr) (3 - level) (archEntry sr va) .none p

/-- the walk ends on a reserved descriptor at level 3 -/
def ReservedPage (sr : Sysregs) (phys : Memops σ) (va : W64) (p : σ) : Prop :=
  let tcr := sr.val .tcrEl1
  ArchGo tcr va ∧ archBase sr va >>> archOutBits tcr = 0 ∧
    ReachesReserved phys (archVa tcr va) (archOutBits tcr)
      (3 - archStartLevel (64 - regionTsz tcr (va.getLsbD 55))) (archEntry sr va) p

/-- `WXN`, bit 19: a writable location is not executable -/
def archWxn (sctlr : W64) : Bool := sctlr.getLsbD 19

/-- what a leaf lets a level do -/
structure Rights where
  read : Bool
  write : Bool
  execute : Bool
deriving DecidableEq

/-- `AP[1]` opens a leaf to EL0 and `AP[2]` closes it to writes; `UXN` and `PXN` forbid execution at
EL0 and at EL1, where what EL0 may write is never executed, and `WXN` forbids it wherever the level
may write.  Execution needs no right to read. -/
def archRights (sctlr : W64) (el0 : Bool) (l : Leaf) : Rights :=
  let user := l.ap.getLsbD 0
  let ro := l.ap.getLsbD 1
  let write := (user || !el0) && !ro
  let never := if el0 then l.xn else l.pxn || (user && !ro)
  ⟨user || !el0, write, !never && !(archWxn sctlr && write)⟩

def Rights.allows (r : Rights) (isWrite isFetch : Bool) : Bool :=
  if isFetch then r.execute else if isWrite then r.write else r.read

/-- the whole walk: an output address or a fault with its class, level and address -/
def archWalk (sr : Sysregs) (phys : Memops σ) (va : W64) (cur : El) (isWrite isFetch : Bool)
    (p : σ) : Except WalkFault W64 :=
  match (archStage1 sr phys va p).1 with
  | .error f => .error f
  | .ok l =>
    if (archRights (sr.val .sctlrEl1) (cur == .el0) l).allows isWrite isFetch then .ok l.pa
    else .error ⟨.permission, l.level, archVa (sr.val .tcrEl1) va⟩

/-- the layer decides the execution of a leaf otherwise: at EL0 that of one EL0 cannot read, at EL1
that of one EL0 can write, and at both that of a writable one under `WXN` -/
def ExecutesOtherwise (sctlr : W64) (el0 : Bool) (l : Leaf) : Prop :=
  if el0 then
    l.xn = false ∧ (l.ap.getLsbD 0 = false ∨ (l.ap.getLsbD 1 = false ∧ archWxn sctlr = true))
  else
    l.pxn = false ∧ l.ap.getLsbD 1 = false ∧ (l.ap.getLsbD 0 = true ∨ archWxn sctlr = true)

/-- the walk ends on such a leaf -/
def ExecutePage (sr : Sysregs) (phys : Memops σ) (va : W64) (cur : El) (p : σ) : Prop :=
  ∃ l, (archStage1 sr phys va p).1 = .ok l ∧
    ExecutesOtherwise (sr.val .sctlrEl1) (cur == .el0) l

/-- the walk's result as an address or a fault -/
def WalkResult.outcome : WalkResult → Except WalkFault W64
  | .identity pa => .ok pa
  | .leaf l => .ok l.pa
  | .fault f => .error f

/-! ## permissions -/

/-- the layer's permission table is the architecture's for reads and writes, and for the execution of
the other leaves -/
theorem permits_eq_iff (sctlr : W64) (el0 isWrite isFetch : Bool) (l : Leaf) :
    permits l.ap l.xn l.pxn el0 isWrite isFetch =
        (archRights sctlr el0 l).allows isWrite isFetch ↔
      ¬ (isFetch = true ∧ ExecutesOtherwise sctlr el0 l) := by
  unfold permits archRights Rights.allows ExecutesOtherwise
  generalize l.ap.getLsbD 0 = user
  generalize l.ap.getLsbD 1 = ro
  generalize archWxn sctlr = wxn
  cases isFetch with
  | false => cases el0 <;> cases user <;> simp
  | true =>
    cases el0 with
    | true => cases user <;> cases ro <;> cases wxn <;> cases l.xn <;> simp
    | false => cases user <;> cases ro <;> cases wxn <;> cases l.pxn <;> simp

/-- EL1 fetches from a page EL0 may write -/
example :
    permits (apBits false true) false false false false true = true ∧
      (archRights 0 false ⟨0, 3, apBits false true, false, false, false⟩).execute = false := by
  decide

/-! ## one descriptor -/

theorem and_three_eq (raw : W64) :
    (raw &&& 3 == 3) = (raw.getLsbD 0 && raw.getLsbD 1) ∧
    (raw &&& 3 == 1) = (raw.getLsbD 0 && !raw.getLsbD 1) := by
  have e : raw &&& 3 = (raw.setWidth 2).setWidth 64 := by
    apply BitVec.eq_of_getLsbD_eq
    intro i hi
    have h3 : (3 : W64) = ((1 : W64) <<< 2) - 1 := by decide
    rw [h3, BitVec.getLsbD_and, getLsbD_ones (by decide) hi]
    simp only [BitVec.getLsbD_setWidth, hi, decide_true, Bool.true_and]
    exact Bool.and_comm _ _
  have h0 : raw.getLsbD 0 = (raw.setWidth 2).getLsbD 0 := by simp
  have h1 : raw.getLsbD 1 = (raw.setWidth 2).getLsbD 1 := by simp
  rw [e, h0, h1]
  generalize raw.setWidth 2 = b
  revert b
  decide

theorem levelShift_eq {level : Nat} (h : level ≤ 3) : levelShift level = archShift level := by
  unfold levelShift archShift
  omega

/-- the accumulated attribute bits and the accumulated constraints -/
def HierSim (tattrs : BitVec 5) (h : Hier) : Prop :=
  tattrs.getLsbD 0 = h.pxnt ∧ tattrs.getLsbD 1 = h.xnt ∧ tattrs.getLsbD 2 = h.apt0 ∧
    tattrs.getLsbD 3 = h.apt1

theorem getLsbD_tableAttrs (raw : W64) {k : Nat} (hk : k < 5) :
    (tableAttrs raw).getLsbD k = raw.getLsbD (59 + k) := by
  unfold tableAttrs
  rw [BitVec.getLsbD_extractLsb', decide_eq_true hk, Bool.true_and]

theorem HierSim.add {tattrs : BitVec 5} {h : Hier} (hs : HierSim tattrs h) (raw : W64) :
    HierSim (tattrs ||| tableAttrs raw) (h.add raw) := by
  obtain ⟨h0, h1, h2, h3⟩ := hs
  refine ⟨?_, ?_, ?_, ?_⟩
  · rw [BitVec.getLsbD_or, h0, getLsbD_tableAttrs raw (by decide)]
    rfl
  · rw [BitVec.getLsbD_or, h1, getLsbD_tableAttrs raw (by decide)]
    rfl
  · rw [BitVec.getLsbD_or, h2, getLsbD_tableAttrs raw (by decide)]
    rfl
  · rw [BitVec.getLsbD_or, h3, getLsbD_tableAttrs raw (by decide)]
    rfl

theorem merge_ap (ap2 ap1 apt0 apt1 : Bool) :
    (if apt1 then (if apt0 then apBits ap2 ap1 &&& 2 else apBits ap2 ap1) ||| 2
      else (if apt0 then apBits ap2 ap1 &&& 2 else apBits ap2 ap1)) =
      apBits (ap2 || apt1) (ap1 && !apt0) := by
  cases ap2 <;> cases ap1 <;> cases apt0 <;> cases apt1 <;> decide

theorem kindOf_leaf {level : Nat} {b0 b1 : Bool} (h : kindOf level b0 b1 = .leaf) :
    b0 = true ∧ level ≠ 0 := by
  unfold kindOf at h
  cases b0 with
  | false => cases h
  | true =>
    refine ⟨rfl, ?_⟩
    rintro rfl
    cases b1 <;> cases h

theorem kindOf_invalid {level : Nat} {b0 b1 : Bool} (h : kindOf level b0 b1 = .invalid)
    (hl : level ≤ 3) (hr : ¬ (level = 3 ∧ b0 = true ∧ b1 = false)) :
    b0 = false ∨ (b1 = false ∧ level = 0) := by
  unfold kindOf at h
  cases b0 with
  | false => exact .inl rfl
  | true =>
    cases b1 with
    | true => by_cases h3 : level = 3 <;> simp [h3] at h
    | false =>
      refine .inr ⟨rfl, ?_⟩
      by_contra h0
      have h12 : level = 1 ∨ level = 2 := by
        by_contra hn
        exact hr ⟨by omega, rfl, rfl⟩
      simp [h12] at h

theorem kindOf_table {level : Nat} (hl : level < 3) (b0 b1 : Bool) :
    kindOf level b0 b1 = .table ↔ (b0 && b1) = true := by
  unfold kindOf
  have h3 : level ≠ 3 := by omega
  cases b0 <;> cases b1 <;> simp [h3]
  split <;> simp

theorem walkLeaf_leaf {va : W64} {out level : Nat} {tattrs : BitVec 5} {h : Hier} {raw : W64}
    (hs : HierSim tattrs h) (hl : level ≤ 3) (hk : descKind level raw = .leaf) :
    walkLeaf va out level tattrs raw = archLeaf va out level h raw := by
  obtain ⟨ht, hb⟩ := and_three_eq raw
  obtain ⟨h0, h1, h2, h3⟩ := hs
  obtain ⟨hv, hl0⟩ := kindOf_leaf hk
  have hor : (raw.getLsbD 1 || !raw.getLsbD 1) = true := Bool.or_not_self _
  unfold walkLeaf archLeaf archOutput
  simp only [decodeDesc, ht, hb, hv, hl0, Bool.not_true, Bool.true_and, hor, Bool.false_eq_true,
    if_false, levelShift_eq hl, h0, h1, h2, h3, merge_ap]

theorem walkLeaf_invalid {va : W64} {out level : Nat} {tattrs : BitVec 5} {raw : W64}
    (hk : descKind level raw = .invalid)
    (hr : ¬ (level = 3 ∧ raw.getLsbD 0 = true ∧ raw.getLsbD 1 = false)) (hl : level ≤ 3) :
    walkLeaf va out level tattrs raw = .error ⟨.translation, level, va⟩ := by
  obtain ⟨ht, hb⟩ := and_three_eq raw
  unfold walkLeaf
  simp only [decodeDesc, ht, hb]
  rcases kindOf_invalid hk hl hr with hv | ⟨h1, hl0⟩
  · simp only [hv, Bool.not_false, if_true]
  · subst hl0
    cases hv : raw.getLsbD 0 with
    | false => simp only [Bool.not_false, if_true]
    | true =>
      simp only [h1, Bool.not_true, Bool.not_false, Bool.and_true, Bool.and_false, Bool.or_true,
        Bool.false_eq_true, if_false, if_true]
      rfl

/-- a reserved page descriptor is never answered as a translation fault -/
theorem walkLeaf_reserved {va : W64} {out : Nat} {tattrs : BitVec 5} {raw : W64} {f : WalkFault}
    (h0 : raw.getLsbD 0 = true) (h1 : raw.getLsbD 1 = false)
    (h : walkLeaf va out 3 tattrs raw = .error f) : f.cls ≠ .translation := by
  obtain ⟨ht, hb⟩ := and_three_eq raw
  unfold walkLeaf at h
  simp only [decodeDesc, ht, hb, h0, h1, Bool.not_true, Bool.not_false, Bool.and_false,
    Bool.and_true, Bool.or_true, Bool.false_eq_true, if_false] at h
  split at h
  · rename_i h3
    cases h3
  · split at h
    · cases h
      exact FaultClass.noConfusion
    · split at h
      · cases h
        exact FaultClass.noConfusion
      · cases h

theorem descKind_table {level : Nat} (raw : W64) (hl : level < 3) :
    descKind level raw = .table ↔ (decodeDesc raw).table = true := by
  have h := kindOf_table hl (raw.getLsbD 0) (raw.getLsbD 1)
  rwa [← (and_three_eq raw).1] at h

theorem address_page (raw : W64) : (raw &&& descAddrMask) &&& ~~~pageMask = raw &&& descAddrMask := by
  rw [BitVec.and_assoc]
  congr 1

/-! ## the descent -/

theorem tableIndex_eq (va : W64) {level : Nat} (hl : level ≤ 3) :
    tableIndex va level = archIndex va level := by
  unfold tableIndex archIndex
  rw [levelShift_eq hl]

/-- off the reserved page type the two descents agree -/
theorem walkTable_archDescend (phys : Memops σ) (va : W64) (out rem : Nat) (hrem : rem ≤ 3) :
    ∀ (base : W64) (tattrs : BitVec 5) (h : Hier) (p : σ), HierSim tattrs h →
      ¬ ReachesReserved phys va out rem (base ||| tableIndex va (3 - rem)) p →
      walkTable phys va out rem base tattrs p =
        archDescend phys va out rem (base ||| tableIndex va (3 - rem)) h p := by
  induction rem with
  | zero =>
    intro base tattrs h p hs hr
    rw [Nat.sub_zero] at hr ⊢
    unfold ReachesReserved at hr
    unfold walkTable archDescend
    rcases hrd : phys.read p (base ||| tableIndex va 3) .dword false with ⟨st, raw, p'⟩
    rw [hrd] at hr
    cases st <;> try rfl
    dsimp only at hr ⊢
    cases hk : descKind 3 raw with
    | leaf => rw [walkLeaf_leaf hs (le_refl 3) hk]
    | invalid => rw [walkLeaf_invalid hk (fun hc => hr hc.2) (le_refl 3)]; rfl
    | table =>
      exfalso
      unfold descKind kindOf at hk
      generalize raw.getLsbD 0 = b0 at hk
      generalize raw.getLsbD 1 = b1 at hk
      cases b0 <;> cases b1 <;> simp at hk
  | succ rem ih =>
    intro base tattrs h p hs hr
    have e2 : 3 - (rem + 1) = 2 - rem := by omega
    rw [e2] at hr ⊢
    unfold ReachesReserved at hr
    unfold walkTable archDescend
    dsimp only
    rcases hrd : phys.read p (base ||| tableIndex va (2 - rem)) .dword false with ⟨st, raw, p'⟩
    rw [hrd] at hr
    cases st <;> try rfl
    dsimp only at hr ⊢
    have hkt := descKind_table raw (show 2 - rem < 3 by omega)
    cases hk : descKind (2 - rem) raw with
    | table =>
      have ht : (decodeDesc raw).table = true := hkt.mp hk
      have ha : (decodeDesc raw).address = raw &&& descAddrMask := rfl
      simp only [ht, ha, if_true, address_page]
      split
      · rfl
      · rename_i hsz
        rw [ih (by omega) _ _ (h.add raw) _ (hs.add raw), tableIndex_eq va (by omega)]
        rw [tableIndex_eq va (by omega)]
        intro hc
        exact hr ⟨hk, by simpa using hsz, hc⟩
    | leaf =>
      have ht : ¬ (decodeDesc raw).table = true := by
        intro hc
        rw [hkt.mpr hc] at hk
        cases hk
      rw [if_neg ht, walkLeaf_leaf hs (by omega) hk]
    | invalid =>
      have ht : ¬ (decodeDesc raw).table = true := by
        intro hc
        rw [hkt.mpr hc] at hk
        cases hk
      rw [if_neg ht, walkLeaf_invalid hk (by omega) (by omega)]

/-- on the reserved page type they never agree -/
theorem walkTable_reserved (phys : Memops σ) (va : W64) (out rem : Nat) (hrem : rem ≤ 3) :
    ∀ (base : W64) (tattrs : BitVec 5) (h : Hier) (p : σ),
      ReachesReserved phys va out rem (base ||| tableIndex va (3 - rem)) p →
      (archDescend phys va out rem (base ||| tableIndex va (3 - rem)) h p).1 =
          .error ⟨.translation, 3, va⟩ ∧
        ∀ f, (walkTable phys va out rem base tattrs p).1 = .error f → f.cls ≠ .translation := by
  induction rem with
  | zero =>
    intro base tattrs h p hr
    rw [Nat.sub_zero] at hr ⊢
    unfold ReachesReserved at hr
    unfold walkTable archDescend
    rcases hrd : phys.read p (base ||| tableIndex va 3) .dword false with ⟨st, raw, p'⟩
    rw [hrd] at hr
    cases st <;> try exact absurd hr not_false
    dsimp only at hr ⊢
    obtain ⟨h0, h1⟩ := hr
    have hk : descKind 3 raw = .invalid := by
      unfold descKind
      rw [h0, h1]
      rfl
    rw [hk]
    exact ⟨rfl, fun f hf => walkLeaf_reserved h0 h1 hf⟩
  | succ rem ih =>
    intro base tattrs h p hr
    have e2 : 3 - (rem + 1) = 2 - rem := by omega
    rw [e2] at hr ⊢
    unfold ReachesReserved at hr
    unfold walkTable archDescend
    dsimp only
    rcases hrd : phys.read p (base ||| tableIndex va (2 - rem)) .dword false with ⟨st, raw, p'⟩
    rw [hrd] at hr
    cases st <;> try exact absurd hr not_false
    dsimp only at hr ⊢
    obtain ⟨hk, hsz, hrec⟩ := hr
    have hkt := descKind_table raw (show 2 - rem < 3 by omega)
    have ht : (decodeDesc raw).table = true := hkt.mp hk
    have ha : (decodeDesc raw).address = raw &&& descAddrMask := rfl
    rw [← tableIndex_eq va (by omega)] at hrec
    simp only [hk, ht, ha, hsz, if_true, address_page, ne_eq, not_true_eq_false, if_false,
      ← tableIndex_eq va (show 3 - rem ≤ 3 by omega)]
    exact ih (by omega) _ _ (h.add raw) _ hrec

end Oemu
