import Oemu.Mmu.Record
import Oemu.Lib.Consume

/-!
# What bounds a walk

The loop of the walk has no bound of its own.  `walkTurn` is one turn of it, `recorded` is a bus that
keeps the addresses it is asked for, and the checked functions are those that compose a syndrome, with
`none` where an assertion about the level of the fault does not hold.

* `descent_ends`        the loop returns, with the answer of `walkTable`;
* `visits_bounded`      its level stays between 0 and 3, its table below `2 ^ 48`;
* `walkTable_recorded`  it reads at most one descriptor for each level;
* `translateChecked_eq`, `splitCheckChecked_eq`   no assertion fails in a reachable layer;
* `walk_bounded`        all of it, for every walk.
-/

namespace Oemu

variable {σ : Type}

/-! ## the loop -/

/-- the variables of the loop, and the bus -/
structure Descent (σ : Type) where
  level : Int
  base : W64
  tattrs : BitVec 5
  bus : σ

/-- one turn: it reads one descriptor, and goes on where that is a table -/
def walkTurn (phys : Memops σ) (va : W64) (out : Nat) (d : Descent σ) :
    (Except WalkFault Leaf × σ) ⊕ Descent σ :=
  match phys.read d.bus (d.base ||| tableIndex va d.level.toNat) .dword false with
  | (.ok, raw, p) =>
    let desc := decodeDesc raw
    if !desc.valid then .inl (.error ⟨.translation, d.level, va⟩, p)
    else if desc.table && decide (d.level < 3) then
      if desc.address >>> out ≠ 0 then .inl (.error ⟨.addressSize, d.level, va⟩, p)
      else
        .inr ⟨d.level + 1, desc.address &&& ~~~pageMask, d.tattrs ||| tableAttrs raw, p⟩
    else .inl (walkLeaf va out d.level.toNat d.tattrs raw, p)
  | (_, _, p) => .inl (.error ⟨.translationNoWalk, -1, va⟩, p)

/-- the state the loop is entered with -/
def walkStart (sr : Sysregs) (va : W64) (level : Nat) (p : σ) : Descent σ where
  level := level
  base := ttbrBase (regionTtbr sr (useTtbr1 va)) &&& ~~~pageMask
  tattrs := 0
  bus := p

variable {phys : Memops σ} {va : W64} {out : Nat}

theorem table_valid {raw : W64} (h : (decodeDesc raw).table = true) :
    (decodeDesc raw).valid = true := by
  have hraw : raw &&& 3 = 3 := beq_iff_eq.mp h
  have hbit := congrArg (fun v : W64 => v.getLsbD 0) hraw
  simp only [BitVec.getLsbD_and] at hbit
  exact (Bool.and_eq_true_iff.mp (hbit.trans (by decide))).1

theorem walkLeaf_unmarked {level : Nat} {tattrs : BitVec 5} {raw : W64}
    (h : (decodeDesc raw).valid = false) :
    walkLeaf va out level tattrs raw = .error ⟨.translation, level, va⟩ := by
  unfold walkLeaf
  simp only [h, Bool.not_false, if_true]

/-- a descriptor that is not taken for a table ends the loop with the answer for a leaf -/
theorem walkTurn_leaf {level : Nat} {base : W64} {tattrs : BitVec 5} {p p' : σ} {raw : W64}
    (hr : phys.read p (base ||| tableIndex va level) .dword false = (.ok, raw, p'))
    (h : (decodeDesc raw).table = false ∨ level = 3) :
    walkTurn phys va out ⟨level, base, tattrs, p⟩ =
      .inl (walkLeaf va out level tattrs raw, p') := by
  unfold walkTurn
  simp only [Int.toNat_natCast, hr]
  cases hv : (decodeDesc raw).valid with
  | false =>
    rw [walkLeaf_unmarked hv]
    rfl
  | true =>
    have htable : ((decodeDesc raw).table && decide ((level : Int) < 3)) = false := by
      rcases h with h | h
      · rw [h, Bool.false_and]
      · rw [decide_eq_false (by omega), Bool.and_false]
    rw [htable]
    rfl

/-- **the loop returns**, with the answer of the descent that counts its levels -/
theorem descent_ends (phys : Memops σ) (va : W64) (out rem : Nat) (hrem : rem ≤ 3) :
    ∀ (base : W64) (tattrs : BitVec 5) (p : σ), ∃ d,
      Consume.Visits (walkTurn phys va out) ⟨(3 - rem : Nat), base, tattrs, p⟩ d ∧
        walkTurn phys va out d = .inl (walkTable phys va out rem base tattrs p) := by
  induction rem with
  | zero =>
    intro base tattrs p
    refine ⟨_, .refl, ?_⟩
    unfold walkTable
    rcases hr : phys.read p (base ||| tableIndex va 3) .dword false with ⟨st, raw, p'⟩
    cases st
    case ok => exact walkTurn_leaf hr (.inr rfl)
    all_goals
      unfold walkTurn
      simp only [Int.toNat_natCast, Nat.sub_zero, hr]
  | succ rem ih =>
    intro base tattrs p
    have hlevel : 3 - (rem + 1) = 2 - rem := by omega
    rw [hlevel]
    unfold walkTable
    dsimp only
    rcases hr : phys.read p (base ||| tableIndex va (2 - rem)) .dword false with ⟨st, raw, p'⟩
    cases st
    case ok =>
      dsimp only
      cases ht : (decodeDesc raw).table with
      | false =>
        refine ⟨_, .refl, ?_⟩
        exact walkTurn_leaf hr (.inl ht)
      | true =>
        have hturn : walkTurn phys va out ⟨(2 - rem : Nat), base, tattrs, p⟩ =
            if (decodeDesc raw).address >>> out ≠ 0 then
              .inl (.error ⟨.addressSize, (2 - rem : Nat), va⟩, p')
            else .inr ⟨(2 - rem : Nat) + 1, (decodeDesc raw).address &&& ~~~pageMask,
              tattrs ||| tableAttrs raw, p'⟩ := by
          unfold walkTurn
          simp only [Int.toNat_natCast, hr, table_valid ht, ht, Bool.true_and]
          have hlt : ((2 - rem : Nat) : Int) < 3 := by omega
          simp only [hlt, decide_true, Bool.not_true, if_true, if_false, Bool.false_eq_true]
        by_cases hout : (decodeDesc raw).address >>> out ≠ 0
        · refine ⟨_, .refl, ?_⟩
          rw [hturn, if_pos hout, if_pos rfl, if_pos hout]
        · obtain ⟨d, hv, hd⟩ := ih (by omega) ((decodeDesc raw).address &&& ~~~pageMask)
            (tattrs ||| tableAttrs raw) p'
          refine ⟨d, .head ?_ hv, ?_⟩
          · show walkTurn phys va out ⟨(2 - rem : Nat), base, tattrs, p⟩ = _
            rw [hturn, if_neg hout]
            have hnext : ((2 - rem : Nat) : Int) + 1 = (3 - rem : Nat) := by omega
            rw [hnext]
          · rw [hd, if_pos rfl, if_neg hout]
    all_goals
      refine ⟨_, .refl, ?_⟩
      unfold walkTurn
      simp only [Int.toNat_natCast, hr]

/-! ## addresses -/

theorem and_lt_48 {a : W64} (h : a.toNat < 2 ^ 48) (b : W64) : (a &&& b).toNat < 2 ^ 48 := by
  rw [BitVec.toNat_and]
  exact Nat.lt_of_le_of_lt Nat.and_le_left h

theorem or_lt_48 {a b : W64} (ha : a.toNat < 2 ^ 48) (hb : b.toNat < 2 ^ 48) :
    (a ||| b).toNat < 2 ^ 48 := by
  rw [BitVec.toNat_or]
  exact Nat.or_lt_two_pow ha hb

theorem and_mask_lt_48 (a : W64) {m : W64} (h : m.toNat < 2 ^ 48) :
    (a &&& m).toNat < 2 ^ 48 := by
  rw [BitVec.and_comm]
  exact and_lt_48 h a

theorem address_lt_48 (raw : W64) : (decodeDesc raw).address.toNat < 2 ^ 48 :=
  and_mask_lt_48 raw (by decide)

theorem ttbrBase_lt_48 (ttbr : W64) : (ttbrBase ttbr).toNat < 2 ^ 48 :=
  and_mask_lt_48 ttbr (by decide)

theorem tableIndex_lt_48 (va : W64) (level : Nat) : (tableIndex va level).toNat < 2 ^ 48 := by
  have hindex : ((va >>> levelShift level) &&& 0x1FF).toNat < 2 ^ 9 := by
    rw [BitVec.toNat_and]
    exact Nat.lt_of_le_of_lt Nat.and_le_right (by decide)
  unfold tableIndex
  rw [BitVec.toNat_shiftLeft, Nat.shiftLeft_eq]
  omega

/-- the output address of a leaf at a level -/
def leafPa (raw va : W64) (level : Nat) : W64 :=
  ((decodeDesc raw).address &&& ~~~(((1 : W64) <<< levelShift level) - 1)) |||
    (va &&& (((1 : W64) <<< levelShift level) - 1))

theorem leafPa_lt_48 (raw va : W64) {level : Nat} (h1 : 1 ≤ level) (h3 : level ≤ 3) :
    (leafPa raw va level).toNat < 2 ^ 48 := by
  refine or_lt_48 (and_lt_48 (address_lt_48 raw) _) (and_mask_lt_48 va ?_)
  interval_cases level <;> decide

theorem walkLeaf_pa {level : Nat} {tattrs : BitVec 5} {raw : W64} {l : Leaf}
    (h : walkLeaf va out level tattrs raw = .ok l) : l.pa = leafPa raw va level := by
  unfold walkLeaf at h
  dsimp only at h
  split at h
  · cases h
  · split at h
    · cases h
    · split at h
      · cases h
      · split at h
        · cases h
        · split at h
          · cases h
          · cases h
            rfl

/-! ## the states it visits -/

/-- a level of the tables, and a table an address of 48 bits names; so is what is read and formed
there -/
structure Descent.Bounded (va : W64) (d : Descent σ) : Prop where
  nonneg : 0 ≤ d.level
  le : d.level ≤ 3
  base : d.base.toNat < 2 ^ 48
  entry : (d.base ||| tableIndex va d.level.toNat).toNat < 2 ^ 48
  table : ∀ raw, (decodeDesc raw).address.toNat < 2 ^ 48
  leaf : ∀ raw, 0 < d.level → (leafPa raw va d.level.toNat).toNat < 2 ^ 48

theorem Descent.bounded {d : Descent σ} (h0 : 0 ≤ d.level) (h3 : d.level ≤ 3)
    (hb : d.base.toNat < 2 ^ 48) : d.Bounded va where
  nonneg := h0
  le := h3
  base := hb
  entry := or_lt_48 hb (tableIndex_lt_48 va _)
  table := address_lt_48
  leaf raw hpos := leafPa_lt_48 raw va (by omega) (by omega)

theorem walkTurn_next {d d' : Descent σ} (h : walkTurn phys va out d = .inr d') :
    d.level < 3 ∧ d'.level = d.level + 1 ∧
      ∃ raw, d'.base = (decodeDesc raw).address &&& ~~~pageMask := by
  unfold walkTurn at h
  rcases hr : phys.read d.bus (d.base ||| tableIndex va d.level.toNat) .dword false with
    ⟨st, raw, p⟩
  rw [hr] at h
  cases st
  case ok =>
    dsimp only at h
    split at h
    · cases h
    · split at h
      · rename_i ht
        split at h
        · cases h
        · cases h
          exact ⟨of_decide_eq_true (Bool.and_eq_true_iff.mp ht).2, rfl, raw, rfl⟩
      · cases h
  all_goals cases h

theorem visits_bounded {d d' : Descent σ} (h : Consume.Visits (walkTurn phys va out) d d')
    (hd : d.Bounded va) : d'.Bounded va := by
  induction h with
  | refl => exact hd
  | tail _ hturn ih =>
    obtain ⟨hlt, hlevel, raw, hbase⟩ := walkTurn_next hturn
    have h0 := ih.nonneg
    refine Descent.bounded (by omega) (by omega) ?_
    rw [hbase]
    exact and_lt_48 (address_lt_48 raw) _

theorem walkStart_bounded (sr : Sysregs) {level : Nat} (h : level ≤ 2) (p : σ) :
    (walkStart sr va level p).Bounded (walkVa (sr.val .tcrEl1) va) := by
  refine Descent.bounded ?_ ?_ ?_
  · show (0 : Int) ≤ (level : Int)
    omega
  · show (level : Int) ≤ 3
    omega
  · exact and_lt_48 (ttbrBase_lt_48 _) _

theorem walkTable_pa (phys : Memops σ) (va : W64) (out rem : Nat) {l : Leaf} (hrem : rem ≤ 3) :
    ∀ (base : W64) (tattrs : BitVec 5) (p : σ),
      (walkTable phys va out rem base tattrs p).1 = .ok l → l.pa.toNat < 2 ^ 48 := by
  have hleaf : ∀ {level : Nat} {tattrs : BitVec 5} {raw : W64}, level ≤ 3 →
      walkLeaf va out level tattrs raw = .ok l → l.pa.toNat < 2 ^ 48 := by
    intro level tattrs raw hl h
    have h0 := (walkLeaf_level h).2
    rw [walkLeaf_pa h]
    exact leafPa_lt_48 raw va (by omega) hl
  induction rem with
  | zero =>
    intro base tattrs p h
    unfold walkTable at h
    rcases hr : phys.read p (base ||| tableIndex va 3) .dword false with ⟨st, raw, p'⟩
    rw [hr] at h
    cases st <;> first | cases h | exact hleaf (Nat.le_refl 3) h
  | succ rem ih =>
    intro base tattrs p h
    unfold walkTable at h
    dsimp only at h
    rcases hr : phys.read p (base ||| tableIndex va (2 - rem)) .dword false with ⟨st, raw, p'⟩
    rw [hr] at h
    cases st <;> first | cases h | skip
    dsimp only at h
    split at h
    · split at h
      · cases h
      · exact ih (by omega) _ _ _ h
    · exact hleaf (by omega) h

/-! ## what it reads -/

/-- the bus, with the addresses its reads were asked for -/
def recorded (phys : Memops σ) : Memops (σ × List W64) where
  fetch32 s pa := ((phys.fetch32 s.1 pa).1, (phys.fetch32 s.1 pa).2.1, (phys.fetch32 s.1 pa).2.2, s.2)
  read s pa n sx :=
    ((phys.read s.1 pa n sx).1, (phys.read s.1 pa n sx).2.1, (phys.read s.1 pa n sx).2.2,
      s.2 ++ [pa])
  write s pa n v := ((phys.write s.1 pa n v).1, (phys.write s.1 pa n v).2, s.2)
  validate s pa n q := ((phys.validate s.1 pa n q).1, (phys.validate s.1 pa n q).2, s.2)

/-- addresses of 48 bits, so many at most -/
def FewReads (n : Nat) (reads : List W64) : Prop :=
  reads.length ≤ n ∧ ∀ a ∈ reads, a.toNat < 2 ^ 48

theorem FewReads.nil (n : Nat) : FewReads n [] :=
  ⟨Nat.zero_le n, fun _ h => absurd h List.not_mem_nil⟩

theorem FewReads.cons {n : Nat} {a : W64} {reads : List W64} (ha : a.toNat < 2 ^ 48)
    (h : FewReads n reads) : FewReads (n + 1) (a :: reads) := by
  refine ⟨Nat.succ_le_succ h.1, fun b hb => ?_⟩
  rcases List.mem_cons.mp hb with rfl | hb
  · exact ha
  · exact h.2 b hb

theorem FewReads.mono {n m : Nat} {reads : List W64} (h : FewReads n reads) (hnm : n ≤ m) :
    FewReads m reads := ⟨Nat.le_trans h.1 hnm, h.2⟩

/-- **the descent reads one descriptor for each level at most**, and recording it changes nothing -/
theorem walkTable_recorded (phys : Memops σ) (va : W64) (out rem : Nat) :
    ∀ (base : W64) (tattrs : BitVec 5) (p : σ) (log : List W64), base.toNat < 2 ^ 48 →
      ∃ reads, walkTable (recorded phys) va out rem base tattrs (p, log) =
          ((walkTable phys va out rem base tattrs p).1,
            (walkTable phys va out rem base tattrs p).2, log ++ reads) ∧
        FewReads (rem + 1) reads := by
  induction rem with
  | zero =>
    intro base tattrs p log hb
    have hread := or_lt_48 hb (tableIndex_lt_48 va 3)
    refine ⟨[base ||| tableIndex va 3], ?_, .cons hread (.nil 0)⟩
    unfold walkTable
    rcases hr : phys.read p (base ||| tableIndex va 3) .dword false with ⟨st, raw, p'⟩
    have hrec : (recorded phys).read (p, log) (base ||| tableIndex va 3) .dword false =
        (st, raw, p', log ++ [base ||| tableIndex va 3]) := by
      simp only [recorded, hr]
    rw [hrec]
    cases st <;> rfl
  | succ rem ih =>
    intro base tattrs p log hb
    have hread := or_lt_48 hb (tableIndex_lt_48 va (2 - rem))
    unfold walkTable
    dsimp only
    rcases hr : phys.read p (base ||| tableIndex va (2 - rem)) .dword false with ⟨st, raw, p'⟩
    have hrec : (recorded phys).read (p, log) (base ||| tableIndex va (2 - rem)) .dword false =
        (st, raw, p', log ++ [base ||| tableIndex va (2 - rem)]) := by
      simp only [recorded, hr]
    rw [hrec]
    cases st
    case ok =>
      dsimp only
      by_cases ht : (decodeDesc raw).table
      · rw [if_pos ht, if_pos ht]
        by_cases hout : (decodeDesc raw).address >>> out ≠ 0
        · rw [if_pos hout, if_pos hout]
          exact ⟨_, rfl, (FewReads.nil (rem + 1)).cons hread⟩
        · rw [if_neg hout, if_neg hout]
          obtain ⟨reads, he, hreads⟩ := ih ((decodeDesc raw).address &&& ~~~pageMask)
            (tattrs ||| tableAttrs raw) p' (log ++ [base ||| tableIndex va (2 - rem)])
            (and_lt_48 (address_lt_48 raw) _)
          rw [he, List.append_assoc]
          exact ⟨_, rfl, hreads.cons hread⟩
      · rw [if_neg ht, if_neg ht]
        exact ⟨_, rfl, (FewReads.nil (rem + 1)).cons hread⟩
    all_goals exact ⟨_, rfl, (FewReads.nil (rem + 1)).cons hread⟩

variable {sr : Sysregs} {cur : El} {isWrite isFetch : Bool}

theorem walkStage1_recorded (sr : Sysregs) (phys : Memops σ) (va : W64) (p : σ) :
    ∃ reads, walkStage1 sr (recorded phys) va (p, []) =
        ((walkStage1 sr phys va p).1, (walkStage1 sr phys va p).2, reads) ∧ FewReads 4 reads := by
  unfold walkStage1
  dsimp only
  cases hs : startLevel (64 - regionTsz (sr.val .tcrEl1) (useTtbr1 va)) with
  | none => exact ⟨[], rfl, .nil 4⟩
  | some level =>
    dsimp only
    split
    · exact ⟨[], rfl, .nil 4⟩
    · split
      · exact ⟨[], rfl, .nil 4⟩
      · split
        · exact ⟨[], rfl, .nil 4⟩
        · obtain ⟨reads, he, hr⟩ := walkTable_recorded phys (walkVa (sr.val .tcrEl1) va)
            (outBits (sr.val .tcrEl1)) (3 - level)
            (ttbrBase (regionTtbr sr (useTtbr1 va)) &&& ~~~pageMask) 0 p []
            (and_lt_48 (ttbrBase_lt_48 _) _)
          exact ⟨reads, he, hr.mono (by omega)⟩

theorem walk_recorded (sr : Sysregs) (phys : Memops σ) (va : W64) (cur : El)
    (isWrite isFetch : Bool) (p : σ) :
    ∃ reads, walk sr (recorded phys) va cur isWrite isFetch (p, []) =
        ((walk sr phys va cur isWrite isFetch p).1, (walk sr phys va cur isWrite isFetch p).2,
          reads) ∧ FewReads 4 reads := by
  unfold walk
  split
  · exact ⟨[], rfl, .nil 4⟩
  · split
    · exact ⟨[], rfl, .nil 4⟩
    · obtain ⟨reads, he, hr⟩ := walkStage1_recorded sr phys va p
      refine ⟨reads, ?_, hr⟩
      rw [he]
      rcases walkStage1 sr phys va p with ⟨f | l, p'⟩ <;> rfl

theorem walk_pa {p : σ} {l : Leaf} (h : (walk sr phys va cur isWrite isFetch p).1 = .leaf l) :
    l.pa.toNat < 2 ^ 48 := by
  unfold walk at h
  split at h
  · cases h
  · split at h
    · cases h
    · rcases hw : walkStage1 sr phys va p with ⟨f | l', p'⟩
      · rw [hw] at h
        cases h
      · rw [hw] at h
        dsimp only at h
        unfold checkLeaf at h
        split at h
        · cases h
          have hok : (walkStage1 sr phys va p).1 = .ok l := congrArg Prod.fst hw
          unfold walkStage1 at hok
          dsimp only at hok
          split at hok
          · cases hok
          · split at hok
            · cases hok
            · split at hok
              · cases hok
              · split at hok
                · cases hok
                · exact walkTable_pa phys _ _ _ (Nat.sub_le _ _) _ _ _ hok
        · cases h

/-! ## what it asserts -/

/-- `oemu_mmu_internal_dfsc`, with `none` where an assertion about the level does not hold -/
def dfscChecked (cls : FaultClass) (level : Int) : Option W32 :=
  match cls with
  | .translation =>
    if 0 ≤ level ∧ level ≤ 3 then some (BitVec.ofInt 32 (0x04 + level)) else none
  | .translationNoWalk => some 0x2C
  | .accessFlag =>
    if 1 ≤ level ∧ level ≤ 3 then some (BitVec.ofInt 32 (0x08 + level)) else none
  | .permission =>
    if 1 ≤ level ∧ level ≤ 3 then some (BitVec.ofInt 32 (0x0C + level)) else none
  | .addressSize =>
    some (if level < 0 then (if level = -1 then 0x29 else 0x2C) else BitVec.ofInt 32 level)
  | .alignment => some 0x21

def composeEsrChecked (cur : El) (isFetch isWrite : Bool) (cls : FaultClass) (level : Int) :
    Option W32 :=
  (dfscChecked cls level).map (mmuEsr (toLowerFrom cur) isFetch isWrite)

def tlbLookupChecked (m : Mmu) (va : W64) (cur : El) (isWrite isFetch : Bool) :
    Option (TlbServed × Mmu) :=
  let e := m.tlb (tlbIndex va)
  if e.level = 0 ∨ e.va ≠ pageBase va then some (.miss, { m with tlbMisses := m.tlbMisses + 1 })
  else if !permits e.ap e.xn e.pxn (cur == .el0) isWrite isFetch then
    (composeEsrChecked cur isFetch isWrite .permission e.level).map fun esr =>
      (.denied ⟨esr, va⟩, { m with tlbHits := m.tlbHits + 1 })
  else some (.served (e.pa ||| (va &&& pageMask)), { m with tlbHits := m.tlbHits + 1 })

def translateMissChecked (sr : Sysregs) (phys : Memops σ) (w : MmuWorld σ) (va : W64) (cur : El)
    (isWrite isFetch : Bool) : Option (Except MmuFault W64 × MmuWorld σ) :=
  match walk sr phys va cur isWrite isFetch w.phys with
  | (.fault f, p) =>
    (composeEsrChecked cur isFetch isWrite f.cls f.level).map fun esr =>
      (.error ⟨esr, f.far⟩, { w with phys := p })
  | (.identity pa, p) => some (.ok pa, { w with phys := p })
  | (.leaf l, p) =>
    some (.ok l.pa,
      { mmu := if cacheable sr cur then tlbFill w.mmu sr (walkVa (sr.val .tcrEl1) va) l else w.mmu
        phys := p })

/-- `translate`, where no assertion fails -/
def translateChecked (sr : Sysregs) (phys : Memops σ) (w : MmuWorld σ) (va : W64) (cur : El)
    (isWrite isFetch : Bool) : Option (Except MmuFault W64 × MmuWorld σ) :=
  let w := { w with mmu := epochCheck w.mmu sr }
  let tva := walkVa (sr.val .tcrEl1) va
  if cacheable sr cur then
    match tlbLookupChecked w.mmu tva cur isWrite isFetch with
    | none => none
    | some (.served pa, m) => some (.ok pa, { w with mmu := m })
    | some (.denied f, m) => some (.error f, { w with mmu := m })
    | some (.miss, m) => translateMissChecked sr phys { w with mmu := m } va cur isWrite isFetch
  else translateMissChecked sr phys w va cur isWrite isFetch

/-- `refuse`, where no assertion fails -/
def refuseChecked (w : MmuWorld σ) (cur : El) (isFetch isWrite : Bool) (cls : FaultClass)
    (level : Int) (far : W64) : Option (MmuWorld σ) :=
  (composeEsrChecked cur isFetch isWrite cls level).map fun esr => w.pend ⟨esr, far⟩

/-- `split_check`, where no assertion fails -/
def splitCheckChecked (sr : Sysregs) (phys : Memops σ) (f₀ : MmuFault) (va : W64) (cur : El)
    (isWrite : Bool) : Nat → Nat → MmuWorld σ → Option (Option MmuFault × MmuWorld σ)
  | 0, _, w => some (none, w)
  | k + 1, i, w =>
    match translateChecked sr phys w (va + BitVec.ofNat 64 i) cur isWrite false with
    | none => none
    | some (.error f, w) => some (some f, w)
    | some (.ok pa, w) =>
      match phys.validate w.phys pa 1 (accessPerm isWrite) with
      | (.ok, p) => splitCheckChecked sr phys f₀ va cur isWrite k (i + 1) { w with phys := p }
      | (_, p) =>
        (composeEsrChecked cur false isWrite .translationNoWalk (-1)).map fun esr =>
          (some { f₀ with esr := esr }, { w with phys := p })

/-- what a walk reports passes the assertion about its class -/
theorem Reported.checked {c : FaultClass} {l : Int} (h : Reported c l) :
    dfscChecked c l = some (dfsc c l) := by
  cases h with
  | translation h => exact if_pos ⟨by omega, by omega⟩
  | accessFlag h0 h => exact if_pos ⟨by omega, by omega⟩
  | permission h0 h => exact if_pos ⟨by omega, by omega⟩
  | addressSize h => rfl
  | base => rfl
  | noWalk => rfl

theorem composeEsrChecked_eq {c : FaultClass} {l : Int} (h : dfscChecked c l = some (dfsc c l))
    (cur : El) (isFetch isWrite : Bool) :
    composeEsrChecked cur isFetch isWrite c l = some (composeEsr cur isFetch isWrite c l) := by
  unfold composeEsrChecked
  rw [h]
  rfl

theorem tlbLookupChecked_eq {m : Mmu} (h : ∀ i, (m.tlb i).level ≤ 3) (va : W64) (cur : El)
    (isWrite isFetch : Bool) :
    tlbLookupChecked m va cur isWrite isFetch = some (tlbLookup m va cur isWrite isFetch) := by
  unfold tlbLookupChecked tlbLookup
  dsimp only
  split
  · rfl
  · rename_i hhit
    split
    · have hle := h (tlbIndex va)
      have hrep : Reported .permission (m.tlb (tlbIndex va)).level :=
        .permission (fun h0 => hhit (.inl h0)) hle
      rw [composeEsrChecked_eq hrep.checked]
      rfl
    · rfl

theorem translateMissChecked_eq (sr : Sysregs) (phys : Memops σ) (w : MmuWorld σ) (va : W64)
    (cur : El) (isWrite isFetch : Bool) :
    translateMissChecked sr phys w va cur isWrite isFetch =
      some (translateMiss sr phys w va cur isWrite isFetch) := by
  unfold translateMissChecked translateMiss
  rcases hw : walk sr phys va cur isWrite isFetch w.phys with ⟨pa | l | f, p⟩
  · rfl
  · rfl
  · dsimp only
    rw [composeEsrChecked_eq (walk_fault (congrArg Prod.fst hw)).checked]
    rfl

/-- the entries of a reachable layer hold levels of leaves -/
theorem Mmu.Reached.entry_le {m : Mmu} (h : Mmu.Reached phys m) (i : BitVec 12) :
    (m.tlb i).level ≤ 3 := by
  have hlines : m.Lines fun l => l.level ≤ 3 := by
    refine h.lines ?_
    intro sr p page l hl
    obtain ⟨leaf, hleaf, rfl⟩ := walkLine_leaf hl
    exact walkStage1_le hleaf
  by_cases h0 : (m.tlb i).level = 0
  · omega
  · exact hlines i (m.tlb i).va (m.tlb i).line (if_neg h0)

theorem Mmu.Reached.epochCheck {m : Mmu} (h : Mmu.Reached phys m) (sr : Sysregs)
    (i : BitVec 12) : ((epochCheck m sr).tlb i).level ≤ 3 := by
  have hi := h.entry_le i
  unfold Oemu.epochCheck
  dsimp only
  split
  · split
    · exact Nat.zero_le 3
    · exact hi
  · exact hi

/-- **no assertion fails in a translation** of a reachable layer -/
theorem translateChecked_eq {w : MmuWorld σ} (hm : Mmu.Reached phys w.mmu) (sr : Sysregs)
    (va : W64) (cur : El) (isWrite isFetch : Bool) :
    translateChecked sr phys w va cur isWrite isFetch =
      some (translate sr phys w va cur isWrite isFetch) := by
  unfold translateChecked translate
  dsimp only
  split
  · rw [tlbLookupChecked_eq (hm.epochCheck sr)]
    rcases tlbLookup (epochCheck w.mmu sr) (walkVa (sr.val .tcrEl1) va) cur isWrite isFetch with
      ⟨pa | f | _, m⟩
    · rfl
    · rfl
    · exact translateMissChecked_eq _ _ _ _ _ _ _
  · exact translateMissChecked_eq _ _ _ _ _ _ _

theorem splitCheckChecked_eq (sr : Sysregs) (f₀ : MmuFault) (va : W64) (cur : El)
    (isWrite : Bool) (k : Nat) :
    ∀ (i : Nat) (w : MmuWorld σ), Mmu.Reached phys w.mmu →
      splitCheckChecked sr phys f₀ va cur isWrite k i w =
        some (splitCheck sr phys f₀ va cur isWrite k i w) := by
  induction k with
  | zero => exact fun _ _ _ => rfl
  | succ k ih =>
    intro i w hm
    have hnext := Mmu.Reached.translate sr w (va + BitVec.ofNat 64 i) cur isWrite false hm
    unfold splitCheckChecked splitCheck
    rw [translateChecked_eq hm]
    rcases ht : translate sr phys w (va + BitVec.ofNat 64 i) cur isWrite false with ⟨f | pa, w₁⟩
    · rfl
    · rw [ht] at hnext
      dsimp only
      rcases hv : phys.validate w₁.phys pa 1 (accessPerm isWrite) with ⟨st, p⟩
      cases st
      case ok => exact ih (i + 1) { w₁ with phys := p } hnext
      all_goals
        dsimp only
        rw [composeEsrChecked_eq Reported.noWalk.checked]
        rfl

theorem refuseChecked_eq {c : FaultClass} (hc : c = .translationNoWalk ∨ c = .alignment)
    (w : MmuWorld σ) (cur : El) (isFetch isWrite : Bool) (far : W64) :
    refuseChecked w cur isFetch isWrite c (-1) far =
      some (w.pend (refuseRecord cur isFetch isWrite c (-1) far)) := by
  rcases hc with rfl | rfl <;> rfl

/-! ## every walk -/

structure WalkBounded (sr : Sysregs) (phys : Memops σ) (va : W64) (cur : El)
    (isWrite isFetch : Bool) (p : σ) : Prop where
  /-- it reads four descriptors at most, at addresses of 48 bits -/
  reads : ∃ reads, walk sr (recorded phys) va cur isWrite isFetch (p, []) =
    ((walk sr phys va cur isWrite isFetch p).1, (walk sr phys va cur isWrite isFetch p).2,
      reads) ∧ FewReads 4 reads
  /-- where it starts is an address of 48 bits -/
  base : (ttbrBase (regionTtbr sr (useTtbr1 va))).toNat < 2 ^ 48
  /-- the loop, where it is entered, returns -/
  ends : ∀ level, startLevel (64 - regionTsz (sr.val .tcrEl1) (useTtbr1 va)) = some level →
    ∃ d, Consume.Visits (walkTurn phys (walkVa (sr.val .tcrEl1) va) (outBits (sr.val .tcrEl1)))
        (walkStart sr va level p) d ∧
      walkTurn phys (walkVa (sr.val .tcrEl1) va) (outBits (sr.val .tcrEl1)) d =
        .inl (walkTable phys (walkVa (sr.val .tcrEl1) va) (outBits (sr.val .tcrEl1)) (3 - level)
          (ttbrBase (regionTtbr sr (useTtbr1 va)) &&& ~~~pageMask) 0 p)
  /-- its level and its addresses stay in their ranges -/
  visits : ∀ level, startLevel (64 - regionTsz (sr.val .tcrEl1) (useTtbr1 va)) = some level →
    ∀ d, Consume.Visits (walkTurn phys (walkVa (sr.val .tcrEl1) va) (outBits (sr.val .tcrEl1)))
        (walkStart sr va level p) d → d.Bounded (walkVa (sr.val .tcrEl1) va)
  /-- what it answers is an address of 48 bits -/
  leaf : ∀ l, (walk sr phys va cur isWrite isFetch p).1 = .leaf l → l.pa.toNat < 2 ^ 48

theorem walkBounded (sr : Sysregs) (phys : Memops σ) (va : W64) (cur : El)
    (isWrite isFetch : Bool) (p : σ) : WalkBounded sr phys va cur isWrite isFetch p where
  reads := walk_recorded sr phys va cur isWrite isFetch p
  base := ttbrBase_lt_48 _
  ends level hs := by
    have hl := (startLevel_some hs).2.2
    have hends := descent_ends phys (walkVa (sr.val .tcrEl1) va) (outBits (sr.val .tcrEl1))
      (3 - level) (Nat.sub_le _ _) (ttbrBase (regionTtbr sr (useTtbr1 va)) &&& ~~~pageMask) 0 p
    have hlevel : 3 - (3 - level) = level := by omega
    rw [hlevel] at hends
    exact hends
  visits level hs d hv := visits_bounded hv (walkStart_bounded sr (startLevel_some hs).2.2 p)
  leaf l h := walk_pa h

/-- **every walk is bounded**, and no assertion about a level fails in a reachable layer -/
theorem walk_bounded {w : MmuWorld σ} (hm : Mmu.Reached phys w.mmu) (sr : Sysregs) (va : W64)
    (cur : El) (isWrite isFetch : Bool) :
    (∀ p, WalkBounded sr phys va cur isWrite isFetch p) ∧
      translateChecked sr phys w va cur isWrite isFetch =
        some (translate sr phys w va cur isWrite isFetch) ∧
      (∀ f₀ k i, splitCheckChecked sr phys f₀ va cur isWrite k i w =
        some (splitCheck sr phys f₀ va cur isWrite k i w)) ∧
      ∀ c far, c = .translationNoWalk ∨ c = .alignment →
        refuseChecked w cur isFetch isWrite c (-1) far =
          some (w.pend (refuseRecord cur isFetch isWrite c (-1) far)) := by
  refine ⟨fun p => walkBounded sr phys va cur isWrite isFetch p,
    translateChecked_eq hm sr va cur isWrite isFetch, fun f₀ k i => ?_, fun c far hc => ?_⟩
  · exact splitCheckChecked_eq sr f₀ va cur isWrite k i w hm
  · exact refuseChecked_eq hc w cur isFetch isWrite far

/-- a page of table descriptors that all point at the page itself -/
def selfTable : Memory where
  regions := [⟨0, 0x1000, permRead, 0, true⟩]
  capacity := 1
  heap := fun i => if i % 8 = 0 then 3 else 0

/-- translation enabled, 48 bits of input, the table at 0 -/
def selfRegs : Sysregs where
  val
    | .sctlrEl1 => 1
    | .tcrEl1 => 16
    | .pstate => 0x3C5
    | _ => 0
  taken := []

theorem walk_bounded_selfTable :
    WalkBounded selfRegs Memory.memops 0 .el1 false false selfTable ∧
      translateChecked selfRegs Memory.memops ⟨Mmu.init, selfTable⟩ 0 .el1 false false =
        some (translate selfRegs Memory.memops ⟨Mmu.init, selfTable⟩ 0 .el1 false false) :=
  have hinit : Mmu.Reached Memory.memops Mmu.init := .init
  have h := walk_bounded (w := ⟨Mmu.init, selfTable⟩) hinit selfRegs 0 .el1 false false
  ⟨h.1 selfTable, h.2.1⟩

end Oemu
