import Oemu.Mmu.Tlb
import Oemu.Lib.Memo

/-!
# The walk, page by page

The walk looks at an address only through its tag-stripped page, and carries the offset over to its
answer: `walkStage1_page`.  So the function the TLB memoises is a function of pages, `walkLine`,
and the TLB itself is a direct-mapped memo table, `Mmu.lines`.

* `tlbLookup_eq`, `lines_tlbFill`, `lines_flushAll`: the TLB's operations on the table;
* `translate_eq`: a translation by the line of its page;
* `walk_of_line`: the walk's answer from the line of its page.
-/

namespace Oemu

/-! ## masks and shifts, bit by bit -/

theorem getLsbD_ones {s i : Nat} (hs : s < 64) (hi : i < 64) :
    (((1 : W64) <<< s) - 1).getLsbD i = decide (i < s) := by
  have e : (((1 : W64) <<< s) - 1) = BitVec.ofNat 64 (2 ^ s - 1) := by
    apply BitVec.eq_of_toNat_eq
    have h1 : 2 ^ s < 2 ^ 64 := Nat.pow_lt_pow_right (by decide) hs
    have h2 : 1 ≤ 2 ^ s := Nat.one_le_two_pow
    have h3 : (1 : W64).toNat = 1 := rfl
    simp only [BitVec.toNat_sub, BitVec.toNat_shiftLeft, BitVec.toNat_ofNat, Nat.shiftLeft_eq, h3,
      one_mul]
    rw [Nat.mod_eq_of_lt h1]
    omega
  rw [e, BitVec.getLsbD_ofNat, Nat.testBit_two_pow_sub_one]
  simp [hi]

theorem getLsbD_pageMask {i : Nat} (hi : i < 64) : pageMask.getLsbD i = decide (i < 12) := by
  have e : pageMask = ((1 : W64) <<< 12) - 1 := by decide
  rw [e, getLsbD_ones (by decide) hi]

theorem getLsbD_pageBase (va : W64) {i : Nat} (hi : i < 64) :
    (pageBase va).getLsbD i = (va.getLsbD i && decide (12 ≤ i)) := by
  unfold pageBase
  rw [BitVec.getLsbD_and, BitVec.getLsbD_not, getLsbD_pageMask hi]
  by_cases h : i < 12
  · simp [hi, h]
  · simp [hi, h, Nat.le_of_not_lt h]

@[simp] theorem pageBase_pageBase (va : W64) : pageBase (pageBase va) = pageBase va := by
  unfold pageBase
  rw [BitVec.and_assoc, BitVec.and_self]

theorem pageBase_or_offset (va : W64) : pageBase va ||| (va &&& pageMask) = va := by
  apply BitVec.eq_of_getLsbD_eq
  intro i hi
  rw [BitVec.getLsbD_or, getLsbD_pageBase va hi, BitVec.getLsbD_and, getLsbD_pageMask hi]
  by_cases h : i < 12
  · simp [h]
  · simp [h, Nat.le_of_not_lt h]

@[simp] theorem pageBase_or_mask (a va : W64) :
    pageBase (pageBase a ||| (va &&& pageMask)) = pageBase a := by
  apply BitVec.eq_of_getLsbD_eq
  intro i hi
  rw [getLsbD_pageBase _ hi, BitVec.getLsbD_or, getLsbD_pageBase a hi, BitVec.getLsbD_and,
    getLsbD_pageMask hi]
  by_cases h : 12 ≤ i
  · have h' : ¬ i < 12 := by omega
    simp [h, h']
  · simp [h]

/-- a right shift past the offset sees the page only -/
theorem ushiftRight_pageBase (va : W64) {n : Nat} (hn : 12 ≤ n) :
    pageBase va >>> n = va >>> n := by
  apply BitVec.eq_of_getLsbD_eq
  intro i hi
  rw [BitVec.getLsbD_ushiftRight, BitVec.getLsbD_ushiftRight]
  by_cases h : n + i < 64
  · rw [getLsbD_pageBase va h]
    simp [show 12 ≤ n + i by omega]
  · simp [Nat.le_of_not_lt h]

@[simp] theorem tlbIndex_pageBase (va : W64) : tlbIndex (pageBase va) = tlbIndex va := by
  apply BitVec.eq_of_getLsbD_eq
  intro i hi
  unfold tlbIndex
  rw [BitVec.getLsbD_extractLsb', BitVec.getLsbD_extractLsb', getLsbD_pageBase va (by omega)]
  simp [show 12 ≤ 12 + i by omega]

/-! ## what the walk sees of an address -/

theorem useTtbr1_pageBase (va : W64) : useTtbr1 (pageBase va) = useTtbr1 va := by
  unfold useTtbr1
  rw [getLsbD_pageBase va (by decide)]
  simp

theorem getLsbD_stripTag (va : W64) {i : Nat} (hi : i < 64) :
    (stripTag va).getLsbD i = (va.getLsbD i && decide (i < 56)) := by
  have e : ~~~((0xFF : W64) <<< 56) = ((1 : W64) <<< 56) - 1 := by decide
  unfold stripTag
  rw [e, BitVec.getLsbD_and, getLsbD_ones (by decide) hi]

theorem useTtbr1_stripTag (va : W64) : useTtbr1 (stripTag va) = useTtbr1 va := by
  unfold useTtbr1
  rw [getLsbD_stripTag va (by decide)]
  simp

@[simp] theorem useTtbr1_walkVa (tcr va : W64) : useTtbr1 (walkVa tcr va) = useTtbr1 va := by
  unfold walkVa
  split
  · exact useTtbr1_stripTag va
  · rfl

@[simp] theorem tagged_walkVa (tcr va : W64) : tagged tcr (walkVa tcr va) = tagged tcr va := by
  unfold tagged
  rw [useTtbr1_walkVa]

@[simp] theorem stripTag_stripTag (va : W64) : stripTag (stripTag va) = stripTag va := by
  unfold stripTag
  rw [BitVec.and_assoc, BitVec.and_self]

@[simp] theorem walkVa_walkVa (tcr va : W64) : walkVa tcr (walkVa tcr va) = walkVa tcr va := by
  have h := tagged_walkVa tcr va
  unfold walkVa at h ⊢
  by_cases ht : tagged tcr va
  · simp only [ht, if_true] at h ⊢
    rw [if_pos h, stripTag_stripTag]
  · simp only [ht, if_false, Bool.false_eq_true]

theorem tagged_pageBase (tcr va : W64) : tagged tcr (pageBase va) = tagged tcr va := by
  unfold tagged
  rw [useTtbr1_pageBase]

theorem stripTag_pageBase (va : W64) : stripTag (pageBase va) = pageBase (stripTag va) := by
  unfold stripTag pageBase
  rw [BitVec.and_assoc, BitVec.and_assoc, BitVec.and_comm (~~~pageMask)]

theorem walkVa_pageBase (tcr va : W64) :
    walkVa tcr (pageBase va) = pageBase (walkVa tcr va) := by
  unfold walkVa
  rw [tagged_pageBase]
  split
  · exact stripTag_pageBase va
  · rfl

theorem tableIndex_pageBase (va : W64) (level : Nat) :
    tableIndex (pageBase va) level = tableIndex va level := by
  unfold tableIndex
  rw [ushiftRight_pageBase va (by unfold levelShift; omega)]

theorem regionOk_pageBase (va : W64) {inputsize : Nat} (h : 12 ≤ inputsize) (addrsize : Nat)
    (ttbr1 : Bool) :
    regionOk (pageBase va) inputsize addrsize ttbr1 = regionOk va inputsize addrsize ttbr1 := by
  unfold regionOk
  rw [ushiftRight_pageBase va h]

/-- the sign rule, bit by bit -/
theorem regionOk_iff (va : W64) {n a : Nat} (hn : 0 < n) (ha : a ≤ 64) (r : Bool) :
    regionOk va n a r = true ↔ ∀ i, n ≤ i → i < a → va.getLsbD i = r := by
  unfold regionOk
  by_cases hna : n ≥ a
  · rw [if_pos hna]
    refine ⟨fun _ i h1 h2 => ?_, fun _ => rfl⟩
    omega
  · have hw : ¬ a - n ≥ 64 := by omega
    rw [if_neg hna]
    simp only [hw, if_false]
    have hbit : ∀ j, j < 64 → ((va >>> n) &&& (((1 : W64) <<< (a - n)) - 1)).getLsbD j =
        (va.getLsbD (n + j) && decide (j < a - n)) := by
      intro j hj
      rw [BitVec.getLsbD_and, BitVec.getLsbD_ushiftRight, getLsbD_ones (by omega) hj]
    cases r with
    | true =>
      simp only [if_true, beq_iff_eq]
      constructor
      · intro h i h1 h2
        have := hbit (i - n) (by omega)
        rw [h, getLsbD_ones (by omega) (by omega), Nat.add_sub_cancel' h1] at this
        simpa [show i - n < a - n by omega] using this.symm
      · intro h
        apply BitVec.eq_of_getLsbD_eq
        intro j hj
        rw [hbit j hj, getLsbD_ones (by omega) hj]
        by_cases hja : j < a - n
        · simp [hja, h (n + j) (by omega) (by omega)]
        · simp [hja]
    | false =>
      simp only [Bool.false_eq_true, if_false, beq_iff_eq]
      constructor
      · intro h i h1 h2
        have := hbit (i - n) (by omega)
        rw [h, Nat.add_sub_cancel' h1] at this
        simpa [show i - n < a - n by omega] using this.symm
      · intro h
        apply BitVec.eq_of_getLsbD_eq
        intro j hj
        rw [hbit j hj]
        by_cases hja : j < a - n
        · simp [hja, h (n + j) (by omega) (by omega)]
        · simp [hja]

/-! ## the walk of a page -/

/-- the answer for an address, from the answer for its page -/
def relocate (va : W64) : Except WalkFault Leaf → Except WalkFault Leaf
  | .error f => .error { f with far := va }
  | .ok l => .ok { l with pa := pageBase l.pa ||| (va &&& pageMask) }

theorem outBits_ge (tcr : W64) : 12 ≤ outBits tcr := by
  unfold outBits paRangeId
  split
  · decide
  · rename_i h
    interval_cases tcrPs tcr <;> decide

theorem leafAddr_page (a va : W64) {s : Nat} (h12 : 12 ≤ s) (hs : s < 64) :
    (a &&& ~~~(((1 : W64) <<< s) - 1)) ||| (va &&& (((1 : W64) <<< s) - 1)) =
      pageBase ((a &&& ~~~(((1 : W64) <<< s) - 1)) |||
        (pageBase va &&& (((1 : W64) <<< s) - 1))) ||| (va &&& pageMask) := by
  apply BitVec.eq_of_getLsbD_eq
  intro i hi
  simp only [BitVec.getLsbD_or, BitVec.getLsbD_and, BitVec.getLsbD_not, getLsbD_pageBase _ hi,
    getLsbD_ones hs hi, getLsbD_pageMask hi]
  by_cases h : i < 12
  · have h1 : i < s := by omega
    have h2 : ¬ 12 ≤ i := by omega
    simp [h, h1, h2]
  · have h2 : 12 ≤ i := by omega
    simp [h, h2]

theorem leafAddr_shift (a va : W64) {s n : Nat} (h12 : 12 ≤ s) (hs : s < 64) (hn : 12 ≤ n) :
    ((a &&& ~~~(((1 : W64) <<< s) - 1)) ||| (va &&& (((1 : W64) <<< s) - 1))) >>> n =
      ((a &&& ~~~(((1 : W64) <<< s) - 1)) |||
        (pageBase va &&& (((1 : W64) <<< s) - 1))) >>> n := by
  rw [leafAddr_page a va h12 hs, ← ushiftRight_pageBase _ hn, pageBase_or_mask,
    ushiftRight_pageBase _ hn]

theorem walkLeaf_page (va : W64) {out level : Nat} (ho : 12 ≤ out) (hl : level ≤ 3)
    (tattrs : BitVec 5) (raw : W64) :
    walkLeaf va out level tattrs raw =
      relocate va (walkLeaf (pageBase va) out level tattrs raw) := by
  have h12 : 12 ≤ levelShift level := by
    unfold levelShift
    omega
  have h64 : levelShift level < 64 := by
    unfold levelShift
    omega
  unfold walkLeaf
  simp only [leafAddr_shift _ va h12 h64 ho]
  split
  · rfl
  · split
    · rfl
    · split
      · rfl
      · split
        · rfl
        · split
          · rfl
          · simp only [relocate]
            rw [leafAddr_page _ va h12 h64]

variable {σ : Type}

theorem walkTable_page (phys : Memops σ) (va : W64) {out : Nat} (ho : 12 ≤ out) (rem : Nat) :
    ∀ (base : W64) (tattrs : BitVec 5) (p : σ),
      walkTable phys va out rem base tattrs p =
        (relocate va (walkTable phys (pageBase va) out rem base tattrs p).1,
          (walkTable phys (pageBase va) out rem base tattrs p).2) := by
  induction rem with
  | zero =>
    intro base tattrs p
    unfold walkTable
    rw [tableIndex_pageBase]
    rcases phys.read p (base ||| tableIndex va 3) .dword false with ⟨st, raw, p'⟩
    cases st <;> try rfl
    dsimp only
    rw [walkLeaf_page va ho (le_refl 3)]
  | succ rem ih =>
    intro base tattrs p
    unfold walkTable
    simp only [tableIndex_pageBase]
    rcases phys.read p (base ||| tableIndex va (2 - rem)) .dword false with ⟨st, raw, p'⟩
    cases st <;> try rfl
    dsimp only
    split
    · split
      · rfl
      · rw [ih]
    · rw [walkLeaf_page va ho (by omega)]

theorem startLevel_some {n l : Nat} (h : startLevel n = some l) : 25 ≤ n ∧ n ≤ 48 ∧ l ≤ 2 := by
  unfold startLevel at h
  split at h
  · cases h
  · rename_i hn
    have e : 4 - (n - 4) / 9 = l := by simpa using h
    omega

/-- the walk is keyed on the tag-stripped address -/
theorem walkStage1_walkVa (sr : Sysregs) (phys : Memops σ) (va : W64) (p : σ) :
    walkStage1 sr phys (walkVa (sr.val .tcrEl1) va) p = walkStage1 sr phys va p := by
  unfold walkStage1
  simp only [useTtbr1_walkVa, tagged_walkVa, walkVa_walkVa]

/-- the walk sees the page, and carries the offset over -/
theorem walkStage1_page (sr : Sysregs) (phys : Memops σ) (va : W64) (p : σ) :
    walkStage1 sr phys va p =
      (relocate (walkVa (sr.val .tcrEl1) va) (walkStage1 sr phys (pageBase va) p).1,
        (walkStage1 sr phys (pageBase va) p).2) := by
  unfold walkStage1
  simp only [useTtbr1_pageBase, tagged_pageBase, walkVa_pageBase]
  cases hs : startLevel (64 - regionTsz (sr.val .tcrEl1) (useTtbr1 va)) with
  | none => rfl
  | some level =>
    dsimp only
    rw [regionOk_pageBase _ (by have := startLevel_some hs; omega)]
    split
    · rfl
    · split
      · rfl
      · split
        · rfl
        · rw [walkTable_page phys _ (outBits_ge _)]

/-- the walk reads three of the five epoch registers -/
theorem walkStage1_congr {sr sr' : Sysregs} (h : tlbEpochRead sr = tlbEpochRead sr')
    (phys : Memops σ) (va : W64) (p : σ) : walkStage1 sr phys va p = walkStage1 sr' phys va p := by
  have ht : sr.val .tcrEl1 = sr'.val .tcrEl1 := congrArg Epoch.tcr h
  have h0 : sr.val .ttbr0El1 = sr'.val .ttbr0El1 := congrArg Epoch.ttbr0 h
  have h1 : sr.val .ttbr1El1 = sr'.val .ttbr1El1 := congrArg Epoch.ttbr1 h
  unfold walkStage1 regionTtbr
  rw [ht, h0, h1]

theorem walkLeaf_level {va : W64} {out level : Nat} {tattrs : BitVec 5} {raw : W64} {l : Leaf}
    (h : walkLeaf va out level tattrs raw = .ok l) : l.level = level ∧ level ≠ 0 := by
  unfold walkLeaf at h
  dsimp only at h
  split at h
  · cases h
  · split at h
    · cases h
    · split at h
      · cases h
      · split at h
        · cases h
        · split at h
          · cases h
          · rename_i h0 _ _
            cases h
            exact ⟨rfl, h0⟩

theorem walkTable_level (phys : Memops σ) (va : W64) (out rem : Nat) {l : Leaf} :
    ∀ (base : W64) (tattrs : BitVec 5) (p : σ),
      (walkTable phys va out rem base tattrs p).1 = .ok l → l.level ≠ 0 := by
  induction rem with
  | zero =>
    intro base tattrs p h
    unfold walkTable at h
    rcases hr : phys.read p (base ||| tableIndex va 3) .dword false with ⟨st, raw, p'⟩
    rw [hr] at h
    cases st <;> first | cases h | skip
    rw [(walkLeaf_level h).1]
    exact (walkLeaf_level h).2
  | succ rem ih =>
    intro base tattrs p h
    unfold walkTable at h
    dsimp only at h
    rcases hr : phys.read p (base ||| tableIndex va (2 - rem)) .dword false with ⟨st, raw, p'⟩
    rw [hr] at h
    cases st <;> first | cases h | skip
    dsimp only at h
    split at h
    · split at h
      · cases h
      · exact ih _ _ _ h
    · rw [(walkLeaf_level h).1]
      exact (walkLeaf_level h).2

theorem walkStage1_level {sr : Sysregs} {phys : Memops σ} {va : W64} {p : σ} {l : Leaf}
    (h : (walkStage1 sr phys va p).1 = .ok l) : l.level ≠ 0 := by
  unfold walkStage1 at h
  dsimp only at h
  split at h
  · cases h
  · split at h
    · cases h
    · split at h
      · cases h
      · split at h
        · cases h
        · exact walkTable_level phys _ _ _ _ _ _ h

/-! ## the TLB as a memo table -/

/-- what an entry remembers of a leaf -/
structure Line where
  pa : W64
  level : Nat
  ap : BitVec 2
  xn : Bool
  pxn : Bool
deriving DecidableEq

def Leaf.line (l : Leaf) : Line := ⟨pageBase l.pa, l.level, l.ap, l.xn, l.pxn⟩

def TlbEntry.line (e : TlbEntry) : Line := ⟨e.pa, e.level, e.ap, e.xn, e.pxn⟩

/-- the table a TLB holds -/
def Mmu.lines (m : Mmu) : Memo.Table (BitVec 12) W64 Line :=
  fun i => if (m.tlb i).level = 0 then none else some ((m.tlb i).va, (m.tlb i).line)

theorem lines_congr {m m' : Mmu} (h : m.tlb = m'.tlb) : m.lines = m'.lines := by
  unfold Mmu.lines
  rw [h]

/-- the line held for the page of an address -/
def Mmu.line (m : Mmu) (va : W64) : Option Line := Memo.lookup tlbIndex m.lines (pageBase va)

def walkLine (sr : Sysregs) (phys : Memops σ) (p : σ) (page : W64) : Option Line :=
  match (walkStage1 sr phys page p).1 with
  | .ok l => some l.line
  | .error _ => none

/-- the verdict on an access a line serves -/
def Line.serve (l : Line) (va : W64) (cur : El) (isWrite isFetch : Bool) : Except MmuFault W64 :=
  if permits l.ap l.xn l.pxn (cur == .el0) isWrite isFetch then .ok (l.pa ||| (va &&& pageMask))
  else .error ⟨composeEsr cur isFetch isWrite .permission l.level, va⟩

theorem tlbFlags_unpack :
    ∀ (ap : BitVec 2) (xn pxn ng : Bool),
      (tlbFlags ap xn pxn ng).extractLsb' 1 2 = ap ∧
      (tlbFlags ap xn pxn ng &&& tlbXn != 0) = xn ∧
      (tlbFlags ap xn pxn ng &&& tlbPxn != 0) = pxn := by
  decide

theorem tlbEntryOf_line (sr : Sysregs) (va : W64) (l : Leaf) :
    (tlbEntryOf sr va l).line = l.line := by
  obtain ⟨h1, h2, h3⟩ := tlbFlags_unpack l.ap l.xn l.pxn l.ng
  simp only [TlbEntry.line, tlbEntryOf, TlbEntry.ap, TlbEntry.xn, TlbEntry.pxn, Leaf.line, h1, h2,
    h3]

theorem lines_tlbFill (m : Mmu) (sr : Sysregs) (va : W64) {l : Leaf} (h : l.level ≠ 0) :
    (tlbFill m sr va l).lines = Memo.fill tlbIndex m.lines (pageBase va) l.line := by
  funext i
  by_cases hi : i = tlbIndex va
  · subst hi
    have e : (tlbEntryOf sr va l).va = pageBase va := rfl
    have e' : (tlbEntryOf sr va l).level = l.level := rfl
    simp [Mmu.lines, tlbFill, Memo.fill, tlbEntryOf_line, e, e', h]
  · simp [Mmu.lines, tlbFill, Memo.fill, hi]

theorem lines_flushAll (m : Mmu) (i : BitVec 12) : m.flushAll.lines i = none := by
  simp [Mmu.lines, Mmu.flushAll, TlbEntry.free]

def Mmu.countHit (m : Mmu) : Mmu := { m with tlbHits := m.tlbHits + 1 }

def Mmu.countMiss (m : Mmu) : Mmu := { m with tlbMisses := m.tlbMisses + 1 }

def TlbServed.ofVerdict : Except MmuFault W64 → TlbServed
  | .ok pa => .served pa
  | .error f => .denied f

/-- a lookup is a lookup in the table, and touches the counters only -/
theorem tlbLookup_eq (m : Mmu) (va : W64) (cur : El) (isWrite isFetch : Bool) :
    tlbLookup m va cur isWrite isFetch =
      match m.line va with
      | none => (.miss, m.countMiss)
      | some l => (.ofVerdict (l.serve va cur isWrite isFetch), m.countHit) := by
  unfold tlbLookup Mmu.line Memo.lookup
  simp only [Mmu.lines, tlbIndex_pageBase]
  by_cases h0 : (m.tlb (tlbIndex va)).level = 0
  · simp [h0, Mmu.countMiss]
  · by_cases hv : (m.tlb (tlbIndex va)).va = pageBase va
    · simp only [h0, hv, Line.serve, TlbEntry.line, if_false, if_true, ne_eq, not_true_eq_false,
        or_self]
      by_cases hp : permits (m.tlb (tlbIndex va)).ap (m.tlb (tlbIndex va)).xn
          (m.tlb (tlbIndex va)).pxn (cur == .el0) isWrite isFetch
      · simp [hp, TlbServed.ofVerdict, Mmu.countHit]
      · simp [hp, TlbServed.ofVerdict, Mmu.countHit]
    · simp [h0, hv, Mmu.countMiss]

/-- a translation by the line of its page: served from it, or walked -/
theorem translate_eq (sr : Sysregs) (phys : Memops σ) (w : MmuWorld σ) (va : W64) (cur : El)
    (isWrite isFetch : Bool) :
    translate sr phys w va cur isWrite isFetch =
      if cacheable sr cur then
        match (epochCheck w.mmu sr).line (walkVa (sr.val .tcrEl1) va) with
        | some l =>
          (l.serve (walkVa (sr.val .tcrEl1) va) cur isWrite isFetch,
            { w with mmu := (epochCheck w.mmu sr).countHit })
        | none =>
          translateMiss sr phys { w with mmu := (epochCheck w.mmu sr).countMiss } va cur isWrite
            isFetch
      else
        translateMiss sr phys { w with mmu := epochCheck w.mmu sr } va cur isWrite isFetch := by
  unfold translate
  simp only [tlbLookup_eq]
  split
  · cases (epochCheck w.mmu sr).line (walkVa (sr.val .tcrEl1) va) with
    | none => rfl
    | some l =>
      dsimp only
      cases l.serve (walkVa (sr.val .tcrEl1) va) cur isWrite isFetch <;> rfl
  · rfl

theorem walk_of_line {sr : Sysregs} {phys : Memops σ} {va : W64} {cur : El} {p : σ} {l : Line}
    (isWrite isFetch : Bool) (hc : cacheable sr cur)
    (h : walkLine sr phys p (pageBase (walkVa (sr.val .tcrEl1) va)) = some l) :
    (walk sr phys va cur isWrite isFetch p).1.answer cur isWrite isFetch =
      l.serve (walkVa (sr.val .tcrEl1) va) cur isWrite isFetch := by
  obtain ⟨hm, h3⟩ : sctlrM (sr.val .sctlrEl1) = true ∧ cur ≠ .el3 := by
    simpa [cacheable] using hc
  have hw := walkStage1_page sr phys (walkVa (sr.val .tcrEl1) va) p
  rw [walkStage1_walkVa, walkVa_walkVa] at hw
  unfold walkLine at h
  rcases hp : walkStage1 sr phys (pageBase (walkVa (sr.val .tcrEl1) va)) p with ⟨r, p'⟩
  rw [hp] at h hw
  cases r with
  | error f => cases h
  | ok l' =>
    have e : l = l'.line := by simpa using h.symm
    subst e
    simp only [relocate] at hw
    unfold walk
    simp only [h3, hm, hw, if_false, Bool.not_true, Bool.false_eq_true, checkLeaf, Line.serve,
      Leaf.line]
    by_cases hok : permits l'.ap l'.xn l'.pxn (cur == .el0) isWrite isFetch
    · simp only [hok, if_true, WalkResult.answer]
    · simp only [hok, if_false, Bool.false_eq_true, WalkResult.answer, WalkFault.record]

end Oemu
