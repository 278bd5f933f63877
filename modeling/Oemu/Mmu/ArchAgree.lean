import Oemu.Mmu.ArchWalk

/-!
# When the walk is the architecture's

The layer reads the tag controls and the output size at other bits of `TCR_EL1` than the
architecture, indexes the start table with nine bits whatever the input size, reports a fault before
the first table read at other levels, takes a level-3 descriptor of the reserved type for a page, and
decides execution by another table.

* `GeometryAgrees`     the registers and the address for which the first three do not show;
* `stage1_agree`       under it the walks to a leaf differ on reserved pages only;
* `AgreesOnTables`     agreement on every table forces it;
* `walk_archWalk_iff`  the two together.
-/

namespace Oemu

/-! ## the start of a walk -/

theorem startLevel_arch {n : Nat} (h : 25 ≤ n) (h' : n ≤ 48) :
    startLevel n = some (archStartLevel n) := by
  unfold startLevel archStartLevel
  rw [if_neg (by omega)]
  congr 2
  omega

/-- the start table has at most 512 entries and lies below level 3 -/
theorem archStartLevel_bounds {n : Nat} (h : 25 ≤ n) (h' : n ≤ 48) :
    archStartLevel n ≤ 2 ∧ archShift (archStartLevel n) < n ∧
      n ≤ archShift (archStartLevel n) + 9 := by
  unfold archShift archStartLevel
  omega

theorem regionOk_arch {va : W64} {n a : Nat} (hn : 0 < n) (ha : a ≤ 64) :
    regionOk va n a (va.getLsbD 55) = true ↔ ArchInRegion va n a := by
  rw [regionOk_iff va hn ha]
  exact ⟨fun h i _ h1 h2 => h i h1 h2, fun h i h1 h2 => h i (by omega) h1 h2⟩

theorem getLsbD_ttbrBase (ttbr : W64) {i : Nat} (hi : i < 64) :
    (ttbrBase ttbr).getLsbD i = (ttbr.getLsbD i && decide (i < 48) && decide (i ≠ 0)) := by
  have e : (((1 : W64) <<< 48) - 2 : W64) =
      (((1 : W64) <<< 48) - 1 : W64) &&& ~~~(((1 : W64) <<< 1) - 1) := by
    decide
  unfold ttbrBase
  rw [e, BitVec.getLsbD_and, BitVec.getLsbD_and, BitVec.getLsbD_not, getLsbD_ones (by decide) hi,
    getLsbD_ones (by decide) hi]
  by_cases h : i = 0
  · simp [h]
  · have h1 : ¬ i < 1 := by omega
    simp [h, h1, hi]

theorem getLsbD_archTtbrBase (ttbr : W64) {x i : Nat} (hx : x < 64) (hi : i < 64) :
    (archTtbrBase ttbr x).getLsbD i = (ttbr.getLsbD i && decide (i < 48) && decide (x ≤ i)) := by
  unfold archTtbrBase
  rw [BitVec.getLsbD_and, BitVec.getLsbD_and, BitVec.getLsbD_not, getLsbD_ones (by decide) hi,
    getLsbD_ones hx hi]
  by_cases h : i < x
  · have h' : ¬ x ≤ i := by omega
    simp [h, h']
  · have h' : x ≤ i := by omega
    simp [h, h', hi]

/-- the two bases have the same bits from 12 up -/
theorem ttbrBase_ushiftRight (ttbr : W64) {x k : Nat} (hx : x ≤ 12) (hk : 12 ≤ k) :
    ttbrBase ttbr >>> k = archTtbrBase ttbr x >>> k := by
  apply BitVec.eq_of_getLsbD_eq
  intro i hi
  rw [BitVec.getLsbD_ushiftRight, BitVec.getLsbD_ushiftRight]
  by_cases h : k + i < 64
  · rw [getLsbD_ttbrBase ttbr h, getLsbD_archTtbrBase ttbr (by omega) h]
    have h0 : k + i ≠ 0 := by omega
    have h1 : x ≤ k + i := by omega
    simp only [h0, h1, ne_eq, not_false_eq_true, decide_true]
  · rw [BitVec.getLsbD_of_ge _ _ (by omega), BitVec.getLsbD_of_ge _ _ (by omega)]

theorem getLsbD_tableIndex (va : W64) {level i : Nat} (hi : i < 64) :
    (tableIndex va level).getLsbD i =
      (decide (3 ≤ i ∧ i < 12) && va.getLsbD (levelShift level + (i - 3))) := by
  have e : (0x1FF : W64) = ((1 : W64) <<< 9) - 1 := by decide
  unfold tableIndex
  rw [BitVec.getLsbD_shiftLeft, BitVec.getLsbD_and, BitVec.getLsbD_ushiftRight, e]
  by_cases h3 : 3 ≤ i
  · rw [getLsbD_ones (by decide) (by omega)]
    have h3' : ¬ i < 3 := by omega
    by_cases h12 : i < 12
    · have h9 : i - 3 < 9 := by omega
      simp [hi, h3, h3', h12, h9]
    · have h9 : ¬ i - 3 < 9 := by omega
      simp [h12, h9]
  · have h3' : i < 3 := by omega
    simp [h3, h3']

theorem getLsbD_archStartIndex (va : W64) {n level i : Nat} (hn : n < 64) (hi : i < 64) :
    (archStartIndex va n level).getLsbD i =
      (decide (3 ≤ i ∧ archShift level + (i - 3) < n) &&
        va.getLsbD (archShift level + (i - 3))) := by
  unfold archStartIndex
  rw [BitVec.getLsbD_shiftLeft, BitVec.getLsbD_ushiftRight, BitVec.getLsbD_and]
  by_cases h3 : 3 ≤ i
  · have h3' : ¬ i < 3 := by omega
    by_cases hk : archShift level + (i - 3) < 64
    · rw [getLsbD_ones hn hk]
      simp [hi, h3, h3', Bool.and_comm]
    · rw [BitVec.getLsbD_of_ge _ _ (by omega)]
      simp
  · have h3' : i < 3 := by omega
    simp [h3, h3']

theorem entry_eq_iff (ttbr : W64) {va : W64} {n a : Nat} (h : 25 ≤ n) (h' : n ≤ 48) (ha : 56 ≤ a)
    (hr : ArchInRegion va n a) :
    (ttbrBase ttbr &&& ~~~pageMask) ||| tableIndex va (archStartLevel n) =
        archTtbrBase ttbr (archTableBits n (archStartLevel n)) |||
          archStartIndex va n (archStartLevel n) ↔
      ∀ i, archTableBits n (archStartLevel n) ≤ i → i < 12 →
        ttbr.getLsbD i = va.getLsbD 55 := by
  obtain ⟨hl, hs1, hs2⟩ := archStartLevel_bounds h h'
  have hbit : ∀ i, i < 64 →
      ((ttbrBase ttbr &&& ~~~pageMask) ||| tableIndex va (archStartLevel n)).getLsbD i =
        ((ttbr.getLsbD i && decide (12 ≤ i ∧ i < 48)) || (decide (3 ≤ i ∧ i < 12) &&
          va.getLsbD (archShift (archStartLevel n) + (i - 3)))) := by
    intro i hi
    rw [BitVec.getLsbD_or, getLsbD_tableIndex va hi, levelShift_eq (by omega),
      show ttbrBase ttbr &&& ~~~pageMask = pageBase (ttbrBase ttbr) from rfl,
      getLsbD_pageBase _ hi, getLsbD_ttbrBase ttbr hi]
    by_cases h12 : 12 ≤ i
    · have h0 : i ≠ 0 := by omega
      simp [h12, h0]
    · simp [h12]
  have hbit' : ∀ i, i < 64 →
      (archTtbrBase ttbr (archTableBits n (archStartLevel n)) |||
          archStartIndex va n (archStartLevel n)).getLsbD i =
        ((ttbr.getLsbD i && decide (archTableBits n (archStartLevel n) ≤ i ∧ i < 48)) ||
          (decide (3 ≤ i ∧ i < archTableBits n (archStartLevel n)) &&
            va.getLsbD (archShift (archStartLevel n) + (i - 3)))) := by
    intro i hi
    rw [BitVec.getLsbD_or, getLsbD_archTtbrBase ttbr (by unfold archTableBits; omega) hi,
      getLsbD_archStartIndex va (by omega) hi]
    have e : (3 ≤ i ∧ archShift (archStartLevel n) + (i - 3) < n) ↔
        (3 ≤ i ∧ i < archTableBits n (archStartLevel n)) := by
      unfold archTableBits
      omega
    simp only [e, Bool.decide_and]
    cases ttbr.getLsbD i <;> simp [Bool.and_comm]
  have hx : archTableBits n (archStartLevel n) ≤ 12 := by
    unfold archTableBits
    omega
  have hx' : 3 < archTableBits n (archStartLevel n) := by
    unfold archTableBits
    omega
  have hmid : ∀ i, archTableBits n (archStartLevel n) ≤ i → i < 12 →
      va.getLsbD (archShift (archStartLevel n) + (i - 3)) = va.getLsbD 55 := by
    intro i h1 h2
    unfold archTableBits at h1
    have hsh : archShift (archStartLevel n) ≤ 39 := by
      unfold archShift
      omega
    exact hr _ (by omega) (by omega) (by omega)
  constructor
  · intro he i h1 h2
    have := congrArg (fun b : W64 => b.getLsbD i) he
    rw [hbit i (by omega), hbit' i (by omega), hmid i h1 h2] at this
    have e1 : ¬ 12 ≤ i := by omega
    have e2 : 3 ≤ i := by omega
    have e3 : ¬ i < archTableBits n (archStartLevel n) := by omega
    have e4 : i < 48 := by omega
    simp [e1, e2, e3, e4, h1, h2] at this
    exact this.symm
  · intro hi
    apply BitVec.eq_of_getLsbD_eq
    intro i hi64
    rw [hbit i hi64, hbit' i hi64]
    by_cases h1 : i < archTableBits n (archStartLevel n)
    · have e1 : ¬ 12 ≤ i := by omega
      have e2 : ¬ archTableBits n (archStartLevel n) ≤ i := by omega
      have e3 : i < 12 := by omega
      simp [e1, e2, e3, h1]
    · by_cases h2 : i < 12
      · rw [hmid i (by omega) h2, hi i (by omega) h2]
        have e1 : ¬ 12 ≤ i := by omega
        have e2 : 3 ≤ i := by omega
        have e4 : i < 48 := by omega
        have e5 : archTableBits n (archStartLevel n) ≤ i := by omega
        simp [e1, e2, e4, e5, h1, h2]
      · have e1 : 12 ≤ i := by omega
        have e5 : archTableBits n (archStartLevel n) ≤ i := by omega
        simp [e1, e5, h1, h2]


/-! ## the condition -/

section
variable (sr : Sysregs) (va : W64)

def inputSize : Nat := 64 - regionTsz (sr.val .tcrEl1) (va.getLsbD 55)

/-- the tag control read at bits 24 and 63 is the one at bits 37 and 38, or it cannot matter: the
tag is clear already, and for the high region the address is refused with or without it -/
def TagAgrees : Prop :=
  tagged (sr.val .tcrEl1) va = archTbi (sr.val .tcrEl1) (va.getLsbD 55) ∨
    (stripTag va = va ∧ (va.getLsbD 55 = false ∨ ¬ ArchInRegion va (inputSize sr va) 56 ∨
      regionEpd (sr.val .tcrEl1) (va.getLsbD 55) = true))

/-- the table base is in range, the output size read at bits 32:27 is the one at bits 34:32, and the
base has, below bit 12 and above the start table, the bits the nine-bit start index puts there: those
of the region's sign -/
structure StartAgrees : Prop where
  base : archBase sr va >>> archOutBits (sr.val .tcrEl1) = 0
  size : tcrPs (sr.val .tcrEl1) = 0 ↔ archIps (sr.val .tcrEl1) = 0
  index : ∀ i, archTableBits (inputSize sr va) (archStartLevel (inputSize sr va)) ≤ i → i < 12 →
    (regionTtbr sr (va.getLsbD 55)).getLsbD i = va.getLsbD 55

/-- the register fields the layer reads give the architecture's geometry for an address, and one it
refuses has its walk start at level 0, the level of that fault -/
structure GeometryAgrees : Prop where
  tag : TagAgrees sr va
  start : ArchGo (sr.val .tcrEl1) va → StartAgrees sr va
  refused : ¬ ArchGo (sr.val .tcrEl1) va → archStartLevel (inputSize sr va) = 0

end

section
variable {sr : Sysregs} {va : W64}

/-- both region sizes are ones the granule can walk -/
def SizesOk (sr : Sysregs) : Prop :=
  ∀ r, 16 ≤ regionTsz (sr.val .tcrEl1) r ∧ regionTsz (sr.val .tcrEl1) r ≤ 39

theorem inputSize_bounds (h : SizesOk sr) (va : W64) :
    25 ≤ inputSize sr va ∧ inputSize sr va ≤ 48 := by
  have := h (va.getLsbD 55)
  unfold inputSize
  omega

/-- the layer walks a table for an address -/
def WalkGo (sr : Sysregs) (va : W64) : Prop :=
  regionOk (walkVa (sr.val .tcrEl1) va) (inputSize sr va) (addrSize (tagged (sr.val .tcrEl1) va))
      (va.getLsbD 55) = true ∧
    regionEpd (sr.val .tcrEl1) (va.getLsbD 55) = false

theorem addrSize_le (b : Bool) : 56 ≤ addrSize b ∧ addrSize b ≤ 64 := by
  cases b <;> decide

theorem walkVa_clear {tcr : W64} (h : stripTag va = va) : walkVa tcr va = va := by
  unfold walkVa
  rw [h]
  split <;> rfl

theorem archVa_clear {tcr : W64} (h : stripTag va = va) : archVa tcr va = va := by
  unfold archVa
  rw [h]
  split <;> rfl

theorem getLsbD_of_clear (h : stripTag va = va) {i : Nat} (h1 : 56 ≤ i) : va.getLsbD i = false := by
  by_cases hi : i < 64
  · rw [← h, getLsbD_stripTag va hi]
    have : ¬ i < 56 := by omega
    simp [this]
  · exact BitVec.getLsbD_of_ge _ _ (by omega)

theorem ArchInRegion.mono {n a b : Nat} (h : ArchInRegion va n b) (hab : a ≤ b) :
    ArchInRegion va n a :=
  fun i hi h1 h2 => h i hi h1 (by omega)

/-- the region check of the layer on a clear tag, for either width -/
theorem walkGo_clear (hs : SizesOk sr) (hc : stripTag va = va) :
    WalkGo sr va ↔ ArchInRegion va (inputSize sr va) (addrSize (tagged (sr.val .tcrEl1) va)) ∧
      regionEpd (sr.val .tcrEl1) (va.getLsbD 55) = false := by
  have hb := inputSize_bounds hs va
  unfold WalkGo
  rw [walkVa_clear hc, regionOk_arch (by omega) (addrSize_le _).2]

theorem archGo_clear (hc : stripTag va = va) :
    ArchGo (sr.val .tcrEl1) va ↔
      ArchInRegion va (inputSize sr va) (addrSize (archTbi (sr.val .tcrEl1) (va.getLsbD 55))) ∧
      regionEpd (sr.val .tcrEl1) (va.getLsbD 55) = false := by
  unfold ArchGo
  rw [archVa_clear hc]
  rfl

/-- on a clear tag in the low region the width is immaterial -/
theorem archInRegion_low (hc : stripTag va = va) (h55 : va.getLsbD 55 = false) (n : Nat)
    (b c : Bool) : ArchInRegion va n (addrSize b) → ArchInRegion va n (addrSize c) := by
  intro h i hi h1 h2
  by_cases h56 : i < 56
  · exact h i hi h1 (by have := addrSize_le b; omega)
  · rw [getLsbD_of_clear hc (by omega), h55]

theorem TagAgrees.spec (hs : SizesOk sr) (h : TagAgrees sr va) :
    walkVa (sr.val .tcrEl1) va = archVa (sr.val .tcrEl1) va ∧
      (WalkGo sr va ↔ ArchGo (sr.val .tcrEl1) va) := by
  have hb := inputSize_bounds hs va
  rcases h with h | ⟨hc, h⟩
  · have hv : walkVa (sr.val .tcrEl1) va = archVa (sr.val .tcrEl1) va := by
      unfold walkVa archVa
      rw [h]
    refine ⟨hv, ?_⟩
    have h55 : (walkVa (sr.val .tcrEl1) va).getLsbD 55 = va.getLsbD 55 := useTtbr1_walkVa _ va
    unfold WalkGo ArchGo
    rw [← hv, ← h, ← h55, regionOk_arch (by omega) (addrSize_le _).2, h55]
    rfl
  · refine ⟨by rw [walkVa_clear hc, archVa_clear hc], ?_⟩
    rw [walkGo_clear hs hc, archGo_clear hc]
    rcases h with h | h | h
    · exact and_congr_left fun _ => ⟨archInRegion_low hc h _ _ _, archInRegion_low hc h _ _ _⟩
    · constructor
      · intro hg
        exact absurd (hg.1.mono (addrSize_le _).1) h
      · intro hg
        exact absurd (hg.1.mono (addrSize_le _).1) h
    · simp only [h, Bool.true_eq_false, and_false]

/-! ## the walk under the condition -/

variable {σ : Type}

theorem walkStage1_refused (hs : SizesOk sr) (h : ¬ WalkGo sr va) (phys : Memops σ) (p : σ) :
    walkStage1 sr phys va p =
      (.error ⟨.translation, (archStartLevel (inputSize sr va) : Nat),
        walkVa (sr.val .tcrEl1) va⟩, p) := by
  have hb := inputSize_bounds hs va
  unfold walkStage1
  dsimp only
  rw [show 64 - regionTsz (sr.val .tcrEl1) (useTtbr1 va) = inputSize sr va from rfl,
    startLevel_arch hb.1 hb.2]
  dsimp only
  split
  · rfl
  · rename_i hr
    rw [if_pos]
    simp only [Bool.not_eq_true', Bool.not_eq_false] at hr
    by_contra he
    exact h ⟨hr, Bool.not_eq_true _ |>.mp he⟩

theorem walkStage1_go (hs : SizesOk sr) (h : WalkGo sr va) (phys : Memops σ) (p : σ) :
    walkStage1 sr phys va p =
      if ttbrBase (regionTtbr sr (va.getLsbD 55)) >>> outBits (sr.val .tcrEl1) ≠ 0 then
        (.error ⟨.addressSize, -1, walkVa (sr.val .tcrEl1) va⟩, p)
      else
        walkTable phys (walkVa (sr.val .tcrEl1) va) (outBits (sr.val .tcrEl1))
          (3 - archStartLevel (inputSize sr va))
          (ttbrBase (regionTtbr sr (va.getLsbD 55)) &&& ~~~pageMask) 0 p := by
  have hb := inputSize_bounds hs va
  have hr := h.1
  have he := h.2
  unfold walkStage1
  dsimp only
  rw [show 64 - regionTsz (sr.val .tcrEl1) (useTtbr1 va) = inputSize sr va from rfl,
    startLevel_arch hb.1 hb.2]
  dsimp only
  rw [show useTtbr1 va = va.getLsbD 55 from rfl, hr, he]
  rfl

theorem archStage1_refused (h : ¬ ArchGo (sr.val .tcrEl1) va) (phys : Memops σ) (p : σ) :
    archStage1 sr phys va p = (.error ⟨.translation, 0, archVa (sr.val .tcrEl1) va⟩, p) := by
  unfold archStage1
  dsimp only
  split
  · rfl
  · rename_i hr
    rw [if_pos]
    by_contra he
    exact h ⟨by simpa using hr, by simpa using he⟩

theorem archStage1_go (h : ArchGo (sr.val .tcrEl1) va) (phys : Memops σ) (p : σ) :
    archStage1 sr phys va p =
      if archBase sr va >>> archOutBits (sr.val .tcrEl1) ≠ 0 then
        (.error ⟨.addressSize, 0, archVa (sr.val .tcrEl1) va⟩, p)
      else
        archDescend phys (archVa (sr.val .tcrEl1) va) (archOutBits (sr.val .tcrEl1))
          (3 - archStartLevel (inputSize sr va)) (archEntry sr va) .none p := by
  unfold archStage1
  dsimp only
  rw [if_neg (not_not_intro h.1), h.2]
  rfl

theorem outBits_cases (tcr : W64) : outBits tcr = 32 ∨ outBits tcr = 36 := by
  rw [outBits_eq]
  split
  · exact .inl rfl
  · exact .inr rfl

theorem archOutBits_cases (tcr : W64) : archOutBits tcr = 32 ∨ archOutBits tcr = 36 := by
  unfold archOutBits
  split
  · exact .inl rfl
  · exact .inr rfl

theorem outBits_eq_arch_iff (tcr : W64) :
    outBits tcr = archOutBits tcr ↔ (tcrPs tcr = 0 ↔ archIps tcr = 0) := by
  rw [outBits_eq]
  unfold archOutBits
  by_cases h : tcrPs tcr = 0 <;> by_cases h' : archIps tcr = 0 <;> simp [h, h']

theorem ushiftRight_ne_zero_of_le {b : W64} {j k : Nat} (hjk : j ≤ k) (h : b >>> k ≠ 0) :
    b >>> j ≠ 0 := by
  intro h0
  apply h
  have e : b >>> k = b >>> j >>> (k - j) := by
    rw [← BitVec.shiftRight_add, Nat.add_sub_cancel' hjk]
  rw [e, h0]
  simp

theorem ttbrBase_archBase (hs : SizesOk sr) (va : W64) {k : Nat} (hk : 12 ≤ k) :
    ttbrBase (regionTtbr sr (va.getLsbD 55)) >>> k = archBase sr va >>> k := by
  have hb := inputSize_bounds hs va
  have := archStartLevel_bounds hb.1 hb.2
  apply ttbrBase_ushiftRight _ _ hk
  change archTableBits (inputSize sr va) (archStartLevel (inputSize sr va)) ≤ 12
  unfold archTableBits
  omega

/-- the entries are the same exactly when the base has the sign bits below bit 12 -/
theorem archEntry_eq_iff (hs : SizesOk sr) (hg : ArchGo (sr.val .tcrEl1) va) :
    (ttbrBase (regionTtbr sr (va.getLsbD 55)) &&& ~~~pageMask) |||
        tableIndex (archVa (sr.val .tcrEl1) va) (archStartLevel (inputSize sr va)) =
        archEntry sr va ↔
      ∀ i, archTableBits (inputSize sr va) (archStartLevel (inputSize sr va)) ≤ i → i < 12 →
        (regionTtbr sr (va.getLsbD 55)).getLsbD i = va.getLsbD 55 := by
  have hb := inputSize_bounds hs va
  have h55 : (archVa (sr.val .tcrEl1) va).getLsbD 55 = va.getLsbD 55 := by
    unfold archVa
    split
    · exact useTtbr1_stripTag va
    · rfl
  have h := entry_eq_iff (regionTtbr sr (va.getLsbD 55)) hb.1 hb.2 (addrSize_le _).1 hg.1
  rwa [h55] at h

theorem stage1_agree (hs : SizesOk sr) (h : GeometryAgrees sr va) (phys : Memops σ) (p : σ) :
    (¬ ReservedPage sr phys va p → walkStage1 sr phys va p = archStage1 sr phys va p) ∧
    (ReservedPage sr phys va p →
      (archStage1 sr phys va p).1 = .error ⟨.translation, 3, archVa (sr.val .tcrEl1) va⟩ ∧
        ∀ f, (walkStage1 sr phys va p).1 = .error f → f.cls ≠ .translation) := by
  obtain ⟨hv, hgo⟩ := h.tag.spec hs
  have hb := inputSize_bounds hs va
  by_cases hg : ArchGo (sr.val .tcrEl1) va
  · have hw := hgo.mpr hg
    rw [walkStage1_go hs hw, archStage1_go hg, hv,
      ttbrBase_archBase hs va (outBits_ge _)]
    obtain ⟨hbase, hps, hindex⟩ := h.start hg
    rw [(outBits_eq_arch_iff _).mpr hps, hbase, if_neg (not_not_intro rfl),
      if_neg (not_not_intro rfl)]
    have he := (archEntry_eq_iff hs hg).mpr hindex
    have hlv := (archStartLevel_bounds hb.1 hb.2).1
    have e3 : 3 - (3 - archStartLevel (inputSize sr va)) = archStartLevel (inputSize sr va) := by
      omega
    have hsim : HierSim 0 .none := ⟨rfl, rfl, rfl, rfl⟩
    have hd := walkTable_archDescend phys (archVa (sr.val .tcrEl1) va)
      (archOutBits (sr.val .tcrEl1)) (3 - archStartLevel (inputSize sr va)) (by omega)
      (ttbrBase (regionTtbr sr (va.getLsbD 55)) &&& ~~~pageMask) 0 .none p hsim
    have hr := walkTable_reserved phys (archVa (sr.val .tcrEl1) va)
      (archOutBits (sr.val .tcrEl1)) (3 - archStartLevel (inputSize sr va)) (by omega)
      (ttbrBase (regionTtbr sr (va.getLsbD 55)) &&& ~~~pageMask) 0 .none p
    rw [e3, he] at hd hr
    exact ⟨fun hn => hd fun hc => hn ⟨hg, hbase, hc⟩, fun hc => hr hc.2.2⟩
  · have hw : ¬ WalkGo sr va := fun hc => hg (hgo.mp hc)
    rw [walkStage1_refused hs hw, archStage1_refused hg, hv, h.refused hg]
    exact ⟨fun _ => rfl, fun hr => absurd hr.1 hg⟩

/-! ## the answers -/

theorem walk_outcome (hm : sctlrM (sr.val .sctlrEl1) = true) (phys : Memops σ) {cur : El}
    (hc : cur ≠ .el3) (isWrite isFetch : Bool) (p : σ) :
    (walk sr phys va cur isWrite isFetch p).1.outcome =
      match (walkStage1 sr phys va p).1 with
      | .error f => .error f
      | .ok l =>
        if permits l.ap l.xn l.pxn (cur == .el0) isWrite isFetch then .ok l.pa
        else .error ⟨.permission, l.level, walkVa (sr.val .tcrEl1) va⟩ := by
  unfold walk
  rw [if_neg hc, hm]
  rcases walkStage1 sr phys va p with ⟨r, p'⟩
  cases r with
  | error f => rfl
  | ok l =>
    simp only [Bool.not_true, Bool.false_eq_true, if_false]
    unfold checkLeaf
    split
    · rfl
    · rfl

/-- with the geometry the same, the walk is the architecture's unless it ends on a reserved page, or
fetches from a page whose execution the layer decides otherwise -/
theorem walk_agree (hm : sctlrM (sr.val .sctlrEl1) = true) (hs : SizesOk sr)
    (h : GeometryAgrees sr va) (phys : Memops σ) {cur : El} (hc : cur ≠ .el3)
    (isWrite isFetch : Bool) (p : σ) :
    (walk sr phys va cur isWrite isFetch p).1.outcome =
        archWalk sr phys va cur isWrite isFetch p ↔
      ¬ ReservedPage sr phys va p ∧ ¬ (isFetch = true ∧ ExecutePage sr phys va cur p) := by
  obtain ⟨hno, hyes⟩ := stage1_agree hs h phys p
  rw [walk_outcome hm phys hc]
  by_cases hr : ReservedPage sr phys va p
  · refine iff_of_false ?_ fun hc => hc.1 hr
    intro he
    obtain ⟨ha, hw⟩ := hyes hr
    unfold archWalk at he
    rw [ha] at he
    cases hst : (walkStage1 sr phys va p).1 with
    | error f =>
      rw [hst] at he
      cases he
      exact hw _ hst rfl
    | ok l =>
      rw [hst] at he
      dsimp only at he
      split at he
      · cases he
      · cases he
  · rw [hno hr]
    unfold archWalk ExecutePage
    cases hst : (archStage1 sr phys va p).1 with
    | error f =>
      refine iff_of_true rfl ⟨hr, ?_⟩
      rintro ⟨-, l, hl, -⟩
      cases hl
    | ok l =>
      have hiff := permits_eq_iff (sr.val .sctlrEl1) (cur == .el0) isWrite isFetch l
      have hex : (∃ l', (Except.ok l : Except WalkFault Leaf) = .ok l' ∧
          ExecutesOtherwise (sr.val .sctlrEl1) (cur == .el0) l') ↔
          ExecutesOtherwise (sr.val .sctlrEl1) (cur == .el0) l := by
        constructor
        · rintro ⟨l', hl, he⟩
          cases hl
          exact he
        · intro he
          exact ⟨l, rfl, he⟩
      rw [hex, ← hiff, (h.tag.spec hs).1]
      dsimp only
      cases permits l.ap l.xn l.pxn (cur == .el0) isWrite isFetch <;>
        cases (archRights (sr.val .sctlrEl1) (cur == .el0) l).allows isWrite isFetch <;>
        simp [hr]

/-! ## tables that tell the geometries apart -/

theorem archDescend_unbacked (va : W64) (out rem : Nat) (entry : W64) (h : Hier) :
    archDescend Memory.memops va out rem entry h emptyMemory =
      (.error ⟨.translationNoWalk, -1, va⟩, emptyMemory) := by
  cases rem <;> rfl

theorem not_reachesReserved_unbacked (va : W64) (out rem : Nat) (entry : W64) :
    ¬ ReachesReserved Memory.memops va out rem entry emptyMemory := by
  cases rem <;> exact not_false

theorem Memory.find_one (r : Region) (cap : Nat) (heap : Nat → BitVec 8) (gva : W64)
    (perms : W32) :
    Memory.find ⟨[r], cap, heap⟩ gva 8 perms = if holds r gva 8 perms then some r else none := by
  unfold Memory.find
  rw [if_neg (by decide), List.find?_cons]
  cases holds r gva 8 perms <;> rfl

/-- one readable descriptor, an invalid one -/
def cellMemory (a : W64) : Memory := ⟨[⟨a, 8, permRead, 0, false⟩], 1, fun _ => 0⟩

theorem cellMemory_read (a : W64) : (cellMemory a).read a .dword false = (.ok, 0) := by
  have hf : (cellMemory a).find a 8 permRead = some ⟨a, 8, permRead, 0, false⟩ := by
    unfold cellMemory
    rw [Memory.find_one, if_pos (Memory.holds_iff.mpr ⟨BitVec.and_self, le_refl _, by simp, by simp⟩)]
  unfold Memory.read
  rw [show BitVec.ofNat 64 MemSize.dword.bytes = (8 : W64) from rfl, hf]
  have hz : disassemble (fun _ => 0) 8 = 0 := by decide
  exact congrArg (Prod.mk Status.ok) hz

theorem cellMemory_read_of_ne {a b : W64} (h : a ≠ b) :
    (cellMemory a).read b .dword false = (.fault, 0) := by
  have hf : (cellMemory a).find b 8 permRead = none := by
    have hh : ¬ Memory.holds ⟨a, 8, permRead, 0, false⟩ b 8 permRead = true := by
      intro hc
      obtain ⟨-, h1, -, h3⟩ := Memory.holds_iff.mp hc
      have h8 : (8 : W64).toNat = 8 := rfl
      dsimp only at h1 h3
      rw [h8] at h3
      exact h (BitVec.eq_of_toNat_eq (by omega))
    unfold cellMemory
    rw [Memory.find_one, if_neg hh]
  unfold Memory.read
  rw [show BitVec.ofNat 64 MemSize.dword.bytes = (8 : W64) from rfl, hf]

/-- every descriptor is a table at bit 33, or a page there with a clear access flag -/
def loopMemory : Memory :=
  ⟨[⟨0, (1 : W64) <<< 36, permRead, 0, false⟩], 1,
    fun i => if i % 8 = 0 then 3 else if i % 8 = 4 then 2 else 0⟩

def loopDesc : W64 := 0x200000003

theorem loopMemory_read {e : W64} (h : e >>> 36 = 0) (h8 : e.toNat % 8 = 0) :
    loopMemory.read e .dword false = (.ok, loopDesc) := by
  have hlt : e.toNat < 2 ^ 36 := by
    have := congrArg BitVec.toNat h
    rw [BitVec.toNat_ushiftRight, Nat.shiftRight_eq_div_pow] at this
    have h0 : (0 : W64).toNat = 0 := rfl
    rw [h0] at this
    omega
  have hf : loopMemory.find e 8 permRead =
      some ⟨0, (1 : W64) <<< 36, permRead, 0, false⟩ := by
    unfold loopMemory
    rw [Memory.find_one, if_pos]
    have h36 : ((1 : W64) <<< 36).toNat = 2 ^ 36 := by decide
    have e8 : (8 : W64).toNat = 8 := rfl
    have e0 : (0 : W64).toNat = 0 := rfl
    rw [Memory.holds_iff]
    dsimp only
    rw [h36, e8, e0]
    exact ⟨by decide, by omega, by omega, by omega⟩
  unfold Memory.read
  rw [show BitVec.ofNat 64 MemSize.dword.bytes = (8 : W64) from rfl, hf]
  have hz : (fun i => loopMemory.heap (0 + (e - 0).toNat + i)) = loopMemory.heap := by
    funext i
    have e0 : e - 0 = e := BitVec.sub_zero e
    have e1 : (0 + (e - 0).toNat + i) % 8 = i % 8 := by
      rw [e0]
      omega
    show (if _ then _ else _) = (if _ then _ else _)
    rw [e1]
  dsimp only
  rw [hz]
  have hd : disassemble loopMemory.heap 8 = loopDesc := by decide
  exact congrArg (Prod.mk Status.ok) hd

theorem toNat_mod_eight {e : W64} (h : ∀ i < 3, e.getLsbD i = false) : e.toNat % 8 = 0 := by
  apply Nat.eq_of_testBit_eq
  intro i
  rw [show 8 = 2 ^ 3 from rfl, Nat.testBit_mod_two_pow, Nat.zero_testBit]
  by_cases hi : i < 3
  · have := h i hi
    rw [BitVec.getLsbD] at this
    rw [this, Bool.and_false]
  · rw [decide_eq_false hi, Bool.false_and]

def LoopEntry (e : W64) : Prop := e >>> 36 = 0 ∧ ∀ i < 3, e.getLsbD i = false

theorem LoopEntry.read {e : W64} (h : LoopEntry e) :
    Memory.memops.read loopMemory e .dword false = (.ok, loopDesc, loopMemory) := by
  show (_, _, _) = _
  rw [loopMemory_read h.1 (toNat_mod_eight h.2)]

theorem loopEntry_next (va : W64) (level : Nat) :
    LoopEntry ((loopDesc &&& descAddrMask) ||| archIndex va level) := by
  have hd : loopDesc &&& descAddrMask = 0x200000000 := by decide
  have hi : archIndex va level = (((va >>> archShift level).setWidth 9).setWidth 64) <<< 3 := by
    unfold archIndex
    congr 1
    apply BitVec.eq_of_getLsbD_eq
    intro i hi
    rw [show (0x1FF : W64) = ((1 : W64) <<< 9) - 1 by decide, BitVec.getLsbD_and,
      getLsbD_ones (by decide) hi]
    simp only [BitVec.getLsbD_setWidth, hi, decide_true, Bool.true_and]
    exact Bool.and_comm _ _
  rw [hd, hi]
  generalize (va >>> archShift level).setWidth 9 = b
  refine ⟨?_, ?_⟩
  · have hb : (((b.setWidth 64 : W64) <<< 3) >>> 36 : W64) = 0 := by
      apply BitVec.eq_of_toNat_eq
      have := b.isLt
      simp only [BitVec.toNat_ushiftRight, BitVec.toNat_shiftLeft, BitVec.toNat_setWidth,
        Nat.shiftLeft_eq, Nat.shiftRight_eq_div_pow]
      show _ = 0
      omega
    rw [BitVec.ushiftRight_or_distrib, hb]
    decide
  · intro i hi
    rw [BitVec.getLsbD_or, BitVec.getLsbD_shiftLeft, decide_eq_true hi]
    have h0 : ∀ i < 3, (0x200000000 : W64).getLsbD i = false := by decide
    rw [h0 i hi]
    simp

/-- with 32 output bits the first table is refused -/
theorem archDescend_loop32 (va : W64) {rem : Nat} {entry : W64} (he : LoopEntry entry) (h : Hier)
    (hrem : 1 ≤ rem) :
    (archDescend Memory.memops va 32 rem entry h loopMemory).1 =
      .error ⟨.addressSize, (3 - rem : Nat), va⟩ := by
  obtain ⟨rem, rfl⟩ := Nat.exists_eq_add_of_le' hrem
  unfold archDescend
  dsimp only
  rw [he.read]
  dsimp only
  rw [(descKind_table _ (by omega)).mpr (by decide)]
  dsimp only
  rw [if_pos (by decide)]
  have e : 2 - rem = 3 - (rem + 1) := by omega
  rw [e]

/-- with 36 the descent goes down to a page -/
theorem archDescend_loop36 (va : W64) {rem : Nat} {entry : W64} (he : LoopEntry entry) (h : Hier) :
    (archDescend Memory.memops va 36 rem entry h loopMemory).1 = .error ⟨.accessFlag, 3, va⟩ := by
  induction rem generalizing entry h with
  | zero =>
    unfold archDescend
    rw [he.read]
    have hk : descKind 3 loopDesc = .leaf := by decide
    have hp : archOutput va 3 loopDesc >>> 36 = 0 := by
      have h1 : loopDesc &&& descAddrMask &&& ~~~(((1 : W64) <<< archShift 3) - 1) =
          0x200000000 := by decide
      have h2 : ((1 : W64) <<< archShift 3) - 1 = pageMask := by decide
      have h3 : (va &&& pageMask) >>> 36 = 0 := by
        apply BitVec.eq_of_getLsbD_eq
        intro i hi
        rw [BitVec.getLsbD_ushiftRight, BitVec.getLsbD_and, show (0 : W64) = 0#64 from rfl,
          BitVec.getLsbD_zero]
        by_cases hk : 36 + i < 64
        · rw [getLsbD_pageMask hk]
          have : ¬ 36 + i < 12 := by omega
          simp [this]
        · rw [BitVec.getLsbD_of_ge _ _ (by omega), Bool.false_and]
      unfold archOutput
      rw [BitVec.ushiftRight_or_distrib, h1, h2, h3]
      decide
    have hf : (!loopDesc.getLsbD 10) = true := by decide
    simp only [hk, archLeaf, hp, hf, ne_eq, not_true_eq_false, if_false, if_true]
    rfl
  | succ rem ih =>
    unfold archDescend
    dsimp only
    rw [he.read]
    dsimp only
    rw [(descKind_table _ (by omega)).mpr (by decide)]
    dsimp only
    rw [if_neg (by decide)]
    exact ih (loopEntry_next va _) _

theorem not_reachesReserved_loop (va : W64) (out : Nat) {rem : Nat} {entry : W64}
    (he : LoopEntry entry) : ¬ ReachesReserved Memory.memops va out rem entry loopMemory := by
  induction rem generalizing entry with
  | zero =>
    unfold ReachesReserved
    rw [he.read]
    decide
  | succ rem ih =>
    unfold ReachesReserved
    rw [he.read]
    rintro ⟨-, -, h⟩
    exact ih (loopEntry_next va _) h

/-! ## what agreement on every table forces -/

/-- the walk is the architecture's on every memory where it ends on no reserved page, and fetches
from no page whose execution the layer decides otherwise -/
def AgreesOnTables (sr : Sysregs) (va : W64) : Prop :=
  ∀ (p : Memory) (cur : El) (isWrite isFetch : Bool), cur ≠ .el3 →
    ¬ ReservedPage sr Memory.memops va p →
    ¬ (isFetch = true ∧ ExecutePage sr Memory.memops va cur p) →
    (walk sr Memory.memops va cur isWrite isFetch p).1.outcome =
      archWalk sr Memory.memops va cur isWrite isFetch p

theorem AgreesOnTables.faults (h : AgreesOnTables sr va) (hm : sctlrM (sr.val .sctlrEl1) = true)
    {p : Memory} (hr : ¬ ReservedPage sr Memory.memops va p) {f g : WalkFault}
    (hf : (walkStage1 sr Memory.memops va p).1 = .error f)
    (hg : (archStage1 sr Memory.memops va p).1 = .error g) : f = g := by
  have := h p .el1 false false (by decide) hr (fun hc => Bool.false_ne_true hc.1)
  rw [walk_outcome hm _ (by decide), hf] at this
  unfold archWalk at this
  rw [hg] at this
  cases this
  rfl

theorem not_reservedPage_empty : ¬ ReservedPage sr Memory.memops va emptyMemory :=
  fun h => not_reachesReserved_unbacked _ _ _ _ h.2.2

theorem walkStage1_empty (hs : SizesOk sr) (h : WalkGo sr va) :
    (walkStage1 sr Memory.memops va emptyMemory).1 =
      .error ⟨if archBase sr va >>> outBits (sr.val .tcrEl1) ≠ 0 then .addressSize
        else .translationNoWalk, -1, walkVa (sr.val .tcrEl1) va⟩ := by
  rw [walkStage1_go hs h, ttbrBase_archBase hs va (outBits_ge _), walkTable_unbacked]
  split <;> rfl

theorem archStage1_empty (h : ArchGo (sr.val .tcrEl1) va) :
    (archStage1 sr Memory.memops va emptyMemory).1 =
      .error (if archBase sr va >>> archOutBits (sr.val .tcrEl1) ≠ 0
        then ⟨.addressSize, 0, archVa (sr.val .tcrEl1) va⟩
        else ⟨.translationNoWalk, -1, archVa (sr.val .tcrEl1) va⟩) := by
  rw [archStage1_go h, archDescend_unbacked]
  split <;> rfl

theorem archStage1_empty_cls (h : ArchGo (sr.val .tcrEl1) va) :
    ∃ f, (archStage1 sr Memory.memops va emptyMemory).1 = .error f ∧ f.cls ≠ .translation ∧
      f.far = archVa (sr.val .tcrEl1) va := by
  refine ⟨_, archStage1_empty h, ?_, ?_⟩
  · split <;> exact FaultClass.noConfusion
  · split <;> rfl

theorem archStage1_empty_far (sr : Sysregs) (va : W64) :
    ∃ f, (archStage1 sr Memory.memops va emptyMemory).1 = .error f ∧
      f.far = archVa (sr.val .tcrEl1) va := by
  by_cases h : ArchGo (sr.val .tcrEl1) va
  · obtain ⟨f, hf, -, hfar⟩ := archStage1_empty_cls h
    exact ⟨f, hf, hfar⟩
  · rw [archStage1_refused h]
    exact ⟨_, rfl, rfl⟩

theorem empty_cls_ne (c : Prop) [Decidable c] :
    (if c then FaultClass.addressSize else .translationNoWalk) ≠ .translation := by
  split <;> exact FaultClass.noConfusion

theorem AgreesOnTables.walkGo_iff (h : AgreesOnTables sr va)
    (hm : sctlrM (sr.val .sctlrEl1) = true) (hs : SizesOk sr) :
    WalkGo sr va ↔ ArchGo (sr.val .tcrEl1) va := by
  constructor
  · intro hw
    by_contra hg
    have := h.faults hm not_reservedPage_empty (walkStage1_empty hs hw)
      (congrArg Prod.fst (archStage1_refused hg Memory.memops emptyMemory))
    exact empty_cls_ne _ (congrArg WalkFault.cls this)
  · intro hg
    by_contra hw
    obtain ⟨f, hf, hcls, -⟩ := archStage1_empty_cls hg
    have := h.faults hm not_reservedPage_empty
      (congrArg Prod.fst (walkStage1_refused hs hw Memory.memops emptyMemory)) hf
    exact hcls (congrArg WalkFault.cls this).symm

/-- an address the architecture refuses faults at level 0, and the layer at the start level -/
theorem AgreesOnTables.refused (h : AgreesOnTables sr va)
    (hm : sctlrM (sr.val .sctlrEl1) = true) (hs : SizesOk sr) (hg : ¬ ArchGo (sr.val .tcrEl1) va) :
    archStartLevel (inputSize sr va) = 0 := by
  have hw : ¬ WalkGo sr va := fun hc => hg ((h.walkGo_iff hm hs).mp hc)
  have he := h.faults hm not_reservedPage_empty
    (congrArg Prod.fst (walkStage1_refused hs hw Memory.memops emptyMemory))
    (congrArg Prod.fst (archStage1_refused hg Memory.memops emptyMemory))
  have hl : ((archStartLevel (inputSize sr va) : Nat) : Int) = 0 := congrArg WalkFault.level he
  omega

/-- a base out of range faults at level 0, and in the layer without one -/
theorem AgreesOnTables.base (h : AgreesOnTables sr va) (hm : sctlrM (sr.val .sctlrEl1) = true)
    (hs : SizesOk sr) (hg : ArchGo (sr.val .tcrEl1) va) :
    archBase sr va >>> archOutBits (sr.val .tcrEl1) = 0 := by
  by_contra hbig
  have ha := archStage1_empty hg
  rw [if_pos hbig] at ha
  have he := h.faults hm not_reservedPage_empty
    (walkStage1_empty hs ((h.walkGo_iff hm hs).mpr hg)) ha
  have hl : (-1 : Int) = 0 := congrArg WalkFault.level he
  exact absurd hl (by decide)

theorem AgreesOnTables.va_eq (h : AgreesOnTables sr va) (hm : sctlrM (sr.val .sctlrEl1) = true) :
    walkVa (sr.val .tcrEl1) va = archVa (sr.val .tcrEl1) va := by
  obtain ⟨f, hf, hfar⟩ := walkStage1_unbacked sr va
  obtain ⟨g, hg, hgar⟩ := archStage1_empty_far sr va
  rw [← hfar, ← hgar, h.faults hm not_reservedPage_empty hf hg]

/-- a clear tag is not a sign extension in the high region -/
theorem not_archInRegion_high (hc : stripTag va = va) (h55 : va.getLsbD 55 = true) {n : Nat}
    (hn : n ≤ 56) : ¬ ArchInRegion va n 64 := by
  intro h
  have := h 56 (by decide) hn (by decide)
  rw [getLsbD_of_clear hc (le_refl 56), h55] at this
  cases this

theorem AgreesOnTables.tag (h : AgreesOnTables sr va) (hm : sctlrM (sr.val .sctlrEl1) = true)
    (hs : SizesOk sr) : TagAgrees sr va := by
  have hv := h.va_eq hm
  have hgo := h.walkGo_iff hm hs
  have hb := inputSize_bounds hs va
  by_cases ht : tagged (sr.val .tcrEl1) va = archTbi (sr.val .tcrEl1) (va.getLsbD 55)
  · exact .inl ht
  · have hc : stripTag va = va := by
      unfold walkVa archVa at hv
      cases h1 : tagged (sr.val .tcrEl1) va <;>
        cases h2 : archTbi (sr.val .tcrEl1) (va.getLsbD 55) <;>
        simp only [h1, h2, if_true, if_false, Bool.false_eq_true] at hv ht
      · exact absurd trivial ht
      · exact hv.symm
      · exact hv
      · exact absurd trivial ht
    refine .inr ⟨hc, ?_⟩
    by_contra hn
    simp only [not_or, not_not, Bool.not_eq_false, Bool.not_eq_true] at hn
    obtain ⟨h55, hin, hepd⟩ := hn
    have hhigh := not_archInRegion_high hc h55 (show inputSize sr va ≤ 56 by omega)
    rw [walkGo_clear hs hc, archGo_clear hc, hepd] at hgo
    simp only [and_true] at hgo
    cases h1 : tagged (sr.val .tcrEl1) va <;>
      cases h2 : archTbi (sr.val .tcrEl1) (va.getLsbD 55) <;> rw [h1, h2] at ht hgo
    · exact ht rfl
    · exact hhigh (hgo.mpr hin)
    · exact hhigh (hgo.mp hin)
    · exact ht rfl

theorem ttbrBase_page_loop {ttbr : W64} (va : W64) (level : Nat) (h : ttbrBase ttbr >>> 36 = 0) :
    LoopEntry ((ttbrBase ttbr &&& ~~~pageMask) ||| tableIndex va level) := by
  refine ⟨?_, ?_⟩
  · have hp : (ttbrBase ttbr &&& ~~~pageMask) >>> 36 = 0 := by
      rw [show ttbrBase ttbr &&& ~~~pageMask = pageBase (ttbrBase ttbr) from rfl,
        ushiftRight_pageBase _ (by decide), h]
    rw [BitVec.ushiftRight_or_distrib, hp]
    apply BitVec.eq_of_getLsbD_eq
    intro i hi
    rw [BitVec.getLsbD_or, BitVec.getLsbD_ushiftRight, show (0 : W64) = 0#64 from rfl,
      BitVec.getLsbD_zero, Bool.false_or]
    by_cases hk : 36 + i < 64
    · rw [getLsbD_tableIndex va hk]
      have : ¬ (3 ≤ 36 + i ∧ 36 + i < 12) := by omega
      rw [decide_eq_false this, Bool.false_and]
    · exact BitVec.getLsbD_of_ge _ _ (by omega)
  · intro i hi
    rw [BitVec.getLsbD_or, getLsbD_tableIndex va (by omega),
      show ttbrBase ttbr &&& ~~~pageMask = pageBase (ttbrBase ttbr) from rfl,
      getLsbD_pageBase _ (by omega)]
    have h1 : ¬ 12 ≤ i := by omega
    have h2 : ¬ (3 ≤ i ∧ i < 12) := by omega
    rw [decide_eq_false h1, decide_eq_false h2, Bool.and_false, Bool.false_and, Bool.or_false]

theorem archEntry_loop (hs : SizesOk sr) (h : archBase sr va >>> 36 = 0) :
    LoopEntry (archEntry sr va) := by
  have hb := inputSize_bounds hs va
  obtain ⟨hl, hs1, hs2⟩ := archStartLevel_bounds hb.1 hb.2
  have he : archEntry sr va = archBase sr va |||
      archStartIndex (archVa (sr.val .tcrEl1) va) (inputSize sr va)
        (archStartLevel (inputSize sr va)) := rfl
  rw [he]
  refine ⟨?_, ?_⟩
  · rw [BitVec.ushiftRight_or_distrib, h]
    apply BitVec.eq_of_getLsbD_eq
    intro i hi
    rw [BitVec.getLsbD_or, BitVec.getLsbD_ushiftRight, show (0 : W64) = 0#64 from rfl,
      BitVec.getLsbD_zero, Bool.false_or]
    by_cases hk : 36 + i < 64
    · rw [getLsbD_archStartIndex _ (by omega) hk]
      have : ¬ (3 ≤ 36 + i ∧
          archShift (archStartLevel (inputSize sr va)) + (36 + i - 3) < inputSize sr va) := by
        omega
      rw [decide_eq_false this, Bool.false_and]
    · exact BitVec.getLsbD_of_ge _ _ (by omega)
  · intro i hi
    have hx : archBase sr va = archTtbrBase (regionTtbr sr (va.getLsbD 55))
        (archTableBits (inputSize sr va) (archStartLevel (inputSize sr va))) := rfl
    have hx3 : 3 < archTableBits (inputSize sr va) (archStartLevel (inputSize sr va)) := by
      unfold archTableBits
      omega
    have hx64 : archTableBits (inputSize sr va) (archStartLevel (inputSize sr va)) < 64 := by
      unfold archTableBits
      omega
    rw [BitVec.getLsbD_or, hx, getLsbD_archTtbrBase _ hx64 (by omega),
      getLsbD_archStartIndex _ (by omega) (by omega)]
    have h1 : ¬ archTableBits (inputSize sr va) (archStartLevel (inputSize sr va)) ≤ i := by omega
    have h2 : ¬ 3 ≤ i := by omega
    rw [decide_eq_false h1, Bool.and_false, decide_eq_false (fun hc => h2 hc.1), Bool.false_and,
      Bool.or_false]

/-- the descents over the loop memory show the output size in the class of the fault -/
def loopCls (out : Nat) : FaultClass := if out = 32 then .addressSize else .accessFlag

theorem archDescend_loop (va : W64) {out rem : Nat} {entry : W64} (he : LoopEntry entry) (h : Hier)
    (hrem : 1 ≤ rem) (ho : out = 32 ∨ out = 36) :
    ∃ f, (archDescend Memory.memops va out rem entry h loopMemory).1 = .error f ∧
      f.cls = loopCls out := by
  rcases ho with rfl | rfl
  · exact ⟨_, archDescend_loop32 va he h hrem, rfl⟩
  · exact ⟨_, archDescend_loop36 va he h, rfl⟩

theorem walkStage1_loop (hs : SizesOk sr) (h : WalkGo sr va) (hbase : archBase sr va >>> 32 = 0) :
    ∃ f, (walkStage1 sr Memory.memops va loopMemory).1 = .error f ∧
      f.cls = loopCls (outBits (sr.val .tcrEl1)) := by
  have hb := inputSize_bounds hs va
  have hl := (archStartLevel_bounds hb.1 hb.2).1
  have ho : archBase sr va >>> outBits (sr.val .tcrEl1) = 0 := by
    by_contra hne
    refine ushiftRight_ne_zero_of_le ?_ hne hbase
    rcases outBits_cases (sr.val .tcrEl1) with e | e <;> omega
  have h36 : archBase sr va >>> 36 = 0 := by
    by_contra hne
    exact ushiftRight_ne_zero_of_le (by decide) hne hbase
  have hent := ttbrBase_page_loop (walkVa (sr.val .tcrEl1) va)
    (archStartLevel (inputSize sr va)) ((ttbrBase_archBase hs va (by decide)).trans h36)
  have e3 : 3 - (3 - archStartLevel (inputSize sr va)) = archStartLevel (inputSize sr va) := by
    omega
  have hd := walkTable_archDescend Memory.memops (walkVa (sr.val .tcrEl1) va)
    (outBits (sr.val .tcrEl1)) (3 - archStartLevel (inputSize sr va)) (by omega)
    (ttbrBase (regionTtbr sr (va.getLsbD 55)) &&& ~~~pageMask) 0 .none loopMemory
    ⟨rfl, rfl, rfl, rfl⟩
  rw [e3] at hd
  rw [walkStage1_go hs h, ttbrBase_archBase hs va (outBits_ge _), ho,
    if_neg (not_not_intro rfl), hd (not_reachesReserved_loop _ _ hent)]
  exact archDescend_loop _ hent _ (by omega) (outBits_cases _)

theorem archStage1_loop (hs : SizesOk sr) (h : ArchGo (sr.val .tcrEl1) va)
    (hbase : archBase sr va >>> 32 = 0) :
    ∃ f, (archStage1 sr Memory.memops va loopMemory).1 = .error f ∧
      f.cls = loopCls (archOutBits (sr.val .tcrEl1)) := by
  have hb := inputSize_bounds hs va
  have hl := (archStartLevel_bounds hb.1 hb.2).1
  have ho : archBase sr va >>> archOutBits (sr.val .tcrEl1) = 0 := by
    by_contra hne
    refine ushiftRight_ne_zero_of_le ?_ hne hbase
    rcases archOutBits_cases (sr.val .tcrEl1) with e | e <;> omega
  have h36 : archBase sr va >>> 36 = 0 := by
    by_contra hne
    exact ushiftRight_ne_zero_of_le (by decide) hne hbase
  rw [archStage1_go h, ho, if_neg (not_not_intro rfl)]
  exact archDescend_loop _ (archEntry_loop hs h36) _ (by omega) (archOutBits_cases _)

theorem AgreesOnTables.outBits_eq (h : AgreesOnTables sr va)
    (hm : sctlrM (sr.val .sctlrEl1) = true) (hs : SizesOk sr) (hg : ArchGo (sr.val .tcrEl1) va)
    (h36 : archBase sr va >>> 36 = 0) : outBits (sr.val .tcrEl1) = archOutBits (sr.val .tcrEl1) := by
  have hw := (h.walkGo_iff hm hs).mpr hg
  have hbase := h.base hm hs hg
  by_cases h32 : archBase sr va >>> 32 = 0
  · obtain ⟨f, hf, hfc⟩ := walkStage1_loop hs hw h32
    obtain ⟨g, hgf, hgc⟩ := archStage1_loop hs hg h32
    have hr : ¬ ReservedPage sr Memory.memops va loopMemory :=
      fun hr => not_reachesReserved_loop _ _ (archEntry_loop hs h36) hr.2.2
    rw [h.faults hm hr hf hgf, hgc] at hfc
    rcases outBits_cases (sr.val .tcrEl1) with e | e <;>
      rcases archOutBits_cases (sr.val .tcrEl1) with e' | e' <;> rw [e, e'] at hfc ⊢ <;> cases hfc
  · have ha := archStage1_empty hg
    rw [hbase, if_neg (not_not_intro rfl)] at ha
    have hc := congrArg WalkFault.cls
      (h.faults hm not_reservedPage_empty (walkStage1_empty hs hw) ha)
    dsimp only at hc
    rcases outBits_cases (sr.val .tcrEl1) with e | e <;>
      rcases archOutBits_cases (sr.val .tcrEl1) with e' | e' <;> rw [e] at hc ⊢ <;> rw [e'] at hbase ⊢
    · rw [if_pos h32] at hc
      cases hc
    · exact absurd hbase h32

theorem walkStage1_cell (hs : SizesOk sr) (h : WalkGo sr va)
    (hbase : archBase sr va >>> outBits (sr.val .tcrEl1) = 0) :
    (walkStage1 sr Memory.memops va
        (cellMemory ((ttbrBase (regionTtbr sr (va.getLsbD 55)) &&& ~~~pageMask) |||
          tableIndex (walkVa (sr.val .tcrEl1) va) (archStartLevel (inputSize sr va))))).1 =
      .error ⟨.translation, (archStartLevel (inputSize sr va) : Nat),
        walkVa (sr.val .tcrEl1) va⟩ := by
  have hb := inputSize_bounds hs va
  have hl := (archStartLevel_bounds hb.1 hb.2).1
  rw [walkStage1_go hs h, ttbrBase_archBase hs va (outBits_ge _), hbase,
    if_neg (not_not_intro rfl)]
  have e : 3 - archStartLevel (inputSize sr va) = (2 - archStartLevel (inputSize sr va)) + 1 := by
    omega
  have e2 : 2 - (2 - archStartLevel (inputSize sr va)) = archStartLevel (inputSize sr va) := by
    omega
  rw [e]
  unfold walkTable
  simp only [e2, Memory.memops, cellMemory_read]
  have ht : (decodeDesc 0).table = false := by decide
  have hk : descKind (archStartLevel (inputSize sr va)) 0 = .invalid := rfl
  rw [ht, walkLeaf_invalid hk (by omega) (by omega)]
  rfl

theorem archStage1_cell (hs : SizesOk sr) (h : ArchGo (sr.val .tcrEl1) va)
    (hbase : archBase sr va >>> archOutBits (sr.val .tcrEl1) = 0) {a : W64}
    (hne : a ≠ archEntry sr va) :
    (archStage1 sr Memory.memops va (cellMemory a)).1 =
        .error ⟨.translationNoWalk, -1, archVa (sr.val .tcrEl1) va⟩ ∧
      ¬ ReservedPage sr Memory.memops va (cellMemory a) := by
  have hb := inputSize_bounds hs va
  have hl := (archStartLevel_bounds hb.1 hb.2).1
  have e : 3 - archStartLevel (inputSize sr va) = (2 - archStartLevel (inputSize sr va)) + 1 := by
    omega
  constructor
  · rw [archStage1_go h, hbase, if_neg (not_not_intro rfl), e]
    unfold archDescend
    simp only [Memory.memops, cellMemory_read_of_ne hne]
  · rintro ⟨-, -, hr⟩
    rw [show 64 - regionTsz (sr.val .tcrEl1) (va.getLsbD 55) = inputSize sr va from rfl, e] at hr
    unfold ReachesReserved at hr
    simp only [Memory.memops, cellMemory_read_of_ne hne] at hr

theorem AgreesOnTables.start (h : AgreesOnTables sr va) (hm : sctlrM (sr.val .sctlrEl1) = true)
    (hs : SizesOk sr) (hg : ArchGo (sr.val .tcrEl1) va) : StartAgrees sr va := by
  have hw := (h.walkGo_iff hm hs).mpr hg
  have hbase := h.base hm hs hg
  have h36 : archBase sr va >>> 36 = 0 := by
    by_contra hne
    refine ushiftRight_ne_zero_of_le ?_ hne hbase
    rcases archOutBits_cases (sr.val .tcrEl1) with e | e <;> omega
  have ho := h.outBits_eq hm hs hg h36
  refine ⟨hbase, (outBits_eq_arch_iff _).mp ho, (archEntry_eq_iff hs hg).mp ?_⟩
  by_contra hne
  obtain ⟨ha, hr⟩ := archStage1_cell hs hg hbase hne
  have hc := walkStage1_cell hs hw (by rw [ho]; exact hbase)
  rw [h.va_eq hm] at hc
  exact FaultClass.noConfusion (congrArg WalkFault.cls (h.faults hm hr hc ha))

end

/-! ## when the walk is the architecture's -/

/-- **with translation on and both sizes in range, the walk of an address is the architecture's on
all tables free of reserved page descriptors and of pages executed otherwise exactly when the register
fields agree for it, and then such a page is the only way to differ** -/
theorem walk_archWalk_iff (sr : Sysregs) (va : W64) (hm : sctlrM (sr.val .sctlrEl1) = true)
    (hs : SizesOk sr) :
    (AgreesOnTables sr va ↔ GeometryAgrees sr va) ∧
      (GeometryAgrees sr va → ∀ (σ : Type) (phys : Memops σ) (p : σ) (cur : El)
        (isWrite isFetch : Bool), cur ≠ .el3 →
          ((walk sr phys va cur isWrite isFetch p).1.outcome =
            archWalk sr phys va cur isWrite isFetch p ↔
              ¬ ReservedPage sr phys va p ∧ ¬ (isFetch = true ∧ ExecutePage sr phys va cur p))) := by
  refine ⟨⟨fun h => ⟨h.tag hm hs, h.start hm hs, h.refused hm hs⟩, ?_⟩, ?_⟩
  · intro h p cur iw ifx hc hr hx
    exact (walk_agree hm hs h Memory.memops hc iw ifx p).mpr ⟨hr, hx⟩
  · intro h σ phys p cur iw ifx hc
    exact walk_agree hm hs h phys hc iw ifx p

/-- translation on, 39-bit regions, tables at `0x1000` -/
def plainRegs : Sysregs := (probeRegs 0x1000).set .tcrEl1 0x190019

theorem walk_archWalk_iff_plain :
    sctlrM (plainRegs.val .sctlrEl1) = true ∧ SizesOk plainRegs ∧ AgreesOnTables plainRegs 0 := by
  have hs : SizesOk plainRegs := by
    intro r
    cases r <;> decide
  have hx : archTableBits (inputSize plainRegs 0) (archStartLevel (inputSize plainRegs 0)) = 12 := by
    decide
  have hgo : ArchGo (plainRegs.val .tcrEl1) 0 := ⟨by decide, by decide⟩
  refine ⟨by decide, hs, (walk_archWalk_iff plainRegs 0 (by decide) hs).1.mpr
    ⟨.inl (by decide), fun _ => ⟨by decide, by decide, fun i h1 h2 => ?_⟩, fun h => absurd hgo h⟩⟩
  rw [hx] at h1
  omega

/-- 25-bit regions, tables at `0x1000` -/
def reservedRegs : Sysregs := (probeRegs 0x1000).set .tcrEl1 0x270027

/-- a level-2 table at `0x1000` whose first entry is the table at `0x2000`, whose first entry has
the reserved type, the access flag and the address `0x5000` -/
def reservedTables : Memory :=
  ⟨[⟨0x1000, 0x2000, permRead, 0x1000, false⟩], 1, fun i =>
    if i = 0x1000 then 0x03 else if i = 0x1001 then 0x20
    else if i = 0x2000 then 0x01 else if i = 0x2001 then 0x54 else 0⟩

/-- a reserved descriptor at level 3 is mapped as a page -/
theorem walk_reserved_page :
    sctlrM (reservedRegs.val .sctlrEl1) = true ∧ SizesOk reservedRegs ∧
      (walk reservedRegs Memory.memops 0 .el1 false false reservedTables).1.outcome = .ok 0x5000 ∧
      archWalk reservedRegs Memory.memops 0 .el1 false false reservedTables =
        .error ⟨.translation, 3, 0⟩ := by
  refine ⟨by decide, ?_, by decide +kernel, by decide +kernel⟩
  intro r
  cases r <;> decide

end Oemu
