import Oemu.Mmu.Parity

/-!
# Translations that stay granted

A translation that has been granted is granted again, with the same address and whatever the
physical bus holds by then, as long as nothing evicts its line.  `Granted` is that state of the
translation layer; it does not mention the physical bus.

* `granted_of_translate`   an answered translation leaves itself granted;
* `Granted.translate`      a granted one is answered without touching the physical bus;
* `Granted.stable`         translating another address of the same access keeps it granted.
-/

namespace Oemu

variable {σ : Type} {sr : Sysregs} {phys : Memops σ} {w : MmuWorld σ} {va va' pa : W64} {cur : El}
  {isWrite isFetch : Bool}

/-- the line of an address is held and serves the access, or translation is off -/
def Granted (sr : Sysregs) (m : Mmu) (cur : El) (isWrite isFetch : Bool) (va pa : W64) : Prop :=
  if cacheable sr cur then
    m.epochValid = true ∧ m.epoch = tlbEpochRead sr ∧
      ∃ l, m.line (walkVa (sr.val .tcrEl1) va) = some l ∧
        l.serve (walkVa (sr.val .tcrEl1) va) cur isWrite isFetch = .ok pa
  else pa = va

theorem granted_iff {m : Mmu} (hc : cacheable sr cur = true) :
    Granted sr m cur isWrite isFetch va pa ↔
      m.epochValid = true ∧ m.epoch = tlbEpochRead sr ∧
        ∃ l, m.line (walkVa (sr.val .tcrEl1) va) = some l ∧
          l.serve (walkVa (sr.val .tcrEl1) va) cur isWrite isFetch = .ok pa := by
  unfold Granted
  rw [if_pos hc]

/-- the layer looks at its table and its epoch only -/
theorem Granted.congr {m m' : Mmu} (h : Granted sr m cur isWrite isFetch va pa)
    (hv : m'.epochValid = m.epochValid) (he : m'.epoch = m.epoch) (hl : m'.lines = m.lines) :
    Granted sr m' cur isWrite isFetch va pa := by
  unfold Granted Mmu.line at h ⊢
  rw [hv, he, hl]
  exact h

theorem epochCheck_lines_of_fresh {m : Mmu} (hv : m.epochValid = true)
    (he : m.epoch = tlbEpochRead sr) : (epochCheck m sr).lines = m.lines := by
  apply lines_congr
  unfold epochCheck
  simp [hv, he]

/-! ## what a translation does to the table -/

theorem walk_identity (hc : cacheable sr cur = false) (p : σ) :
    walk sr phys va cur isWrite isFetch p = (.identity va, p) := by
  unfold walk
  by_cases h3 : cur = .el3
  · rw [if_pos h3]
  · rw [if_neg h3]
    have hm : sctlrM (sr.val .sctlrEl1) = false := by simpa [cacheable, h3] using hc
    simp [hm]

theorem walk_not_identity (hc : cacheable sr cur = true) (p : σ) :
    (walk sr phys va cur isWrite isFetch p).1 ≠ .identity pa := by
  obtain ⟨hm, h3⟩ : sctlrM (sr.val .sctlrEl1) = true ∧ cur ≠ .el3 := by
    simpa [cacheable] using hc
  unfold walk checkLeaf
  simp only [h3, hm, if_false, Bool.not_true, Bool.false_eq_true]
  split
  · intro h
    cases h
  · dsimp only
    split <;>
      · intro h
        cases h

/-- a walk fills the line it is served from, or leaves the layer alone -/
theorem translateMiss_table (phys : Memops σ) (w : MmuWorld σ) (va : W64) (isWrite isFetch : Bool)
    (hc : cacheable sr cur = true) :
    (∃ l : Line, (translateMiss sr phys w va cur isWrite isFetch).1 =
          l.serve (walkVa (sr.val .tcrEl1) va) cur isWrite isFetch ∧ pageBase l.pa = l.pa ∧
        (translateMiss sr phys w va cur isWrite isFetch).2.mmu.lines =
          Memo.fill tlbIndex w.mmu.lines (pageBase (walkVa (sr.val .tcrEl1) va)) l) ∨
      (∃ f, (translateMiss sr phys w va cur isWrite isFetch).1 = .error f) ∧
        (translateMiss sr phys w va cur isWrite isFetch).2.mmu.lines = w.mmu.lines := by
  unfold translateMiss
  rcases hw : walk sr phys va cur isWrite isFetch w.phys with ⟨r, p⟩
  have hr : (walk sr phys va cur isWrite isFetch w.phys).1 = r := by rw [hw]
  cases r with
  | identity pa => exact absurd hr (walk_not_identity hc w.phys)
  | fault f => exact .inr ⟨⟨_, rfl⟩, rfl⟩
  | leaf l =>
    obtain ⟨hline, h0⟩ := walk_leaf_line hr
    refine .inl ⟨l.line, ?_, pageBase_pageBase l.pa, ?_⟩
    · rw [← walk_of_line isWrite isFetch hc hline, hr]
      rfl
    · simp only [hc, if_true]
      exact lines_tlbFill _ _ _ h0

theorem translateMiss_epoch :
    (translateMiss sr phys w va cur isWrite isFetch).2.mmu.epochValid = w.mmu.epochValid ∧
      (translateMiss sr phys w va cur isWrite isFetch).2.mmu.epoch = w.mmu.epoch := by
  unfold translateMiss
  rcases walk sr phys va cur isWrite isFetch w.phys with ⟨r, p⟩
  cases r with
  | identity pa => exact ⟨rfl, rfl⟩
  | fault f => exact ⟨rfl, rfl⟩
  | leaf l =>
    dsimp only
    split <;> exact ⟨rfl, rfl⟩

theorem translate_epoch (sr : Sysregs) (phys : Memops σ) (w : MmuWorld σ) (va : W64) (cur : El)
    (isWrite isFetch : Bool) :
    (translate sr phys w va cur isWrite isFetch).2.mmu.epochValid = true ∧
      (translate sr phys w va cur isWrite isFetch).2.mmu.epoch = tlbEpochRead sr := by
  have hv := epochCheck_valid w.mmu sr
  rw [translate_eq]
  split
  · split
    · exact ⟨hv, rfl⟩
    · rw [translateMiss_epoch.1, translateMiss_epoch.2]
      exact ⟨hv, rfl⟩
  · rw [translateMiss_epoch.1, translateMiss_epoch.2]
    exact ⟨hv, rfl⟩

theorem translate_pending (sr : Sysregs) (phys : Memops σ) (w : MmuWorld σ) (va : W64) (cur : El)
    (isWrite isFetch : Bool) :
    (translate sr phys w va cur isWrite isFetch).2.mmu.fault = w.mmu.fault ∧
      (translate sr phys w va cur isWrite isFetch).2.mmu.faultValid = w.mmu.faultValid := by
  have hmiss : ∀ w' : MmuWorld σ,
      (translateMiss sr phys w' va cur isWrite isFetch).2.mmu.fault = w'.mmu.fault ∧
        (translateMiss sr phys w' va cur isWrite isFetch).2.mmu.faultValid = w'.mmu.faultValid := by
    intro w'
    unfold translateMiss
    rcases walk sr phys va cur isWrite isFetch w'.phys with ⟨r, p⟩
    cases r with
    | identity pa => exact ⟨rfl, rfl⟩
    | fault f => exact ⟨rfl, rfl⟩
    | leaf l =>
      dsimp only
      split <;> exact ⟨rfl, rfl⟩
  have hcheck : (epochCheck w.mmu sr).fault = w.mmu.fault ∧
      (epochCheck w.mmu sr).faultValid = w.mmu.faultValid := by
    unfold epochCheck
    dsimp only
    split
    · split <;> exact ⟨rfl, rfl⟩
    · exact ⟨rfl, rfl⟩
  rw [translate_eq]
  split
  · split
    · exact hcheck
    · rw [(hmiss _).1, (hmiss _).2]
      exact hcheck
  · rw [(hmiss _).1, (hmiss _).2]
    exact hcheck

/-! ## granted again -/

theorem granted_of_translate (h : (translate sr phys w va cur isWrite isFetch).1 = .ok pa) :
    Granted sr (translate sr phys w va cur isWrite isFetch).2.mmu cur isWrite isFetch va pa := by
  obtain ⟨hv, he⟩ := translate_epoch sr phys w va cur isWrite isFetch
  cases hc : cacheable sr cur with
  | false =>
    unfold Granted
    rw [if_neg (by rw [hc]; decide)]
    rw [translate_eq, if_neg (by rw [hc]; decide)] at h
    unfold translateMiss at h
    rw [walk_identity hc] at h
    exact (Except.ok.inj h).symm
  | true =>
    rw [granted_iff hc]
    refine ⟨hv, he, ?_⟩
    rw [translate_eq, if_pos hc] at h ⊢
    cases hl : (epochCheck w.mmu sr).line (walkVa (sr.val .tcrEl1) va) with
    | some l =>
      rw [hl] at h
      exact ⟨l, hl, h⟩
    | none =>
      rw [hl] at h
      dsimp only at h ⊢
      rcases translateMiss_table phys ⟨(epochCheck w.mmu sr).countMiss, w.phys⟩ va isWrite
          isFetch hc with ⟨l, hs, -, hf⟩ | ⟨⟨f, hs⟩, -⟩
      · refine ⟨l, ?_, hs.symm.trans h⟩
        unfold Mmu.line
        rw [hf]
        exact Memo.lookup_fill_self
      · rw [hs] at h
        cases h

/-- a granted translation is answered, and only the counters move -/
theorem Granted.translate (phys : Memops σ) (w : MmuWorld σ)
    (h : Granted sr w.mmu cur isWrite isFetch va pa) :
    (Oemu.translate sr phys w va cur isWrite isFetch).1 = .ok pa ∧
      (Oemu.translate sr phys w va cur isWrite isFetch).2.phys = w.phys ∧
      (cacheable sr cur = true →
        (Oemu.translate sr phys w va cur isWrite isFetch).2.mmu.lines = w.mmu.lines) := by
  rw [translate_eq]
  cases hc : cacheable sr cur with
  | false =>
    unfold Granted at h
    rw [if_neg (by rw [hc]; decide)] at h
    rw [if_neg (by decide)]
    subst h
    unfold translateMiss
    rw [walk_identity hc]
    exact ⟨rfl, rfl, nofun⟩
  | true =>
    obtain ⟨hv, he, l, hl, hs⟩ := (granted_iff hc).mp h
    have hlines := epochCheck_lines_of_fresh hv he
    rw [if_pos rfl]
    have hl' : (epochCheck w.mmu sr).line (walkVa (sr.val .tcrEl1) va) = some l := by
      unfold Mmu.line at hl ⊢
      rw [hlines]
      exact hl
    rw [hl']
    exact ⟨hs, rfl, fun _ => hlines⟩

/-- two addresses whose lines do not evict each other -/
def Apart (tcr va va' : W64) : Prop :=
  pageBase (walkVa tcr va) = pageBase (walkVa tcr va') ∨
    tlbIndex (walkVa tcr va) ≠ tlbIndex (walkVa tcr va')

/-- translating another address of the same access keeps a granted one granted -/
theorem Granted.stable (h : Granted sr w.mmu cur isWrite isFetch va pa)
    (ha : Apart (sr.val .tcrEl1) va va') (isWrite' isFetch' : Bool) :
    Granted sr (Oemu.translate sr phys w va' cur isWrite' isFetch').2.mmu cur isWrite isFetch va
      pa := by
  cases hc : cacheable sr cur with
  | false =>
    unfold Granted at h ⊢
    rw [if_neg (by rw [hc]; decide)] at h ⊢
    exact h
  | true =>
    obtain ⟨hv', he'⟩ := translate_epoch sr phys w va' cur isWrite' isFetch'
    obtain ⟨hv, he, l, hl, hs⟩ := (granted_iff hc).mp h
    have hlines := epochCheck_lines_of_fresh hv he
    refine (granted_iff hc).mpr ⟨hv', he', l, ?_, hs⟩
    rw [translate_eq, if_pos hc]
    cases hl' : (epochCheck w.mmu sr).line (walkVa (sr.val .tcrEl1) va') with
    | some l' =>
      show (epochCheck w.mmu sr).line _ = _
      unfold Mmu.line at hl ⊢
      rw [hlines]
      exact hl
    | none =>
      dsimp only
      -- the line of `va` is held, so `va'` is on another page and falls in another set
      have hset : tlbIndex (walkVa (sr.val .tcrEl1) va) ≠ tlbIndex (walkVa (sr.val .tcrEl1) va') := by
        refine ha.resolve_left ?_
        intro hp
        unfold Mmu.line at hl hl'
        rw [hlines, ← hp, hl] at hl'
        cases hl'
      rcases translateMiss_table phys ⟨(epochCheck w.mmu sr).countMiss, w.phys⟩ va' isWrite'
          isFetch' hc with ⟨l', -, -, hf⟩ | ⟨-, hf⟩
      · unfold Mmu.line at hl ⊢
        rw [hf, Memo.lookup_fill_of_set_ne (by rw [tlbIndex_pageBase, tlbIndex_pageBase]; exact hset)]
        show Memo.lookup tlbIndex (epochCheck w.mmu sr).lines _ = _
        rw [hlines]
        exact hl
      · unfold Mmu.line at hl ⊢
        rw [hf]
        show Memo.lookup tlbIndex (epochCheck w.mmu sr).lines _ = _
        rw [hlines]
        exact hl

/-! ## addresses of one access -/

theorem tlbIndex_walkVa (tcr va : W64) : tlbIndex (walkVa tcr va) = tlbIndex va := by
  unfold walkVa
  split
  · apply BitVec.eq_of_getLsbD_eq
    intro i hi
    unfold tlbIndex
    rw [BitVec.getLsbD_extractLsb', BitVec.getLsbD_extractLsb', getLsbD_stripTag va (by omega)]
    simp [show 12 + i < 56 by omega]
  · rfl

theorem toNat_tlbIndex (va : W64) : (tlbIndex va).toNat = va.toNat / 4096 % 4096 := by
  unfold tlbIndex
  rw [BitVec.extractLsb'_toNat, Nat.shiftRight_eq_div_pow]

theorem toNat_offset (a : W64) : (a &&& pageMask).toNat = a.toNat % 4096 := by
  rw [BitVec.toNat_and]
  exact Nat.and_two_pow_sub_one_eq_mod a.toNat 12

theorem toNat_pageBase (a : W64) : (pageBase a).toNat = a.toNat / 4096 * 4096 := by
  have hdisj : pageBase a &&& (a &&& pageMask) = 0 := by
    unfold pageBase
    rw [BitVec.and_comm a pageMask, ← BitVec.and_assoc, BitVec.and_assoc a, BitVec.and_comm _ pageMask,
      BitVec.and_not_self]
    simp
  have hsum : pageBase a + (a &&& pageMask) = a := by
    rw [BitVec.add_eq_or_of_and_eq_zero _ _ hdisj, pageBase_or_offset]
  have hle := toNat_offset a
  have h1 : pageBase a = a - (a &&& pageMask) := (BitVec.sub_eq_iff_eq_add.mpr hsum.symm).symm
  rw [h1, BitVec.toNat_sub_of_le (by rw [BitVec.le_def, hle]; exact Nat.mod_le _ _), hle]
  omega

theorem pageBase_eq_iff (a b : W64) : pageBase a = pageBase b ↔ a.toNat / 4096 = b.toNat / 4096 := by
  rw [← BitVec.toNat_inj, toNat_pageBase, toNat_pageBase]
  omega

/-- addresses less than a page apart do not evict each other -/
theorem apart_of_near (tcr a : W64) {d : Nat} (hd : d < 4096) :
    Apart tcr a (a + BitVec.ofNat 64 d) := by
  by_cases hp : pageBase a = pageBase (a + BitVec.ofNat 64 d)
  · left
    rw [← walkVa_pageBase, ← walkVa_pageBase, hp]
  · right
    rw [tlbIndex_walkVa, tlbIndex_walkVa]
    rw [pageBase_eq_iff] at hp
    intro he
    have h1 := congrArg BitVec.toNat he
    rw [toNat_tlbIndex, toNat_tlbIndex] at h1
    have h2 : (a + BitVec.ofNat 64 d).toNat = (a.toNat + d) % 2 ^ 64 := by
      rw [BitVec.toNat_add, BitVec.toNat_ofNat, Nat.mod_eq_of_lt (show d < 2 ^ 64 by omega)]
    rw [h2] at h1 hp
    have ha := a.isLt
    omega

theorem Apart.symm {tcr a b : W64} (h : Apart tcr a b) : Apart tcr b a := by
  rcases h with h | h
  · exact .inl h.symm
  · exact .inr h.symm

end Oemu
