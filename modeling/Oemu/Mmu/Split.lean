import Oemu.Mmu.Reach

/-!
# The bytes of an access

The translations of the bytes of one access do not disturb each other: a byte is translated alike
before and after its neighbours, because two addresses less than a page apart never share a set of
the TLB unless they share the page.  So the loops that check and make a split access meet the
translations of the state it started in.

* `translate_stable`  a translation is answered alike after that of a neighbour;
* `Mmu.Reached.lines`    the lines of a reachable layer are lines a walk has produced;
* `translate_offset`     the bytes of one page lie together;
* `splitCheck_bytes`  what the check loop finds;
* `splitRead_bytes`, `splitWrite_granted`  what the two loops that follow do.
-/

namespace Oemu

variable {σ : Type} {sr : Sysregs} {phys : Memops σ} {w : MmuWorld σ} {va va' pa : W64} {cur : El}

/-! ## translations that do not disturb each other -/

theorem translate_answer (phys : Memops σ) (w : MmuWorld σ) (va : W64) (isWrite isFetch : Bool)
    (hc : cacheable sr cur = true) :
    (translate sr phys w va cur isWrite isFetch).1 =
      match (epochCheck w.mmu sr).line (walkVa (sr.val .tcrEl1) va) with
      | some l => l.serve (walkVa (sr.val .tcrEl1) va) cur isWrite isFetch
      | none => (walk sr phys va cur isWrite isFetch w.phys).1.answer cur isWrite isFetch := by
  rw [translate_eq, if_pos hc]
  cases (epochCheck w.mmu sr).line (walkVa (sr.val .tcrEl1) va) with
  | some l => rfl
  | none =>
    dsimp only
    unfold translateMiss
    rcases walk sr phys va cur isWrite isFetch w.phys with ⟨r, p⟩
    cases r <;> rfl

/-- a translation leaves the table, or fills the line the walk produced -/
theorem translate_lines (phys : Memops σ) (w : MmuWorld σ) (va : W64) (isWrite isFetch : Bool)
    (hc : cacheable sr cur = true) :
    (translate sr phys w va cur isWrite isFetch).2.mmu.lines = (epochCheck w.mmu sr).lines ∨
      ∃ l, (epochCheck w.mmu sr).line (walkVa (sr.val .tcrEl1) va) = none ∧
        walkLine sr phys w.phys (pageBase (walkVa (sr.val .tcrEl1) va)) = some l ∧
        (translate sr phys w va cur isWrite isFetch).2.mmu.lines =
          Memo.fill tlbIndex (epochCheck w.mmu sr).lines (pageBase (walkVa (sr.val .tcrEl1) va))
            l := by
  rw [translate_eq, if_pos hc]
  cases hl : (epochCheck w.mmu sr).line (walkVa (sr.val .tcrEl1) va) with
  | some l => exact .inl rfl
  | none =>
    dsimp only
    unfold translateMiss
    rcases hw : walk sr phys va cur isWrite isFetch w.phys with ⟨r, p⟩
    have hr : (walk sr phys va cur isWrite isFetch w.phys).1 = r := by rw [hw]
    cases r with
    | identity pa => exact absurd hr (walk_not_identity hc w.phys)
    | fault f => exact .inl rfl
    | leaf l =>
      obtain ⟨hline, h0⟩ := walk_leaf_line hr
      refine .inr ⟨l.line, rfl, hline, ?_⟩
      simp only [hc, if_true]
      exact lines_tlbFill _ _ _ h0

theorem translate_identity (phys : Memops σ) (w : MmuWorld σ) (va : W64) (isWrite isFetch : Bool)
    (hc : cacheable sr cur = false) :
    translate sr phys w va cur isWrite isFetch =
      (.ok va, { w with mmu := epochCheck w.mmu sr }) := by
  rw [translate_eq, if_neg (by rw [hc]; decide)]
  unfold translateMiss
  rw [walk_identity hc]

/-- **a translation is answered alike after that of a neighbour** -/
theorem translate_stable (ha : Apart (sr.val .tcrEl1) va va') {isWrite' isFetch' : Bool}
    (hphys : (translate sr phys w va' cur isWrite' isFetch').2.phys = w.phys)
    (isWrite isFetch : Bool) :
    (translate sr phys (translate sr phys w va' cur isWrite' isFetch').2 va cur isWrite isFetch).1 =
      (translate sr phys w va cur isWrite isFetch).1 := by
  cases hc : cacheable sr cur with
  | false => rw [translate_identity phys _ va _ _ hc, translate_identity phys _ va _ _ hc]
  | true =>
    obtain ⟨hv, he⟩ := translate_epoch sr phys w va' cur isWrite' isFetch'
    rw [translate_answer phys _ va _ _ hc, translate_answer phys w va _ _ hc, hphys]
    unfold Mmu.line
    rw [epochCheck_lines_of_fresh hv he]
    rcases translate_lines phys w va' isWrite' isFetch' hc with hl | ⟨l, hnone, hline, hl⟩
    · rw [hl]
    · rw [hl]
      rcases ha with hp | hset
      · -- the page the neighbour has brought in
        unfold Mmu.line at hnone
        rw [hp, Memo.lookup_fill_self, hnone]
        rw [← hp] at hline
        exact (walk_of_line isWrite isFetch hc hline).symm
      · rw [Memo.lookup_fill_of_set_ne (by rw [tlbIndex_pageBase, tlbIndex_pageBase]; exact hset)]

/-! ## reachable layers -/

/-- the states an initialised layer goes through over a physical bus, whatever the registers it
translates for and whatever happens to the memory below -/
inductive Mmu.Reached (phys : Memops σ) : Mmu → Prop where
  | init : Reached phys Mmu.init
  | translate (sr : Sysregs) (w : MmuWorld σ) (va : W64) (cur : El) (isWrite isFetch : Bool)
      (h : Reached phys w.mmu) :
      Reached phys (Oemu.translate sr phys w va cur isWrite isFetch).2.mmu
  | pend (m : Mmu) (f : MmuFault) (h : Reached phys m) : Reached phys (m.pend f)
  | take (m : Mmu) (h : Reached phys m) : Reached phys m.takeFault.2
  | flush (m : Mmu) (h : Reached phys m) : Reached phys m.flushAll

/-- every operation of the translated bus leads from reachable states to reachable states -/
theorem Mmu.Reached.reach (h : Mmu.Reached phys w.mmu) {w' : MmuWorld σ}
    (hr : Reach sr phys cur w w') : Mmu.Reached phys w'.mmu := by
  induction hr with
  | refl => exact h
  | tail _ hstep ih =>
    cases hstep with
    | probe p hp => exact ih
    | translate va isWrite isFetch => exact .translate sr _ va cur isWrite isFetch ih
    | pend f => exact .pend _ f ih
    | take => exact .take _ ih
    | flush => exact .flush _ ih
    | write va pa n value hm hg => exact ih

/-- every line held has a property -/
def Mmu.Lines (P : Line → Prop) (m : Mmu) : Prop := ∀ i page l, m.lines i = some (page, l) → P l

section

variable {P : Line → Prop}

theorem Mmu.Lines.congr {m m' : Mmu} (h : m.Lines P) (hl : m'.lines = m.lines) : m'.Lines P := by
  intro i page l hi
  rw [hl] at hi
  exact h i page l hi

theorem Mmu.Lines.line {m : Mmu} (h : m.Lines P) {l : Line} (hl : m.line va = some l) : P l := by
  unfold Mmu.line Memo.lookup at hl
  cases hi : m.lines (tlbIndex (pageBase va)) with
  | none =>
    rw [hi] at hl
    cases hl
  | some e =>
    rw [hi] at hl
    dsimp only at hl
    by_cases he : e.1 = pageBase va
    · rw [if_pos he] at hl
      cases hl
      exact h _ e.1 e.2 hi
    · rw [if_neg he] at hl
      cases hl

theorem Mmu.Lines.epochCheck {m : Mmu} (h : m.Lines P) (sr : Sysregs) : (epochCheck m sr).Lines P := by
  rcases epochCheck_lines m sr with ⟨-, -, hl⟩ | ⟨-, hl⟩ | hl
  · exact h.congr hl
  · exact h.congr hl
  · intro i page l hi
    rw [hl i] at hi
    cases hi

/-- the lines a walk produces have the property -/
def Walked (phys : Memops σ) (P : Line → Prop) : Prop :=
  ∀ sr p page l, walkLine sr phys p page = some l → P l

theorem Mmu.Lines.translate (h : w.mmu.Lines P) (hP : Walked phys P) (sr : Sysregs) (va : W64)
    (cur : El) (isWrite isFetch : Bool) :
    (Oemu.translate sr phys w va cur isWrite isFetch).2.mmu.Lines P := by
  have hcheck := h.epochCheck sr
  cases hc : cacheable sr cur with
  | false =>
    rw [translate_identity phys w va isWrite isFetch hc]
    exact hcheck
  | true =>
    rcases translate_lines phys w va isWrite isFetch hc with hl | ⟨l, -, hwalk, hl⟩
    · exact hcheck.congr hl
    · intro i page l' hi
      rw [hl] at hi
      unfold Memo.fill at hi
      by_cases he : i = tlbIndex (pageBase (walkVa (sr.val .tcrEl1) va))
      · subst he
        rw [Function.update_self] at hi
        cases hi
        exact hP _ _ _ _ hwalk
      · rw [Function.update_of_ne he] at hi
        exact hcheck i page l' hi

/-- **the lines of a reachable layer are lines a walk has produced** -/
theorem Mmu.Reached.lines {m : Mmu} (h : Mmu.Reached phys m) (hP : Walked phys P) : m.Lines P := by
  induction h with
  | init =>
    intro i page l hi
    unfold Mmu.lines Mmu.init TlbEntry.free at hi
    cases hi
  | translate sr w va cur isWrite isFetch _ ih => exact ih.translate hP sr va cur isWrite isFetch
  | pend m f _ ih => exact ih
  | take m _ ih =>
    refine ih.congr (lines_congr ?_)
    unfold Mmu.takeFault
    split <;> rfl
  | flush m _ _ =>
    intro i page l hi
    rw [lines_flushAll] at hi
    cases hi

end

theorem walkLine_leaf {p : σ} {page : W64} {l : Line} (h : walkLine sr phys p page = some l) :
    ∃ leaf, (walkStage1 sr phys page p).1 = .ok leaf ∧ l = leaf.line := by
  unfold walkLine at h
  cases hr : (walkStage1 sr phys page p).1 with
  | error f =>
    rw [hr] at h
    cases h
  | ok leaf =>
    rw [hr] at h
    exact ⟨leaf, rfl, (Option.some.inj h).symm⟩

def Mmu.Paged (m : Mmu) : Prop := m.Lines fun l => pageBase l.pa = l.pa

theorem Mmu.Reached.paged {m : Mmu} (h : Mmu.Reached phys m) : m.Paged := by
  refine h.lines ?_
  intro sr p page l hl
  obtain ⟨leaf, -, rfl⟩ := walkLine_leaf hl
  exact pageBase_pageBase leaf.pa

/-- an answered translation comes from a page-aligned line of its page, the one held or the one
walked -/
theorem translate_line (hm : w.mmu.Paged) (hc : cacheable sr cur = true) {isWrite isFetch : Bool}
    (h : (translate sr phys w va cur isWrite isFetch).1 = .ok pa) :
    ∃ l : Line, pageBase l.pa = l.pa ∧ ∀ b : W64, pageBase b = pageBase va →
      (translate sr phys w b cur isWrite isFetch).1 =
        l.serve (walkVa (sr.val .tcrEl1) b) cur isWrite isFetch := by
  have hpage : ∀ b : W64, pageBase b = pageBase va →
      pageBase (walkVa (sr.val .tcrEl1) b) = pageBase (walkVa (sr.val .tcrEl1) va) := by
    intro b hb
    rw [← walkVa_pageBase, hb, walkVa_pageBase]
  have hline : ∀ b : W64, pageBase b = pageBase va →
      (epochCheck w.mmu sr).line (walkVa (sr.val .tcrEl1) b) =
        (epochCheck w.mmu sr).line (walkVa (sr.val .tcrEl1) va) := by
    intro b hb
    unfold Mmu.line
    rw [hpage b hb]
  rw [translate_answer phys w va isWrite isFetch hc] at h
  cases hl : (epochCheck w.mmu sr).line (walkVa (sr.val .tcrEl1) va) with
  | some l =>
    refine ⟨l, (hm.epochCheck sr).line hl, ?_⟩
    intro b hb
    rw [translate_answer phys w b isWrite isFetch hc, hline b hb, hl]
  | none =>
    rw [hl] at h
    dsimp only at h
    cases hr : (walk sr phys va cur isWrite isFetch w.phys).1 with
    | identity pa => exact absurd hr (walk_not_identity hc w.phys)
    | fault f =>
      rw [hr] at h
      cases h
    | leaf l =>
      refine ⟨l.line, pageBase_pageBase l.pa, ?_⟩
      intro b hb
      rw [translate_answer phys w b isWrite isFetch hc, hline b hb, hl]
      refine walk_of_line isWrite isFetch hc ?_
      rw [hpage b hb]
      exact (walk_leaf_line hr).1

theorem serve_toNat {l : Line} (hl : pageBase l.pa = l.pa) {b : W64} {isWrite isFetch : Bool}
    (h : l.serve b cur isWrite isFetch = .ok pa) :
    pa.toNat = l.pa.toNat + b.toNat % 4096 := by
  unfold Line.serve at h
  by_cases hp : permits l.ap l.xn l.pxn (cur == .el0) isWrite isFetch = true
  · rw [if_pos hp] at h
    cases h
    have hdisj : l.pa &&& (b &&& pageMask) = 0 := by
      rw [← hl]
      apply BitVec.eq_of_getLsbD_eq
      intro i hi
      rw [BitVec.getLsbD_and, getLsbD_pageBase _ hi, BitVec.getLsbD_and, getLsbD_pageMask hi]
      by_cases h12 : i < 12
      · simp [show ¬ 12 ≤ i by omega]
      · simp [h12]
    have h4096 : l.pa.toNat % 4096 = 0 := by
      rw [← hl, toNat_pageBase]
      omega
    have hlt := l.pa.isLt
    rw [← BitVec.add_eq_or_of_and_eq_zero _ _ hdisj, BitVec.toNat_add, toNat_offset,
      Nat.mod_eq_of_lt (by omega)]
  · rw [if_neg hp] at h
    cases h

theorem stripTag_place (a : W64) : (stripTag a).toNat % 4096 = a.toNat % 4096 := by
  rw [← toNat_offset, ← toNat_offset]
  congr 1
  apply BitVec.eq_of_getLsbD_eq
  intro i hi
  rw [BitVec.getLsbD_and, BitVec.getLsbD_and, getLsbD_pageMask hi, getLsbD_stripTag a hi]
  by_cases h12 : i < 12
  · simp [h12, show i < 56 by omega]
  · simp [h12]

theorem walkVa_place (tcr a : W64) : (walkVa tcr a).toNat % 4096 = a.toNat % 4096 := by
  unfold walkVa
  split
  · exact stripTag_place a
  · rfl

theorem translate_place (hm : w.mmu.Paged) {isWrite isFetch : Bool}
    (h : (translate sr phys w va cur isWrite isFetch).1 = .ok pa) :
    pa.toNat % 4096 = va.toNat % 4096 := by
  cases hc : cacheable sr cur with
  | false =>
    rw [translate_identity phys w va isWrite isFetch hc] at h
    cases h
    rfl
  | true =>
    obtain ⟨l, hl, hserve⟩ := translate_line hm hc h
    have hpa := serve_toNat hl ((hserve va rfl).symm.trans h)
    have h4096 : l.pa.toNat % 4096 = 0 := by
      rw [← hl, toNat_pageBase]
      omega
    rw [hpa, walkVa_place]
    omega

theorem translate_offset (hm : w.mmu.Paged) {isWrite isFetch : Bool}
    (h : (translate sr phys w va cur isWrite isFetch).1 = .ok pa) {i : Nat}
    (hi : va.toNat % 4096 + i < 4096) :
    (translate sr phys w (va + BitVec.ofNat 64 i) cur isWrite isFetch).1 =
      .ok (pa + BitVec.ofNat 64 i) := by
  cases hc : cacheable sr cur with
  | false =>
    rw [translate_identity phys w _ isWrite isFetch hc] at h ⊢
    cases h
    rfl
  | true =>
    have hva := va.isLt
    have hadd : (va + BitVec.ofNat 64 i).toNat = va.toNat + i := by
      rw [BitVec.toNat_add, BitVec.toNat_ofNat, Nat.mod_eq_of_lt (show i < 2 ^ 64 by omega),
        Nat.mod_eq_of_lt (by omega)]
    have hpage : pageBase (va + BitVec.ofNat 64 i) = pageBase va := by
      rw [pageBase_eq_iff, hadd]
      omega
    obtain ⟨l, hl, hserve⟩ := translate_line hm hc h
    have hpa := serve_toNat hl ((hserve va rfl).symm.trans h)
    have hserved := (hserve va rfl).symm.trans h
    rw [hserve _ hpage]
    unfold Line.serve at hserved ⊢
    by_cases hp : permits l.ap l.xn l.pxn (cur == .el0) isWrite isFetch = true
    · rw [if_pos hp]
      have hself : l.serve (walkVa (sr.val .tcrEl1) (va + BitVec.ofNat 64 i)) cur isWrite isFetch =
          .ok (l.pa ||| (walkVa (sr.val .tcrEl1) (va + BitVec.ofNat 64 i) &&& pageMask)) := by
        unfold Line.serve
        rw [if_pos hp]
      have hsum := serve_toNat hl hself
      congr 1
      apply BitVec.eq_of_toNat_eq
      have h4096 : l.pa.toNat % 4096 = 0 := by
        rw [← hl, toNat_pageBase]
        omega
      have hlt := l.pa.isLt
      rw [walkVa_place] at hpa
      have hright : (pa + BitVec.ofNat 64 i).toNat = pa.toNat + i := by
        rw [BitVec.toNat_add, BitVec.toNat_ofNat, Nat.mod_eq_of_lt (show i < 2 ^ 64 by omega),
          Nat.mod_eq_of_lt (by omega)]
      rw [hsum, walkVa_place, hadd, hright, hpa]
      omega
    · rw [if_neg hp] at hserved
      cases hserved

/-! ## buses whose probes are inert -/

/-- reads and probes leave the states of `I` as they are -/
structure Inert (phys : Memops σ) (I : σ → Prop) : Prop where
  read : ∀ p a n sx, I p → (phys.read p a n sx).2.2 = p
  validate : ∀ p a n perms, I p → (phys.validate p a n perms).2 = p

variable {I : σ → Prop}

theorem Inert.reads (h : Inert phys I) : Reads phys (fun p p' => I p → p' = p) where
  refl _ _ := rfl
  trans a b c hab hbc ha := by
    have hb := hab ha
    subst hb
    exact hbc ha
  read := h.read

theorem Inert.translate (h : Inert phys I) (hw : I w.phys) (sr : Sysregs) (va : W64) (cur : El)
    (isWrite isFetch : Bool) :
    (Oemu.translate sr phys w va cur isWrite isFetch).2.phys = w.phys :=
  h.reads.translate sr w va cur isWrite isFetch hw

/-! ## the loops of a split access -/

def byteAddr (sr : Sysregs) (phys : Memops σ) (w : MmuWorld σ) (cur : El) (isWrite : Bool)
    (va : W64) (i : Nat) : Except MmuFault W64 :=
  (translate sr phys w (va + BitVec.ofNat 64 i) cur isWrite false).1

def ByteServed (sr : Sysregs) (phys : Memops σ) (w : MmuWorld σ) (cur : El) (isWrite : Bool)
    (va : W64) (i : Nat) : Prop :=
  ∃ pa, byteAddr sr phys w cur isWrite va i = .ok pa ∧
    (phys.validate w.phys pa 1 (accessPerm isWrite)).1 = .ok

/-- one state of the layer stands for another throughout an access -/
structure SameAddrs (sr : Sysregs) (phys : Memops σ) (cur : El) (isWrite : Bool) (va : W64)
    (w w' : MmuWorld σ) : Prop where
  below : w'.phys = w.phys
  addr : ∀ i < 4096, byteAddr sr phys w' cur isWrite va i = byteAddr sr phys w cur isWrite va i

variable {isWrite : Bool} {w' w'' : MmuWorld σ}

theorem SameAddrs.refl (w : MmuWorld σ) : SameAddrs sr phys cur isWrite va w w :=
  ⟨rfl, fun _ _ => rfl⟩

theorem SameAddrs.trans (h : SameAddrs sr phys cur isWrite va w w')
    (h' : SameAddrs sr phys cur isWrite va w' w'') : SameAddrs sr phys cur isWrite va w w'' :=
  ⟨h'.below.trans h.below, fun i hi => (h'.addr i hi).trans (h.addr i hi)⟩

theorem SameAddrs.served (h : SameAddrs sr phys cur isWrite va w w') {i : Nat} (hi : i < 4096) :
    ByteServed sr phys w' cur isWrite va i ↔ ByteServed sr phys w cur isWrite va i := by
  unfold ByteServed
  rw [h.addr i hi, h.below]

/-- the translation of a byte changes no other -/
theorem Inert.sameAddrs (h : Inert phys I) (hw : I w.phys) (sr : Sysregs) (cur : El)
    (isWrite : Bool) (va : W64) {j : Nat} (hj : j < 4096) :
    SameAddrs sr phys cur isWrite va w
      (Oemu.translate sr phys w (va + BitVec.ofNat 64 j) cur isWrite false).2 where
  below := h.translate hw sr _ cur isWrite false
  addr _ hi := translate_stable (apart_offsets _ va hi hj) (h.translate hw sr _ cur isWrite false)
    isWrite false

variable {f₀ f : MmuFault} {k i : Nat}

theorem splitCheck_fault (h : translate sr phys w (va + BitVec.ofNat 64 i) cur isWrite false =
    (.error f, w')) : splitCheck sr phys f₀ va cur isWrite (k + 1) i w = (some f, w') := by
  unfold splitCheck
  rw [h]

theorem splitCheck_refused {p : σ} {st : Status}
    (h : translate sr phys w (va + BitVec.ofNat 64 i) cur isWrite false = (.ok pa, w'))
    (hv : phys.validate w'.phys pa 1 (accessPerm isWrite) = (st, p)) (hst : st ≠ .ok) :
    splitCheck sr phys f₀ va cur isWrite (k + 1) i w =
      (some { f₀ with esr := composeEsr cur false isWrite .translationNoWalk (-1) },
        { w' with phys := p }) := by
  unfold splitCheck
  rw [h]
  dsimp only
  rw [hv]
  cases st <;> first | rfl | exact absurd rfl hst

theorem splitCheck_next {p : σ}
    (h : translate sr phys w (va + BitVec.ofNat 64 i) cur isWrite false = (.ok pa, w'))
    (hv : phys.validate w'.phys pa 1 (accessPerm isWrite) = (.ok, p)) :
    splitCheck sr phys f₀ va cur isWrite (k + 1) i w =
      splitCheck sr phys f₀ va cur isWrite k (i + 1) { w' with phys := p } := by
  conv_lhs => unfold splitCheck
  rw [h]
  dsimp only
  rw [hv]

/-- **the check loop**: it passes where every byte is served, and leaves the bytes as they were -/
theorem splitCheck_bytes (hI : Inert phys I) (sr : Sysregs) (f₀ : MmuFault) (va : W64) (cur : El)
    (isWrite : Bool) (k : Nat) :
    ∀ (i : Nat) (w : MmuWorld σ), I w.phys → i + k ≤ 4096 →
      ((splitCheck sr phys f₀ va cur isWrite k i w).1 = none ↔
        ∀ j, i ≤ j → j < i + k → ByteServed sr phys w cur isWrite va j) ∧
      SameAddrs sr phys cur isWrite va w (splitCheck sr phys f₀ va cur isWrite k i w).2 := by
  induction k with
  | zero =>
    intro i w _ _
    refine ⟨⟨fun _ j hij hj => absurd hj (by omega), fun _ => rfl⟩, SameAddrs.refl w⟩
  | succ k ih =>
    intro i w hw hik
    have hsame := hI.sameAddrs hw sr cur isWrite va (show i < 4096 by omega)
    rcases hr : translate sr phys w (va + BitVec.ofNat 64 i) cur isWrite false with ⟨t, w'⟩
    have ht : byteAddr sr phys w cur isWrite va i = t := congrArg Prod.fst hr
    rw [hr] at hsame
    dsimp only at hsame
    have hw' : I w'.phys := by
      rw [hsame.below]
      exact hw
    cases t with
    | error f =>
      rw [splitCheck_fault hr]
      refine ⟨⟨fun h => ?_, fun h => ?_⟩, hsame⟩
      · cases h
      · obtain ⟨pa, hpa, -⟩ := h i (Nat.le_refl i) (by omega)
        rw [ht] at hpa
        cases hpa
    | ok pa =>
      have hv := hI.validate w'.phys pa 1 (accessPerm isWrite) hw'
      rcases hq : phys.validate w'.phys pa 1 (accessPerm isWrite) with ⟨st, p⟩
      rw [hq] at hv
      have hp : p = w'.phys := hv
      subst hp
      have hst : (phys.validate w.phys pa 1 (accessPerm isWrite)).1 = st := by
        rw [← hsame.below, hq]
      by_cases hok : st = .ok
      · subst hok
        rw [splitCheck_next hr hq]
        obtain ⟨h1, h2⟩ := ih (i + 1) w' hw' (by omega)
        refine ⟨?_, hsame.trans h2⟩
        rw [h1]
        constructor
        · intro h j hij hj
          rcases Nat.eq_or_lt_of_le hij with rfl | hlt
          · exact ⟨pa, ht, hst⟩
          · exact (hsame.served (by omega)).mp (h j hlt (by omega))
        · intro h j hij hj
          exact (hsame.served (by omega)).mpr (h j (by omega) (by omega))
      · rw [splitCheck_refused hr hq hok]
        refine ⟨⟨fun h => ?_, fun h => ?_⟩, hsame⟩
        · cases h
        · obtain ⟨pa', hpa, hserved⟩ := h i (Nat.le_refl i) (by omega)
          rw [ht] at hpa
          cases hpa
          exact absurd (hst.symm.trans hserved) hok

/-- **the reading loop** gathers the bytes -/
theorem splitRead_bytes (hI : Inert phys I) (sr : Sysregs) (va : W64) (cur : El)
    (b : Nat → BitVec 8) (k : Nat) :
    ∀ (i : Nat) (w : MmuWorld σ), I w.phys → i + k ≤ 4096 →
      (∀ j, i ≤ j → j < i + k → ∃ pa v, byteAddr sr phys w cur false va j = .ok pa ∧
        phys.read w.phys pa .byte false = (.ok, v, w.phys) ∧ v &&& 0xFF = (b j).setWidth 64) →
      (splitRead sr phys va cur k i (disassemble b i) w).1 = some (disassemble b (i + k)) ∧
      SameAddrs sr phys cur false va w (splitRead sr phys va cur k i (disassemble b i) w).2 := by
  induction k with
  | zero =>
    intro i w _ _ _
    exact ⟨rfl, SameAddrs.refl w⟩
  | succ k ih =>
    intro i w hw hik hb
    have hsame := hI.sameAddrs hw sr cur false va (show i < 4096 by omega)
    obtain ⟨pa, v, hpa, hread, hv⟩ := hb i (Nat.le_refl i) (by omega)
    unfold byteAddr at hpa
    unfold splitRead
    rcases hr : translate sr phys w (va + BitVec.ofNat 64 i) cur false false with ⟨t, w'⟩
    rw [hr] at hsame hpa
    dsimp only at hsame hpa
    subst hpa
    have hw' : I w'.phys := by
      rw [hsame.below]
      exact hw
    show _ ∧ _
    dsimp only [outAddr]
    rw [hsame.below, hread]
    dsimp only
    have hacc : disassemble b i ||| ((v &&& 0xFF) <<< (i * 8)) = disassemble b (i + 1) := by
      rw [hv, Nat.mul_comm]
      rfl
    have hw'' : ({ w' with phys := w.phys } : MmuWorld σ) = w' := by
      rw [← hsame.below]
    rw [hacc, hw'']
    obtain ⟨h1, h2⟩ := ih (i + 1) w' hw' (by omega) (by
      intro j hij hj
      obtain ⟨pa', v', hpa', hread', hv'⟩ := hb j (by omega) (by omega)
      refine ⟨pa', v', ?_, ?_, hv'⟩
      · rw [hsame.addr j (by omega)]
        exact hpa'
      · rw [hsame.below]
        exact hread')
    refine ⟨?_, hsame.trans h2⟩
    rw [h1, show i + 1 + k = i + (k + 1) by omega]

/-- write `k` more bytes of a value at the addresses they have been translated to -/
def writesAt (phys : Memops σ) (pa : Nat → W64) (value : W64) : Nat → Nat → σ → Bool × σ
  | 0, _, p => (true, p)
  | k + 1, i, p =>
    match phys.write p (pa i) .byte ((value >>> (i * 8)) &&& 0xFF) with
    | (.ok, p) => writesAt phys pa value k (i + 1) p
    | (_, p) => (false, p)

/-- the bytes of an access are granted at known addresses -/
def GrantedAt (sr : Sysregs) (m : Mmu) (cur : El) (isWrite : Bool) (va : W64) (n : Nat)
    (pa : Nat → W64) : Prop :=
  ∀ i < n, Granted sr m cur isWrite false (va + BitVec.ofNat 64 i) (pa i)

/-- **the writing loop** goes where the bytes were granted, whatever it overwrites on the way -/
theorem splitWrite_granted (phys : Memops σ) (value : W64) {n : Nat} (hn : n ≤ 4096)
    {pa : Nat → W64} (k : Nat) :
    ∀ (i : Nat) (w : MmuWorld σ), i + k ≤ n → GrantedAt sr w.mmu cur true va n pa →
      (splitWrite sr phys va cur value k i w).1 = (writesAt phys pa value k i w.phys).1 ∧
        (splitWrite sr phys va cur value k i w).2.phys =
          (writesAt phys pa value k i w.phys).2 := by
  induction k with
  | zero =>
    intro i w _ _
    exact ⟨rfl, rfl⟩
  | succ k ih =>
    intro i w hik hg
    obtain ⟨hok, hphys, -⟩ := (hg i (by omega)).translate phys w
    have hkeep : GrantedAt sr (translate sr phys w (va + BitVec.ofNat 64 i) cur true false).2.mmu
        cur true va n pa := fun j hj =>
      (hg j hj).stable (apart_offsets _ va (by omega) (by omega)) true false
    unfold splitWrite writesAt
    rcases hr : translate sr phys w (va + BitVec.ofNat 64 i) cur true false with ⟨t, w'⟩
    rw [hr] at hok hphys hkeep
    dsimp only at hok hphys hkeep
    subst hok
    dsimp only [outAddr]
    rw [hphys]
    rcases hq : phys.write w.phys (pa i) .byte ((value >>> (i * 8)) &&& 0xFF) with ⟨st, p⟩
    by_cases hst : st = .ok
    · subst hst
      exact ih (i + 1) { w' with phys := p } (by omega) hkeep
    · cases st <;> first | exact ⟨rfl, rfl⟩ | exact absurd rfl hst

/-- a passed check grants the bytes at the addresses they had -/
theorem splitCheck_grantedAt (hI : Inert phys I) (sr : Sysregs) (f₀ : MmuFault) (va : W64)
    (cur : El) (isWrite : Bool) {n : Nat} (hn : n ≤ 4096) {w : MmuWorld σ} (hw : I w.phys)
    (h : (splitCheck sr phys f₀ va cur isWrite n 0 w).1 = none) (pa : Nat → W64)
    (hpa : ∀ i < n, byteAddr sr phys w cur isWrite va i = .ok (pa i)) :
    GrantedAt sr (splitCheck sr phys f₀ va cur isWrite n 0 w).2.mmu cur isWrite va n pa := by
  obtain ⟨-, hsame⟩ := splitCheck_bytes hI sr f₀ va cur isWrite n 0 w hw (by omega)
  intro i hi
  obtain ⟨pa', hg⟩ := (splitCheck_reach sr phys cur va f₀ isWrite n 0 w (by omega)
    allGranted_zero).2 h i (by omega)
  have hagain := (hg.translate phys (splitCheck sr phys f₀ va cur isWrite n 0 w).2).1
  have haddr := hsame.addr i (by omega)
  unfold byteAddr at haddr
  rw [hagain] at haddr
  have hp := hpa i hi
  unfold byteAddr at hp
  rw [← haddr] at hp
  cases hp
  exact hg

/-! ## accesses in one transfer -/

section

variable {w₁ : MmuWorld σ} {size : MemSize} {st : Status} {p p' : σ} {v : W64}

theorem mmuRead_one (f₀ : MmuFault) (hal : misaligned va size = false) (sx : Bool)
    (ht : translate sr phys w va sr.el false false = (.ok pa, w₁))
    (hv : phys.validate w₁.phys pa (BitVec.ofNat 64 size.bytes) permRead = (.ok, p))
    (hr : phys.read p pa size false = (.ok, v, p')) :
    mmuRead sr phys f₀ w va size sx =
      (.ok, if sx then mmuSignExtend v size.bytes else v, { w₁ with phys := p' }) := by
  unfold mmuRead mmuReadPhys
  dsimp only
  rw [ht, hal, Bool.false_and]
  dsimp only
  rw [if_neg (by decide), if_neg (by decide), hv]
  dsimp only
  rw [hr]

theorem mmuRead_refused (f₀ : MmuFault) (hal : misaligned va size = false) (sx : Bool)
    (ht : translate sr phys w va sr.el false false = (.ok pa, w₁))
    (hv : phys.validate w₁.phys pa (BitVec.ofNat 64 size.bytes) permRead = (st, p))
    (hst : st ≠ .ok) :
    mmuRead sr phys f₀ w va size sx = (.fault, 0, ({ w₁ with phys := p } : MmuWorld σ).pend
      (refuseRecord sr.el false false .translationNoWalk (-1) va)) := by
  unfold mmuRead mmuReadPhys
  dsimp only
  rw [ht, hal, Bool.false_and]
  dsimp only
  rw [if_neg (by decide), if_neg (by decide), hv]
  cases st <;> first | rfl | exact absurd rfl hst

theorem mmuWrite_one (f₀ : MmuFault) (hal : misaligned va size = false) (value : W64)
    (ht : translate sr phys w va sr.el true false = (.ok pa, w₁))
    (hv : phys.validate w₁.phys pa (BitVec.ofNat 64 size.bytes) permWrite = (.ok, p))
    (hw : phys.write p pa size value = (.ok, p')) :
    mmuWrite sr phys f₀ w va size value = (.ok, { w₁ with phys := p' }) := by
  unfold mmuWrite
  dsimp only
  rw [ht, hal, Bool.false_and]
  dsimp only
  rw [if_neg (by decide), if_neg (by decide), hv]
  dsimp only
  rw [hw]

theorem mmuWrite_refused (f₀ : MmuFault) (hal : misaligned va size = false) (value : W64)
    (ht : translate sr phys w va sr.el true false = (.ok pa, w₁))
    (hv : phys.validate w₁.phys pa (BitVec.ofNat 64 size.bytes) permWrite = (st, p))
    (hst : st ≠ .ok) :
    mmuWrite sr phys f₀ w va size value = (.fault, ({ w₁ with phys := p } : MmuWorld σ).pend
      (refuseRecord sr.el false true .translationNoWalk (-1) va)) := by
  unfold mmuWrite
  dsimp only
  rw [ht, hal, Bool.false_and]
  dsimp only
  rw [if_neg (by decide), if_neg (by decide), hv]
  cases st <;> first | rfl | exact absurd rfl hst

end

end Oemu
