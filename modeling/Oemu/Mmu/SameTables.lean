import Oemu.Mmu.Split

/-!
# Translations over the same tables

A walk sees the physical bus through the descriptors it reads, and nothing else.  `walkReads` lists
their addresses.  Two physical states in which those descriptors read alike answer every translation
alike, and leave the translation layer in one state, whatever else they hold.

* `walk_sameTables`         the walk;
* `translate_sameTables`    one translation, the cache included;
* `Coherent.translate_kept` a cache that memoises the walk of one state goes on doing so.
-/

namespace Oemu

variable {σ : Type}

/-! ## the descriptors of a walk -/

def tableReads (phys : Memops σ) (va : W64) (out : Nat) : Nat → W64 → σ → List W64
  | 0, base, _ => [base ||| tableIndex va 3]
  | rem + 1, base, p =>
    (base ||| tableIndex va (2 - rem)) ::
      match phys.read p (base ||| tableIndex va (2 - rem)) .dword false with
      | (.ok, raw, p) =>
        if (decodeDesc raw).table ∧ (decodeDesc raw).address >>> out = 0 then
          tableReads phys va out rem ((decodeDesc raw).address &&& ~~~pageMask) p
        else []
      | _ => []

def walkReads (sr : Sysregs) (phys : Memops σ) (va : W64) (p : σ) : List W64 :=
  let tcr := sr.val .tcrEl1
  let ttbr1 := useTtbr1 va
  let tva := walkVa tcr va
  let inputsize := 64 - regionTsz tcr ttbr1
  let base := ttbrBase (regionTtbr sr ttbr1)
  match startLevel inputsize with
  | none => []
  | some level =>
    if regionOk tva inputsize (addrSize (tagged tcr va)) ttbr1 ∧ ¬ regionEpd tcr ttbr1 ∧
        base >>> outBits tcr = 0 then
      tableReads phys tva (outBits tcr) (3 - level) (base &&& ~~~pageMask) p
    else []

/-! ## what holds the same tables -/

/-- an equivalence of physical states that no read leaves, under which the descriptors at the
addresses of `E` read alike -/
structure SameTables (phys : Memops σ) (R : σ → σ → Prop) (E : σ → W64 → Prop) : Prop
    extends Reads phys R where
  symm : ∀ p p', R p p' → R p' p
  stable : ∀ a p p', R p p' → E p a → E p' a
  status : ∀ a p p', R p p' → E p a →
    (phys.read p a .dword false).1 = (phys.read p' a .dword false).1
  value : ∀ a p p', R p p' → E p a →
    (phys.read p a .dword false).2.1 = (phys.read p' a .dword false).2.1

variable {phys : Memops σ} {R : σ → σ → Prop} {E : σ → W64 → Prop}

theorem SameTables.after (h : SameTables phys R E) {p p' : σ} (hp : R p p') (a b : W64) (n m : MemSize)
    (sx sx' : Bool) : R (phys.read p a n sx).2.2 (phys.read p' b m sx').2.2 :=
  h.trans _ _ _ (h.symm _ _ (h.read p a n sx)) (h.trans _ _ _ hp (h.read p' b m sx'))

theorem walkTable_sameTables (h : SameTables phys R E) (va : W64) (out rem : Nat) :
    ∀ (base : W64) (tattrs : BitVec 5) (p p' : σ), R p p' →
      (∀ a ∈ tableReads phys va out rem base p, E p a) →
      (walkTable phys va out rem base tattrs p).1 = (walkTable phys va out rem base tattrs p').1 ∧
        tableReads phys va out rem base p = tableReads phys va out rem base p' := by
  induction rem with
  | zero =>
    intro base tattrs p p' hp hE
    have ha : E p (base ||| tableIndex va 3) := hE _ (by simp [tableReads])
    have hst := h.status _ p p' hp ha
    have hv := h.value _ p p' hp ha
    refine ⟨?_, rfl⟩
    unfold walkTable
    rcases hr : phys.read p (base ||| tableIndex va 3) .dword false with ⟨st, raw, q⟩
    rcases hr' : phys.read p' (base ||| tableIndex va 3) .dword false with ⟨st', raw', q'⟩
    rw [hr, hr'] at hst hv
    dsimp only at hst hv
    subst hst hv
    cases st <;> rfl
  | succ rem ih =>
    intro base tattrs p p' hp hE
    have ha : E p (base ||| tableIndex va (2 - rem)) := hE _ (by simp [tableReads])
    have hst := h.status _ p p' hp ha
    have hv := h.value _ p p' hp ha
    have hq := h.after hp (base ||| tableIndex va (2 - rem)) (base ||| tableIndex va (2 - rem))
      .dword .dword false false
    have hpq := h.read p (base ||| tableIndex va (2 - rem)) .dword false
    unfold tableReads at hE ⊢
    unfold walkTable
    dsimp only at hE ⊢
    rcases hr : phys.read p (base ||| tableIndex va (2 - rem)) .dword false with ⟨st, raw, q⟩
    rcases hr' : phys.read p' (base ||| tableIndex va (2 - rem)) .dword false with ⟨st', raw', q'⟩
    rw [hr, hr'] at hst hv hq
    rw [hr] at hE hpq
    dsimp only at hst hv hq hpq
    subst hst hv
    cases st <;> try exact ⟨rfl, rfl⟩
    dsimp only at hE ⊢
    by_cases ht : (decodeDesc raw).table = true
    · by_cases ho : (decodeDesc raw).address >>> out = 0
      · rw [if_pos ⟨ht, ho⟩] at hE
        obtain ⟨h1, h2⟩ := ih ((decodeDesc raw).address &&& ~~~pageMask) (tattrs ||| tableAttrs raw)
          q q' hq (fun a ha => h.stable a p q hpq (hE a (List.mem_cons_of_mem _ ha)))
        rw [if_pos ht, if_pos ht, if_neg (not_not_intro ho), if_neg (not_not_intro ho),
          if_pos ⟨ht, ho⟩, if_pos ⟨ht, ho⟩, h1, h2]
        exact ⟨rfl, rfl⟩
      · rw [if_pos ht, if_pos ht, if_pos ho, if_pos ho, if_neg (fun h => ho h.2),
          if_neg (fun h => ho h.2)]
        exact ⟨rfl, rfl⟩
    · rw [if_neg ht, if_neg ht, if_neg (fun h => ht h.1), if_neg (fun h => ht h.1)]
      exact ⟨rfl, rfl⟩

theorem walkStage1_sameTables (h : SameTables phys R E) (sr : Sysregs) (va : W64) {p p' : σ}
    (hp : R p p') (hE : ∀ a ∈ walkReads sr phys va p, E p a) :
    (walkStage1 sr phys va p).1 = (walkStage1 sr phys va p').1 ∧
      walkReads sr phys va p = walkReads sr phys va p' := by
  unfold walkReads at hE ⊢
  unfold walkStage1
  dsimp only at hE ⊢
  cases hs : startLevel (64 - regionTsz (sr.val .tcrEl1) (useTtbr1 va)) with
  | none => exact ⟨rfl, rfl⟩
  | some level =>
    rw [hs] at hE
    dsimp only at hE ⊢
    by_cases hc : regionOk (walkVa (sr.val .tcrEl1) va)
        (64 - regionTsz (sr.val .tcrEl1) (useTtbr1 va)) (addrSize (tagged (sr.val .tcrEl1) va))
        (useTtbr1 va) = true ∧ ¬ regionEpd (sr.val .tcrEl1) (useTtbr1 va) = true ∧
        ttbrBase (regionTtbr sr (useTtbr1 va)) >>> outBits (sr.val .tcrEl1) = 0
    · rw [if_pos hc] at hE
      obtain ⟨h1, h2⟩ := walkTable_sameTables h (walkVa (sr.val .tcrEl1) va)
        (outBits (sr.val .tcrEl1)) (3 - level) _ 0 p p' hp hE
      rw [if_pos hc, if_pos hc]
      simp only [hc.1, hc.2.1, hc.2.2, Bool.not_true, Bool.false_eq_true, if_false, ne_eq,
        not_true_eq_false]
      exact ⟨h1, h2⟩
    · rw [if_neg hc, if_neg hc]
      refine ⟨?_, rfl⟩
      split
      · rfl
      · split
        · rfl
        · split
          · rfl
          · rename_i h1 h2 h3
            exact absurd ⟨by simpa using h1, h2, not_not.mp h3⟩ hc

section

variable {sr : Sysregs} {p p' : σ} {va : W64}

theorem walk_congr_stage1 (h : (walkStage1 sr phys va p).1 = (walkStage1 sr phys va p').1)
    (cur : El) (isWrite isFetch : Bool) :
    (walk sr phys va cur isWrite isFetch p).1 = (walk sr phys va cur isWrite isFetch p').1 := by
  unfold walk
  by_cases h3 : cur = .el3
  · rw [if_pos h3, if_pos h3]
  · rw [if_neg h3, if_neg h3]
    by_cases hm : sctlrM (sr.val .sctlrEl1) = true
    · simp only [hm, Bool.not_true, Bool.false_eq_true, if_false]
      rcases hr : walkStage1 sr phys va p with ⟨r, q⟩
      rcases hr' : walkStage1 sr phys va p' with ⟨r', q'⟩
      rw [hr, hr'] at h
      dsimp only at h
      subst h
      cases r <;> rfl
    · simp only [hm, Bool.not_false, if_true]

/-- **the walk** answers alike where the descriptors it reads do -/
theorem walk_sameTables (h : SameTables phys R E) (hp : R p p')
    (hE : ∀ a ∈ walkReads sr phys va p, E p a) (cur : El) (isWrite isFetch : Bool) :
    (walk sr phys va cur isWrite isFetch p).1 = (walk sr phys va cur isWrite isFetch p').1 :=
  walk_congr_stage1 (walkStage1_sameTables h sr va hp hE).1 cur isWrite isFetch

end

/-! ## the cache over two physical states -/

section

variable {sr : Sysregs} {m : Mmu} {p p' : σ} {va : W64} {cur : El} {isWrite isFetch : Bool}

theorem translateMiss_congr
    (h : (walk sr phys va cur isWrite isFetch p).1 = (walk sr phys va cur isWrite isFetch p').1) :
    (translateMiss sr phys ⟨m, p⟩ va cur isWrite isFetch).1 =
        (translateMiss sr phys ⟨m, p'⟩ va cur isWrite isFetch).1 ∧
      (translateMiss sr phys ⟨m, p⟩ va cur isWrite isFetch).2.mmu =
        (translateMiss sr phys ⟨m, p'⟩ va cur isWrite isFetch).2.mmu := by
  unfold translateMiss
  dsimp only
  rcases hr : walk sr phys va cur isWrite isFetch p with ⟨r, q⟩
  rcases hr' : walk sr phys va cur isWrite isFetch p' with ⟨r', q'⟩
  rw [hr, hr'] at h
  dsimp only at h
  subst h
  cases r <;> exact ⟨rfl, rfl⟩

/-- **one translation** over two physical states that walk alike -/
theorem translate_sameTables
    (h : (walk sr phys va cur isWrite isFetch p).1 = (walk sr phys va cur isWrite isFetch p').1) :
    (translate sr phys ⟨m, p⟩ va cur isWrite isFetch).1 =
        (translate sr phys ⟨m, p'⟩ va cur isWrite isFetch).1 ∧
      (translate sr phys ⟨m, p⟩ va cur isWrite isFetch).2.mmu =
        (translate sr phys ⟨m, p'⟩ va cur isWrite isFetch).2.mmu := by
  rw [translate_eq, translate_eq]
  split
  · dsimp only
    cases (epochCheck m sr).line (walkVa (sr.val .tcrEl1) va) with
    | some l => exact ⟨rfl, rfl⟩
    | none => exact translateMiss_congr h
  · exact translateMiss_congr h

/-- a cache that memoises the walk of one physical state is served from it, and goes on doing so -/
theorem Coherent.translate_kept (h : Coherent phys ⟨m, p⟩) (sr : Sysregs) (va : W64) (cur : El)
    (isWrite isFetch : Bool) :
    (translate sr phys ⟨m, p⟩ va cur isWrite isFetch).1 =
        (walk sr phys va cur isWrite isFetch p).1.answer cur isWrite isFetch ∧
      Coherent phys ⟨(translate sr phys ⟨m, p⟩ va cur isWrite isFetch).2.mmu, p⟩ := by
  have hm := h.memo_epochCheck sr
  have hv := epochCheck_valid m sr
  have he := epochCheck_epoch m sr
  have hkeep : ∀ m' : Mmu, m'.tlb = (epochCheck m sr).tlb → m'.epochValid = true →
      m'.epoch = tlbEpochRead sr → Coherent phys ⟨m', p⟩ := by
    intro m' ht hv' he'
    refine .of_memo sr hv' he' ?_
    rw [lines_congr ht]
    exact hm
  have hmiss : ∀ m' : Mmu, m'.tlb = (epochCheck m sr).tlb → m'.epochValid = true →
      m'.epoch = tlbEpochRead sr →
      (translateMiss sr phys ⟨m', p⟩ va cur isWrite isFetch).1 =
          (walk sr phys va cur isWrite isFetch p).1.answer cur isWrite isFetch ∧
        Coherent phys ⟨(translateMiss sr phys ⟨m', p⟩ va cur isWrite isFetch).2.mmu, p⟩ := by
    intro m' ht hv' he'
    unfold translateMiss
    dsimp only
    rcases hw : walk sr phys va cur isWrite isFetch p with ⟨r, q⟩
    cases r with
    | identity pa => exact ⟨rfl, hkeep m' ht hv' he'⟩
    | fault f => exact ⟨rfl, hkeep m' ht hv' he'⟩
    | leaf l =>
      obtain ⟨hline, h0⟩ := walk_leaf_line (show (walk sr phys va cur isWrite isFetch p).1 =
        .leaf l by rw [hw])
      refine ⟨rfl, ?_⟩
      dsimp only
      by_cases hc : cacheable sr cur = true
      · rw [if_pos hc]
        refine .of_memo sr hv' he' ?_
        show Memo.Memo _ _ (tlbFill m' sr (walkVa (sr.val .tcrEl1) va) l).lines
        rw [lines_tlbFill _ _ _ h0, lines_congr ht]
        exact Memo.memo_fill hm hline
      · rw [if_neg hc]
        exact hkeep m' ht hv' he'
  rw [translate_eq]
  by_cases hc : cacheable sr cur = true
  · rw [if_pos hc]
    cases hline : (epochCheck m sr).line (walkVa (sr.val .tcrEl1) va) with
    | none => exact hmiss (epochCheck m sr).countMiss rfl hv he
    | some l =>
      refine ⟨?_, hkeep (epochCheck m sr).countHit rfl hv he⟩
      exact (walk_of_line isWrite isFetch hc (hm _ _ hline)).symm
  · rw [if_neg hc]
    exact hmiss (epochCheck m sr) rfl hv he

end

end Oemu
