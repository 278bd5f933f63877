import Oemu.Mmu.Page
import Oemu.Mmu.Frame
import Oemu.Lib.Run
import Oemu.Memory

/-!
# TLB parity

The TLB may only be faster than the walk.  Over any sequence of translations, rewrites of the
control registers, changes of level, flushes and page-table edits, a translation made when no edit
awaits its flush answers exactly what the cache-free walk answers.

The invariant is `Coherent`: under the registers of its epoch, the TLB memoises `walkLine`.

* `translate_spec`: one translation from a coherent state;
* `tlb_parity`: every run.
-/

namespace Oemu

variable {σ : Type}

/-- the table reads of a walk have no side effect -/
def ReadPure (phys : Memops σ) : Prop := ∀ sr va p, (walkStage1 sr phys va p).2 = p

/-- so it is on a bus whose reads have none -/
theorem ReadPure.of_read {phys : Memops σ} (h : ∀ p a size sx, (phys.read p a size sx).2.2 = p) :
    ReadPure phys := by
  have hr : Reads phys fun p p' => p' = p := ⟨fun _ => rfl, fun _ _ _ h h' => h'.trans h, h⟩
  exact hr.walkStage1

theorem readPure_memory : ReadPure Memory.memops := .of_read fun _ _ _ _ => rfl

theorem walk_pure {phys : Memops σ} (hp : ReadPure phys) (sr : Sysregs) (va : W64) (cur : El)
    (isWrite isFetch : Bool) (p : σ) : (walk sr phys va cur isWrite isFetch p).2 = p := by
  have hs := hp sr va p
  unfold walk
  split
  · rfl
  · split
    · rfl
    · rcases hw : walkStage1 sr phys va p with ⟨r, p'⟩
      rw [hw] at hs
      cases r <;> exact hs

/-! ## the invariant -/

/-- under the registers of its epoch the TLB memoises the walk; before the first translation it is
empty -/
structure Coherent (phys : Memops σ) (w : MmuWorld σ) : Prop where
  memo : w.mmu.epochValid = true → ∀ sr, tlbEpochRead sr = w.mmu.epoch →
    Memo.Memo tlbIndex (walkLine sr phys w.phys) w.mmu.lines
  fresh : w.mmu.epochValid = false → ∀ i, w.mmu.lines i = none

theorem walkLine_congr {sr sr' : Sysregs} (h : tlbEpochRead sr = tlbEpochRead sr')
    (phys : Memops σ) (p : σ) : walkLine sr phys p = walkLine sr' phys p := by
  funext page
  unfold walkLine
  rw [walkStage1_congr h]

theorem epochCheck_epoch (m : Mmu) (sr : Sysregs) : (epochCheck m sr).epoch = tlbEpochRead sr := rfl

theorem epochCheck_valid (m : Mmu) (sr : Sysregs) : (epochCheck m sr).epochValid = true := by
  unfold epochCheck
  dsimp only
  split
  · rename_i h
    split <;> exact h
  · rfl

/-- the table after the epoch check: kept when the epoch is live, dropped otherwise -/
theorem epochCheck_lines (m : Mmu) (sr : Sysregs) :
    (m.epochValid = true ∧ m.epoch = tlbEpochRead sr ∧ (epochCheck m sr).lines = m.lines) ∨
    (m.epochValid = false ∧ (epochCheck m sr).lines = m.lines) ∨
    (∀ i, (epochCheck m sr).lines i = none) := by
  unfold epochCheck
  by_cases hv : m.epochValid = true
  · by_cases he : m.epoch = tlbEpochRead sr
    · refine .inl ⟨hv, he, lines_congr ?_⟩
      simp [hv, he]
    · refine .inr (.inr ?_)
      intro i
      simp [hv, he, Mmu.lines, Mmu.flushAll, TlbEntry.free]
  · refine .inr (.inl ⟨by simpa using hv, lines_congr ?_⟩)
    simp [hv]

/-- after the epoch check the TLB memoises the walk of the live registers -/
theorem Coherent.memo_epochCheck {phys : Memops σ} {w : MmuWorld σ} (h : Coherent phys w)
    (sr : Sysregs) :
    Memo.Memo tlbIndex (walkLine sr phys w.phys) (epochCheck w.mmu sr).lines := by
  rcases epochCheck_lines w.mmu sr with ⟨hv, he, hl⟩ | ⟨hv, hl⟩ | hl
  · rw [hl]
    exact h.memo hv sr he.symm
  · rw [hl]
    exact Memo.memo_empty (h.fresh hv)
  · exact Memo.memo_empty hl

theorem Coherent.of_memo {phys : Memops σ} {w : MmuWorld σ} (sr : Sysregs)
    (hv : w.mmu.epochValid = true) (he : w.mmu.epoch = tlbEpochRead sr)
    (hm : Memo.Memo tlbIndex (walkLine sr phys w.phys) w.mmu.lines) : Coherent phys w where
  memo _ sr' h' := by
    rw [walkLine_congr (h'.trans he) phys w.phys]
    exact hm
  fresh h' := by
    rw [hv] at h'
    cases h'

theorem coherent_init (phys : Memops σ) (p : σ) : Coherent phys ⟨Mmu.init, p⟩ where
  memo h := by cases h
  fresh _ i := by simp [Mmu.lines, Mmu.init, TlbEntry.free]

theorem coherent_flush (phys : Memops σ) (m : Mmu) (p : σ) : Coherent phys ⟨m.flushAll, p⟩ where
  memo _ _ _ := Memo.memo_empty (lines_flushAll m)
  fresh _ i := lines_flushAll m i

/-! ## one translation -/

theorem walk_leaf_line {sr : Sysregs} {phys : Memops σ} {va : W64} {cur : El}
    {isWrite isFetch : Bool} {p : σ} {l : Leaf}
    (h : (walk sr phys va cur isWrite isFetch p).1 = .leaf l) :
    walkLine sr phys p (pageBase (walkVa (sr.val .tcrEl1) va)) = some l.line ∧ l.level ≠ 0 := by
  have hw := walkStage1_page sr phys (walkVa (sr.val .tcrEl1) va) p
  rw [walkStage1_walkVa, walkVa_walkVa] at hw
  unfold walk at h
  split at h
  · cases h
  · split at h
    · cases h
    · split at h
      · cases h
      · rename_i l' p' heq
        have hl : l' = l := by
          unfold checkLeaf at h
          split at h
          · simpa using h
          · cases h
        subst hl
        have hok : (walkStage1 sr phys va p).1 = .ok l' := by rw [heq]
        refine ⟨?_, walkStage1_level hok⟩
        rw [heq] at hw
        unfold walkLine
        cases hr : (walkStage1 sr phys (pageBase (walkVa (sr.val .tcrEl1) va)) p).1 with
        | error f =>
          rw [hr] at hw
          cases congrArg Prod.fst hw
        | ok l'' =>
          rw [hr] at hw
          have e : l' = { l'' with
              pa := pageBase l''.pa ||| (walkVa (sr.val .tcrEl1) va &&& pageMask) } := by
            have := congrArg Prod.fst hw
            simpa [relocate] using this
          subst e
          simp [Leaf.line]

theorem translateMiss_spec {phys : Memops σ} (hp : ReadPure phys) {sr : Sysregs} {w : MmuWorld σ}
    (hv : w.mmu.epochValid = true) (he : w.mmu.epoch = tlbEpochRead sr)
    (hm : Memo.Memo tlbIndex (walkLine sr phys w.phys) w.mmu.lines)
    (va : W64) (cur : El) (isWrite isFetch : Bool) :
    (translateMiss sr phys w va cur isWrite isFetch).1 =
        (walk sr phys va cur isWrite isFetch w.phys).1.answer cur isWrite isFetch ∧
      Coherent phys (translateMiss sr phys w va cur isWrite isFetch).2 ∧
      (translateMiss sr phys w va cur isWrite isFetch).2.phys = w.phys := by
  have hpure := walk_pure hp sr va cur isWrite isFetch w.phys
  unfold translateMiss
  rcases hw : walk sr phys va cur isWrite isFetch w.phys with ⟨r, p⟩
  rw [hw] at hpure
  dsimp only at hpure
  subst hpure
  cases r with
  | identity pa => exact ⟨rfl, .of_memo sr hv he hm, rfl⟩
  | fault f => exact ⟨rfl, .of_memo sr hv he hm, rfl⟩
  | leaf l =>
    refine ⟨rfl, ?_, rfl⟩
    have hl : (walk sr phys va cur isWrite isFetch w.phys).1 = .leaf l := by rw [hw]
    obtain ⟨hline, h0⟩ := walk_leaf_line hl
    by_cases hc : cacheable sr cur
    · refine .of_memo sr ?_ ?_ ?_
      · simpa [hc, tlbFill] using hv
      · simpa [hc, tlbFill] using he
      · simp only [hc, if_true, lines_tlbFill _ _ _ h0]
        exact Memo.memo_fill hm hline
    · refine .of_memo sr ?_ ?_ ?_
      · simpa [hc] using hv
      · simpa [hc] using he
      · simpa [hc] using hm

/-- **one translation from a coherent state answers what the walk answers, and keeps coherence** -/
theorem translate_spec {phys : Memops σ} (hp : ReadPure phys) {w : MmuWorld σ}
    (h : Coherent phys w) (sr : Sysregs) (va : W64) (cur : El) (isWrite isFetch : Bool) :
    (translate sr phys w va cur isWrite isFetch).1 =
        (walk sr phys va cur isWrite isFetch w.phys).1.answer cur isWrite isFetch ∧
      Coherent phys (translate sr phys w va cur isWrite isFetch).2 ∧
      (translate sr phys w va cur isWrite isFetch).2.phys = w.phys := by
  have hm := h.memo_epochCheck sr
  have hv := epochCheck_valid w.mmu sr
  have he := epochCheck_epoch w.mmu sr
  rw [translate_eq]
  by_cases hc : cacheable sr cur
  · rw [if_pos hc]
    cases hline : (epochCheck w.mmu sr).line (walkVa (sr.val .tcrEl1) va) with
    | none =>
      exact translateMiss_spec hp (w := ⟨(epochCheck w.mmu sr).countMiss, w.phys⟩) hv he hm va cur
        isWrite isFetch
    | some l =>
      refine ⟨?_, ?_, rfl⟩
      · exact (walk_of_line isWrite isFetch hc (hm _ _ hline)).symm
      · exact .of_memo (w := ⟨(epochCheck w.mmu sr).countHit, w.phys⟩) sr hv he hm
  · rw [if_neg hc]
    exact translateMiss_spec hp (w := ⟨epochCheck w.mmu sr, w.phys⟩) hv he hm va cur isWrite isFetch

/-! ## runs -/

/-- what may happen between two translations: any rewrite of the registers (the level included), a
flush, an edit of the memory below -/
inductive MmuOp (σ : Type) where
  | translate (va : W64) (isWrite isFetch : Bool)
  | setRegs (sr : Sysregs)
  | flush
  | edit (p : σ)

/-- a layer with the registers it translates for; `stale` records an edit no flush has followed -/
structure MmuRun (σ : Type) where
  sr : Sysregs
  world : MmuWorld σ
  stale : Bool

/-- a translation is only made when no edit awaits its flush -/
inductive MmuStep (phys : Memops σ) : MmuRun σ → MmuOp σ → MmuRun σ → Prop where
  | translate (sr : Sysregs) (w : MmuWorld σ) (va : W64) (isWrite isFetch : Bool) :
      MmuStep phys ⟨sr, w, false⟩ (.translate va isWrite isFetch)
        ⟨sr, (mmuTranslate sr phys w va isWrite isFetch).2, false⟩
  | setRegs (sr sr' : Sysregs) (w : MmuWorld σ) (b : Bool) :
      MmuStep phys ⟨sr, w, b⟩ (.setRegs sr') ⟨sr', w, b⟩
  | flush (sr : Sysregs) (w : MmuWorld σ) (b : Bool) :
      MmuStep phys ⟨sr, w, b⟩ .flush ⟨sr, { w with mmu := w.mmu.flushAll }, false⟩
  | edit (sr : Sysregs) (w : MmuWorld σ) (b : Bool) (p : σ) :
      MmuStep phys ⟨sr, w, b⟩ (.edit p) ⟨sr, { w with phys := p }, true⟩

/-- the start of every run: `oemu_mmu_init` over some registers and some memory -/
def MmuRun.init (sr : Sysregs) (p : σ) : MmuRun σ := ⟨sr, ⟨Mmu.init, p⟩, false⟩

theorem mmuStep_coherent {phys : Memops σ} (hp : ReadPure phys) :
    ∀ s op s', (s.stale = false → Coherent phys s.world) → True → MmuStep phys s op s' →
      (s'.stale = false → Coherent phys s'.world) := by
  rintro _ _ _ h - (⟨sr, w, va, iw, ifx⟩ | ⟨sr, sr', w, b⟩ | ⟨sr, w, b⟩ | ⟨sr, w, b, p⟩)
  · intro _
    exact (translate_spec hp (h rfl) sr va sr.el iw ifx).2.1
  · exact h
  · intro _
    exact coherent_flush phys w.mmu w.phys
  · intro hb
    cases hb

/-- **TLB parity**: along every run in which an edit is flushed before the next translation, a
translation answers the status, address, syndrome and fault address of the cache-free walk -/
theorem tlb_parity {phys : Memops σ} (hp : ReadPure phys) (sr₀ : Sysregs) (p₀ : σ)
    {l : List (MmuOp σ)} {s : MmuRun σ} (hrun : Lts.Run (MmuStep phys) (.init sr₀ p₀) l s)
    (hclean : s.stale = false) (va : W64) (isWrite isFetch : Bool) :
    (mmuTranslate s.sr phys s.world va isWrite isFetch).1 =
      mmuInternalWalk s.sr phys s.world va s.sr.el isWrite isFetch := by
  have hc : s.stale = false → Coherent phys s.world :=
    hrun.invariant (I := fun s => s.stale = false → Coherent phys s.world) (A := fun _ => True)
      (mmuStep_coherent hp) (fun _ _ => trivial) (fun _ => coherent_init phys p₀)
  exact (translate_spec hp (hc hclean) s.sr va s.sr.el isWrite isFetch).1

/-! a run that fills the TLB with a block mapping and is served from it -/

/-- one RAM region with a level-2 block descriptor for address 0 at `0x1000` -/
def parityMemory : Memory where
  regions := [⟨0, 0x4000, 3, 0, true⟩]
  capacity := 1
  heap := fun i => if i = 0x1000 then 0x01 else if i = 0x1001 then 0x04 else 0

/-- translation on, 25-bit low region, tables at `0x1000`, running at EL1 -/
def parityRegs : Sysregs where
  val
    | .sctlrEl1 => 1
    | .tcrEl1 => 39
    | .ttbr0El1 => 0x1000
    | .pstate => 0x3C5
    | _ => 0
  taken := []

/-- the state after the first access -/
def parityServed : MmuRun Memory :=
  ⟨parityRegs, (mmuTranslate parityRegs Memory.memops ⟨Mmu.init, parityMemory⟩ 0x123 false false).2,
    false⟩

theorem tlb_parity_served :
    mmuInternalWalk parityRegs Memory.memops parityServed.world 0x124 .el1 false false
        = .ok 0x124 ∧
      (mmuTranslate parityRegs Memory.memops parityServed.world 0x124 false false).1 =
        mmuInternalWalk parityRegs Memory.memops parityServed.world 0x124 parityRegs.el false
          false := by
  refine ⟨by decide +kernel, ?_⟩
  exact tlb_parity (s := parityServed) readPure_memory parityRegs parityMemory
    (.cons (.translate parityRegs ⟨Mmu.init, parityMemory⟩ 0x123 false false) (.nil _)) rfl 0x124
    false false

end Oemu
