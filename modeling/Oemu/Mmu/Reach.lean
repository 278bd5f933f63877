import Oemu.Mmu.Served

/-!
# The writes of the translated bus

`WorldStep` is one elementary step of the translation layer at a level: a translation, a probe of
the physical bus, the bookkeeping of the layer, or a write of the physical bus at an address the
layer grants for writing at that level, in the very state the write is made in.  Every operation of
the translated bus is a sequence of these, so no write of a guest reaches an address its level may
not write.

* `reach_mmuRead`, `reach_mmuWrite`, `reach_mmuValidate`, `reach_mmuFetch32`.
-/

namespace Oemu

variable {σ : Type}

/-- the operations of a physical bus that are not writes -/
inductive PhysProbe (phys : Memops σ) (p : σ) : σ → Prop where
  | read (a : W64) (n : MemSize) (sx : Bool) : PhysProbe phys p (phys.read p a n sx).2.2
  | validate (a n : W64) (perms : W32) : PhysProbe phys p (phys.validate p a n perms).2
  | fetch32 (a : W64) : PhysProbe phys p (phys.fetch32 p a).2.2

/-- one step of the translation layer at a level -/
inductive WorldStep (sr : Sysregs) (phys : Memops σ) (cur : El) (w : MmuWorld σ) :
    MmuWorld σ → Prop where
  | probe (p : σ) (hp : PhysProbe phys w.phys p) : WorldStep sr phys cur w { w with phys := p }
  | translate (va : W64) (isWrite isFetch : Bool) :
      WorldStep sr phys cur w (Oemu.translate sr phys w va cur isWrite isFetch).2
  | pend (f : MmuFault) : WorldStep sr phys cur w (w.pend f)
  | take : WorldStep sr phys cur w { w with mmu := w.mmu.takeFault.2 }
  | flush : WorldStep sr phys cur w { w with mmu := w.mmu.flushAll }
  | write (va pa : W64) (n : MemSize) (value : W64) (hm : misaligned va n = false)
      (hg : (Oemu.translate sr phys w va cur true false).1 = .ok pa) :
      WorldStep sr phys cur w { w with phys := (phys.write w.phys pa n value).2 }

/-- any number of steps -/
def Reach (sr : Sysregs) (phys : Memops σ) (cur : El) : MmuWorld σ → MmuWorld σ → Prop :=
  Relation.ReflTransGen (WorldStep sr phys cur)

variable {sr : Sysregs} {phys : Memops σ} {cur : El} {w w' : MmuWorld σ} {va pa : W64}

theorem Reach.trans {w'' : MmuWorld σ} (h : Reach sr phys cur w w') (h' : Reach sr phys cur w' w'') :
    Reach sr phys cur w w'' := Relation.ReflTransGen.trans h h'

theorem reach_translate (sr : Sysregs) (phys : Memops σ) (cur : El) (w : MmuWorld σ) (va : W64)
    (isWrite isFetch : Bool) :
    Reach sr phys cur w (translate sr phys w va cur isWrite isFetch).2 :=
  .single (.translate va isWrite isFetch)

theorem Reach.probe {p : σ} (h : Reach sr phys cur w w') (hp : PhysProbe phys w'.phys p) :
    Reach sr phys cur w { w' with phys := p } := .tail h (.probe p hp)

theorem Reach.pend (h : Reach sr phys cur w w') (f : MmuFault) :
    Reach sr phys cur w (w'.pend f) := .tail h (.pend f)

/-! ## probes and fetches -/

theorem reach_validateLoop (va size : W64) (perms : W32) (fuel : Nat) :
    ∀ (off : W64) (w : MmuWorld σ),
      Reach sr phys sr.el w (validateLoop sr phys va size perms fuel off w).2 := by
  induction fuel with
  | zero =>
    intro off w
    exact .refl
  | succ fuel ih =>
    intro off w
    unfold validateLoop
    dsimp only
    split
    · have ht := reach_translate sr phys sr.el w (va + off)
        (perms.getLsbD 1) (perms.getLsbD 2)
      rcases hr : translate sr phys w (va + off) sr.el (perms.getLsbD 1) (perms.getLsbD 2)
        with ⟨t, w'⟩
      rw [hr] at ht
      cases t with
      | error f => exact ht.pend f
      | ok pa =>
        dsimp only
        generalize (if 4096 - ((va + off) &&& pageMask) ≤ size - off then
          4096 - ((va + off) &&& pageMask) else size - off) = chunk
        have hv : PhysProbe phys w'.phys (phys.validate w'.phys pa chunk perms).2 := .validate ..
        rcases hq : phys.validate w'.phys pa chunk perms with ⟨st, p⟩
        rw [hq] at hv
        cases st <;> try exact (ht.probe hv).pend _
        exact (ht.probe hv).trans (ih (off + chunk) ⟨w'.mmu, p⟩)
    · exact .refl

theorem reach_mmuValidate (sr : Sysregs) (phys : Memops σ) (w : MmuWorld σ) (va size : W64) (perms : W32) :
    Reach sr phys sr.el w (mmuValidate sr phys w va size perms).2 :=
  reach_validateLoop va size perms size.toNat 0 w

theorem reach_mmuFetch32 (sr : Sysregs) (phys : Memops σ) (w : MmuWorld σ) (va : W64) : Reach sr phys sr.el w (mmuFetch32 sr phys w va).2.2 := by
  unfold mmuFetch32
  dsimp only
  have ht := reach_translate sr phys sr.el w va false true
  rcases hr : translate sr phys w va sr.el false true with ⟨t, w'⟩
  rw [hr] at ht
  cases t with
  | error f => exact ht.pend f
  | ok pa =>
    dsimp only
    have hv : PhysProbe phys w'.phys (phys.validate w'.phys pa 4 permExec).2 := .validate ..
    rcases hq : phys.validate w'.phys pa 4 permExec with ⟨st, p⟩
    rw [hq] at hv
    have htv := ht.probe hv
    cases st <;> try exact htv.pend _
    dsimp only
    have hf : PhysProbe phys p (phys.fetch32 p pa).2.2 := .fetch32 ..
    rcases hg : phys.fetch32 p pa with ⟨st, word, p'⟩
    rw [hg] at hf
    cases st <;> try exact (htv.probe hf).pend _
    exact htv.probe hf

/-! ## split accesses -/

def AllGranted (sr : Sysregs) (m : Mmu) (cur : El) (isWrite : Bool) (va : W64) (n : Nat) : Prop :=
  ∀ i < n, ∃ pa, Granted sr m cur isWrite false (va + BitVec.ofNat 64 i) pa

theorem apart_offsets (tcr va : W64) {a b : Nat} (ha : a < 4096) (hb : b < 4096) :
    Apart tcr (va + BitVec.ofNat 64 a) (va + BitVec.ofNat 64 b) := by
  have key : ∀ {a b : Nat}, a ≤ b → b < 4096 →
      Apart tcr (va + BitVec.ofNat 64 a) (va + BitVec.ofNat 64 b) := by
    intro a b hab hb
    have e : va + BitVec.ofNat 64 b = va + BitVec.ofNat 64 a + BitVec.ofNat 64 (b - a) := by
      rw [BitVec.add_assoc, ← BitVec.ofNat_add, Nat.add_sub_cancel' hab]
    rw [e]
    exact apart_of_near tcr _ (by omega)
  rcases Nat.le_total a b with h | h
  · exact key h hb
  · exact (key h ha).symm

/-- a translation of a byte of the access keeps the others granted -/
theorem AllGranted.keep (phys : Memops σ) {isWrite : Bool} {n j : Nat}
    (h : AllGranted sr w.mmu cur isWrite va n)
    (hn : n ≤ 4096) (hj : j < 4096) (isWrite' isFetch' : Bool) :
    AllGranted sr (translate sr phys w (va + BitVec.ofNat 64 j) cur isWrite' isFetch').2.mmu cur
      isWrite va n := by
  intro i hi
  obtain ⟨pa, hg⟩ := h i hi
  exact ⟨pa, hg.stable (apart_offsets _ va (by omega) hj) isWrite' isFetch'⟩

/-- a passed check of bytes has granted them, beside the ones granted before -/
theorem splitCheck_reach (sr : Sysregs) (phys : Memops σ) (cur : El) (va : W64) (f₀ : MmuFault)
    (isWrite : Bool) (k : Nat) :
    ∀ (i : Nat) (w : MmuWorld σ), i + k ≤ 4096 →
      AllGranted sr w.mmu cur isWrite va i →
      Reach sr phys cur w (splitCheck sr phys f₀ va cur isWrite k i w).2 ∧
        ((splitCheck sr phys f₀ va cur isWrite k i w).1 = none →
          AllGranted sr (splitCheck sr phys f₀ va cur isWrite k i w).2.mmu cur isWrite va
            (i + k)) := by
  induction k with
  | zero =>
    intro i w _ hg
    exact ⟨.refl, fun _ => hg⟩
  | succ k ih =>
    intro i w hik hg
    unfold splitCheck
    have ht := reach_translate sr phys cur w
      (va + BitVec.ofNat 64 i) isWrite false
    have hkeep := hg.keep phys (by omega) (show i < 4096 by omega) isWrite false
    rcases hr : translate sr phys w (va + BitVec.ofNat 64 i) cur isWrite false with ⟨t, w'⟩
    rw [hr] at ht hkeep
    cases t with
    | error f => exact ⟨ht, nofun⟩
    | ok pa =>
      have hnew := granted_of_translate (show (translate sr phys w
        (va + BitVec.ofNat 64 i) cur isWrite false).1 = .ok pa by rw [hr])
      rw [hr] at hnew
      have hall : AllGranted sr w'.mmu cur isWrite va (i + 1) := by
        intro j hj
        rcases Nat.lt_succ_iff_lt_or_eq.mp hj with h | rfl
        · exact hkeep j h
        · exact ⟨pa, hnew⟩
      dsimp only
      have hv : PhysProbe phys w'.phys (phys.validate w'.phys pa 1 (accessPerm isWrite)).2 :=
        .validate ..
      rcases hq : phys.validate w'.phys pa 1 (accessPerm isWrite) with ⟨st, p⟩
      rw [hq] at hv
      cases st <;> try exact ⟨ht.probe hv, nofun⟩
      obtain ⟨h1, h2⟩ := ih (i + 1) ⟨w'.mmu, p⟩ (by omega) hall
      refine ⟨(ht.probe hv).trans h1, ?_⟩
      intro hnone
      have := h2 hnone
      rwa [show i + 1 + k = i + (k + 1) by omega] at this

theorem splitRead_reach (sr : Sysregs) (phys : Memops σ) (cur : El) (va : W64) (k : Nat) :
    ∀ (i : Nat) (value : W64) (w : MmuWorld σ),
    Reach sr phys cur w (splitRead sr phys va cur k i value w).2 := by
  induction k with
  | zero =>
    intro i value w
    exact .refl
  | succ k ih =>
    intro i value w
    unfold splitRead
    have ht := reach_translate sr phys cur w
      (va + BitVec.ofNat 64 i) false false
    rcases hr : translate sr phys w (va + BitVec.ofNat 64 i) cur false false with ⟨t, w'⟩
    rw [hr] at ht
    dsimp only
    have hv : PhysProbe phys w'.phys (phys.read w'.phys (outAddr t) .byte false).2.2 := .read ..
    rcases hq : phys.read w'.phys (outAddr t) .byte false with ⟨st, byte, p⟩
    rw [hq] at hv
    cases st <;> try exact ht.probe hv
    exact (ht.probe hv).trans (ih _ _ ⟨w'.mmu, p⟩)

theorem splitWrite_reach (phys : Memops σ) (value : W64) {n : Nat} (hn : n ≤ 4096) (k : Nat) :
    ∀ (i : Nat) (w : MmuWorld σ), i + k ≤ n → AllGranted sr w.mmu cur true va n →
      Reach sr phys cur w (splitWrite sr phys va cur value k i w).2 := by
  induction k with
  | zero =>
    intro i w _ _
    exact .refl
  | succ k ih =>
    intro i w hik hg
    unfold splitWrite
    obtain ⟨pa, hpa⟩ := hg i (by omega)
    have ht := reach_translate sr phys cur w
      (va + BitVec.ofNat 64 i) true false
    have hkeep := hg.keep phys hn (show i < 4096 by omega) true false
    have hok := (hpa.translate phys w).1
    rcases hr : translate sr phys w (va + BitVec.ofNat 64 i) cur true false with ⟨t, w'⟩
    rw [hr] at ht hkeep hok
    dsimp only at hok
    subst hok
    dsimp only [outAddr]
    -- granted still, in the state the byte is written in
    have hagain := (granted_of_translate (show (translate sr phys w (va + BitVec.ofNat 64 i) cur
      true false).1 = .ok pa by rw [hr])).translate phys
        (translate sr phys w (va + BitVec.ofNat 64 i) cur true false).2
    rw [hr] at hagain
    have hw : Reach sr phys cur w { w' with phys := (phys.write w'.phys pa .byte
        ((value >>> (i * 8)) &&& 0xFF)).2 } :=
      .tail ht (.write (va + BitVec.ofNat 64 i) pa .byte _ (by simp [misaligned, MemSize.bytes,
        MemSize.log2]) hagain.1)
    rcases hq : phys.write w'.phys pa .byte ((value >>> (i * 8)) &&& 0xFF) with ⟨st, p⟩
    rw [hq] at hw
    cases st <;> try exact hw
    exact hw.trans (ih (i + 1) ⟨w'.mmu, p⟩ (by omega) hkeep)

/-! ## reads and writes -/

theorem bytes_le_page (n : MemSize) : n.bytes ≤ 4096 := n.bytes_le.trans (by decide)

theorem allGranted_zero {m : Mmu} {isWrite : Bool} : AllGranted sr m cur isWrite va 0 :=
  fun _ h => absurd h (Nat.not_lt_zero _)

theorem reach_mmuReadPhys (sr : Sysregs) (phys : Memops σ) (w : MmuWorld σ) (f₀ : MmuFault) (va pa : W64) (size : MemSize) :
    Reach sr phys sr.el w (mmuReadPhys sr phys f₀ w va pa size).2 := by
  unfold mmuReadPhys
  dsimp only
  split
  · obtain ⟨hc, -⟩ := splitCheck_reach sr phys sr.el va f₀ false
      size.bytes 0 w (by have := bytes_le_page size; omega) allGranted_zero
    rcases hr : splitCheck sr phys f₀ va sr.el false size.bytes 0 w with ⟨f, w'⟩
    rw [hr] at hc
    cases f with
    | some f => exact hc.pend f
    | none =>
      dsimp only
      have hs := splitRead_reach sr phys sr.el va size.bytes 0 0
        w'
      rcases hq : splitRead sr phys va sr.el size.bytes 0 0 w' with ⟨value, w''⟩
      rw [hq] at hs
      cases value with
      | some value => exact hc.trans hs
      | none => exact (hc.trans hs).pend _
  · have hv : PhysProbe phys w.phys
        (phys.validate w.phys pa (BitVec.ofNat 64 size.bytes) permRead).2 := .validate ..
    rcases hq : phys.validate w.phys pa (BitVec.ofNat 64 size.bytes) permRead with ⟨st, p⟩
    rw [hq] at hv
    have hvr : Reach sr phys sr.el w { w with phys := p } := Reach.probe .refl hv
    cases st <;> try exact hvr.pend _
    dsimp only
    have hr : PhysProbe phys p (phys.read p pa size false).2.2 := .read ..
    rcases hg : phys.read p pa size false with ⟨st, value, p'⟩
    rw [hg] at hr
    cases st <;> try exact (hvr.probe hr).pend _
    exact hvr.probe hr

theorem reach_mmuRead (sr : Sysregs) (phys : Memops σ) (w : MmuWorld σ) (f₀ : MmuFault) (va : W64) (size : MemSize) (sx : Bool) :
    Reach sr phys sr.el w (mmuRead sr phys f₀ w va size sx).2.2 := by
  unfold mmuRead
  dsimp only
  have ht := reach_translate sr phys sr.el w va false false
  rcases hr : translate sr phys w va sr.el false false with ⟨t, w'⟩
  rw [hr] at ht
  cases t with
  | error f => exact ht.pend f
  | ok pa =>
    dsimp only
    split
    · exact ht.pend _
    · have hp := reach_mmuReadPhys sr phys w' f₀ va pa size
      rcases hq : mmuReadPhys sr phys f₀ w' va pa size with ⟨value, w''⟩
      rw [hq] at hp
      cases value <;> exact ht.trans hp

theorem reach_mmuWrite (sr : Sysregs) (phys : Memops σ) (w : MmuWorld σ) (f₀ : MmuFault) (va : W64) (size : MemSize) (value : W64) :
    Reach sr phys sr.el w (mmuWrite sr phys f₀ w va size value).2 := by
  unfold mmuWrite
  dsimp only
  have ht := reach_translate sr phys sr.el w va true false
  rcases hr : translate sr phys w va sr.el true false with ⟨t, w'⟩
  rw [hr] at ht
  cases t with
  | error f => exact ht.pend f
  | ok pa =>
    dsimp only
    split
    · exact ht.pend _
    · split
      · obtain ⟨hc, hall⟩ := splitCheck_reach sr phys sr.el va
          f₀ true size.bytes 0 w' (by have := bytes_le_page size; omega) allGranted_zero
        rcases hq : splitCheck sr phys f₀ va sr.el true size.bytes 0 w' with ⟨f, w''⟩
        rw [hq] at hc hall
        cases f with
        | some f => exact (ht.trans hc).pend f
        | none =>
          dsimp only
          have hall' := hall rfl
          rw [Nat.zero_add] at hall'
          have hs := splitWrite_reach phys value (bytes_le_page size) size.bytes 0 w''
            (by omega) hall'
          rcases hg : splitWrite sr phys va sr.el value size.bytes 0 w'' with ⟨done, w₃⟩
          rw [hg] at hs
          cases done with
          | true => exact (ht.trans hc).trans hs
          | false => exact ((ht.trans hc).trans hs).pend _
      · rename_i _ hal
        have hv : PhysProbe phys w'.phys
            (phys.validate w'.phys pa (BitVec.ofNat 64 size.bytes) permWrite).2 := .validate ..
        rcases hq : phys.validate w'.phys pa (BitVec.ofNat 64 size.bytes) permWrite with ⟨st, p⟩
        rw [hq] at hv
        have hvr := ht.probe hv
        cases st <;> try exact hvr.pend _
        dsimp only
        have hg := granted_of_translate (show (translate sr phys w va sr.el true false).1 = .ok pa
          by rw [hr])
        rw [hr] at hg
        have hagain := (hg.translate phys { w' with phys := p }).1
        have hw : Reach sr phys sr.el w { w' with phys := (phys.write p pa size value).2 } :=
          .tail hvr (.write va pa size value (by simpa using hal) hagain)
        rcases hx : phys.write p pa size value with ⟨st, p'⟩
        rw [hx] at hw
        cases st <;> try exact hw.pend _
        exact hw

end Oemu
