import Oemu.Mmu.Twin
import Oemu.Aspace.Agree

/-!
# Physical buses that can stand for each other

`Provider phys phys' R`: in states related by `R` the two buses answer every access alike, a refusal
by any status.  Then the translation layers over them answer alike, at every level and for every
setting of the registers: `Provider.twin`.

* `same_provider`   the flat memory and an address space with RAM only.
-/

namespace Oemu

variable {σ σ' δ : Type}

/-- buses that answer alike, and stay so -/
structure Provider (phys : Memops σ) (phys' : Memops σ') (R : σ → σ' → Prop) : Prop where
  read : ∀ {p p'}, R p p' → ∀ a n sx, n.bytes ≤ 8 →
    Verdicts (fun x y => x.1 = y.1 ∧ R x.2 y.2) (fun x y => R x.2 y.2) (phys.read p a n sx)
      (phys'.read p' a n sx)
  write : ∀ {p p'}, R p p' → ∀ a n value, n.bytes ≤ 8 →
    Verdicts R R (phys.write p a n value) (phys'.write p' a n value)
  validate : ∀ {p p'}, R p p' → ∀ a n perms,
    Verdicts R R (phys.validate p a n perms) (phys'.validate p' a n perms)
  fetch32 : ∀ {p p'}, R p p' → ∀ a,
    Verdicts (fun x y => x.1 = y.1 ∧ R x.2 y.2) (fun x y => R x.2 y.2) (phys.fetch32 p a)
      (phys'.fetch32 p' a)

variable {phys : Memops σ} {phys' : Memops σ'} {R : σ → σ' → Prop} {p : σ} {p' : σ'}

namespace Provider

/-! ## walks -/

theorem walkTable (h : Provider phys phys' R) (va : W64) (out rem : Nat) :
    ∀ (base : W64) (tattrs : BitVec 5) (p : σ) (p' : σ'), R p p' →
      Txn.Alike R (Oemu.walkTable phys va out rem base tattrs p)
        (Oemu.walkTable phys' va out rem base tattrs p') := by
  induction rem with
  | zero =>
    intro base tattrs p p' hp
    have hr := h.read hp (base ||| tableIndex va 3) .dword false (by decide)
    unfold Oemu.walkTable
    generalize phys.read p (base ||| tableIndex va 3) .dword false = x at hr ⊢
    generalize phys'.read p' (base ||| tableIndex va 3) .dword false = y at hr ⊢
    cases hr with
    | ok a b hab => exact ⟨congrArg (walkLeaf va out 3 tattrs) hab.1, hab.2⟩
    | refused st st' a b hs hs' hq =>
      cases st <;> first | exact absurd rfl hs | skip
      all_goals cases st' <;> first | exact absurd rfl hs' | exact ⟨rfl, hq⟩
  | succ rem ih =>
    intro base tattrs p p' hp
    have hr := h.read hp (base ||| tableIndex va (2 - rem)) .dword false (by decide)
    unfold Oemu.walkTable
    dsimp only
    generalize phys.read p (base ||| tableIndex va (2 - rem)) .dword false = x at hr ⊢
    generalize phys'.read p' (base ||| tableIndex va (2 - rem)) .dword false = y at hr ⊢
    cases hr with
    | ok a b hab =>
      obtain ⟨raw, q⟩ := a
      obtain ⟨raw', q'⟩ := b
      obtain ⟨hraw, hq⟩ := hab
      dsimp only at hraw hq ⊢
      subst hraw
      split
      · split
        · exact ⟨rfl, hq⟩
        · exact ih _ _ _ _ hq
      · exact ⟨rfl, hq⟩
    | refused st st' a b hs hs' hq =>
      cases st <;> first | exact absurd rfl hs | skip
      all_goals cases st' <;> first | exact absurd rfl hs' | exact ⟨rfl, hq⟩

theorem walkStage1 (h : Provider phys phys' R) (sr : Sysregs) (va : W64) (hp : R p p') :
    Txn.Alike R (Oemu.walkStage1 sr phys va p) (Oemu.walkStage1 sr phys' va p') := by
  unfold Oemu.walkStage1
  dsimp only
  split
  · exact ⟨rfl, hp⟩
  · split
    · exact ⟨rfl, hp⟩
    · split
      · exact ⟨rfl, hp⟩
      · split
        · exact ⟨rfl, hp⟩
        · exact h.walkTable _ _ _ _ _ _ _ hp

theorem walk (h : Provider phys phys' R) (sr : Sysregs) (va : W64) (cur : El)
    (isWrite isFetch : Bool) (hp : R p p') :
    Txn.Alike R (Oemu.walk sr phys va cur isWrite isFetch p)
      (Oemu.walk sr phys' va cur isWrite isFetch p') := by
  unfold Oemu.walk
  split
  · exact ⟨rfl, hp⟩
  · split
    · exact ⟨rfl, hp⟩
    · obtain ⟨r, q, q', hr, hr', hq⟩ := (h.walkStage1 sr va hp).cases
      rw [hr, hr']
      cases r <;> exact ⟨rfl, hq⟩

/-! ## the translation layers -/

/-- one layer, over related buses -/
def Over (R : σ → σ' → Prop) (w : MmuWorld σ) (w' : MmuWorld σ') : Prop :=
  w'.mmu = w.mmu ∧ R w.phys w'.phys

theorem translateMiss (h : Provider phys phys' R) (sr : Sysregs) {w : MmuWorld σ}
    {w' : MmuWorld σ'} (hw : Over R w w') (va : W64) (cur : El) (isWrite isFetch : Bool) :
    Txn.Alike (Over R) (Oemu.translateMiss sr phys w va cur isWrite isFetch)
      (Oemu.translateMiss sr phys' w' va cur isWrite isFetch) := by
  obtain ⟨r, q, q', hr, hr', hq⟩ := (h.walk sr va cur isWrite isFetch hw.2).cases
  unfold Oemu.translateMiss
  rw [hr, hr', hw.1]
  cases r <;> exact ⟨rfl, rfl, hq⟩

theorem translate (h : Provider phys phys' R) (sr : Sysregs) {w : MmuWorld σ} {w' : MmuWorld σ'}
    (hw : Over R w w') (va : W64) (cur : El) (isWrite isFetch : Bool) :
    Txn.Alike (Over R) (Oemu.translate sr phys w va cur isWrite isFetch)
      (Oemu.translate sr phys' w' va cur isWrite isFetch) := by
  unfold Oemu.translate
  dsimp only
  rw [hw.1]
  have hover : ∀ m : Mmu, Over R ⟨m, w.phys⟩ ⟨m, w'.phys⟩ := fun m => ⟨rfl, hw.2⟩
  split
  · rcases tlbLookup (epochCheck w.mmu sr) (walkVa (sr.val .tcrEl1) va) cur isWrite isFetch with
      ⟨l, m⟩
    cases l with
    | served pa => exact ⟨rfl, rfl, hw.2⟩
    | denied f => exact ⟨rfl, rfl, hw.2⟩
    | miss => exact h.translateMiss sr (hover m) va cur isWrite isFetch
  · exact h.translateMiss sr (hover _) va cur isWrite isFetch

/-- **the translated buses over them answer alike** -/
theorem twin (h : Provider phys phys' R) (sr : Sysregs) (cur : El) :
    Twin sr phys phys' cur (Over R) where
  mmu hw := hw.1
  pend hw f := ⟨by simp [MmuWorld.pend, hw.1], hw.2⟩
  take hw := ⟨by simp [hw.1], hw.2⟩
  flush hw := ⟨by simp [hw.1], hw.2⟩
  translate hw va isWrite isFetch := h.translate sr hw va cur isWrite isFetch
  validate hw a n perms := (h.validate hw.2 a n perms).mono (fun _ _ hq => ⟨hw.1, hq⟩)
    (fun _ _ hq => ⟨hw.1, hq⟩)
  read hw _ pa n _ h8 _ := (h.read hw.2 pa n false h8).mono (fun _ _ hq => ⟨hq.1, hw.1, hq.2⟩)
    (fun _ _ hq => ⟨hw.1, hq⟩)
  write hw _ pa n value _ h8 _ := (h.write hw.2 pa n value h8).mono (fun _ _ hq => ⟨hw.1, hq⟩)
    (fun _ _ hq => ⟨hw.1, hq⟩)
  fetch32 hw _ pa _ := (h.fetch32 hw.2 pa).mono (fun _ _ hq => ⟨hq.1, hw.1, hq.2⟩)
    (fun _ _ hq => ⟨hw.1, hq⟩)

end Provider

/-! ## the two providers of the emulator -/

/-- a misaligned fetch is refused on both sides, by a status of its own on each -/
theorem misfetch_refused (mem : Memory) (as : Aspace δ) {a : W64} (ha : a.toNat % 4 ≠ 0) :
    (mem.fetch32 a).1 = .fault ∧ (as.fetch32 a).1 = .invalidArg := by
  constructor
  · unfold Memory.fetch32
    rw [if_pos]
    intro h0
    apply ha
    have h := congrArg BitVec.toNat h0
    rwa [BitVec.toNat_and, show (3 : W64).toNat = 2 ^ 2 - 1 from rfl,
      Nat.and_two_pow_sub_one_eq_mod] at h
  · unfold Aspace.fetch32
    rw [if_pos ha]

/-- **the flat memory and an address space with the same RAM** -/
theorem same_provider : Provider Memory.memops (Aspace.memops : Memops (Aspace δ)) Same where
  read {mem as} h a n sx h8 := by
    have hr : Aspace.memops.read as a n sx = ((mem.read a n sx).1, (mem.read a n sx).2, as) :=
      h.read a h8 sx
    rw [hr]
    exact .of_iff Iff.rfl ⟨rfl, h⟩ h
  write {mem as} h a n value _ :=
    .of_iff (iff_of_eq (congrArg (· = Status.ok) (h.write_status a n value))) (h.write a n value)
      (h.write a n value)
  validate {mem as} h a n perms :=
    .of_iff (iff_of_eq (congrArg (· = Status.ok) (h.validate a n perms))) h h
  fetch32 {mem as} h a := by
    by_cases ha : a.toNat % 4 = 0
    · have hf := h.fetch32 ha
      exact .of_iff (iff_of_eq (congrArg (·.1 = Status.ok) hf)) ⟨congrArg (·.2) hf, h⟩ h
    · obtain ⟨h1, h2⟩ := misfetch_refused mem as ha
      exact .refused _ _ _ _ (by rw [h1]; nofun) (by rw [h2]; nofun) h

end Oemu
