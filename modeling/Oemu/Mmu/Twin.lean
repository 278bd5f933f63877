import Oemu.Mmu.Reach
import Oemu.Lib.Txn

/-!
# The translated bus over two worlds

`Twin` is a relation of two worlds, of one translation layer each, that the elementary operations of
the layer keep and cannot tell apart: a translation, a probe of the physical bus, and a transfer at
an address the layer grants.  Every operation of the translated bus is made of these, so it answers
alike in related worlds and leaves them related.

* `Twin.fetch`, `Twin.load`, `Twin.store`, `Twin.validateRange`.
-/

namespace Oemu

variable {σ σ' : Type}

/-- two answers of the physical bus: both a success, or both a refusal -/
inductive Verdicts {α β : Type} (R R' : α → β → Prop) : Status × α → Status × β → Prop where
  | ok (a : α) (b : β) (h : R a b) : Verdicts R R' (.ok, a) (.ok, b)
  | refused (st st' : Status) (a : α) (b : β) (hs : st ≠ .ok) (hs' : st' ≠ .ok) (h : R' a b) :
      Verdicts R R' (st, a) (st', b)

theorem Verdicts.of_iff {α β : Type} {R R' : α → β → Prop} {p : Status × α} {q : Status × β}
    (hok : p.1 = .ok ↔ q.1 = .ok) (h : R p.2 q.2) (h' : R' p.2 q.2) : Verdicts R R' p q := by
  obtain ⟨st, a⟩ := p
  obtain ⟨st', b⟩ := q
  dsimp only at hok h h'
  by_cases hs : st = .ok
  · subst hs
    obtain rfl := hok.mp rfl
    exact .ok a b h
  · exact .refused st st' a b hs (fun hs' => hs (hok.mpr hs')) h'

theorem Verdicts.mono {α β : Type} {R R' S S' : α → β → Prop} {p : Status × α} {q : Status × β}
    (h : Verdicts R R' p q) (hok : ∀ a b, R a b → S a b) (hno : ∀ a b, R' a b → S' a b) :
    Verdicts S S' p q := by
  cases h with
  | ok a b h => exact .ok a b (hok a b h)
  | refused st st' a b hs hs' h => exact .refused st st' a b hs hs' (hno a b h)

/-- related worlds, which the layer cannot tell apart at a level -/
structure Twin (sr : Sysregs) (phys : Memops σ) (phys' : Memops σ') (cur : El)
    (T : MmuWorld σ → MmuWorld σ' → Prop) : Prop where
  mmu : ∀ {w w'}, T w w' → w'.mmu = w.mmu
  pend : ∀ {w w'}, T w w' → ∀ f, T (w.pend f) (w'.pend f)
  take : ∀ {w w'}, T w w' →
    T { w with mmu := w.mmu.takeFault.2 } { w' with mmu := w'.mmu.takeFault.2 }
  flush : ∀ {w w'}, T w w' → T { w with mmu := w.mmu.flushAll } { w' with mmu := w'.mmu.flushAll }
  translate : ∀ {w w'}, T w w' → ∀ va isWrite isFetch,
    Txn.Alike T (Oemu.translate sr phys w va cur isWrite isFetch)
      (Oemu.translate sr phys' w' va cur isWrite isFetch)
  validate : ∀ {w w'}, T w w' → ∀ a n perms,
    Verdicts (fun p p' => T ⟨w.mmu, p⟩ ⟨w'.mmu, p'⟩) (fun p p' => T ⟨w.mmu, p⟩ ⟨w'.mmu, p'⟩)
      (phys.validate w.phys a n perms) (phys'.validate w'.phys a n perms)
  read : ∀ {w w'}, T w w' → ∀ va pa n, misaligned va n = false → n.bytes ≤ 8 →
    Granted sr w.mmu cur false false va pa →
    Verdicts (fun p p' => p.1 = p'.1 ∧ T ⟨w.mmu, p.2⟩ ⟨w'.mmu, p'.2⟩)
      (fun p p' => T ⟨w.mmu, p.2⟩ ⟨w'.mmu, p'.2⟩) (phys.read w.phys pa n false)
      (phys'.read w'.phys pa n false)
  write : ∀ {w w'}, T w w' → ∀ va pa n value, misaligned va n = false → n.bytes ≤ 8 →
    Granted sr w.mmu cur true false va pa →
    Verdicts (fun p p' => T ⟨w.mmu, p⟩ ⟨w'.mmu, p'⟩) (fun p p' => T ⟨w.mmu, p⟩ ⟨w'.mmu, p'⟩)
      (phys.write w.phys pa n value) (phys'.write w'.phys pa n value)
  fetch32 : ∀ {w w'}, T w w' → ∀ va pa, Granted sr w.mmu cur false true va pa →
    Verdicts (fun p p' => p.1 = p'.1 ∧ T ⟨w.mmu, p.2⟩ ⟨w'.mmu, p'.2⟩)
      (fun p p' => T ⟨w.mmu, p.2⟩ ⟨w'.mmu, p'.2⟩) (phys.fetch32 w.phys pa)
      (phys'.fetch32 w'.phys pa)

variable {sr : Sysregs} {phys : Memops σ} {phys' : Memops σ'} {cur : El}
  {T : MmuWorld σ → MmuWorld σ' → Prop} {w : MmuWorld σ} {w' : MmuWorld σ'}

namespace Twin

theorem translated (hT : Twin sr phys phys' cur T) (h : T w w') (va : W64)
    (isWrite isFetch : Bool) :
    ∃ t u u', Oemu.translate sr phys w va cur isWrite isFetch = (t, u) ∧
      Oemu.translate sr phys' w' va cur isWrite isFetch = (t, u') ∧ T u u' ∧
      ∀ pa, t = .ok pa → Granted sr u.mmu cur isWrite isFetch va pa := by
  obtain ⟨t, u, u', hr, hr', hu⟩ := (hT.translate h va isWrite isFetch).cases
  refine ⟨t, u, u', hr, hr', hu, ?_⟩
  rintro pa rfl
  have := granted_of_translate (show (Oemu.translate sr phys w va cur isWrite isFetch).1 = .ok pa by
    rw [hr])
  rwa [hr] at this

/-! ## ranges and fetches -/

theorem validateLoop (hT : Twin sr phys phys' sr.el T) (va size : W64) (perms : W32)
    (fuel : Nat) : ∀ (off : W64) (w : MmuWorld σ) (w' : MmuWorld σ'), T w w' →
      Txn.Alike T (Oemu.validateLoop sr phys va size perms fuel off w)
        (Oemu.validateLoop sr phys' va size perms fuel off w') := by
  induction fuel with
  | zero =>
    intro off w w' h
    exact ⟨rfl, h⟩
  | succ fuel ih =>
    intro off w w' h
    unfold Oemu.validateLoop
    split
    · dsimp only
      obtain ⟨t, u, u', hr, hr', hu, -⟩ := hT.translated h (va + off) (perms.getLsbD 1)
        (perms.getLsbD 2)
      rw [hr, hr']
      cases t with
      | error f => exact ⟨rfl, hT.pend hu f⟩
      | ok pa =>
        dsimp only
        generalize (if 4096 - ((va + off) &&& pageMask) ≤ size - off then
          4096 - ((va + off) &&& pageMask) else size - off) = chunk
        have hv := hT.validate hu pa chunk perms
        generalize phys.validate u.phys pa chunk perms = x at hv ⊢
        generalize phys'.validate u'.phys pa chunk perms = y at hv ⊢
        cases hv with
        | ok p p' hp => exact ih _ _ _ hp
        | refused st st' p p' hs hs' hp =>
          cases st <;> first | exact absurd rfl hs | skip
          all_goals cases st' <;> first | exact absurd rfl hs' | exact ⟨rfl, hT.pend hp _⟩
    · exact ⟨rfl, h⟩

theorem validateRange (hT : Twin sr phys phys' sr.el T) (h : T w w') (va size : W64)
    (perms : W32) :
    Txn.Alike T (mmuValidate sr phys w va size perms) (mmuValidate sr phys' w' va size perms) :=
  hT.validateLoop va size perms size.toNat 0 w w' h

theorem fetch (hT : Twin sr phys phys' sr.el T) (h : T w w') (va : W64) :
    Txn.Alike (Txn.Alike T) (mmuFetch32 sr phys w va) (mmuFetch32 sr phys' w' va) := by
  obtain ⟨t, u, u', hr, hr', hu, hg⟩ := hT.translated h va false true
  unfold mmuFetch32
  dsimp only
  rw [hr, hr']
  cases t with
  | error f => exact ⟨rfl, rfl, hT.pend hu f⟩
  | ok pa =>
    dsimp only
    have hv := hT.validate hu pa 4 permExec
    generalize phys.validate u.phys pa 4 permExec = x at hv ⊢
    generalize phys'.validate u'.phys pa 4 permExec = y at hv ⊢
    cases hv with
    | ok p p' hp =>
      dsimp only
      have hf := hT.fetch32 hp va pa (hg pa rfl)
      dsimp only at hf
      generalize phys.fetch32 p pa = x at hf ⊢
      generalize phys'.fetch32 p' pa = y at hf ⊢
      cases hf with
      | ok a b hab =>
        obtain ⟨hword, hq⟩ := hab
        exact ⟨rfl, hword, hq⟩
      | refused st st' a b hs hs' hq =>
        obtain ⟨word, q⟩ := a
        obtain ⟨word', q'⟩ := b
        cases st <;> first | exact absurd rfl hs | skip
        all_goals cases st' <;> first | exact absurd rfl hs' | exact ⟨rfl, rfl, hT.pend hq _⟩
    | refused st st' p p' hs hs' hp =>
      cases st <;> first | exact absurd rfl hs | skip
      all_goals cases st' <;> first | exact absurd rfl hs' | exact ⟨rfl, rfl, hT.pend hp _⟩

/-! ## split accesses -/

theorem splitCheck (hT : Twin sr phys phys' cur T) (f₀ : MmuFault) (va : W64) (isWrite : Bool)
    (k : Nat) : ∀ (i : Nat) (w : MmuWorld σ) (w' : MmuWorld σ'), T w w' →
      Txn.Alike T (Oemu.splitCheck sr phys f₀ va cur isWrite k i w)
        (Oemu.splitCheck sr phys' f₀ va cur isWrite k i w') := by
  induction k with
  | zero =>
    intro i w w' h
    exact ⟨rfl, h⟩
  | succ k ih =>
    intro i w w' h
    obtain ⟨t, u, u', hr, hr', hu, -⟩ := hT.translated h (va + BitVec.ofNat 64 i) isWrite false
    unfold Oemu.splitCheck
    rw [hr, hr']
    cases t with
    | error f => exact ⟨rfl, hu⟩
    | ok pa =>
      dsimp only
      have hv := hT.validate hu pa 1 (accessPerm isWrite)
      generalize phys.validate u.phys pa 1 (accessPerm isWrite) = x at hv ⊢
      generalize phys'.validate u'.phys pa 1 (accessPerm isWrite) = y at hv ⊢
      cases hv with
      | ok p p' hp => exact ih (i + 1) _ _ hp
      | refused st st' p p' hs hs' hp =>
        cases st <;> first | exact absurd rfl hs | skip
        all_goals cases st' <;> first | exact absurd rfl hs' | exact ⟨rfl, hp⟩

theorem misaligned_byte (va : W64) : misaligned va .byte = false := by
  simp [misaligned, MemSize.bytes, MemSize.log2]

theorem translatedByte (hT : Twin sr phys phys' cur T) (h : T w w') {va : W64} {n i : Nat}
    {isWrite : Bool} (hn : n ≤ 4096) (hi : i < n) (hg : AllGranted sr w.mmu cur isWrite va n) :
    ∃ pa u u',
      Oemu.translate sr phys w (va + BitVec.ofNat 64 i) cur isWrite false = (.ok pa, u) ∧
      Oemu.translate sr phys' w' (va + BitVec.ofNat 64 i) cur isWrite false = (.ok pa, u') ∧
      T u u' ∧ Granted sr u.mmu cur isWrite false (va + BitVec.ofNat 64 i) pa ∧
      AllGranted sr u.mmu cur isWrite va n := by
  obtain ⟨pa, hpa⟩ := hg i hi
  obtain ⟨t, u, u', hr, hr', hu, hgr⟩ := hT.translated h (va + BitVec.ofNat 64 i) isWrite false
  have hok := (hpa.translate phys w).1
  have hkeep := hg.keep phys hn (show i < 4096 by omega) isWrite false
  rw [hr] at hok hkeep
  dsimp only at hok
  subst hok
  exact ⟨pa, u, u', hr, hr', hu, hgr pa rfl, hkeep⟩

theorem splitRead (hT : Twin sr phys phys' cur T) (va : W64) {n : Nat} (hn : n ≤ 4096) (k : Nat) :
    ∀ (i : Nat) (value : W64) (w : MmuWorld σ) (w' : MmuWorld σ'), i + k ≤ n → T w w' →
      AllGranted sr w.mmu cur false va n →
      Txn.Alike T (Oemu.splitRead sr phys va cur k i value w)
        (Oemu.splitRead sr phys' va cur k i value w') := by
  induction k with
  | zero =>
    intro i value w w' _ h _
    exact ⟨rfl, h⟩
  | succ k ih =>
    intro i value w w' hik h hg
    obtain ⟨pa, u, u', hr, hr', hu, hpa, hkeep⟩ := hT.translatedByte h hn (i := i) (by omega) hg
    unfold Oemu.splitRead
    rw [hr, hr']
    dsimp only [outAddr]
    have hv := hT.read hu (va + BitVec.ofNat 64 i) pa .byte (misaligned_byte _) (by decide) hpa
    generalize phys.read u.phys pa .byte false = x at hv ⊢
    generalize phys'.read u'.phys pa .byte false = y at hv ⊢
    cases hv with
    | ok a b hab =>
      obtain ⟨byte, q⟩ := a
      obtain ⟨byte', q'⟩ := b
      obtain ⟨hbyte, hq⟩ := hab
      dsimp only at hbyte hq ⊢
      subst hbyte
      exact ih (i + 1) _ _ _ (by omega) hq hkeep
    | refused st st' a b hs hs' hq =>
      obtain ⟨byte, q⟩ := a
      obtain ⟨byte', q'⟩ := b
      cases st <;> first | exact absurd rfl hs | skip
      all_goals cases st' <;> first | exact absurd rfl hs' | exact ⟨rfl, hq⟩

theorem splitWrite (hT : Twin sr phys phys' cur T) (va value : W64) {n : Nat} (hn : n ≤ 4096)
    (k : Nat) : ∀ (i : Nat) (w : MmuWorld σ) (w' : MmuWorld σ'), i + k ≤ n → T w w' →
      AllGranted sr w.mmu cur true va n →
      Txn.Alike T (Oemu.splitWrite sr phys va cur value k i w)
        (Oemu.splitWrite sr phys' va cur value k i w') := by
  induction k with
  | zero =>
    intro i w w' _ h _
    exact ⟨rfl, h⟩
  | succ k ih =>
    intro i w w' hik h hg
    obtain ⟨pa, u, u', hr, hr', hu, hpa, hkeep⟩ := hT.translatedByte h hn (i := i) (by omega) hg
    unfold Oemu.splitWrite
    rw [hr, hr']
    dsimp only [outAddr]
    have hv := hT.write hu (va + BitVec.ofNat 64 i) pa .byte ((value >>> (i * 8)) &&& 0xFF)
      (misaligned_byte _) (by decide) hpa
    generalize phys.write u.phys pa .byte ((value >>> (i * 8)) &&& 0xFF) = x at hv ⊢
    generalize phys'.write u'.phys pa .byte ((value >>> (i * 8)) &&& 0xFF) = y at hv ⊢
    cases hv with
    | ok q q' hq => exact ih (i + 1) _ _ (by omega) hq hkeep
    | refused st st' q q' hs hs' hq =>
      cases st <;> first | exact absurd rfl hs | skip
      all_goals cases st' <;> first | exact absurd rfl hs' | exact ⟨rfl, hq⟩

theorem checked (hT : Twin sr phys phys' cur T) (f₀ : MmuFault) (va : W64) (isWrite : Bool)
    (size : MemSize) (h : T w w') :
    ∃ f u u', Oemu.splitCheck sr phys f₀ va cur isWrite size.bytes 0 w = (f, u) ∧
      Oemu.splitCheck sr phys' f₀ va cur isWrite size.bytes 0 w' = (f, u') ∧ T u u' ∧
      (f = none → AllGranted sr u.mmu cur isWrite va size.bytes) := by
  obtain ⟨f, u, u', hr, hr', hu⟩ := (hT.splitCheck f₀ va isWrite size.bytes 0 w w' h).cases
  obtain ⟨-, hall⟩ := splitCheck_reach sr phys cur va f₀ isWrite size.bytes 0 w
    (by have := bytes_le_page size; omega) allGranted_zero
  rw [hr, Nat.zero_add] at hall
  exact ⟨f, u, u', hr, hr', hu, hall⟩

/-! ## reads and writes -/

theorem readPhys (hT : Twin sr phys phys' sr.el T) (f₀ : MmuFault) {va pa : W64} {size : MemSize}
    (h8 : size.bytes ≤ 8) (hg : Granted sr w.mmu sr.el false false va pa) (h : T w w') :
    Txn.Alike T (mmuReadPhys sr phys f₀ w va pa size) (mmuReadPhys sr phys' f₀ w' va pa size) := by
  unfold mmuReadPhys
  dsimp only
  split
  · obtain ⟨f, u, u', hr, hr', hu, hall⟩ := hT.checked f₀ va false size h
    rw [hr, hr']
    cases f with
    | some f => exact ⟨rfl, hT.pend hu f⟩
    | none =>
      dsimp only
      obtain ⟨value, q, q', hs, hs', hq⟩ := (hT.splitRead va (bytes_le_page size) size.bytes 0 0 u u'
        (by omega) hu (hall rfl)).cases
      rw [hs, hs']
      cases value with
      | some value => exact ⟨rfl, hq⟩
      | none => exact ⟨rfl, hT.pend hq _⟩
  · rename_i hal
    have hv := hT.validate h pa (BitVec.ofNat 64 size.bytes) permRead
    generalize phys.validate w.phys pa (BitVec.ofNat 64 size.bytes) permRead = x at hv ⊢
    generalize phys'.validate w'.phys pa (BitVec.ofNat 64 size.bytes) permRead = y at hv ⊢
    cases hv with
    | ok p p' hp =>
      dsimp only
      have hl := hT.read hp va pa size (by simpa using hal) h8 hg
      dsimp only at hl
      generalize phys.read p pa size false = x at hl ⊢
      generalize phys'.read p' pa size false = y at hl ⊢
      cases hl with
      | ok a b hab =>
        obtain ⟨value, q⟩ := a
        obtain ⟨value', q'⟩ := b
        obtain ⟨hvalue, hq⟩ := hab
        dsimp only at hvalue hq ⊢
        subst hvalue
        exact ⟨rfl, hq⟩
      | refused st st' a b hs hs' hq =>
        obtain ⟨value, q⟩ := a
        obtain ⟨value', q'⟩ := b
        cases st <;> first | exact absurd rfl hs | skip
        all_goals cases st' <;> first | exact absurd rfl hs' | exact ⟨rfl, hT.pend hq _⟩
    | refused st st' p p' hs hs' hp =>
      cases st <;> first | exact absurd rfl hs | skip
      all_goals cases st' <;> first | exact absurd rfl hs' | exact ⟨rfl, hT.pend hp _⟩

theorem load (hT : Twin sr phys phys' sr.el T) (f₀ : MmuFault) (va : W64) {size : MemSize}
    (h8 : size.bytes ≤ 8) (sx : Bool) (h : T w w') :
    Txn.Alike (Txn.Alike T) (mmuRead sr phys f₀ w va size sx)
      (mmuRead sr phys' f₀ w' va size sx) := by
  obtain ⟨t, u, u', hr, hr', hu, hg⟩ := hT.translated h va false false
  unfold mmuRead
  dsimp only
  rw [hr, hr']
  cases t with
  | error f => exact ⟨rfl, rfl, hT.pend hu f⟩
  | ok pa =>
    dsimp only
    split
    · exact ⟨rfl, rfl, hT.pend hu _⟩
    · obtain ⟨value, q, q', hs, hs', hq⟩ := (hT.readPhys f₀ h8 (hg pa rfl) hu).cases
      rw [hs, hs']
      cases value <;> exact ⟨rfl, rfl, hq⟩

theorem store (hT : Twin sr phys phys' sr.el T) (f₀ : MmuFault) (va : W64) {size : MemSize}
    (h8 : size.bytes ≤ 8) (value : W64) (h : T w w') :
    Txn.Alike T (mmuWrite sr phys f₀ w va size value) (mmuWrite sr phys' f₀ w' va size value) := by
  obtain ⟨t, u, u', hr, hr', hu, hg⟩ := hT.translated h va true false
  unfold mmuWrite
  dsimp only
  rw [hr, hr']
  cases t with
  | error f => exact ⟨rfl, hT.pend hu f⟩
  | ok pa =>
    dsimp only
    split
    · exact ⟨rfl, hT.pend hu _⟩
    · split
      · obtain ⟨f, x, x', hs, hs', hx, hall⟩ := hT.checked f₀ va true size hu
        rw [hs, hs']
        cases f with
        | some f => exact ⟨rfl, hT.pend hx f⟩
        | none =>
          dsimp only
          obtain ⟨done, q, q', hs, hs', hq⟩ := (hT.splitWrite va value (bytes_le_page size)
            size.bytes 0 x x' (by omega) hx (hall rfl)).cases
          rw [hs, hs']
          cases done with
          | true => exact ⟨rfl, hq⟩
          | false => exact ⟨rfl, hT.pend hq _⟩
      · rename_i hal
        have hv := hT.validate hu pa (BitVec.ofNat 64 size.bytes) permWrite
        generalize phys.validate u.phys pa (BitVec.ofNat 64 size.bytes) permWrite = x at hv ⊢
        generalize phys'.validate u'.phys pa (BitVec.ofNat 64 size.bytes) permWrite = y at hv ⊢
        cases hv with
        | ok p p' hp =>
          dsimp only
          have hl := hT.write hp va pa size value (by simpa using hal) h8 (hg pa rfl)
          dsimp only at hl
          generalize phys.write p pa size value = x at hl ⊢
          generalize phys'.write p' pa size value = y at hl ⊢
          cases hl with
          | ok q q' hq => exact ⟨rfl, hq⟩
          | refused st st' q q' hs hs' hq =>
            cases st <;> first | exact absurd rfl hs | skip
            all_goals cases st' <;> first | exact absurd rfl hs' | exact ⟨rfl, hT.pend hq _⟩
        | refused st st' p p' hs hs' hp =>
          cases st <;> first | exact absurd rfl hs | skip
          all_goals cases st' <;> first | exact absurd rfl hs' | exact ⟨rfl, hT.pend hp _⟩

end Twin

end Oemu
