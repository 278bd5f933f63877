import Oemu.Mmu.ArchWalk
import Oemu.Mmu.Refused

/-!
# Fault records

When the record an access leaves is the one the CPU must report: the address of the first byte that
failed, without its tag, and all the fields of its syndrome.

* `walk_fault`                 the classes a walk reports, each with its levels;
* `translateRefusal_levelled`  a reachable layer reports classes and levels that go together;
* `composeEsr_fields`          the fields of the syndrome of an abort;
* `walkVa_farOf`               the addresses whose tag a walk treats as the architecture does;
* `records_iff`                the accesses that leave the record they must;
* `fault_records`              the same, with the parity of cache and walk and the taking of one.
-/

namespace Oemu

variable {σ : Type} {sr : Sysregs} {phys : Memops σ} {w : MmuWorld σ} {va : W64} {cur : El}
  {isWrite isFetch : Bool}

/-! ## levels -/

/-- a class and a level reported together -/
def Levelled (c : FaultClass) (l : Int) : Prop :=
  (0 ≤ l ∧ l ≤ 3) ∨ (l = -1 ∧ (c = .addressSize ∨ c = .translationNoWalk ∨ c = .alignment))

theorem Levelled.ofNat {c : FaultClass} {level : Nat} (h : level ≤ 3) : Levelled c level := by
  refine .inl ⟨?_, ?_⟩ <;> omega

/-- what a walk reports: every class with the levels it can have -/
inductive Reported : FaultClass → Int → Prop where
  | translation {level : Nat} (h : level ≤ 3) : Reported .translation level
  | accessFlag {level : Nat} (h0 : level ≠ 0) (h : level ≤ 3) : Reported .accessFlag level
  | permission {level : Nat} (h0 : level ≠ 0) (h : level ≤ 3) : Reported .permission level
  | addressSize {level : Nat} (h : level ≤ 3) : Reported .addressSize level
  | base : Reported .addressSize (-1)
  | noWalk : Reported .translationNoWalk (-1)

theorem Reported.levelled {c : FaultClass} {l : Int} (h : Reported c l) : Levelled c l := by
  cases h with
  | translation h => exact .ofNat h
  | accessFlag _ h => exact .ofNat h
  | permission _ h => exact .ofNat h
  | addressSize h => exact .ofNat h
  | base => exact .inr ⟨rfl, .inl rfl⟩
  | noWalk => exact .inr ⟨rfl, .inr (.inl rfl)⟩

theorem walkLeaf_fault {out level : Nat} {tattrs : BitVec 5} {raw : W64} {f : WalkFault}
    (hl : level ≤ 3) (h : walkLeaf va out level tattrs raw = .error f) :
    Reported f.cls f.level := by
  unfold walkLeaf at h
  dsimp only at h
  split at h
  · cases h
    exact .translation hl
  · split at h
    · cases h
      exact .translation hl
    · split at h
      · cases h
        exact .translation (Nat.zero_le 3)
      · rename_i h0
        split at h
        · cases h
          exact .addressSize hl
        · split at h
          · cases h
            exact .accessFlag h0 hl
          · cases h

theorem walkTable_fault (phys : Memops σ) (va : W64) (out rem : Nat) {f : WalkFault} :
    ∀ (base : W64) (tattrs : BitVec 5) (p : σ),
      (walkTable phys va out rem base tattrs p).1 = .error f → Reported f.cls f.level := by
  induction rem with
  | zero =>
    intro base tattrs p h
    unfold walkTable at h
    rcases hr : phys.read p (base ||| tableIndex va 3) .dword false with ⟨st, raw, p'⟩
    rw [hr] at h
    by_cases hst : st = .ok
    · subst hst
      exact walkLeaf_fault (Nat.le_refl 3) h
    · cases st <;> first | exact absurd rfl hst | (cases h; exact .noWalk)
  | succ rem ih =>
    intro base tattrs p h
    have hlevel : 2 - rem ≤ 3 := by omega
    unfold walkTable at h
    dsimp only at h
    rcases hr : phys.read p (base ||| tableIndex va (2 - rem)) .dword false with ⟨st, raw, p'⟩
    rw [hr] at h
    by_cases hst : st = .ok
    · subst hst
      dsimp only at h
      split at h
      · split at h
        · cases h
          exact .addressSize hlevel
        · exact ih _ _ _ h
      · exact walkLeaf_fault (by omega) h
    · cases st <;> first | exact absurd rfl hst | (cases h; exact .noWalk)

theorem walkStage1_fault {p : σ} {f : WalkFault} (h : (walkStage1 sr phys va p).1 = .error f) :
    Reported f.cls f.level := by
  unfold walkStage1 at h
  dsimp only at h
  split at h
  · cases h
    exact .translation (Nat.zero_le 3)
  · rename_i level hs
    have hl : level ≤ 2 := (startLevel_some hs).2.2
    have hl3 : level ≤ 3 := by omega
    split at h
    · cases h
      exact .translation hl3
    · split at h
      · cases h
        exact .translation hl3
      · split at h
        · cases h
          exact .base
        · exact walkTable_fault phys _ _ _ _ _ _ h

theorem walkLeaf_le {out level : Nat} {tattrs : BitVec 5} {raw : W64} {l : Leaf} (hl : level ≤ 3)
    (h : walkLeaf va out level tattrs raw = .ok l) : l.level ≤ 3 := by
  rw [(walkLeaf_level h).1]
  exact hl

theorem walkTable_le (phys : Memops σ) (va : W64) (out rem : Nat) {l : Leaf} :
    ∀ (base : W64) (tattrs : BitVec 5) (p : σ),
      (walkTable phys va out rem base tattrs p).1 = .ok l → l.level ≤ 3 := by
  induction rem with
  | zero =>
    intro base tattrs p h
    unfold walkTable at h
    rcases hr : phys.read p (base ||| tableIndex va 3) .dword false with ⟨st, raw, p'⟩
    rw [hr] at h
    cases st <;> first | cases h | exact walkLeaf_le (Nat.le_refl 3) h
  | succ rem ih =>
    intro base tattrs p h
    unfold walkTable at h
    dsimp only at h
    rcases hr : phys.read p (base ||| tableIndex va (2 - rem)) .dword false with ⟨st, raw, p'⟩
    rw [hr] at h
    cases st <;> first | cases h | skip
    dsimp only at h
    split at h
    · split at h
      · cases h
      · exact ih _ _ _ h
    · exact walkLeaf_le (by omega) h

theorem walkStage1_le {p : σ} {l : Leaf} (h : (walkStage1 sr phys va p).1 = .ok l) :
    l.level ≤ 3 := by
  unfold walkStage1 at h
  dsimp only at h
  split at h
  · cases h
  · split at h
    · cases h
    · split at h
      · cases h
      · split at h
        · cases h
        · exact walkTable_le phys _ _ _ _ _ _ h

theorem walk_fault {f : WalkFault} {p : σ}
    (h : (walk sr phys va cur isWrite isFetch p).1 = .fault f) : Reported f.cls f.level := by
  unfold walk at h
  split at h
  · cases h
  · split at h
    · cases h
    · rcases hw : walkStage1 sr phys va p with ⟨f' | l, p'⟩
      · rw [hw] at h
        cases h
        exact walkStage1_fault (congrArg Prod.fst hw)
      · have hl : l.level ≤ 3 := walkStage1_le (congrArg Prod.fst hw)
        have h0 : l.level ≠ 0 := walkStage1_level (congrArg Prod.fst hw)
        rw [hw] at h
        dsimp only at h
        unfold checkLeaf at h
        split at h
        · cases h
        · cases h
          exact .permission h0 hl

/-- the failures of a translation are those of a walk -/
theorem translateRefusal_levelled (hm : Mmu.Reached phys w.mmu) {c : FaultClass} {l : Int}
    (h : translateRefusal sr phys w va cur isWrite isFetch = some (c, l)) : Levelled c l := by
  unfold translateRefusal at h
  split at h
  · have hlines : (epochCheck w.mmu sr).Lines fun l => l.level ≤ 3 := by
      refine (hm.lines ?_).epochCheck sr
      intro sr p page l hl
      obtain ⟨leaf, hleaf, rfl⟩ := walkLine_leaf hl
      exact walkStage1_le hleaf
    cases hl : (epochCheck w.mmu sr).line (walkVa (sr.val .tcrEl1) va) with
    | some line =>
      have hle : line.level ≤ 3 := hlines.line hl
      rw [hl] at h
      dsimp only at h
      split at h
      · cases h
      · cases h
        exact .ofNat hle
    | none =>
      rw [hl] at h
      dsimp only at h
      cases hr : (walk sr phys va cur isWrite isFetch w.phys).1 with
      | identity pa =>
        rw [hr] at h
        cases h
      | leaf l =>
        rw [hr] at h
        cases h
      | fault f =>
        rw [hr] at h
        cases h
        exact (walk_fault hr).levelled
  · cases h

/-! ## syndromes -/

/-- the fault status code of a class at a level -/
def faultStatus : FaultClass → Int → Int
  | .addressSize, l => if l = -1 then 0x29 else l
  | .translation, l => 0x04 + l
  | .accessFlag, l => 0x08 + l
  | .permission, l => 0x0C + l
  | .alignment, _ => 0x21
  | .translationNoWalk, _ => 0x2C

/-- the fields of the syndrome of an abort: all 32 bits -/
structure AbortSyndrome (esr : W32) (lower isFetch isWrite : Bool) (status : Int) : Prop where
  ec : esr.toNat / 2 ^ 26 =
    if isFetch then (if lower then 0x20 else 0x21) else (if lower then 0x24 else 0x25)
  il : esr.getLsbD 25 = true
  rest : esr.toNat / 2 ^ 7 % 2 ^ 18 = 0
  wnr : esr.getLsbD 6 = (isWrite && !isFetch)
  dfsc : (esr.toNat % 64 : Nat) = status

theorem mmuEsr_fields : ∀ (lower isFetch isWrite : Bool), ∀ d : BitVec 6,
    AbortSyndrome (mmuEsr lower isFetch isWrite (d.setWidth 32)) lower isFetch isWrite d.toNat := by
  intro lower isFetch isWrite d
  have h : ∀ (lower isFetch isWrite : Bool), ∀ d : BitVec 6,
      let esr := mmuEsr lower isFetch isWrite (d.setWidth 32)
      esr.toNat / 2 ^ 26 =
        (if isFetch then (if lower then 0x20 else 0x21) else (if lower then 0x24 else 0x25)) ∧
      esr.getLsbD 25 = true ∧ esr.toNat / 2 ^ 7 % 2 ^ 18 = 0 ∧
      esr.getLsbD 6 = (isWrite && !isFetch) ∧ esr.toNat % 64 = d.toNat := by
    decide +kernel
  obtain ⟨h1, h2, h3, h4, h5⟩ := h lower isFetch isWrite d
  exact ⟨h1, h2, h3, h4, congrArg Nat.cast h5⟩

theorem dfsc_status {c : FaultClass} {l : Int} (h : Levelled c l) :
    ∃ d : BitVec 6, dfsc c l = d.setWidth 32 ∧ faultStatus c l = d.toNat := by
  have hl : (l = -1 ∧ (c = .addressSize ∨ c = .translationNoWalk ∨ c = .alignment)) ∨ l = 0 ∨
      l = 1 ∨ l = 2 ∨ l = 3 := by
    rcases h with h | h
    · right
      omega
    · exact .inl h
  refine ⟨BitVec.ofInt 6 (faultStatus c l), ?_⟩
  rcases hl with ⟨rfl, rfl | rfl | rfl⟩ | rfl | rfl | rfl | rfl
  · decide
  · decide
  · decide
  all_goals cases c <;> decide

theorem toLowerFrom_eq (cur : El) : toLowerFrom cur = (cur == .el0) := by
  cases cur <;> rfl

theorem composeEsr_fields {c : FaultClass} {l : Int} (h : Levelled c l) (cur : El)
    (isFetch isWrite : Bool) :
    AbortSyndrome (composeEsr cur isFetch isWrite c l) (cur == .el0) isFetch isWrite
      (faultStatus c l) := by
  obtain ⟨d, hd, hs⟩ := dfsc_status h
  unfold composeEsr
  rw [hd, hs, toLowerFrom_eq]
  exact mmuEsr_fields _ _ _ d

/-! ## what refuses an access, bounded -/

/-- a refusal whose class and level belong together and whose transfer stops inside a page -/
def Refusal.Bounded : Refusal → Prop
  | .walk _ c l => Levelled c l
  | .transfer _ first => first.toNat < 4096
  | _ => True

theorem firstRefused_lt (phys : Memops σ) (p : σ) (pa : W64) (perms : W32) {n : Nat} (hn : 0 < n)
    (h : n ≤ 4096) : (firstRefused phys p pa perms n).toNat < 4096 := by
  have hlt : ((List.range n).find? fun i =>
      decide ((phys.validate p (pa + BitVec.ofNat 64 i) 1 perms).1 ≠ .ok)).getD 0 < n := by
    cases hf : (List.range n).find? fun i =>
        decide ((phys.validate p (pa + BitVec.ofNat 64 i) 1 perms).1 ≠ .ok) with
    | none => exact hn
    | some i => exact List.mem_range.mp (List.mem_of_find?_eq_some hf)
  unfold firstRefused
  rw [BitVec.toNat_ofNat]
  omega

theorem splitRefusal_bounded {va : W64} {isWrite : Bool} {r : Refusal} (k : Nat) :
    ∀ (i : Nat) (w : MmuWorld σ), Mmu.Reached phys w.mmu →
      (splitRefusal sr phys va isWrite k i w).1 = some r → r.Bounded := by
  induction k with
  | zero =>
    intro i w hm h
    cases h
  | succ k ih =>
    intro i w hm h
    unfold splitRefusal at h
    dsimp only at h
    cases ht : translateRefusal sr phys w (va + BitVec.ofNat 64 i) sr.el isWrite false with
    | some cl =>
      rw [ht] at h
      cases h
      exact translateRefusal_levelled hm ht
    | none =>
      have hm' := Mmu.Reached.translate sr w (va + BitVec.ofNat 64 i) sr.el isWrite false hm
      rw [ht] at h
      dsimp only at h
      rcases hr : translate sr phys w (va + BitVec.ofNat 64 i) sr.el isWrite false with ⟨t, w'⟩
      rw [hr] at h hm'
      dsimp only at h hm'
      rcases hv : phys.validate w'.phys (outAddr t) 1 (accessPerm isWrite) with ⟨st, p⟩
      rw [hv] at h
      by_cases hst : st = .ok
      · subst hst
        exact ih (i + 1) { w' with phys := p } hm' h
      · cases st <;> first | exact absurd rfl hst | (cases h; exact True.intro)

theorem readStop_lt {va : W64} {j : Nat} (k : Nat) :
    ∀ (i : Nat) (w : MmuWorld σ), readStop sr phys va k i w = some j → j < i + k := by
  induction k with
  | zero =>
    intro i w h
    cases h
  | succ k ih =>
    intro i w h
    unfold readStop at h
    dsimp only at h
    rcases hr : translate sr phys w (va + BitVec.ofNat 64 i) sr.el false false with ⟨t, w'⟩
    rw [hr] at h
    dsimp only at h
    rcases hv : phys.read w'.phys (outAddr t) .byte false with ⟨st, byte, p⟩
    rw [hv] at h
    by_cases hst : st = .ok
    · subst hst
      have hlt := ih (i + 1) { w' with phys := p } h
      omega
    · cases st <;> first | exact absurd rfl hst | (cases h; omega)

theorem writeStop_lt {va value : W64} {j : Nat} (k : Nat) :
    ∀ (i : Nat) (w : MmuWorld σ), writeStop sr phys va value k i w = some j → j < i + k := by
  induction k with
  | zero =>
    intro i w h
    cases h
  | succ k ih =>
    intro i w h
    unfold writeStop at h
    dsimp only at h
    rcases hr : translate sr phys w (va + BitVec.ofNat 64 i) sr.el true false with ⟨t, w'⟩
    rw [hr] at h
    dsimp only at h
    rcases hv : phys.write w'.phys (outAddr t) .byte ((value >>> (i * 8)) &&& 0xFF) with ⟨st, p⟩
    rw [hv] at h
    by_cases hst : st = .ok
    · subst hst
      have hlt := ih (i + 1) { w' with phys := p } h
      omega
    · cases st <;> first | exact absurd rfl hst | (cases h; omega)

theorem probeRefusal_bounded {va size : W64} {perms : W32} {r : Refusal} (fuel : Nat) :
    ∀ (off : W64) (w : MmuWorld σ), Mmu.Reached phys w.mmu →
      probeRefusal sr phys va size perms fuel off w = some r → r.Bounded := by
  induction fuel with
  | zero =>
    intro off w hm h
    cases h
  | succ fuel ih =>
    intro off w hm h
    unfold probeRefusal at h
    by_cases hlt : off < size
    · rw [if_pos hlt] at h
      dsimp only at h
      cases ht : translateRefusal sr phys w (va + off) sr.el (perms.getLsbD 1)
          (perms.getLsbD 2) with
      | some cl =>
        rw [ht] at h
        cases h
        exact translateRefusal_levelled hm ht
      | none =>
        have hm' := Mmu.Reached.translate sr w (va + off) sr.el (perms.getLsbD 1)
          (perms.getLsbD 2) hm
        rw [ht] at h
        dsimp only at h
        rcases hr : translate sr phys w (va + off) sr.el (perms.getLsbD 1) (perms.getLsbD 2)
          with ⟨t, w'⟩
        rw [hr] at h hm'
        dsimp only at h hm'
        rcases hv : phys.validate w'.phys (outAddr t) (pageChunk va size off) perms with ⟨st, p⟩
        rw [hv] at h
        by_cases hst : st = .ok
        · subst hst
          exact ih _ { w' with phys := p } hm' h
        · have hpos : 0 < (pageChunk va size off).toNat :=
            Nat.pos_of_ne_zero fun h0 => (pageChunk_spec va hlt).1 (BitVec.eq_of_toNat_eq h0)
          have hb : (Refusal.transfer off (firstRefused phys w'.phys (outAddr t) perms
              (pageChunk va size off).toNat)).Bounded :=
            firstRefused_lt phys _ _ _ hpos (pageChunk_le va size off)
          cases st <;> first | exact absurd rfl hst | (cases h; exact hb)
    · rw [if_neg hlt] at h
      cases h

theorem refusal_bounded (hm : Mmu.Reached phys w.mmu) {op : BusOp} {r : Refusal}
    (h : refusal sr phys w op = some r) : r.Bounded := by
  have hsize : ∀ (size : MemSize) (i : Nat), i < size.bytes →
      (BitVec.ofNat 64 i).toNat < 4096 := by
    intro size i hi
    have hle := size.bytes_le
    rw [BitVec.toNat_ofNat]
    omega
  cases op with
  | fetch32 va =>
    unfold refusal fetchRefusal at h
    dsimp only at h
    cases ht : translateRefusal sr phys w va sr.el false true with
    | some cl =>
      rw [ht] at h
      cases h
      exact translateRefusal_levelled hm ht
    | none =>
      rw [ht] at h
      dsimp only at h
      split at h
      · cases h
      · cases h
        exact firstRefused_lt phys _ _ _ (by decide) (by decide)
  | read va size sx =>
    unfold refusal readRefusal at h
    dsimp only at h
    cases ht : translateRefusal sr phys w va sr.el false false with
    | some cl =>
      rw [ht] at h
      cases h
      exact translateRefusal_levelled hm ht
    | none =>
      have hm' := Mmu.Reached.translate sr w va sr.el false false hm
      rw [ht] at h
      dsimp only at h
      split at h
      · cases h
        exact True.intro
      · split at h
        · rcases Option.or_eq_some_iff.mp h with hs | ⟨-, hs⟩
          · exact splitRefusal_bounded _ _ _ hm' hs
          · obtain ⟨i, hi, rfl⟩ := Option.map_eq_some_iff.mp hs
            have hlt := readStop_lt _ _ _ hi
            exact hsize size i (by omega)
        · split at h
          · cases h
          · cases h
            exact firstRefused_lt phys _ _ _ size.bytes_pos (by have := size.bytes_le; omega)
  | write va size value =>
    unfold refusal writeRefusal at h
    dsimp only at h
    cases ht : translateRefusal sr phys w va sr.el true false with
    | some cl =>
      rw [ht] at h
      cases h
      exact translateRefusal_levelled hm ht
    | none =>
      have hm' := Mmu.Reached.translate sr w va sr.el true false hm
      rw [ht] at h
      dsimp only at h
      split at h
      · cases h
        exact True.intro
      · split at h
        · rcases Option.or_eq_some_iff.mp h with hs | ⟨-, hs⟩
          · exact splitRefusal_bounded _ _ _ hm' hs
          · obtain ⟨i, hi, rfl⟩ := Option.map_eq_some_iff.mp hs
            have hlt := writeStop_lt _ _ _ hi
            exact hsize size i (by omega)
        · split at h
          · cases h
          · cases h
            exact firstRefused_lt phys _ _ _ size.bytes_pos (by have := size.bytes_le; omega)
  | validate va size perms => exact probeRefusal_bounded _ _ _ hm h

/-! ## the record the CPU must report -/

/-- the address the CPU reports: without its tag where top-byte-ignore applies, which it does in
the EL1&0 regime, translated or not -/
def farOf (sr : Sysregs) (va : W64) : W64 :=
  if sr.el = .el3 then va else archVa (sr.val .tcrEl1) va

/-- a record tells of a refusal what the CPU must report: the address of the first byte that failed,
without its tag, and the syndrome of that failure -/
structure Reports (sr : Sysregs) (isFetch isWrite : Bool) (va : W64) (r : Refusal) (f : MmuFault) :
    Prop where
  far : f.far = farOf sr (va + r.byte)
  esr : AbortSyndrome f.esr (sr.el == .el0) isFetch isWrite (faultStatus r.cls r.level)

/-- the address the layer leaves is that of the first byte that failed -/
def Refusal.Faithful (sr : Sysregs) (va : W64) : Refusal → Prop
  | .walk off _ _ => walkVa (sr.val .tcrEl1) (va + off) = farOf sr (va + off)
  | .policy => farOf sr va = va
  | .check _ => False
  | .transfer off first => first = 0 ∧ farOf sr (va + off) = va + off

theorem farOf_place (sr : Sysregs) (a : W64) : (farOf sr a).toNat % 4096 = a.toNat % 4096 := by
  unfold farOf archVa
  split
  · rfl
  · split
    · exact stripTag_place a
    · rfl

/-- only the first byte of a transfer has the address the transfer starts at -/
theorem farOf_transfer (sr : Sysregs) (a first : W64) (h : first.toNat < 4096) :
    a = farOf sr (a + first) ↔ first = 0 ∧ farOf sr a = a := by
  have h0 : a + 0 = a := BitVec.add_zero a
  constructor
  · intro he
    have hplace := farOf_place sr (a + first)
    rw [← he, BitVec.toNat_add] at hplace
    have hz : first = 0 := BitVec.eq_of_toNat_eq (show first.toNat = 0 by omega)
    subst hz
    rw [h0] at he
    exact ⟨rfl, he.symm⟩
  · rintro ⟨rfl, he⟩
    rw [h0, he]

/-- the tag a walk strips is the one the architecture ignores exactly when the control bits read
agree with `TBI0` and `TBI1` for the address, or there is no tag -/
theorem walkVa_farOf {sr : Sysregs} (h : sr.el ≠ .el3) (a : W64) :
    walkVa (sr.val .tcrEl1) a = farOf sr a ↔
      tagged (sr.val .tcrEl1) a = archTbi (sr.val .tcrEl1) (a.getLsbD 55) ∨ stripTag a = a := by
  unfold walkVa farOf archVa
  rw [if_neg h]
  cases tagged (sr.val .tcrEl1) a <;> cases archTbi (sr.val .tcrEl1) (a.getLsbD 55) <;> simp
  exact eq_comm

theorem left_levelled {r : Refusal} (hb : r.Bounded) : Levelled r.cls r.level := by
  cases r with
  | walk off c l => exact hb
  | policy => exact .inr ⟨rfl, .inr (.inr rfl)⟩
  | check off => exact .inr ⟨rfl, .inr (.inl rfl)⟩
  | transfer off first => exact .inr ⟨rfl, .inr (.inl rfl)⟩

/-- the record left is the one to report, whatever `f₀` held, exactly for a faithful refusal -/
theorem left_reports {r : Refusal} (hb : r.Bounded) (sr : Sysregs) (isFetch isWrite : Bool)
    (va : W64) :
    (∀ f₀, Reports sr isFetch isWrite va r (r.left sr f₀ isFetch isWrite va)) ↔
      r.Faithful sr va := by
  have hesr : ∀ f₀, AbortSyndrome (r.left sr f₀ isFetch isWrite va).esr (sr.el == .el0) isFetch
      isWrite (faultStatus r.cls r.level) := fun f₀ =>
    composeEsr_fields (left_levelled hb) sr.el isFetch isWrite
  have h0 : va + 0 = va := BitVec.add_zero va
  cases r with
  | walk off c l => exact ⟨fun h => (h ⟨0, 0⟩).far, fun h f₀ => ⟨h, hesr f₀⟩⟩
  | policy =>
    constructor
    · intro h
      have hfar : va = farOf sr (va + 0) := (h ⟨0, 0⟩).far
      rw [h0] at hfar
      exact hfar.symm
    · intro h f₀
      refine ⟨?_, hesr f₀⟩
      show va = farOf sr (va + 0)
      rw [h0]
      exact h.symm
  | check off =>
    constructor
    · intro h
      have hzero : (0 : W64) = farOf sr (va + off) := (h ⟨0, 0⟩).far
      have hone : (1 : W64) = farOf sr (va + off) := (h ⟨0, 1⟩).far
      exact absurd (hzero.trans hone.symm) (by decide)
    · intro h
      exact h.elim
  | transfer off first =>
    have hassoc : va + (off + first) = va + off + first := (BitVec.add_assoc va off first).symm
    have hiff := farOf_transfer sr (va + off) first hb
    rw [← hassoc] at hiff
    exact ⟨fun h => hiff.mp (h ⟨0, 0⟩).far, fun h f₀ => ⟨hiff.mpr h, hesr f₀⟩⟩

/-- an access leaves the record it must: none of its own when it is served, that of the first byte
that failed when it is not -/
structure Records (sr : Sysregs) (phys : Memops σ) (w : MmuWorld σ) (op : BusOp)
    (o : Status × W64 × MmuWorld σ) : Prop where
  ok : o.1 = .ok → refusal sr phys w op = none ∧ SamePending w.mmu o.2.2.mmu
  fault : o.1 = .fault → o.2.2.mmu.faultValid = true ∧ ∃ r, refusal sr phys w op = some r ∧
    Reports sr op.fetches op.writes op.addr r o.2.2.mmu.fault
  status : o.1 = .ok ∨ o.1 = .fault

theorem records_iff (hm : Mmu.Reached phys w.mmu) (op : BusOp) :
    (∀ f₀, Records sr phys w op (op.run (mmuMemops sr phys f₀) w)) ↔
      ∀ r, refusal sr phys w op = some r → r.Faithful sr op.addr := by
  cases hr : refusal sr phys w op with
  | none =>
    refine ⟨fun _ r h => (by cases h), fun _ f₀ => ?_⟩
    have hl := leaves_op sr phys f₀ w op
    rw [hr] at hl
    refine ⟨fun _ => ⟨hr, hl.2⟩, fun hf => ?_, .inl hl.1⟩
    rw [hl.1] at hf
    cases hf
  | some r =>
    have hrec : ∀ f₀, Records sr phys w op (op.run (mmuMemops sr phys f₀) w) ↔
        Reports sr op.fetches op.writes op.addr r (r.left sr f₀ op.fetches op.writes op.addr) := by
      intro f₀
      have hl := leaves_op sr phys f₀ w op
      rw [hr] at hl
      obtain ⟨hst, hvalid, hfault⟩ := hl
      constructor
      · intro h
        obtain ⟨-, r', hr', hrep⟩ := h.fault hst
        rw [hr] at hr'
        cases hr'
        rw [hfault] at hrep
        exact hrep
      · intro h
        refine ⟨fun hok => ?_, fun _ => ⟨hvalid, r, hr, ?_⟩, .inr hst⟩
        · rw [hst] at hok
          cases hok
        · rw [hfault]
          exact h
    have hiff := left_reports (refusal_bounded hm hr) sr op.fetches op.writes op.addr
    constructor
    · intro h r' hr'
      cases hr'
      exact hiff.mp fun f₀ => (hrec f₀).mp (h f₀)
    · intro h f₀
      exact (hrec f₀).mpr (hiff.mpr (h r rfl) f₀)

theorem takeFault_once (m : Mmu) :
    m.takeFault.1 = (if m.faultValid then some m.fault else none) ∧
      m.takeFault.2.takeFault.1 = none := by
  unfold Mmu.takeFault
  cases hv : m.faultValid with
  | false =>
    rw [if_neg (by decide), if_neg (by decide)]
    dsimp only
    rw [hv]
    exact ⟨rfl, rfl⟩
  | true => exact ⟨rfl, rfl⟩

/-- **fault records**: whatever `f₀` held, an access to a reachable layer leaves the record the CPU
must report exactly when the refusal's address is that of the first byte that failed: not where the
bus refuses a byte of a split access, nor where the bus or the alignment policy refuses an address
under its tag or a transfer after its first byte, nor where a walk strips a tag that is none or keeps
one.  The record of a translation is that of the walk where the cache is coherent, and a record is
taken once. -/
theorem fault_records (hm : Mmu.Reached phys w.mmu) (sr : Sysregs) (op : BusOp) :
    ((∀ f₀, Records sr phys w op (op.run (mmuMemops sr phys f₀) w)) ↔
      ∀ r, refusal sr phys w op = some r → r.Faithful sr op.addr) ∧
    (ReadPure phys → Coherent phys w → ∀ va isWrite isFetch,
      (translate sr phys w va sr.el isWrite isFetch).1 =
        (walk sr phys va sr.el isWrite isFetch w.phys).1.answer sr.el isWrite isFetch) ∧
    ∀ m : Mmu, m.takeFault.1 = (if m.faultValid then some m.fault else none) ∧
      m.takeFault.2.takeFault.1 = none := by
  refine ⟨records_iff hm op, ?_, takeFault_once⟩
  intro hp hco va isWrite isFetch
  exact (translate_spec hp hco sr va sr.el isWrite isFetch).1

/-! a word that runs off the end of the memory -/

/-- the last two bytes of the region and two bytes past it -/
def overrun : BusOp := .read 0x3FFE .word false

theorem fault_records_overrun :
    refusal resetSysregs Memory.memops ⟨Mmu.init, parityMemory⟩ overrun = some (.check 2) ∧
      ¬ ∀ f₀, Records resetSysregs Memory.memops ⟨Mmu.init, parityMemory⟩ overrun
        (overrun.run (mmuMemops resetSysregs Memory.memops f₀) ⟨Mmu.init, parityMemory⟩) := by
  have hr : refusal resetSysregs Memory.memops ⟨Mmu.init, parityMemory⟩ overrun =
      some (.check 2) := by decide +kernel
  refine ⟨hr, ?_⟩
  intro h
  have hm : Mmu.Reached Memory.memops (⟨Mmu.init, parityMemory⟩ : MmuWorld Memory).mmu := .init
  exact (fault_records hm resetSysregs overrun).1.mp h (.check 2) hr

/-- with `IRGN1` at bit 24 and `TBI0` clear, the record of an address with a top byte has lost it -/
example :
    let sr : Sysregs := ⟨fun | .sctlrEl1 => 1 | .tcrEl1 => 0x1000019 | _ => 0, []⟩
    (translate sr Memory.memops ⟨Mmu.init, parityMemory⟩ (1 <<< 56) .el1 false false).1 =
        .error ⟨composeEsr .el1 false false .translation 1, 0⟩ ∧
      archVa (sr.val .tcrEl1) (1 <<< 56) = 1 <<< 56 := by
  decide +kernel

/-- the address of the refused byte is not in the record -/
theorem overrun_far_unset :
    ¬ ∀ (w : MmuWorld Memory) (sr : Sysregs) (op : BusOp) (f₀ : MmuFault),
        Mmu.Reached Memory.memops w.mmu →
        Records sr Memory.memops w op (op.run (mmuMemops sr Memory.memops f₀) w) := by
  intro h
  have hf := h ⟨Mmu.init, parityMemory⟩ resetSysregs overrun ⟨0, 0⟩ .init
  have hst : (overrun.run (mmuMemops resetSysregs Memory.memops ⟨0, 0⟩)
      ⟨Mmu.init, parityMemory⟩).1 = .fault := by decide +kernel
  obtain ⟨-, r, hr, hrep⟩ := hf.fault hst
  have hr' : refusal resetSysregs Memory.memops ⟨Mmu.init, parityMemory⟩ overrun =
      some (.check 2) := by decide +kernel
  rw [hr'] at hr
  cases hr
  have hfar := hrep.far
  revert hfar
  decide +kernel

end Oemu
