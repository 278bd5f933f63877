import Oemu.Mmu.RamBus

/-!
# What a probe of the view promises

A probe of the view that was granted leaves its range `Ready`: every piece of it that lies in one
page is granted, and the physical bus grants it too.  Neither the accesses of one instruction nor
what they overwrite takes that away, not even a store to the translation tables; so over a firm bus
such an access can be refused by the alignment policy only.

* `mmuValidate_ready`   a granted probe makes its range ready;
* `Calm`                what the accesses of one instruction do;
* `mmuRead_ready`, `mmuWrite_ready`   an access of a ready range is served;
* `mmuRead_forbidden`, `mmuWrite_forbidden`   unless the policy wants it aligned.
-/

namespace Oemu

variable {σ : Type} {sr : Sysregs} {phys : Memops σ} {f₀ : MmuFault} {I : σ → Prop}
  {w w' w'' : MmuWorld σ} {a : W64} {isWrite : Bool} {n : Nat}

/-! ## the accesses of one instruction -/

/-- the verdicts of the physical bus stand, and what is granted within a page of an address stays
granted -/
structure Calm (sr : Sysregs) (phys : Memops σ) (I : σ → Prop) (a : W64) (w w' : MmuWorld σ) :
    Prop where
  bus : Steady phys I w.phys w'.phys
  reached : Mmu.Reached phys w.mmu → Mmu.Reached phys w'.mmu
  granted : ∀ i < 4096, ∀ isWrite pa,
    Granted sr w.mmu sr.el isWrite false (a + BitVec.ofNat 64 i) pa →
      Granted sr w'.mmu sr.el isWrite false (a + BitVec.ofNat 64 i) pa

theorem Calm.refl (w : MmuWorld σ) : Calm sr phys I a w w where
  bus h := ⟨h, fun _ _ _ => rfl⟩
  reached h := h
  granted _ _ _ _ h := h

theorem Calm.trans (h : Calm sr phys I a w w') (h' : Calm sr phys I a w' w'') :
    Calm sr phys I a w w'' where
  bus hI := by
    obtain ⟨hI', h1⟩ := h.bus hI
    obtain ⟨hI'', h2⟩ := h'.bus hI'
    exact ⟨hI'', fun x n perms => (h2 x n perms).trans (h1 x n perms)⟩
  reached hr := h'.reached (h.reached hr)
  granted i hi isWrite pa hg := h'.granted i hi isWrite pa (h.granted i hi isWrite pa hg)

theorem Calm.below {p : σ} (h : Steady phys I w.phys p) :
    Calm sr phys I a w { w with phys := p } where
  bus := h
  reached h := h
  granted _ _ _ _ h := h

theorem Calm.pend (w : MmuWorld σ) (f : MmuFault) : Calm sr phys I a w (w.pend f) where
  bus h := ⟨h, fun _ _ _ => rfl⟩
  reached h := .pend _ f h
  granted _ _ _ _ h := h.congr rfl rfl rfl

section

variable {A : W64 → MemSize → Prop} (hf : Firm phys I A)

include hf

theorem Calm.translate (w : MmuWorld σ) {j : Nat} (hj : j < 4096) (isWrite isFetch : Bool) :
    Calm sr phys I a w
      (Oemu.translate sr phys w (a + BitVec.ofNat 64 j) sr.el isWrite isFetch).2 where
  bus := hf.translate sr w _ sr.el isWrite isFetch
  reached h := .translate sr w _ sr.el isWrite isFetch h
  granted _ hi _ _ h := h.stable (apart_offsets _ a hi hj) isWrite isFetch

theorem Calm.validate (w : MmuWorld σ) (pa n : W64) (perms : W32) :
    Calm sr phys I a w { w with phys := (phys.validate w.phys pa n perms).2 } :=
  .below (hf.validate w.phys pa n perms)

end

/-! ## ready ranges -/

/-- every piece of a range that lies in one page is granted, here and below -/
def Ready (sr : Sysregs) (phys : Memops σ) (isWrite : Bool) (a : W64) (n : Nat) (w : MmuWorld σ) :
    Prop :=
  ∀ i k, 0 < k → i + k ≤ n → (a + BitVec.ofNat 64 i).toNat % 4096 + k ≤ 4096 →
    ∃ pa, Granted sr w.mmu sr.el isWrite false (a + BitVec.ofNat 64 i) pa ∧
      (phys.validate w.phys pa (BitVec.ofNat 64 k) (accessPerm isWrite)).1 = .ok

theorem Ready.calm (h : Ready sr phys isWrite a n w) (hc : Calm sr phys I a w w') (hI : I w.phys)
    (hn : n ≤ 4096) : Ready sr phys isWrite a n w' := by
  intro i k hk hik hpage
  obtain ⟨pa, hg, hv⟩ := h i k hk hik hpage
  exact ⟨pa, hc.granted i (by omega) isWrite pa hg, ((hc.bus hI).2 _ _ _).trans hv⟩

theorem add_ofNat_add (a : W64) (i j : Nat) :
    a + BitVec.ofNat 64 i + BitVec.ofNat 64 j = a + BitVec.ofNat 64 (i + j) := by
  rw [BitVec.add_assoc, BitVec.ofNat_add]

theorem Ready.near {d : Nat} (h : Ready sr phys isWrite (a + BitVec.ofNat 64 d) n w)
    (hc : Calm sr phys I a w w') (hI : I w.phys) (hd : d + n ≤ 4096) :
    Ready sr phys isWrite (a + BitVec.ofNat 64 d) n w' := by
  intro i k hk hik hpage
  obtain ⟨pa, hg, hv⟩ := h i k hk hik hpage
  refine ⟨pa, ?_, ((hc.bus hI).2 _ _ _).trans hv⟩
  rw [add_ofNat_add] at hg ⊢
  exact hc.granted (d + i) (by omega) isWrite pa hg

theorem Ready.sub (h : Ready sr phys isWrite a n w) {d m : Nat} (hd : d + m ≤ n) :
    Ready sr phys isWrite (a + BitVec.ofNat 64 d) m w := by
  intro i k hk hik hpage
  rw [add_ofNat_add] at hpage ⊢
  exact h (d + i) k hk (by omega) hpage

theorem Ready.byte (h : Ready sr phys isWrite a n w) {i : Nat} (hi : i < n) :
    ∃ pa, Granted sr w.mmu sr.el isWrite false (a + BitVec.ofNat 64 i) pa ∧
      (phys.validate w.phys pa 1 (accessPerm isWrite)).1 = .ok :=
  h i 1 Nat.one_pos (by omega) (by omega)

theorem toNat_small {m : Nat} (hm : m ≤ 4096) : (BitVec.ofNat 64 m).toNat = m := by
  rw [BitVec.toNat_ofNat, Nat.mod_eq_of_lt (by omega)]

theorem Granted.page {m : Mmu} {cur : El} {isFetch : Bool} {va pa : W64}
    (h : Granted sr m cur isWrite isFetch va pa) (hm : m.Paged) {j : Nat}
    (hj : va.toNat % 4096 + j < 4096) :
    Granted sr m cur isWrite isFetch (va + BitVec.ofNat 64 j) (pa + BitVec.ofNat 64 j) := by
  cases hc : cacheable sr cur with
  | false =>
    unfold Granted at h ⊢
    rw [if_neg (by rw [hc]; decide)] at h ⊢
    rw [h]
  | true =>
    obtain ⟨hv, he, l, hl, hs⟩ := (granted_iff hc).mp h
    have hpage := hm.line hl
    have hlt := va.isLt
    have hj64 := toNat_small (show j ≤ 4096 by omega)
    have hadd : (va + BitVec.ofNat 64 j).toNat = va.toNat + j := by
      rw [BitVec.toNat_add, hj64, Nat.mod_eq_of_lt (by omega)]
    have hbase : pageBase (va + BitVec.ofNat 64 j) = pageBase va := by
      rw [pageBase_eq_iff, hadd]
      omega
    have hsame : pageBase (walkVa (sr.val .tcrEl1) (va + BitVec.ofNat 64 j)) =
        pageBase (walkVa (sr.val .tcrEl1) va) := by
      rw [← walkVa_pageBase, ← walkVa_pageBase, hbase]
    have hperm : permits l.ap l.xn l.pxn (cur == .el0) isWrite isFetch = true := by
      unfold Line.serve at hs
      by_contra hp
      rw [if_neg hp] at hs
      cases hs
    have hserve : ∀ b : W64, l.serve b cur isWrite isFetch = .ok (l.pa ||| (b &&& pageMask)) :=
      fun b => if_pos hperm
    refine (granted_iff hc).mpr ⟨hv, he, l, ?_, ?_⟩
    · unfold Mmu.line at hl ⊢
      rw [hsame]
      exact hl
    · have hpa := serve_toNat hpage hs
      have hpa' := serve_toNat hpage (hserve (walkVa (sr.val .tcrEl1) (va + BitVec.ofNat 64 j)))
      rw [walkVa_place] at hpa hpa'
      have hline := toNat_pageBase l.pa
      rw [hpage] at hline
      have hl64 := l.pa.isLt
      rw [hserve]
      congr 1
      apply BitVec.eq_of_toNat_eq
      rw [hpa', hadd, BitVec.toNat_add, hj64, hpa]
      omega

/-! ## bytes -/

def ServesAligned (A : W64 → MemSize → Prop) : Prop :=
  ∀ pa size, misaligned pa size = false → A pa size

section

variable {A : W64 → MemSize → Prop} (hf : Firm phys I A)

include hf

variable {d : Nat}

theorem Ready.translate (h : Ready sr phys isWrite (a + BitVec.ofNat 64 d) n w) {i : Nat}
    (hi : i < n) (hd : d + n ≤ 4096) (hI : I w.phys) :
    ∃ pa w₁, Oemu.translate sr phys w (a + BitVec.ofNat 64 d + BitVec.ofNat 64 i) sr.el isWrite
        false = (.ok pa, w₁) ∧
      (phys.validate w₁.phys pa 1 (accessPerm isWrite)).1 = .ok ∧ I w₁.phys ∧
      Calm sr phys I a w w₁ := by
  obtain ⟨pa, hg, hv⟩ := h.byte hi
  rw [add_ofNat_add] at hg ⊢
  obtain ⟨hok, hphys, -⟩ := hg.translate phys w
  have hc : Calm sr phys I a w _ := .translate hf w (show d + i < 4096 by omega) isWrite false
  rcases ht : Oemu.translate sr phys w (a + BitVec.ofNat 64 (d + i)) sr.el isWrite false with
    ⟨t, w₁⟩
  rw [ht] at hok hphys hc
  obtain rfl : t = .ok pa := hok
  have hphys : w₁.phys = w.phys := hphys
  rw [← hphys] at hI hv
  exact ⟨pa, w₁, rfl, hv, hI, hc⟩

theorem splitCheck_ready (f₀ : MmuFault) (hd : d + n ≤ 4096) (k : Nat) :
    ∀ (i : Nat) (w : MmuWorld σ), I w.phys →
      Ready sr phys isWrite (a + BitVec.ofNat 64 d) n w → i + k ≤ n →
      (splitCheck sr phys f₀ (a + BitVec.ofNat 64 d) sr.el isWrite k i w).1 = none ∧
        Calm sr phys I a w
          (splitCheck sr phys f₀ (a + BitVec.ofNat 64 d) sr.el isWrite k i w).2 := by
  induction k with
  | zero => exact fun i w _ _ _ => ⟨rfl, .refl w⟩
  | succ k ih =>
    intro i w hI hr hik
    obtain ⟨pa, w₁, ht, hv, hI₁, hc⟩ := hr.translate hf (i := i) (by omega) hd hI
    have hc₂ : Calm sr phys I a w₁ _ := .validate hf w₁ pa 1 (accessPerm isWrite)
    unfold splitCheck
    rw [ht]
    dsimp only
    rcases hq : phys.validate w₁.phys pa 1 (accessPerm isWrite) with ⟨st, p⟩
    rw [hq] at hv hc₂
    obtain rfl : st = .ok := hv
    have hc' := hc.trans hc₂
    obtain ⟨h1, h2⟩ := ih (i + 1) { w₁ with phys := p } (hc'.bus hI).1 (hr.near hc' hI hd)
      (by omega)
    exact ⟨h1, hc'.trans h2⟩

theorem serves_byte (hA : ServesAligned A) {p : σ} (hI : I p) {pa : W64} :
    ((phys.validate p pa 1 permRead).1 = .ok → ∀ sx, (phys.read p pa .byte sx).1 = .ok) ∧
      ((phys.validate p pa 1 permWrite).1 = .ok →
        ∀ value, (phys.write p pa .byte value).1 = .ok) :=
  hf.serves p pa .byte hI (hA pa .byte (by simp [misaligned, MemSize.bytes, MemSize.log2]))
    (by decide)

theorem splitRead_ready (hA : ServesAligned A) (hd : d + n ≤ 4096) (k : Nat) :
    ∀ (i : Nat) (value : W64) (w : MmuWorld σ), I w.phys →
      Ready sr phys false (a + BitVec.ofNat 64 d) n w → i + k ≤ n →
      (splitRead sr phys (a + BitVec.ofNat 64 d) sr.el k i value w).1 ≠ none ∧
        Calm sr phys I a w (splitRead sr phys (a + BitVec.ofNat 64 d) sr.el k i value w).2 := by
  induction k with
  | zero => exact fun i value w _ _ _ => ⟨Option.some_ne_none _, .refl w⟩
  | succ k ih =>
    intro i value w hI hr hik
    obtain ⟨pa, w₁, ht, hv, hI₁, hc⟩ := hr.translate hf (i := i) (by omega) hd hI
    have hread := (serves_byte hf hA hI₁).1 hv false
    have hc₂ : Calm sr phys I a w₁ _ := .below (hf.read w₁.phys pa .byte false)
    unfold splitRead
    rw [ht]
    dsimp only [outAddr]
    rcases hq : phys.read w₁.phys pa .byte false with ⟨st, byte, p⟩
    rw [hq] at hread hc₂
    obtain rfl : st = .ok := hread
    have hc' := hc.trans hc₂
    obtain ⟨h1, h2⟩ := ih (i + 1) (value ||| ((byte &&& 0xFF) <<< (i * 8))) { w₁ with phys := p }
      (hc'.bus hI).1 (hr.near hc' hI hd) (by omega)
    exact ⟨h1, hc'.trans h2⟩

theorem splitWrite_ready (hA : ServesAligned A) (hd : d + n ≤ 4096) (value : W64) (k : Nat) :
    ∀ (i : Nat) (w : MmuWorld σ), I w.phys →
      Ready sr phys true (a + BitVec.ofNat 64 d) n w → i + k ≤ n →
      (splitWrite sr phys (a + BitVec.ofNat 64 d) sr.el value k i w).1 = true ∧
        Calm sr phys I a w (splitWrite sr phys (a + BitVec.ofNat 64 d) sr.el value k i w).2 := by
  induction k with
  | zero => exact fun i w _ _ _ => ⟨rfl, .refl w⟩
  | succ k ih =>
    intro i w hI hr hik
    obtain ⟨pa, w₁, ht, hv, hI₁, hc⟩ := hr.translate hf (i := i) (by omega) hd hI
    have hwrite := (serves_byte hf hA hI₁).2 hv ((value >>> (i * 8)) &&& 0xFF)
    have hc₂ : Calm sr phys I a w₁ _ :=
      .below (hf.write w₁.phys pa .byte ((value >>> (i * 8)) &&& 0xFF))
    unfold splitWrite
    rw [ht]
    dsimp only [outAddr]
    rcases hq : phys.write w₁.phys pa .byte ((value >>> (i * 8)) &&& 0xFF) with ⟨st, p⟩
    rw [hq] at hwrite hc₂
    obtain rfl : st = .ok := hwrite
    have hc' := hc.trans hc₂
    obtain ⟨h1, h2⟩ := ih (i + 1) { w₁ with phys := p } (hc'.bus hI).1 (hr.near hc' hI hd)
      (by omega)
    exact ⟨h1, hc'.trans h2⟩

/-! ## whole accesses -/

variable {size : MemSize} {off : Nat}

omit hf in
theorem aligned_piece (h8 : size.bytes ≤ 8) {va : W64} (hal : misaligned va size = false) :
    va.toNat % 4096 + size.bytes ≤ 4096 := by
  have hpos := size.bytes_pos
  have := aligned_on_page h8 hal (show size.bytes - 1 < size.bytes by omega)
  omega

omit hf in
theorem aligned_of_place {va pa : W64} (h : pa.toNat % 4096 = va.toNat % 4096)
    (hal : misaligned va size = false) : misaligned pa size = false := by
  have hdvd := size.bytes_dvd_page
  have hmod : pa.toNat % size.bytes = va.toNat % size.bytes := by
    rw [← Nat.mod_mod_of_dvd pa.toNat hdvd, h, Nat.mod_mod_of_dvd _ hdvd]
  refine Bool.eq_false_of_not_eq_true ?_
  rw [misaligned_iff, hmod, ← misaligned_iff, hal]
  exact Bool.false_ne_true

/-- an aligned transfer of a ready range: where it goes, and that it is granted there -/
theorem Ready.aligned (hr : Ready sr phys isWrite (a + BitVec.ofNat 64 d) size.bytes w)
    (hd : d + size.bytes ≤ 4096) (h8 : size.bytes ≤ 8)
    (hal : misaligned (a + BitVec.ofNat 64 d) size = false) (hI : I w.phys)
    (hm : Mmu.Reached phys w.mmu) :
    ∃ pa w₁ p, Oemu.translate sr phys w (a + BitVec.ofNat 64 d) sr.el isWrite false =
        (.ok pa, w₁) ∧
      phys.validate w₁.phys pa (BitVec.ofNat 64 size.bytes) (accessPerm isWrite) = (.ok, p) ∧
      (phys.validate p pa (BitVec.ofNat 64 size.bytes) (accessPerm isWrite)).1 = .ok ∧
      misaligned pa size = false ∧ I p ∧ Calm sr phys I a w { w₁ with phys := p } := by
  have hpos := size.bytes_pos
  have hzero : a + BitVec.ofNat 64 d + BitVec.ofNat 64 0 = a + BitVec.ofNat 64 d :=
    BitVec.add_zero _
  obtain ⟨pa, hg, hv⟩ := hr 0 size.bytes hpos (by omega) (by
    rw [hzero]
    exact aligned_piece h8 hal)
  rw [hzero] at hg
  obtain ⟨hok, hphys, -⟩ := hg.translate phys w
  have hplace := translate_place hm.paged hok
  have hc : Calm sr phys I a w _ := .translate hf w (show d < 4096 by omega) isWrite false
  rcases ht : Oemu.translate sr phys w (a + BitVec.ofNat 64 d) sr.el isWrite false with ⟨t, w₁⟩
  rw [ht] at hok hphys hc
  obtain rfl : t = .ok pa := hok
  have hphys : w₁.phys = w.phys := hphys
  rw [← hphys] at hI hv
  have hst := hf.validate w₁.phys pa (BitVec.ofNat 64 size.bytes) (accessPerm isWrite) hI
  have hc₂ : Calm sr phys I a w₁ _ := .validate hf w₁ pa (BitVec.ofNat 64 size.bytes)
    (accessPerm isWrite)
  rcases hq : phys.validate w₁.phys pa (BitVec.ofNat 64 size.bytes) (accessPerm isWrite) with
    ⟨st, p⟩
  rw [hq] at hst hc₂
  have hv' := hv
  rw [hq] at hv'
  obtain rfl : st = .ok := hv'
  exact ⟨pa, w₁, p, rfl, hq, (hst.2 _ _ _).trans hv, aligned_of_place hplace hal, hst.1,
    hc.trans hc₂⟩

/-- a misaligned access of a ready range, up to the bytes it is made of -/
theorem Ready.split (f₀ : MmuFault)
    (hr : Ready sr phys isWrite (a + BitVec.ofNat 64 d) size.bytes w)
    (hd : d + size.bytes ≤ 4096) (hI : I w.phys) :
    ∃ pa w₁ w₂, Oemu.translate sr phys w (a + BitVec.ofNat 64 d) sr.el isWrite false =
        (.ok pa, w₁) ∧
      splitCheck sr phys f₀ (a + BitVec.ofNat 64 d) sr.el isWrite size.bytes 0 w₁ = (none, w₂) ∧
      Ready sr phys isWrite (a + BitVec.ofNat 64 d) size.bytes w₂ ∧ Calm sr phys I a w w₂ := by
  obtain ⟨pa, w₁, ht, -, hI₁, hc⟩ := hr.translate hf size.bytes_pos hd hI
  rw [show a + BitVec.ofNat 64 d + BitVec.ofNat 64 0 = a + BitVec.ofNat 64 d from
    BitVec.add_zero _] at ht
  obtain ⟨h1, hc₁⟩ := splitCheck_ready hf f₀ hd size.bytes 0 w₁ hI₁ (hr.near hc hI hd) (by omega)
  rcases hq : splitCheck sr phys f₀ (a + BitVec.ofNat 64 d) sr.el isWrite size.bytes 0 w₁ with
    ⟨f, w₂⟩
  rw [hq] at h1 hc₁
  obtain rfl : f = none := h1
  exact ⟨pa, w₁, w₂, ht, hq, hr.near (hc.trans hc₁) hI hd, hc.trans hc₁⟩

/-- does the policy refuse the access -/
def Forbidden (sr : Sysregs) (va : W64) (size : MemSize) : Prop :=
  misaligned va size = true ∧ alignmentRequired sr (sr.el == .el0) = true

instance (sr : Sysregs) (va : W64) (size : MemSize) : Decidable (Forbidden sr va size) :=
  inferInstanceAs (Decidable (_ ∧ _))

/-- **a read of a ready range is served** -/
theorem mmuRead_ready (hA : ServesAligned A)
    (hr : Ready sr phys false (a + BitVec.ofNat 64 d) size.bytes w) (hd : d + size.bytes ≤ 4096)
    (h8 : size.bytes ≤ 8) (hI : I w.phys) (hm : Mmu.Reached phys w.mmu)
    (hp : ¬ Forbidden sr (a + BitVec.ofNat 64 d) size) (sx : Bool) :
    (mmuRead sr phys f₀ w (a + BitVec.ofNat 64 d) size sx).1 = .ok ∧
      Calm sr phys I a w (mmuRead sr phys f₀ w (a + BitVec.ofNat 64 d) size sx).2.2 := by
  cases hal : misaligned (a + BitVec.ofNat 64 d) size with
  | false =>
    obtain ⟨pa, w₁, p, ht, hv, hv', hpa, hIp, hc⟩ := hr.aligned hf hd h8 hal hI hm
    have hread := (hf.serves p pa size hIp (hA pa size hpa) h8).1 hv' false
    have hc₂ : Calm sr phys I a { w₁ with phys := p } _ := .below (hf.read p pa size false)
    rcases hq : phys.read p pa size false with ⟨st, v, p'⟩
    rw [hq] at hread hc₂
    obtain rfl : st = .ok := hread
    rw [mmuRead_one f₀ hal sx ht hv hq]
    exact ⟨rfl, hc.trans hc₂⟩
  | true =>
    have hpol : alignmentRequired sr (sr.el == .el0) = false :=
      Bool.eq_false_of_not_eq_true fun h => hp ⟨hal, h⟩
    obtain ⟨pa, w₁, w₂, ht, hq, hr₂, hc⟩ := hr.split hf f₀ hd hI
    obtain ⟨h2, hc₂⟩ := splitRead_ready hf hA hd size.bytes 0 0 w₂ (hc.bus hI).1 hr₂ (by omega)
    rw [mmuRead_misaligned hal hpol]
    unfold mmuReadBytes
    rw [ht]
    dsimp only
    rw [hq]
    dsimp only
    rcases hs : splitRead sr phys (a + BitVec.ofNat 64 d) sr.el size.bytes 0 0 w₂ with ⟨v, w₃⟩
    rw [hs] at h2 hc₂
    cases v with
    | none => exact absurd rfl h2
    | some v => exact ⟨rfl, hc.trans hc₂⟩

/-- **a write of a ready range is served** -/
theorem mmuWrite_ready (hA : ServesAligned A)
    (hr : Ready sr phys true (a + BitVec.ofNat 64 d) size.bytes w) (hd : d + size.bytes ≤ 4096)
    (h8 : size.bytes ≤ 8) (hI : I w.phys) (hm : Mmu.Reached phys w.mmu)
    (hp : ¬ Forbidden sr (a + BitVec.ofNat 64 d) size) (value : W64) :
    (mmuWrite sr phys f₀ w (a + BitVec.ofNat 64 d) size value).1 = .ok ∧
      Calm sr phys I a w (mmuWrite sr phys f₀ w (a + BitVec.ofNat 64 d) size value).2 := by
  cases hal : misaligned (a + BitVec.ofNat 64 d) size with
  | false =>
    obtain ⟨pa, w₁, p, ht, hv, hv', hpa, hIp, hc⟩ := hr.aligned hf hd h8 hal hI hm
    have hwrite := (hf.serves p pa size hIp (hA pa size hpa) h8).2 hv' value
    have hc₂ : Calm sr phys I a { w₁ with phys := p } _ := .below (hf.write p pa size value)
    rcases hq : phys.write p pa size value with ⟨st, p'⟩
    rw [hq] at hwrite hc₂
    obtain rfl : st = .ok := hwrite
    rw [mmuWrite_one f₀ hal value ht hv hq]
    exact ⟨rfl, hc.trans hc₂⟩
  | true =>
    have hpol : alignmentRequired sr (sr.el == .el0) = false :=
      Bool.eq_false_of_not_eq_true fun h => hp ⟨hal, h⟩
    obtain ⟨pa, w₁, w₂, ht, hq, hr₂, hc⟩ := hr.split hf f₀ hd hI
    obtain ⟨h2, hc₂⟩ := splitWrite_ready hf hA hd value size.bytes 0 w₂ (hc.bus hI).1 hr₂
      (by omega)
    rw [mmuWrite_misaligned hal hpol]
    unfold mmuWriteBytes
    rw [ht]
    dsimp only
    rw [hq]
    dsimp only
    rcases hs : splitWrite sr phys (a + BitVec.ofNat 64 d) sr.el value size.bytes 0 w₂ with
      ⟨done, w₃⟩
    rw [hs] at h2 hc₂
    obtain rfl : done = true := h2
    exact ⟨rfl, hc.trans hc₂⟩

/-! ## probes -/

theorem validateLoop_calm {size : W64} (hsize : off + size.toNat ≤ 4096) (perms : W32)
    (fuel : Nat) : ∀ (o : W64) (w : MmuWorld σ),
      Calm sr phys I a w
        (validateLoop sr phys (a + BitVec.ofNat 64 off) size perms fuel o w).2 := by
  induction fuel with
  | zero => exact fun o w => .refl w
  | succ fuel ih =>
    intro o w
    unfold validateLoop
    dsimp only
    split
    · rename_i ho
      have ho' : o.toNat < size.toNat := ho
      have hadd : a + BitVec.ofNat 64 off + o = a + BitVec.ofNat 64 (off + o.toNat) := by
        rw [← add_ofNat_add, BitVec.ofNat_toNat, BitVec.setWidth_eq]
      have hc : Calm sr phys I a w _ := .translate hf w (show off + o.toNat < 4096 by omega)
        (perms.getLsbD 1) (perms.getLsbD 2)
      rw [hadd]
      rcases ht : Oemu.translate sr phys w (a + BitVec.ofNat 64 (off + o.toNat)) sr.el
        (perms.getLsbD 1) (perms.getLsbD 2) with ⟨f | pa, w₁⟩
      · rw [ht] at hc
        exact hc.trans (.pend _ f)
      · rw [ht] at hc
        dsimp only
        generalize (if 4096 - ((a + BitVec.ofNat 64 (off + o.toNat)) &&& pageMask) ≤ size - o then
          4096 - ((a + BitVec.ofNat 64 (off + o.toNat)) &&& pageMask) else size - o) = chunk
        have hc₂ : Calm sr phys I a w₁ _ := .validate hf w₁ pa chunk perms
        rcases hq : phys.validate w₁.phys pa chunk perms with ⟨st, p⟩
        rw [hq] at hc₂
        cases st <;> try exact (hc.trans hc₂).trans (.pend _ _)
        exact (hc.trans hc₂).trans (ih _ _)
    · exact .refl w

omit hf in
theorem chunk_eq (va : W64) {o m : Nat} (hm : m ≤ 4096) (ho : o < m) :
    (if 4096 - (va &&& pageMask) ≤ BitVec.ofNat 64 m - BitVec.ofNat 64 o then
        4096 - (va &&& pageMask) else BitVec.ofNat 64 m - BitVec.ofNat 64 o) =
      BitVec.ofNat 64 (min (4096 - va.toNat % 4096) (m - o)) := by
  have hlt := Nat.mod_lt va.toNat (show 4096 > 0 by decide)
  have hspan : (4096 - (va &&& pageMask)).toNat = 4096 - va.toNat % 4096 := by
    rw [BitVec.toNat_sub_of_le, toNat_offset]
    · rfl
    · rw [BitVec.le_def, toNat_offset]
      exact hlt.le
  have hrest : (BitVec.ofNat 64 m - BitVec.ofNat 64 o).toNat = m - o := by
    rw [BitVec.toNat_sub_of_le, toNat_small hm, toNat_small (show o ≤ 4096 by omega)]
    rw [BitVec.le_def, toNat_small hm, toNat_small (show o ≤ 4096 by omega)]
    exact ho.le
  apply BitVec.eq_of_toNat_eq
  rw [toNat_small (show min (4096 - va.toNat % 4096) (m - o) ≤ 4096 by omega)]
  by_cases h : 4096 - (va &&& pageMask) ≤ BitVec.ofNat 64 m - BitVec.ofNat 64 o
  · rw [if_pos h, hspan]
    rw [BitVec.le_def, hspan, hrest] at h
    omega
  · rw [if_neg h, hrest]
    rw [BitVec.le_def, hspan, hrest] at h
    omega

omit hf in
theorem place_add (a : W64) (i j : Nat) :
    (a + BitVec.ofNat 64 (i + j)).toNat % 4096 =
      ((a + BitVec.ofNat 64 i).toNat % 4096 + j) % 4096 := by
  rw [BitVec.toNat_add, BitVec.toNat_add, BitVec.toNat_ofNat, BitVec.toNat_ofNat]
  omega

/-- a turn that goes on leaves what it covered ready, beside what was before -/
theorem Ready.extend (hn : n ≤ 4096) {o c : Nat} (hr : Ready sr phys isWrite a o w)
    (hc : Calm sr phys I a w w') (hI : I w.phys) (hm : Mmu.Reached phys w'.mmu) {pa : W64}
    (hg : Granted sr w'.mmu sr.el isWrite false (a + BitVec.ofNat 64 o) pa)
    (hv : (phys.validate w'.phys pa (BitVec.ofNat 64 c) (accessPerm isWrite)).1 = .ok)
    (hpage : (a + BitVec.ofNat 64 o).toNat % 4096 + c ≤ 4096)
    (hstart : o = 0 ∨ (a + BitVec.ofNat 64 o).toNat % 4096 = 0) (hcn : o + c ≤ n) :
    Ready sr phys isWrite a (o + c) w' := by
  intro i k hk hik hplace
  by_cases hbefore : i + k ≤ o
  · exact (hr.calm hc hI (by omega)) i k hk hbefore hplace
  · have hio : o ≤ i := by
      by_contra hlt
      -- a piece across the start of a page would not lie in one page
      rcases hstart with h0 | h0
      · omega
      · have hadd := place_add a i (o - i)
        rw [Nat.add_sub_cancel' (by omega), h0] at hadd
        omega
    obtain ⟨j, rfl⟩ : ∃ j, i = o + j := ⟨i - o, by omega⟩
    refine ⟨pa + BitVec.ofNat 64 j, ?_, ?_⟩
    · rw [← add_ofNat_add]
      exact hg.page hm.paged (by omega)
    · exact hf.sub w'.phys pa _ _ (hc.bus hI).1 hv j k hk (by
        rw [toNat_small (by omega)]
        omega)

omit hf in
theorem accessPerm_bits (isWrite : Bool) :
    (accessPerm isWrite).getLsbD 1 = isWrite ∧ (accessPerm isWrite).getLsbD 2 = false := by
  cases isWrite <;> decide

/-- each turn of the probe makes a part of one page ready -/
theorem validateLoop_ready {m : Nat} (hm : m ≤ 4096) (fuel : Nat) :
    ∀ (o : Nat) (w : MmuWorld σ), o ≤ m → m - o ≤ fuel → I w.phys → Mmu.Reached phys w.mmu →
      Ready sr phys isWrite a o w →
      (o = 0 ∨ (a + BitVec.ofNat 64 o).toNat % 4096 = 0 ∨ o = m) →
      (validateLoop sr phys a (BitVec.ofNat 64 m) (accessPerm isWrite) fuel (BitVec.ofNat 64 o)
        w).1 = .ok →
      Ready sr phys isWrite a m (validateLoop sr phys a (BitVec.ofNat 64 m) (accessPerm isWrite)
        fuel (BitVec.ofNat 64 o) w).2 := by
  obtain ⟨hbit, hfetch⟩ := accessPerm_bits isWrite
  induction fuel with
  | zero =>
    intro o w ho hfuel _ _ hr _ _
    obtain rfl : o = m := by omega
    exact hr
  | succ fuel ih =>
    intro o w ho hfuel hI hreach hr hstart h
    unfold validateLoop at h ⊢
    dsimp only at h ⊢
    by_cases hlt : o < m
    · have hlt' : BitVec.ofNat 64 o < BitVec.ofNat 64 m := by
        rw [BitVec.lt_def, toNat_small hm, toNat_small (show o ≤ 4096 by omega)]
        exact hlt
      have hc : Calm sr phys I a w _ := .translate hf w (show o < 4096 by omega) isWrite false
      have hg := fun pa => @granted_of_translate _ sr phys w (a + BitVec.ofNat 64 o) pa sr.el
        isWrite false
      rw [if_pos hlt', hbit, hfetch, chunk_eq _ hm hlt] at h ⊢
      rcases ht : Oemu.translate sr phys w (a + BitVec.ofNat 64 o) sr.el isWrite false with
        ⟨f | pa, w₁⟩
      · rw [ht] at h
        cases h
      rw [ht] at h hc hg
      obtain ⟨c, hceq⟩ : ∃ c, c = min (4096 - (a + BitVec.ofNat 64 o).toNat % 4096) (m - o) :=
        ⟨_, rfl⟩
      have hplace := Nat.mod_lt (a + BitVec.ofNat 64 o).toNat (show 4096 > 0 by decide)
      rw [← hceq] at h ⊢
      dsimp only at h ⊢
      have hI₁ := (hc.bus hI).1
      have hst := hf.validate w₁.phys pa (BitVec.ofNat 64 c) (accessPerm isWrite) hI₁
      have hc₂ : Calm sr phys I a w₁ _ := .validate hf w₁ pa (BitVec.ofNat 64 c)
        (accessPerm isWrite)
      rcases hq : phys.validate w₁.phys pa (BitVec.ofNat 64 c) (accessPerm isWrite) with ⟨st, p⟩
      rw [hq] at h hst hc₂
      obtain rfl : st = .ok := by cases st <;> first | rfl | cases h
      have hc' := hc.trans hc₂
      have hvp : (phys.validate p pa (BitVec.ofNat 64 c) (accessPerm isWrite)).1 = .ok :=
        (hst.2 pa _ _).trans (congrArg Prod.fst hq)
      have hnext : Ready sr phys isWrite a (o + c) { w₁ with phys := p } := by
        refine hr.extend hf hm hc' hI (hc'.reached hreach) (hg pa rfl) hvp (by omega) ?_ (by omega)
        rcases hstart with h0 | h0 | h0
        · exact .inl h0
        · exact .inr h0
        · omega
      have hadd : BitVec.ofNat 64 o + BitVec.ofNat 64 c = BitVec.ofNat 64 (o + c) :=
        (BitVec.ofNat_add ..).symm
      dsimp only at h ⊢
      rw [hadd] at h ⊢
      refine ih (o + c) { w₁ with phys := p } (by omega) (by omega) hst.1 (hc'.reached hreach)
        hnext ?_ h
      by_cases hrest : o + c = m
      · exact .inr (.inr hrest)
      · refine .inr (.inl ?_)
        rw [place_add]
        omega
    · obtain rfl : o = m := by omega
      have hge : ¬ BitVec.ofNat 64 o < BitVec.ofNat 64 o := by simp
      rw [if_neg hge]
      exact hr

/-- **a granted probe makes its range ready** -/
theorem mmuValidate_ready {m : Nat} (hm : m ≤ 4096) (hI : I w.phys)
    (hreach : Mmu.Reached phys w.mmu)
    (h : (mmuValidate sr phys w a (BitVec.ofNat 64 m) (accessPerm isWrite)).1 = .ok) :
    Ready sr phys isWrite a m
      (mmuValidate sr phys w a (BitVec.ofNat 64 m) (accessPerm isWrite)).2 :=
  validateLoop_ready hf hm _ 0 w (Nat.zero_le m) (by rw [toNat_small hm]; omega) hI hreach
    (fun i k hk hik _ => by omega) (.inl rfl) h

end

/-! ## the policy -/

theorem mmuRead_forbidden {va : W64} {size : MemSize} (hp : Forbidden sr va size) (sx : Bool) :
    (mmuRead sr phys f₀ w va size sx).1 ≠ .ok := by
  unfold mmuRead
  dsimp only
  rcases Oemu.translate sr phys w va sr.el false false with ⟨f | pa, w₁⟩
  · nofun
  · dsimp only
    rw [hp.1, hp.2, if_pos (by decide)]
    nofun

theorem mmuWrite_forbidden {va : W64} {size : MemSize} (hp : Forbidden sr va size) (value : W64) :
    (mmuWrite sr phys f₀ w va size value).1 ≠ .ok := by
  unfold mmuWrite
  dsimp only
  rcases Oemu.translate sr phys w va sr.el true false with ⟨f | pa, w₁⟩
  · nofun
  · dsimp only
    rw [hp.1, hp.2, if_pos (by decide)]
    nofun

end Oemu
