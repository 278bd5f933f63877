import Oemu.Kernel.Refuse
import Oemu.Aspace.View

/-!
# Placing a kernel image

What `Kernel.load` leaves in memory when it accepts an image.  The text goes out in dwords; the last
one is padded with zeros.

* `Image.assemble_num`   a dword of the file, stored;
* `copyWords_view`       the loop lays whole dwords over RAM;
* `writeText_view`       the bytes of the text over RAM, and the zeros behind them;
* `image_placement`      when every other byte of memory keeps its value.
-/

namespace Oemu

open LittleEndian

/-! ## the bytes placed -/

namespace Image

variable {img : Image}

/-- `n` bytes of the file from `p` on, laid over the bytes at `a` -/
def overlay (img : Image) (view : Nat → BitVec 8) (a p n : Nat) : Nat → BitVec 8 := fun x =>
  if a ≤ x ∧ x < a + n then img.octet (p + (x - a)) else view x

theorem overlay_append (view : Nat → BitVec 8) (a p n m : Nat) :
    img.overlay (img.overlay view a p n) (a + n) (p + n) m = img.overlay view a p (n + m) := by
  funext x
  unfold overlay
  by_cases hm : a + n ≤ x ∧ x < a + n + m
  · rw [if_pos hm, if_pos (by omega), show p + n + (x - (a + n)) = p + (x - a) by omega]
  · rw [if_neg hm]
    by_cases hn : a ≤ x ∧ x < a + n
    · rw [if_pos hn, if_pos (by omega)]
    · rw [if_neg hn, if_neg (by omega)]

theorem assemble_num (view : Nat → BitVec 8) (a p : Nat) {n : Nat} (hn : n ≤ 8) :
    assemble view a 8 (BitVec.ofNat 64 (img.num p n)) =
      img.overlay (fun x => if a ≤ x ∧ x < a + 8 then 0 else view x) a p n := by
  have hlt : img.num p n < 2 ^ 64 :=
    lt_of_lt_of_le (img.num_lt p n) (Nat.pow_le_pow_right (show 0 < 256 by decide) hn)
  have hbyte : ∀ j, ((BitVec.ofNat 64 (img.num p n) >>> (8 * j)).setWidth 8).toNat =
      img.num p n / 256 ^ j % 256 := by
    intro j
    rw [BitVec.toNat_setWidth, BitVec.toNat_ushiftRight, toNat_ofNat hlt,
      Nat.shiftRight_eq_div_pow]
    exact congrArg (fun d => img.num p n / d % 256) (Nat.pow_mul 2 8 j)
  funext x
  unfold assemble overlay
  by_cases h8 : a ≤ x ∧ x < a + 8
  · rw [if_pos h8]
    by_cases hin : a ≤ x ∧ x < a + n
    · rw [if_pos hin]
      apply BitVec.eq_of_toNat_eq
      rw [hbyte]
      exact num_byte img.octet (by omega)
    · rw [if_neg hin]
      simp only [h8, and_self, if_true]
      apply BitVec.eq_of_toNat_eq
      rw [hbyte]
      exact num_above img.octet (by omega)
  · rw [if_neg h8, if_neg (by omega)]
    exact (if_neg h8).symm

/-- whole dwords, and `k` bytes of one more -/
theorem overlay_tail (view : Nat → BitVec 8) (a p m : Nat) {k : Nat} (hk : k ≤ 8) :
    img.overlay (fun x => if a + m ≤ x ∧ x < a + m + 8 then 0 else img.overlay view a p m x)
      (a + m) (p + m) k =
    img.overlay (fun x => if a + m + k ≤ x ∧ x < a + m + 8 then 0 else view x) a p (m + k) := by
  funext x
  simp only [overlay]
  by_cases hx : a + m ≤ x ∧ x < a + m + k
  · rw [if_pos hx, if_pos (by omega), show p + m + (x - (a + m)) = p + (x - a) by omega]
  · rw [if_neg hx]
    by_cases hm : a ≤ x ∧ x < a + m
    · rw [if_neg (by omega), if_pos hm, if_pos (by omega)]
    · rw [if_neg hm, if_neg (show ¬ (a ≤ x ∧ x < a + (m + k)) by omega)]
      by_cases hz : a + m ≤ x ∧ x < a + m + 8
      · rw [if_pos hz, if_pos (by omega)]
      · rw [if_neg hz, if_neg (by omega)]

theorem assemble_dword (view : Nat → BitVec 8) (a p : Nat) :
    assemble view a 8 (BitVec.ofNat 64 (img.num p 8)) = img.overlay view a p 8 := by
  rw [assemble_num view a p (Nat.le_refl 8)]
  funext x
  unfold overlay
  by_cases h8 : a ≤ x ∧ x < a + 8
  · rw [if_pos h8, if_pos h8]
  · rw [if_neg h8, if_neg h8]
    exact if_neg h8

end Image

namespace Aspace

variable {δ : Type} {as : Aspace δ}

theorem OnRam.lt {x : Nat} (hok : as.Ok) (h : as.OnRam x) : x < 2 ^ 64 := by
  obtain ⟨r, hr, hx, -⟩ := h
  have hx : r.span.base ≤ x ∧ x + 1 ≤ r.span.base + r.span.size := hx
  have := hok.below r hr
  omega

end Aspace

namespace Kernel

variable {δ : Type} {img : Image} {memBase ramSize dst : W64} {out : ImageInfo}
  {as as' : Aspace δ} {p n off : Nat} {w : Status}

theorem dword_view (hs : as.Separate) {word : W64} (hram : as.OnRam (dst.toNat + off))
    (hw : (as.write (dst + BitVec.ofNat 64 off) .dword word).1 = .ok) :
    (as.write (dst + BitVec.ofNat 64 off) .dword word).2.view =
      assemble as.view (dst.toNat + off) 8 word := by
  have hlt := hram.lt hs.ok
  have haddr : (dst + BitVec.ofNat 64 off).toNat = dst.toNat + off := by
    rw [BitVec.toNat_add, toNat_ofNat (by omega), Nat.mod_eq_of_lt hlt]
  have hv := Aspace.write_view hs hw (haddr.symm ▸ hram)
  rw [haddr] at hv
  exact hv

/-- the loop lays whole dwords over RAM -/
theorem copyWords_view (hs : as.Separate) (hin : p + off + 8 * n ≤ img.bytes.length)
    (hram : ∀ i < 8 * n, as.OnRam (dst.toNat + off + i))
    (h : copyWords Aspace.memops img p dst n off as = some (.ok, as')) :
    as'.Separate ∧ (∀ x, as'.OnRam x ↔ as.OnRam x) ∧
      as'.view = img.overlay as.view (dst.toNat + off) (p + off) (8 * n) := by
  induction n generalizing off as with
  | zero =>
    cases h
    refine ⟨hs, fun x => Iff.rfl, ?_⟩
    funext x
    unfold Image.overlay
    rw [if_neg (by omega)]
  | succ n ih =>
    unfold copyWords at h
    rw [imgLe64_eq (by omega), Option.bind_eq_bind, Option.bind_some] at h
    dsimp only [Aspace.memops] at h
    by_cases hw : (as.write (dst + BitVec.ofNat 64 off) .dword
        (BitVec.ofNat 64 (img.num (p + off) 8))).1 = .ok
    · rw [if_neg (not_not.mpr hw)] at h
      have hview := dword_view hs (hram 0 (by omega)) hw
      have hkeep : ∀ x, (as.write (dst + BitVec.ofNat 64 off) .dword
          (BitVec.ofNat 64 (img.num (p + off) 8))).2.OnRam x ↔ as.OnRam x :=
        fun x => Aspace.OnRam.write _ _ _
      obtain ⟨hs', hram', hv⟩ := ih (hs.write _ _ _) (by omega) (fun i hi => by
        rw [hkeep, show dst.toNat + (off + 8) + i = dst.toNat + off + (8 + i) by omega]
        exact hram (8 + i) (by omega)) h
      refine ⟨hs', fun x => (hram' x).trans (hkeep x), ?_⟩
      rw [hv, hview, Image.assemble_dword, ← Nat.add_assoc, ← Nat.add_assoc, Image.overlay_append,
        show 8 + 8 * n = 8 * (n + 1) by omega]
    · rw [if_pos hw] at h
      exact absurd (congrArg Prod.fst (Option.some.inj h)) hw

/-- **the text over RAM**: its bytes where they belong, and zeros up to the end of its last dword -/
theorem writeText_view (hs : as.Separate) (hin : p + n ≤ img.bytes.length)
    (hram : ∀ i < n, as.OnRam (dst.toNat + i))
    (h : writeText Aspace.memops img p n dst as = some (.ok, as')) :
    as'.view = img.overlay (fun x =>
      if dst.toNat + n ≤ x ∧ x < dst.toNat + (n + 7) / 8 * 8 then 0 else as.view x)
      dst.toNat p n := by
  unfold writeText at h
  cases hc : copyWords Aspace.memops img p dst (n / 8) 0 as with
  | none =>
    rw [hc] at h
    cases h
  | some r =>
    obtain ⟨w, as₁⟩ := r
    rw [hc, Option.bind_eq_bind, Option.bind_some] at h
    dsimp only at h
    by_cases hw : w = .ok
    · subst hw
      rw [if_neg (not_not.mpr rfl)] at h
      obtain ⟨hs₁, hram₁, hv₁⟩ := copyWords_view hs (by omega) (fun i hi => hram i (by omega)) hc
      rw [Nat.add_zero, Nat.add_zero] at hv₁
      by_cases htail : n / 8 * 8 ≠ n
      · rw [if_pos htail] at h
        unfold tailWord at h
        rw [if_pos (by omega), Option.bind_eq_bind, Option.bind_some] at h
        have hst := congrArg (Option.map Prod.fst) h
        have has := congrArg (Option.map Prod.snd) h
        simp only [Option.map_some, Option.some.injEq] at hst has
        have hview := dword_view hs₁ ((hram₁ _).mpr (hram (n / 8 * 8) (by omega))) hst
        rw [← has]
        refine hview.trans ?_
        rw [Image.assemble_num _ _ _ (by omega), hv₁, Nat.mul_comm 8 (n / 8),
          Image.overlay_tail _ _ _ _ (by omega),
          show dst.toNat + n / 8 * 8 + (n - n / 8 * 8) = dst.toNat + n by omega,
          show n / 8 * 8 + (n - n / 8 * 8) = n by omega,
          show dst.toNat + n / 8 * 8 + 8 = dst.toNat + (n + 7) / 8 * 8 by omega]
      · rw [if_neg htail] at h
        cases h
        rw [hv₁, show 8 * (n / 8) = n by omega]
        congr 1
        funext x
        rw [if_neg (by omega)]
    · rw [if_pos hw] at h
      cases h
      exact absurd rfl hw

/-! ## the placement -/

/-- the text is in memory, and nothing else has changed there -/
structure Placed (img : Image) (memBase : W64) (as as' : Aspace δ) (out : ImageInfo) : Prop where
  text : ∀ i < img.textLen,
    as'.view (memBase.toNat + img.textOffset + i) = img.octet (img.textOffset + i)
  loadPa : out.loadPa.toNat = memBase.toNat + img.textOffset
  entryPa : out.entryPa.toNat = memBase.toNat + img.textOffset
  frame : ∀ x, ¬ (memBase.toNat + img.textOffset ≤ x ∧
    x < memBase.toNat + img.textOffset + img.textLen) → as'.view x = as.view x

/-- the bytes between the end of the text and the end of its last dword are zero -/
def ClearTail (img : Image) (memBase : W64) (as : Aspace δ) : Prop :=
  ∀ x, memBase.toNat + img.textOffset + img.textLen ≤ x →
    x < memBase.toNat + img.textOffset + (img.textLen + 7) / 8 * 8 → as.view x = 0

theorem clearTail_of_dvd (h : img.textLen % 8 = 0) : ClearTail img memBase as := by
  intro x hlo hhi
  omega

theorem load_view (hs : as.Separate)
    (hram : ∀ i < img.textLen, as.OnRam (memBase.toNat + img.textOffset + i)) {out' : ImageInfo}
    (h : load Aspace.memops (some img) memBase ramSize out as = some (.ok, out', as')) :
    out'.loadPa.toNat = memBase.toNat + img.textOffset ∧ out'.entryPa = out'.loadPa ∧
      as'.view = img.overlay (fun x =>
        if memBase.toNat + img.textOffset + img.textLen ≤ x ∧
          x < memBase.toNat + img.textOffset + (img.textLen + 7) / 8 * 8 then 0 else as.view x)
        (memBase.toNat + img.textOffset) img.textOffset img.textLen := by
  by_cases hp : img.Placeable ramSize.toNat
  · have ht := hp.text
    have hlen : img.textOffset + img.textLen = img.bytes.length :=
      show img.textOffset + (img.bytes.length - img.textOffset) = _ by omega
    have hlt := (hram 0 (by omega)).lt hs.ok
    have haddr : (memBase + BitVec.ofNat 64 img.textOffset).toNat =
        memBase.toNat + img.textOffset := by
      rw [BitVec.toNat_add, toNat_ofNat (img.num_lt _ _), Nat.mod_eq_of_lt (by omega)]
    rw [load_placed hp] at h
    cases hw : writeText Aspace.memops img img.textOffset img.textLen
        (memBase + BitVec.ofNat 64 img.textOffset) as with
    | none =>
      rw [hw] at h
      cases h
    | some r =>
      obtain ⟨w, as₁⟩ := r
      rw [hw, Option.bind_some] at h
      dsimp only at h
      by_cases hok : w = .ok
      · subst hok
        rw [if_neg (not_not.mpr rfl)] at h
        simp only [Option.some.injEq, Prod.mk.injEq] at h
        obtain ⟨-, rfl, rfl⟩ := h
        have hv := writeText_view hs (by omega) (by rw [haddr]; exact hram) hw
        rw [haddr] at hv
        exact ⟨haddr, rfl, hv⟩
      · rw [if_pos hok] at h
        cases h
        exact absurd rfl hok
  · obtain ⟨st, hst, hl⟩ := @load_refused _ Aspace.memops _ memBase _ out as hp
    rw [hl] at h
    cases h
    exact absurd rfl hst

/-- **placement of a kernel image**: once an image is accepted onto RAM its text is at the load
address, and no other byte has changed exactly when the text ends a dword or is followed by zeros up
to the end of its last one -/
theorem image_placement (δ : Type) (img : Image) (memBase ramSize : W64) (out out' : ImageInfo)
    (as as' : Aspace δ) (hs : as.Separate)
    (hram : ∀ i < img.textLen, as.OnRam (memBase.toNat + img.textOffset + i))
    (h : load Aspace.memops (some img) memBase ramSize out as = some (.ok, out', as')) :
    Placed img memBase as as' out' ↔ img.textLen % 8 = 0 ∨ ClearTail img memBase as := by
  obtain ⟨hload, hentry, hv⟩ := load_view hs hram h
  constructor
  · intro hp
    refine .inr fun x hlo hhi => ?_
    have hx := hp.frame x (by omega)
    rw [hv] at hx
    simp only [Image.overlay] at hx
    rw [if_neg (by omega), if_pos ⟨hlo, hhi⟩] at hx
    exact hx.symm
  · intro hc
    have hc : ClearTail img memBase as := hc.elim clearTail_of_dvd id
    refine ⟨?_, hload, by rw [hentry, hload], ?_⟩
    · intro i hi
      rw [hv]
      unfold Image.overlay
      rw [if_pos (by omega), Nat.add_sub_cancel_left]
    · intro x hx
      rw [hv]
      simp only [Image.overlay]
      rw [if_neg hx]
      by_cases hz : memBase.toNat + img.textOffset + img.textLen ≤ x ∧
          x < memBase.toNat + img.textOffset + (img.textLen + 7) / 8 * 8
      · rw [if_pos hz, hc x hz.1 hz.2]
      · rw [if_neg hz]

/-- a machine with one page of RAM, every byte of it set -/
def onesRam : Aspace Unit := ⟨[⟨0x40000000, 0x1000, 7, .ram 0 true⟩], 1, fun _ => 0xFF, ()⟩

theorem onesRam_separate : onesRam.Separate :=
  .single (Span.Table.single (by decide) (by decide) (by decide) (by decide)) rfl

theorem onesRam_onRam {x : Nat} (hlo : 0x40000000 ≤ x) (hhi : x < 0x40001000) : onesRam.OnRam x :=
  ⟨_, List.mem_singleton_self _,
    ⟨show 0x40000000 ≤ x from hlo, show x + 1 ≤ 0x40000000 + 0x1000 by omega⟩, 0, true, rfl⟩

theorem load_result (img : Image) (hok : (load Aspace.memops (some img) 0x40000000 0x1000 default
    onesRam).map Prod.fst = some .ok) :
    ∃ out' as', load Aspace.memops (some img) 0x40000000 0x1000 default onesRam =
      some (.ok, out', as') := by
  cases h : load Aspace.memops (some img) 0x40000000 0x1000 default onesRam with
  | none =>
    rw [h] at hok
    cases hok
  | some r =>
    rw [h, Option.map_some, Option.some.injEq] at hok
    exact ⟨r.2.1, r.2.2, by rw [← hok]⟩

theorem image_placement_dwords : ∃ out' as',
    load Aspace.memops (some truncatedKernel) 0x40000000 0x1000 default onesRam =
      some (.ok, out', as') ∧ Placed truncatedKernel 0x40000000 onesRam as' out' := by
  have htext : truncatedKernel.textLen = 64 ∧ truncatedKernel.textOffset = 0 := by decide +kernel
  have hbase : (0x40000000 : W64).toNat = 0x40000000 := rfl
  obtain ⟨out', as', h⟩ := load_result truncatedKernel (by decide +kernel)
  refine ⟨out', as', h, (image_placement Unit _ _ _ _ _ _ _ onesRam_separate (fun i hi => ?_) h).mpr
    (.inl (by rw [htext.1]))⟩
  rw [htext.1] at hi
  rw [htext.2, hbase]
  exact onesRam_onRam (by omega) (by omega)

/-- a text of 65 bytes -/
def oddKernel : Image :=
  ⟨[0, 0, 0, 0x14] ++ List.replicate 52 0 ++ [0x41, 0x52, 0x4D, 0x64] ++ List.replicate 5 0,
    by decide⟩

/-- the seven bytes behind the text are lost -/
theorem tail_zeroed : ∃ out' as', onesRam.Separate ∧
    (∀ i < oddKernel.textLen,
      onesRam.OnRam ((0x40000000 : W64).toNat + oddKernel.textOffset + i)) ∧
    load Aspace.memops (some oddKernel) 0x40000000 0x1000 default onesRam =
      some (.ok, out', as') ∧ ¬ Placed oddKernel 0x40000000 onesRam as' out' := by
  have htext : oddKernel.textLen = 65 ∧ oddKernel.textOffset = 0 := by decide +kernel
  have hbase : (0x40000000 : W64).toNat = 0x40000000 := rfl
  obtain ⟨out', as', h⟩ := load_result oddKernel (by decide +kernel)
  refine ⟨out', as', onesRam_separate, fun i hi => ?_, h, fun hp => ?_⟩
  · rw [htext.1] at hi
    rw [htext.2, hbase]
    exact onesRam_onRam (by omega) (by omega)
  · have hlost : (load Aspace.memops (some oddKernel) 0x40000000 0x1000 default onesRam).map
        (fun r => r.2.2.view 0x40000041) = some 0 := by
      decide +kernel
    have hkept := hp.frame 0x40000041 (by
      rw [htext.1, htext.2, hbase]
      omega)
    rw [h, Option.map_some, Option.some.injEq] at hlost
    rw [hlost] at hkept
    exact absurd hkept (by decide +kernel)

end Kernel

end Oemu
