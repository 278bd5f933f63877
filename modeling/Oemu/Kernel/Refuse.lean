import Oemu.Kernel.Image
import Oemu.Lib.Span

/-!
# Refusing a kernel image

`Image.Placeable` is what the loader checks of a file, `Image.Fit` what it is for; the size that the
header states is in the second only.

* `load_refused`, `load_placed`   the checks of the loader, before a byte is written;
* `load_isSome`                   no read of the loader goes past the end of the file;
* `image_refusal`                 which images are refused cleanly, and read within their bounds.
-/

namespace Oemu

open LittleEndian

namespace Image

variable (img : Image)

def textLen : Nat := img.bytes.length - img.textOffset

/-- what the loader checks: a header, a text, and room for it in the machine -/
structure Placeable (ram : Nat) : Prop where
  header : 64 ≤ img.bytes.length
  boots : img.Boots
  text : img.textOffset < img.bytes.length
  room : img.bytes.length ≤ ram

/-- the file is as long as its header says, if it says anything -/
def Whole : Prop := img.imageSize ≠ 0 → img.textOffset + img.imageSize ≤ img.bytes.length

/-- the images the loader is for: a whole file whose text lies in the window of RAM -/
structure Fit (base ram : Nat) : Prop where
  header : 64 ≤ img.bytes.length
  boots : img.Boots
  whole : img.Whole
  text : img.textOffset < img.bytes.length
  room : (⟨base, ram⟩ : Span).Covers (base + img.textOffset) img.textLen

theorem Boots.textOffset_lt {img : Image} (h : img.Boots) : img.textOffset < 0x200000 := h.offset.2

variable {img} {base ram : Nat}

theorem fit_iff : img.Fit base ram ↔ img.Placeable ram ∧ img.Whole := by
  constructor
  · intro h
    have hroom : base ≤ base + img.textOffset ∧
        base + img.textOffset + (img.bytes.length - img.textOffset) ≤ base + ram := h.room
    exact ⟨⟨h.header, h.boots, h.text, by omega⟩, h.whole⟩
  · intro h
    refine ⟨h.1.header, h.1.boots, h.2, h.1.text, ?_⟩
    have ht := h.1.text
    have hr := h.1.room
    show base ≤ base + img.textOffset ∧
      base + img.textOffset + (img.bytes.length - img.textOffset) ≤ base + ram
    omega

end Image

namespace Kernel

variable {σ : Type} {mem : Memops σ} {img : Image} {memBase ramSize : W64} {out : ImageInfo} {s : σ}

/-! ## the checks -/

theorem info_textOffset (h : img.Boots) : img.info.textOffset.toNat = img.textOffset := by
  have := h.textOffset_lt
  exact toNat_ofNat (by omega)

/-- an image that fails a check leaves no trace -/
theorem load_refused (h : ¬ img.Placeable ramSize.toNat) :
    ∃ st, st ≠ .ok ∧ load mem (some img) memBase ramSize out s = some (st, out, s) := by
  unfold load
  dsimp only
  by_cases hlen : img.bytes.length < 64
  · rw [if_pos hlen]
    exact ⟨.format, by decide, rfl⟩
  · rw [if_neg hlen]
    obtain ⟨hyes, hno⟩ := @parseHeader_eq img default (by omega)
    by_cases hb : img.Boots
    · rw [hyes hb, Option.bind_eq_bind, Option.bind_some]
      dsimp only
      rw [if_neg (not_not.mpr rfl), info_textOffset hb]
      by_cases ht : img.textOffset ≥ img.bytes.length
      · rw [if_pos ht]
        exact ⟨.format, by decide, rfl⟩
      · rw [if_neg ht]
        by_cases hr : img.textOffset + (img.bytes.length - img.textOffset) > ramSize.toNat
        · rw [if_pos hr]
          exact ⟨.range, by decide, rfl⟩
        · exact absurd ⟨by omega, hb, by omega, by omega⟩ h
    · obtain ⟨st, hst, hp⟩ := hno hb
      rw [hp, Option.bind_eq_bind, Option.bind_some]
      exact ⟨st, hst, if_pos hst⟩

theorem load_placed (h : img.Placeable ramSize.toNat) :
    load mem (some img) memBase ramSize out s =
      (writeText mem img img.textOffset img.textLen (memBase + BitVec.ofNat 64 img.textOffset)
        s).bind fun r =>
          if r.1 ≠ .ok then some (r.1, out, r.2)
          else some (.ok, { img.info with
            loadPa := memBase + BitVec.ofNat 64 img.textOffset
            entryPa := memBase + BitVec.ofNat 64 img.textOffset }, r.2) := by
  have ht := h.text
  have hr := h.room
  have hoff : img.info.textOffset.setWidth 64 = BitVec.ofNat 64 img.textOffset := by
    have := h.boots.textOffset_lt
    apply BitVec.eq_of_toNat_eq
    rw [BitVec.toNat_setWidth, info_textOffset h.boots, BitVec.toNat_ofNat]
  have hlen := h.header
  obtain ⟨hyes, -⟩ := @parseHeader_eq img default (by omega)
  unfold load
  dsimp only
  rw [if_neg (by omega), hyes h.boots, Option.bind_eq_bind, Option.bind_some]
  dsimp only
  rw [if_neg (not_not.mpr rfl), info_textOffset h.boots, if_neg (by omega), if_neg (by omega), hoff]
  rfl

theorem copyWords_isSome {p n off : Nat} {load : W64} {s : σ}
    (h : p + off + 8 * n ≤ img.bytes.length) : (copyWords mem img p load n off s).isSome = true := by
  induction n generalizing off s with
  | zero => rfl
  | succ n ih =>
    unfold copyWords
    rw [imgLe64_eq (by omega), Option.bind_eq_bind, Option.bind_some]
    dsimp only
    split
    · rfl
    · exact ih (by omega)

theorem writeText_isSome {p n : Nat} {load : W64} (h : p + n ≤ img.bytes.length) :
    (writeText mem img p n load s).isSome = true := by
  unfold writeText
  obtain ⟨r, hr⟩ := Option.isSome_iff_exists.mp
    (@copyWords_isSome _ mem img p (n / 8) 0 load s (by omega))
  rw [hr, Option.bind_eq_bind, Option.bind_some]
  dsimp only
  split
  · rfl
  · split
    · unfold tailWord
      rw [if_pos (by omega)]
      rfl
    · rfl

theorem load_isSome : (load mem (some img) memBase ramSize out s).isSome = true := by
  by_cases h : img.Placeable ramSize.toNat
  · have ht := h.text
    obtain ⟨r, hr⟩ := Option.isSome_iff_exists.mp (@writeText_isSome _ mem img s
      img.textOffset img.textLen (memBase + BitVec.ofNat 64 img.textOffset)
      (show img.textOffset + (img.bytes.length - img.textOffset) ≤ _ by omega))
    rw [load_placed h, hr, Option.bind_some]
    split <;> rfl
  · obtain ⟨st, -, hl⟩ := @load_refused _ mem _ memBase _ out s h
    rw [hl]
    rfl

theorem load_untouched {st : Status} {out' : ImageInfo} {s' : σ}
    (h : load mem (some img) memBase ramSize out s = some (st, out', s')) (hst : st ≠ .ok) :
    out' = out := by
  by_cases hp : img.Placeable ramSize.toNat
  · rw [load_placed hp] at h
    cases hw : writeText mem img img.textOffset img.textLen
        (memBase + BitVec.ofNat 64 img.textOffset) s with
    | none =>
      rw [hw] at h
      cases h
    | some r =>
      rw [hw, Option.bind_some] at h
      split at h
      · cases h
        rfl
      · cases h
        exact absurd rfl hst
  · obtain ⟨_, -, hl⟩ := @load_refused _ mem _ memBase _ out s hp
    rw [hl] at h
    cases h
    rfl

/-! ## refusals -/

/-- what is asked of the loader, and of the header on its way to the loader, for one image -/
structure RefusalLaw (img : Image) (memBase ramSize : W64) : Prop where
  /-- the header is read inside the file before the loader is called -/
  header : ∀ out, parseHeader img.data out ≠ none
  inside : ∀ {σ : Type} (mem : Memops σ) out s, load mem (some img) memBase ramSize out s ≠ none
  untouched : ∀ {σ : Type} (mem : Memops σ) out s st out' s',
    load mem (some img) memBase ramSize out s = some (st, out', s') → st ≠ .ok → out' = out
  /-- whatever the bus, an unfit image reaches it with no write -/
  refused : ¬ img.Fit memBase.toNat ramSize.toNat → ∀ {σ : Type} (mem : Memops σ) out s,
    ∃ st, st ≠ .ok ∧ load mem (some img) memBase ramSize out s = some (st, out, s)

theorem header_inside : (∀ out, parseHeader img.data out ≠ none) ↔
    img.bytes = [] ∨ 60 ≤ img.bytes.length ∨ 8 ≤ img.bytes.length ∧ ¬ img.Branches := by
  unfold Image.data
  by_cases he : img.bytes = []
  · rw [if_pos he]
    exact iff_of_true (fun _ h => (by cases h)) (.inl he)
  · rw [if_neg he]
    have hnone : ∀ out, parseHeader (some img) out = none ↔
        img.bytes.length < 8 ∨ img.Branches ∧ img.bytes.length < 60 := fun _ => parseHeader_eq_none
    constructor
    · intro h
      have h := (not_congr (hnone default)).mp (h default)
      obtain ⟨h8, h60⟩ := not_or.mp h
      by_cases hb : img.Branches
      · exact .inr (.inl (Nat.not_lt.mp fun hlt => h60 ⟨hb, hlt⟩))
      · exact .inr (.inr ⟨Nat.not_lt.mp h8, hb⟩)
    · intro h out hp
      rcases (hnone out).mp hp with h8 | ⟨hb, h60⟩
      · rcases h with h | h | h
        · exact he h
        · omega
        · omega
      · rcases h with h | h | h
        · exact he h
        · omega
        · exact h.2 hb

/-- a bus that takes every write -/
def openBus : Memops Unit where
  fetch32 _ _ := (.ok, 0, ())
  read _ _ _ _ := (.ok, 0, ())
  write _ _ _ _ := (.ok, ())
  validate _ _ _ _ := (.ok, ())

theorem copyWords_open {p n off : Nat} {load : W64} (h : p + off + 8 * n ≤ img.bytes.length) :
    copyWords openBus img p load n off () = some (.ok, ()) := by
  induction n generalizing off with
  | zero => rfl
  | succ n ih =>
    unfold copyWords
    rw [imgLe64_eq (by omega), Option.bind_eq_bind, Option.bind_some]
    exact ih (by omega)

theorem load_open (h : img.Placeable ramSize.toNat) :
    ∃ out', load openBus (some img) memBase ramSize out () = some (.ok, out', ()) := by
  have ht := h.text
  have hw : writeText openBus img img.textOffset img.textLen
      (memBase + BitVec.ofNat 64 img.textOffset) () = some (.ok, ()) := by
    have hlen : img.textOffset + img.textLen = img.bytes.length := by
      unfold Image.textLen
      omega
    unfold writeText
    rw [copyWords_open (by omega), Option.bind_eq_bind, Option.bind_some]
    dsimp only
    rw [if_neg (not_not.mpr rfl)]
    split
    · unfold tailWord
      rw [if_pos (by omega)]
      rfl
    · rfl
  rw [load_placed h, hw]
  exact ⟨_, rfl⟩

/-- **refusal of a kernel image**: every unfit image is refused before a byte is written, and no
read goes past the end of the file, exactly when a file that passes the checks is whole, and a file
that is not empty has a header, or two words to tell that it has none -/
theorem image_refusal (img : Image) (memBase ramSize : W64) :
    RefusalLaw img memBase ramSize ↔ (img.Placeable ramSize.toNat → img.Whole) ∧
      (img.bytes = [] ∨ 60 ≤ img.bytes.length ∨ 8 ≤ img.bytes.length ∧ ¬ img.Branches) := by
  constructor
  · intro h
    refine ⟨?_, header_inside.mp h.header⟩
    intro hp
    by_contra hwhole
    obtain ⟨st, hst, hl⟩ := h.refused (fun hf => hwhole (Image.fit_iff.mp hf).2) openBus default ()
    obtain ⟨out', hok⟩ := @load_open _ memBase _ default hp
    rw [hok] at hl
    cases hl
    exact hst rfl
  · rintro ⟨hwhole, hread⟩
    refine ⟨header_inside.mpr hread, ?_, ?_, ?_⟩
    · intro σ mem out s hn
      have := @load_isSome _ mem img memBase ramSize out s
      rw [hn] at this
      cases this
    · intro σ mem out s st out' s' hl hst
      exact load_untouched hl hst
    · intro hunfit σ mem out s
      exact load_refused fun hp => hunfit (Image.fit_iff.mpr ⟨hp, hwhole hp⟩)

/-- a header whose text is 64 bytes and whose size is said to be 4096 -/
def truncatedKernel : Image :=
  ⟨[0, 0, 0, 0x14] ++ List.replicate 13 0 ++ [0x10] ++ List.replicate 38 0 ++
    [0x41, 0x52, 0x4D, 0x64] ++ List.replicate 4 0, by decide⟩

/-- a truncated image is accepted -/
theorem truncated_accepted : ¬ RefusalLaw truncatedKernel 0x40000000 0x100000 := by
  intro h
  have hunfit : ¬ truncatedKernel.Fit (0x40000000 : W64).toNat (0x100000 : W64).toNat := by
    intro hf
    have hwhole := hf.whole (by decide +kernel)
    revert hwhole
    decide +kernel
  obtain ⟨st, hst, hl⟩ := h.refused hunfit openBus default ()
  have hok : (load openBus (some truncatedKernel) 0x40000000 0x100000 default ()).map Prod.fst =
      some .ok := by
    decide +kernel
  rw [hl] at hok
  cases hok
  exact hst rfl

end Kernel

end Oemu
