import Oemu.Elf.Image
import Oemu.Memory

/-!
# The kernel image loader

`Kernel.parseHeader` reads the header of a kernel image and `Kernel.load` writes its text to the bus.
`none` is a read outside the file.  A file is given by a pointer, which is null for a buffer that
holds nothing: `Image.data`.

* `imgLe32_eq`, `imgLe64_eq`   a read inside the file answers the number there;
* `parseHeader_eq_none`        the files whose header is read past the end;
* `parseHeader_eq`             what the rest are taken for.
-/

namespace Oemu

open LittleEndian

namespace Kernel

def imageMagic : W32 := 0x644D5241

def branchMask : W32 := 0xFC000000

def branchBits : W32 := 0x14000000

def btiMask : W32 := 0xFFFFFEDF

def btiBits : W32 := 0xD503201F

/-- the parsed, validated header -/
structure ImageInfo where
  textOffset : W32
  imageSize : W64
  flags : W64
  loadPa : W64
  entryPa : W64
deriving DecidableEq, Inhabited

def imgLe32 (img : Image) (p : Nat) : Option W32 := do
  let b0 ← img.bytes[p]?
  let b1 ← img.bytes[p + 1]?
  let b2 ← img.bytes[p + 2]?
  let b3 ← img.bytes[p + 3]?
  some (b0.setWidth 32 ||| b1.setWidth 32 <<< 8 ||| b2.setWidth 32 <<< 16 ||| b3.setWidth 32 <<< 24)

def imgLe64 (img : Image) (p : Nat) : Option W64 := do
  let lo ← imgLe32 img p
  let hi ← imgLe32 img (p + 4)
  some (lo.setWidth 64 ||| hi.setWidth 64 <<< 32)

def isBranch (code : W32) : Bool := code &&& branchMask == branchBits

def isBti (code : W32) : Bool := code &&& btiMask == btiBits

def parseFields (img : Image) (out : ImageInfo) : Option (Status × ImageInfo) := do
  let flags ← imgLe64 img 0x18
  if flags &&& 1 ≠ 0 then some (.unsupported, out)
  else
    let pageSize := flags >>> 1 &&& 3
    if pageSize = 2 ∨ pageSize = 3 then some (.unsupported, out)
    else do
      let textOffset ← imgLe64 img 0x08
      let imageSize ← imgLe64 img 0x10
      if textOffset &&& 0xFFF ≠ 0 ∨ textOffset ≥ 0x200000 then some (.format, out)
      else some (.ok, ⟨textOffset.setWidth 32, imageSize, flags, 0, 0⟩)

def parseHeader (head : Option Image) (out : ImageInfo) : Option (Status × ImageInfo) :=
  match head with
  | none => some (.invalidArg, out)
  | some img => do
    let code0 ← imgLe32 img 0x00
    let code1 ← imgLe32 img 0x04
    if !isBranch code0 && !(isBti code0 && isBranch code1) then some (.format, out)
    else do
      let magic ← imgLe32 img 0x38
      if magic ≠ imageMagic then some (.format, out) else parseFields img out

/-! ## the loader -/

variable {σ : Type}

/-- the loop over the dwords of the text, `n` of them left -/
def copyWords (mem : Memops σ) (img : Image) (textOffset : Nat) (load : W64) :
    Nat → Nat → σ → Option (Status × σ)
  | 0, _, s => some (.ok, s)
  | n + 1, off, s => do
    let word ← imgLe64 img (textOffset + off)
    let (w, s) := mem.write s (load + BitVec.ofNat 64 off) .dword word
    if w ≠ .ok then some (w, s) else copyWords mem img textOffset load n (off + 8) s

/-- `n` bytes copied under a zeroed dword -/
def tailWord (img : Image) (p n : Nat) : Option W64 :=
  if p + n ≤ img.bytes.length then some (BitVec.ofNat 64 (img.num p n)) else none

/-- the dwords of the text, and what is left of it as one more -/
def writeText (mem : Memops σ) (img : Image) (textOffset textLen : Nat) (load : W64) (s : σ) :
    Option (Status × σ) := do
  let (w, s) ← copyWords mem img textOffset load (textLen / 8) 0 s
  let off := textLen / 8 * 8
  if w ≠ .ok then some (w, s)
  else if off ≠ textLen then do
    let word ← tailWord img (textOffset + off) (textLen - off)
    some (mem.write s (load + BitVec.ofNat 64 off) .dword word)
  else some (.ok, s)

/-- the status, what `out` points at afterwards, and the bus -/
def load (mem : Memops σ) (bytes : Option Image) (memBase ramSize : W64) (out : ImageInfo) (s : σ) :
    Option (Status × ImageInfo × σ) :=
  match bytes with
  | none => some (.invalidArg, out, s)
  | some img =>
    if img.bytes.length < 64 then some (.format, out, s)
    else do
      let (st, info) ← parseHeader (some img) default
      if st ≠ .ok then some (st, out, s)
      else if info.textOffset.toNat ≥ img.bytes.length then some (.format, out, s)
      else
        let textLen := img.bytes.length - info.textOffset.toNat
        if info.textOffset.toNat + textLen > ramSize.toNat then some (.range, out, s)
        else do
          let load := memBase + info.textOffset.setWidth 64
          let (w, s) ← writeText mem img info.textOffset.toNat textLen load s
          if w ≠ .ok then some (w, out, s)
          else some (.ok, { info with loadPa := load, entryPa := load }, s)

end Kernel

/-! ## the header of a kernel image -/

namespace Image

/-- the pointer to the bytes read from a file: null if there are none -/
def data (img : Image) : Option Image := if img.bytes = [] then none else some img

variable (img : Image)

/-- the image starts with a branch, or with a landing pad before one -/
def Branches : Prop :=
  Kernel.isBranch (BitVec.ofNat 32 (img.num 0 4)) ∨
    Kernel.isBti (BitVec.ofNat 32 (img.num 0 4)) ∧ Kernel.isBranch (BitVec.ofNat 32 (img.num 4 4))

instance : Decidable img.Branches := inferInstanceAs (Decidable (_ ∨ _))

def textOffset : Nat := img.num 8 8

def imageSize : Nat := img.num 16 8

def kernelFlags : Nat := img.num 24 8

/-- a branch, the magic, little-endian, pages of 4 KiB or of no stated size, and a text offset below
2 MiB in whole pages -/
structure Boots : Prop where
  branch : img.Branches
  magic : img.num 56 4 = 0x644D5241
  order : img.kernelFlags % 2 = 0
  granule : img.kernelFlags / 2 % 4 < 2
  offset : img.textOffset % 4096 = 0 ∧ img.textOffset < 0x200000

/-- the header as it is parsed -/
def info : Kernel.ImageInfo :=
  ⟨BitVec.ofNat 32 img.textOffset, BitVec.ofNat 64 img.imageSize, BitVec.ofNat 64 img.kernelFlags,
    0, 0⟩

end Image

/-! ## reads -/

namespace Kernel

variable {img : Image} {p : Nat} {out : ImageInfo}

theorem imgLe32_eq (h : p + 4 ≤ img.bytes.length) :
    imgLe32 img p = some (BitVec.ofNat 32 (img.num p 4)) := by
  have hat : ∀ i < 4, img.bytes[p + i]? = some (img.octet (p + i)) := by
    intro i hi
    unfold Image.octet
    rw [List.getD_eq_getElem?_getD, List.getElem?_eq_getElem (by omega)]
    rfl
  unfold imgLe32
  rw [show img.bytes[p]? = _ from hat 0 (by decide), hat 1 (by decide), hat 2 (by decide),
    hat 3 (by decide)]
  refine congrArg some (BitVec.eq_of_toNat_eq ?_)
  rw [word4, toNat_ofNat (img.num_lt _ 4)]
  rfl

theorem imgLe32_eq_none (h : img.bytes.length < p + 4) : imgLe32 img p = none := by
  unfold imgLe32
  rw [List.getElem?_eq_none (show img.bytes.length ≤ p + 3 by omega)]
  cases img.bytes[p]? with
  | none => rfl
  | some b0 =>
    cases img.bytes[p + 1]? with
    | none => rfl
    | some b1 => cases img.bytes[p + 2]? <;> rfl

theorem imgLe64_eq (h : p + 8 ≤ img.bytes.length) :
    imgLe64 img p = some (BitVec.ofNat 64 (img.num p 8)) := by
  have hlo := img.num_lt p 4
  have hhi := img.num_lt (p + 4) 4
  have wlo : ((BitVec.ofNat 32 (img.num p 4)).setWidth 64).toNat = img.num p 4 := by
    rw [BitVec.toNat_setWidth, toNat_ofNat hlo]
    exact Nat.mod_eq_of_lt (by omega)
  have whi : ((BitVec.ofNat 32 (img.num (p + 4) 4)).setWidth 64).toNat = img.num (p + 4) 4 := by
    rw [BitVec.toNat_setWidth, toNat_ofNat hhi]
    exact Nat.mod_eq_of_lt (by omega)
  unfold imgLe64
  rw [imgLe32_eq (by omega), imgLe32_eq (by omega)]
  refine congrArg some (BitVec.eq_of_toNat_eq ?_)
  rw [or_shift (by omega) (by omega), wlo, whi, toNat_ofNat (img.num_lt _ 8)]
  unfold Image.num
  rw [num_append img.octet p 4 4]
  omega

/-! ## the header -/

theorem no_branch_iff :
    (!isBranch (BitVec.ofNat 32 (img.num 0 4)) && !(isBti (BitVec.ofNat 32 (img.num 0 4)) &&
      isBranch (BitVec.ofNat 32 (img.num 4 4)))) = true ↔ ¬ img.Branches := by
  unfold Image.Branches
  cases isBranch (BitVec.ofNat 32 (img.num 0 4)) <;>
    cases isBti (BitVec.ofNat 32 (img.num 0 4)) <;>
    cases isBranch (BitVec.ofNat 32 (img.num 4 4)) <;> decide

theorem parseHeader_step (h : 8 ≤ img.bytes.length) :
    parseHeader (some img) out = if img.Branches then
      (imgLe32 img 0x38).bind fun magic =>
        if magic ≠ imageMagic then some (.format, out) else parseFields img out
    else some (.format, out) := by
  unfold parseHeader
  dsimp only
  rw [imgLe32_eq (show 0 + 4 ≤ _ by omega), imgLe32_eq (show 4 + 4 ≤ _ by omega)]
  by_cases hb : img.Branches
  · rw [if_pos hb]
    exact if_neg (fun h => no_branch_iff.mp h hb)
  · rw [if_neg hb]
    exact if_pos (no_branch_iff.mpr hb)

theorem parseFields_eq (h : 0x20 ≤ img.bytes.length) :
    parseFields img out = if img.kernelFlags % 2 ≠ 0 ∨ ¬ img.kernelFlags / 2 % 4 < 2 then
      some (.unsupported, out)
    else if img.textOffset % 4096 = 0 ∧ img.textOffset < 0x200000 then some (.ok, img.info)
    else some (.format, out) := by
  have hf : (BitVec.ofNat 64 img.kernelFlags).toNat = img.kernelFlags := toNat_ofNat (img.num_lt _ 8)
  have ht : (BitVec.ofNat 64 img.textOffset).toNat = img.textOffset := toNat_ofNat (img.num_lt _ 8)
  have hord : BitVec.ofNat 64 img.kernelFlags &&& 1 ≠ 0 ↔ img.kernelFlags % 2 ≠ 0 := by
    rw [ne_eq, ← BitVec.toNat_inj, BitVec.toNat_and, hf]
    exact not_congr (by rw [show (1 : W64).toNat = 1 from rfl, Nat.and_one_is_mod]; rfl)
  have hpage : (BitVec.ofNat 64 img.kernelFlags >>> 1 &&& 3).toNat = img.kernelFlags / 2 % 4 := by
    rw [BitVec.toNat_and, BitVec.toNat_ushiftRight, hf, Nat.shiftRight_eq_div_pow]
    exact Nat.and_two_pow_sub_one_eq_mod _ 2
  have hgran : (BitVec.ofNat 64 img.kernelFlags >>> 1 &&& 3 = 2 ∨
      BitVec.ofNat 64 img.kernelFlags >>> 1 &&& 3 = 3) ↔ ¬ img.kernelFlags / 2 % 4 < 2 := by
    rw [← BitVec.toNat_inj, ← BitVec.toNat_inj, hpage, show (2 : W64).toNat = 2 from rfl,
      show (3 : W64).toNat = 3 from rfl]
    omega
  have halign : BitVec.ofNat 64 img.textOffset &&& 0xFFF ≠ 0 ↔ img.textOffset % 4096 ≠ 0 := by
    rw [ne_eq, ← BitVec.toNat_inj, BitVec.toNat_and, ht]
    exact not_congr (by rw [← Nat.and_two_pow_sub_one_eq_mod _ 12]; rfl)
  have hfar : BitVec.ofNat 64 img.textOffset ≥ 0x200000 ↔ ¬ img.textOffset < 0x200000 := by
    rw [ge_iff_le, BitVec.le_def, ht, Nat.not_lt]
    rfl
  have hoff : (BitVec.ofNat 64 img.textOffset &&& 0xFFF ≠ 0 ∨
      BitVec.ofNat 64 img.textOffset ≥ 0x200000) ↔
      ¬ (img.textOffset % 4096 = 0 ∧ img.textOffset < 0x200000) := by
    rw [halign, hfar, not_and_or]
  have hinfo : (BitVec.ofNat 64 img.textOffset).setWidth 32 = BitVec.ofNat 32 img.textOffset :=
    BitVec.eq_of_toNat_eq (by rw [BitVec.toNat_setWidth, ht, BitVec.toNat_ofNat])
  have r0 : imgLe64 img 0x18 = some (BitVec.ofNat 64 img.kernelFlags) := imgLe64_eq h
  have r1 : imgLe64 img 0x08 = some (BitVec.ofNat 64 img.textOffset) := imgLe64_eq (by omega)
  have r2 : imgLe64 img 0x10 = some (BitVec.ofNat 64 img.imageSize) := imgLe64_eq (by omega)
  unfold parseFields
  rw [r0, r1, r2]
  simp only [Option.bind_eq_bind, Option.bind_some]
  rw [if_congr hord rfl rfl, if_congr hgran rfl rfl, if_congr hoff rfl rfl, hinfo]
  by_cases ho : img.kernelFlags % 2 ≠ 0
  · rw [if_pos ho, if_pos (.inl ho)]
  · by_cases hg : img.kernelFlags / 2 % 4 < 2
    · rw [if_neg ho, if_neg (not_not.mpr hg), if_neg (not_or.mpr ⟨ho, not_not.mpr hg⟩), ite_not]
      rfl
    · rw [if_neg ho, if_pos hg, if_pos (.inr hg)]

theorem parseHeader_eq_none :
    parseHeader (some img) out = none ↔
      img.bytes.length < 8 ∨ img.Branches ∧ img.bytes.length < 0x3C := by
  by_cases h8 : img.bytes.length < 8
  · refine iff_of_true ?_ (.inl h8)
    unfold parseHeader
    dsimp only
    rw [imgLe32_eq_none (show _ < 4 + 4 from h8)]
    cases imgLe32 img 0 <;> rfl
  · rw [parseHeader_step (Nat.not_lt.mp h8)]
    by_cases hb : img.Branches
    · rw [if_pos hb]
      by_cases hm : img.bytes.length < 0x3C
      · rw [imgLe32_eq_none (show _ < 0x38 + 4 from hm)]
        exact iff_of_true rfl (.inr ⟨hb, hm⟩)
      · rw [imgLe32_eq (show 0x38 + 4 ≤ _ by omega), Option.bind_some, parseFields_eq (by omega)]
        refine iff_of_false ?_ (fun h => h.elim h8 fun h => hm h.2)
        split
        · exact fun h => (by cases h)
        · split
          · exact fun h => (by cases h)
          · split <;> exact fun h => (by cases h)
    · rw [if_neg hb]
      exact iff_of_false (fun h => (by cases h)) (fun h => h.elim h8 fun h => hb h.1)

/-- **the header of a file of 60 bytes or more** is taken for what it is -/
theorem parseHeader_eq (h : 0x3C ≤ img.bytes.length) :
    (img.Boots → parseHeader (some img) out = some (.ok, img.info)) ∧
      (¬ img.Boots → ∃ st, st ≠ .ok ∧ parseHeader (some img) out = some (st, out)) := by
  rw [parseHeader_step (by omega), imgLe32_eq (show 0x38 + 4 ≤ _ by omega), Option.bind_some,
    parseFields_eq (by omega)]
  have hmagic : BitVec.ofNat 32 (img.num 0x38 4) = imageMagic ↔ img.num 56 4 = 0x644D5241 :=
    ofNat_inj (img.num_lt 56 4) (by decide)
  constructor
  · intro hb
    rw [if_pos hb.branch, if_neg (not_not.mpr (hmagic.mpr hb.magic)), if_neg, if_pos hb.offset]
    exact fun h => h.elim (fun h => h hb.order) (fun h => h hb.granule)
  · intro hb
    by_cases hbr : img.Branches
    · rw [if_pos hbr]
      by_cases hm : BitVec.ofNat 32 (img.num 0x38 4) = imageMagic
      · rw [if_neg (not_not.mpr hm)]
        by_cases hfl : img.kernelFlags % 2 ≠ 0 ∨ ¬ img.kernelFlags / 2 % 4 < 2
        · rw [if_pos hfl]
          exact ⟨.unsupported, by decide, rfl⟩
        · rw [if_neg hfl]
          have hfl := not_or.mp hfl
          by_cases hoff : img.textOffset % 4096 = 0 ∧ img.textOffset < 0x200000
          · exact absurd ⟨hbr, hmagic.mp hm, not_not.mp hfl.1, not_not.mp hfl.2, hoff⟩ hb
          · rw [if_neg hoff]
            exact ⟨.format, by decide, rfl⟩
      · rw [if_pos hm]
        exact ⟨.format, by decide, rfl⟩
    · rw [if_neg hbr]
      exact ⟨.format, by decide, rfl⟩

end Kernel

end Oemu
