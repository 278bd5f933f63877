import Oemu.Basic
import Oemu.Lib.LittleEndian
import Oemu.Lib.Span

/-!
# The bytes of an executable

`Image` is the file as it is handed over: a byte string whose length fits 64 bits.  A read outside it
and a sum that wraps are `none`, which no result of the loader is; a read that its own check refuses
has a status of its own.

* `Image.num`                       the number at an offset, as the format defines it;
* `rd16_eq`, `rd32_eq`, `rd64_eq`   a read inside the image answers that number;
* `Image.Header`, `Image.loads`     the header the loader is for, and the segments of a file.
-/

namespace Oemu

open LittleEndian

structure Image where
  bytes : List (BitVec 8)
  fits : bytes.length < 2 ^ 64

namespace Image

variable {img : Image} {off : W64}

def size (img : Image) : W64 := BitVec.ofNat 64 img.bytes.length

@[simp] theorem size_toNat : img.size.toNat = img.bytes.length := toNat_ofNat img.fits

/-- `image[off]`; `none` is a read outside -/
def byte (img : Image) (off : W64) : Option (BitVec 8) := img.bytes[off.toNat]?

/-- the byte at an offset of the file -/
def octet (img : Image) (i : Nat) : BitVec 8 := img.bytes.getD i 0

theorem byte_eq (h : off.toNat < img.bytes.length) : img.byte off = some (img.octet off.toNat) := by
  unfold byte octet
  rw [List.getD_eq_getElem?_getD, List.getElem?_eq_getElem h]
  rfl

/-- `n` bytes from `off` on; `none` is a read outside -/
def slice (img : Image) (off n : W64) : Option (List (BitVec 8)) :=
  if off.toNat + n.toNat ≤ img.bytes.length then some ((img.bytes.drop off.toNat).take n.toNat)
  else none

/-- the number of `n` bytes from `off` on -/
def num (img : Image) (off n : Nat) : Nat := LittleEndian.num img.octet off n

theorem num_lt (img : Image) (off n : Nat) : img.num off n < 256 ^ n := LittleEndian.num_lt _ _ _

end Image

/-! ## checked reads -/

namespace Elf

variable {img : Image} {off : W64}

/-- is the span inside, without forming its end -/
def within (off span size : W64) : Bool :=
  if off > size then false else decide (span ≤ size - off)

def rd16 (img : Image) (off : W64) : Option (Status × BitVec 16) :=
  if !within off 2 img.size then some (.invalidArg, 0)
  else do
    let b0 ← img.byte off
    let b1 ← (sum off 1).bind img.byte
    some (.ok, b0.setWidth 16 ||| b1.setWidth 16 <<< 8)

def rd32 (img : Image) (off : W64) : Option (Status × W32) :=
  if !within off 4 img.size then some (.invalidArg, 0)
  else do
    let b0 ← img.byte off
    let b1 ← (sum off 1).bind img.byte
    let b2 ← (sum off 2).bind img.byte
    let b3 ← (sum off 3).bind img.byte
    some (.ok, b0.setWidth 32 ||| b1.setWidth 32 <<< 8 ||| b2.setWidth 32 <<< 16 |||
      b3.setWidth 32 <<< 24)

/-- the loop of `rd64`, from the top byte down -/
def rd64Loop (img : Image) (off : W64) : Nat → W64 → Option W64
  | 0, value => some value
  | i + 1, value => do
    let b ← (sum off (BitVec.ofNat 64 i)).bind img.byte
    rd64Loop img off i (value <<< 8 ||| b.setWidth 64)

def rd64 (img : Image) (off : W64) : Option (Status × W64) :=
  if !within off 8 img.size then some (.invalidArg, 0)
  else (rd64Loop img off 8 0).map fun value => (.ok, value)

theorem within_iff {off span size : W64} :
    within off span size = true ↔ off.toNat + span.toNat ≤ size.toNat := by
  unfold within
  by_cases h : off > size
  · rw [if_pos h]
    have : size.toNat < off.toNat := h
    constructor
    · intro h
      cases h
    · omega
  · rw [if_neg h, decide_eq_true_iff]
    have hle : off ≤ size := BitVec.not_lt.mp h
    rw [BitVec.le_def, BitVec.toNat_sub_of_le hle]
    rw [BitVec.le_def] at hle
    omega

theorem byte_sum {i : W64} (h : off.toNat + i.toNat < img.bytes.length) :
    (sum off i).bind img.byte = some (img.octet (off.toNat + i.toNat)) := by
  have hf := img.fits
  have hlt : off.toNat + i.toNat < 2 ^ 64 := by omega
  rw [sum_eq hlt, Option.bind_some, Image.byte_eq] <;> rw [toNat_ofNat hlt]
  exact h

theorem rd16_eq (h : off.toNat + 2 ≤ img.bytes.length) :
    rd16 img off = some (.ok, BitVec.ofNat 16 (img.num off.toNat 2)) := by
  have hw : within off 2 img.size = true := within_iff.mpr (by rw [Image.size_toNat]; exact h)
  have h1 : (1 : W64).toNat = 1 := rfl
  unfold rd16
  rw [hw, Image.byte_eq (by omega), byte_sum (by omega)]
  refine congrArg (fun v => some (Status.ok, v)) (BitVec.eq_of_toNat_eq ?_)
  rw [word2, toNat_ofNat (img.num_lt _ 2), h1]
  show _ = (img.octet off.toNat).toNat + 256 * ((img.octet (off.toNat + 1)).toNat + 256 * 0)
  omega

theorem rd32_eq (h : off.toNat + 4 ≤ img.bytes.length) :
    rd32 img off = some (.ok, BitVec.ofNat 32 (img.num off.toNat 4)) := by
  have hw : within off 4 img.size = true := within_iff.mpr (by rw [Image.size_toNat]; exact h)
  have h1 : (1 : W64).toNat = 1 := rfl
  have h2 : (2 : W64).toNat = 2 := rfl
  have h3 : (3 : W64).toNat = 3 := rfl
  unfold rd32
  rw [hw, Image.byte_eq (by omega), byte_sum (by omega), byte_sum (by omega), byte_sum (by omega)]
  refine congrArg (fun v => some (Status.ok, v)) (BitVec.eq_of_toNat_eq ?_)
  rw [word4, toNat_ofNat (img.num_lt _ 4), h1, h2, h3]
  rfl

/-- before byte `i` of the loop the value holds the bytes above -/
theorem rd64Loop_eq {n : Nat} (h : off.toNat + 8 ≤ img.bytes.length) (hn : n ≤ 8) {value : W64}
    (hv : value.toNat = img.num (off.toNat + n) (8 - n)) :
    rd64Loop img off n value = some (BitVec.ofNat 64 (img.num off.toNat 8)) := by
  induction n generalizing value with
  | zero =>
    refine congrArg some (BitVec.eq_of_toNat_eq ?_)
    rw [hv, toNat_ofNat (img.num_lt _ 8)]
    rfl
  | succ n ih =>
    have hi : (BitVec.ofNat 64 n).toNat = n := toNat_ofNat (by omega)
    have hlt := img.num_lt (off.toNat + (n + 1)) (8 - (n + 1))
    have hpow : 256 ^ (8 - (n + 1)) * 256 ≤ 2 ^ 64 := by
      rw [← Nat.pow_succ, show (2 : Nat) ^ 64 = 256 ^ 8 by norm_num]
      exact Nat.pow_le_pow_right (by decide) (by omega)
    unfold rd64Loop
    rw [byte_sum (by omega), Option.bind_eq_bind, Option.bind_some]
    refine ih (by omega) ?_
    rw [push (by omega), hv, hi, show 8 - n = (8 - (n + 1)) + 1 by omega]
    rfl

theorem rd64_eq (h : off.toNat + 8 ≤ img.bytes.length) :
    rd64 img off = some (.ok, BitVec.ofNat 64 (img.num off.toNat 8)) := by
  have hw : within off 8 img.size = true := within_iff.mpr (by rw [Image.size_toNat]; exact h)
  unfold rd64
  rw [hw, rd64Loop_eq h (Nat.le_refl 8) rfl]
  rfl

end Elf

/-! ## the format -/

/-- a program header -/
structure Phdr where
  type : Nat
  flags : Nat
  offset : Nat
  vaddr : Nat
  filesz : Nat
  memsz : Nat
  align : Nat
deriving DecidableEq

namespace Phdr

/-- a loadable segment with something to map -/
def Loads (p : Phdr) : Prop := p.type = 1 ∧ p.memsz ≠ 0

instance (p : Phdr) : Decidable p.Loads := inferInstanceAs (Decidable (_ ∧ _))

/-- the guest range -/
def span (p : Phdr) : Span := ⟨p.vaddr, p.memsz⟩

/-- what is asked of a segment of a file of `size` bytes -/
structure Good (p : Phdr) (size : Nat) : Prop where
  flags : p.flags.testBit 0 = true ∨ p.flags.testBit 1 = true ∨ p.flags.testBit 2 = true
  align : p.align ≠ 0
  filesz : p.filesz ≤ p.memsz
  slice : p.offset + p.filesz ≤ size
  top : p.vaddr + p.memsz < 2 ^ 64

/-- flag 0 is execute, flag 1 write, flag 2 read -/
def perms (p : Phdr) : W32 :=
  (if p.flags.testBit 0 then permExec else 0) ||| (if p.flags.testBit 1 then permWrite else 0) |||
    (if p.flags.testBit 2 then permRead else 0)

end Phdr

namespace Image

variable (img : Image)

def entry : Nat := img.num 24 8

def phoff : Nat := img.num 32 8

def phnum : Nat := img.num 56 2

/-- little-endian, 64 bits, a static executable for this architecture, with program headers of 56
bytes wholly inside the file -/
structure Header : Prop where
  length : 64 ≤ img.bytes.length
  magic : img.octet 0 = 0x7F ∧ img.octet 1 = 0x45 ∧ img.octet 2 = 0x4C ∧ img.octet 3 = 0x46
  format : img.octet 4 = 2
  order : img.octet 5 = 1
  type : img.num 16 2 = 2
  machine : img.num 18 2 = 183
  phentsize : img.num 54 2 = 56
  table : img.phoff + 56 * img.phnum ≤ img.bytes.length

/-- the program header at an offset -/
def phdrAt (base : Nat) : Phdr where
  type := img.num base 4
  flags := img.num (base + 4) 4
  offset := img.num (base + 8) 8
  vaddr := img.num (base + 16) 8
  filesz := img.num (base + 32) 8
  memsz := img.num (base + 40) 8
  align := img.num (base + 48) 8

def phdr (i : Nat) : Phdr := img.phdrAt (img.phoff + 56 * i)

/-- the segments to map, in the order of the table -/
def loads : List Phdr := ((List.range img.phnum).map img.phdr).filter fun p => decide p.Loads

structure Loadable : Prop where
  header : img.Header
  nonempty : img.loads ≠ []
  good : ∀ p ∈ img.loads, p.Good img.bytes.length
  disjoint : img.loads.Pairwise fun p q => p.span.Apart q.span

end Image

end Oemu
