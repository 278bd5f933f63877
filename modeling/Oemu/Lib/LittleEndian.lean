import Mathlib.Tactic

/-!
# Little-endian numbers

`num f off n` is the number that the `n` bytes of `f` from `off` on spell, least significant first.
The words that code assembles with shifts and disjunctions are these numbers.

* `num_lt`            `n` bytes spell a number below `256 ^ n`;
* `num_append`        a number out of its low and its high bytes;
* `num_byte`          a byte cut out of the number;
* `or_shift`          a disjunction of a low part and a shifted high part is a sum;
* `word2`, `word4`    two and four bytes assembled by shifts;
* `push`              one more byte under a word assembled from the top.

`sum` and `prod` are 64-bit arithmetic that is not allowed to wrap.
-/

namespace LittleEndian

variable {w k : Nat}

def num (f : Nat → BitVec 8) : Nat → Nat → Nat
  | _, 0 => 0
  | off, n + 1 => (f off).toNat + 256 * num f (off + 1) n

theorem num_lt (f : Nat → BitVec 8) (off n : Nat) : num f off n < 256 ^ n := by
  induction n generalizing off with
  | zero => exact Nat.one_pos
  | succ n ih =>
    have hb := (f off).isLt
    have hn := ih (off + 1)
    show (f off).toNat + 256 * num f (off + 1) n < 256 ^ (n + 1)
    rw [Nat.pow_succ]
    omega

theorem num_append (f : Nat → BitVec 8) (off n m : Nat) :
    num f off (n + m) = num f off n + 256 ^ n * num f (off + n) m := by
  induction n generalizing off with
  | zero => simp [num]
  | succ n ih =>
    have e : off + 1 + n = off + (n + 1) := by omega
    rw [Nat.add_right_comm]
    show (f off).toNat + 256 * num f (off + 1) (n + m) =
      (f off).toNat + 256 * num f (off + 1) n + 256 ^ (n + 1) * num f (off + (n + 1)) m
    rw [ih, e]
    ring

theorem num_byte (f : Nat → BitVec 8) {off n j : Nat} (hj : j < n) :
    num f off n / 256 ^ j % 256 = (f (off + j)).toNat := by
  induction j generalizing off n with
  | zero =>
    have hb := (f off).isLt
    cases n with
    | zero => exact absurd hj (Nat.lt_irrefl 0)
    | succ n =>
      show ((f off).toNat + 256 * num f (off + 1) n) / 1 % 256 = (f off).toNat
      omega
  | succ j ih =>
    have hb := (f off).isLt
    cases n with
    | zero => exact absurd hj (Nat.not_lt_zero _)
    | succ n =>
      have hn := @ih (off + 1) n (Nat.lt_of_succ_lt_succ hj)
      have hdiv : num f off (n + 1) / 256 = num f (off + 1) n := by
        show ((f off).toNat + 256 * num f (off + 1) n) / 256 = _
        omega
      rw [Nat.pow_succ', ← Nat.div_div_eq_div_mul, hdiv, hn, Nat.add_right_comm, Nat.add_assoc]

theorem num_above (f : Nat → BitVec 8) {off n j : Nat} (hj : n ≤ j) :
    num f off n / 256 ^ j % 256 = 0 := by
  have hlt : num f off n < 256 ^ j :=
    lt_of_lt_of_le (num_lt f off n) (Nat.pow_le_pow_right (by decide) hj)
  rw [Nat.div_eq_of_lt hlt]

/-! ## words -/

theorem or_shift {x y : BitVec w} (hx : x.toNat < 2 ^ k) (hy : y.toNat * 2 ^ k < 2 ^ w) :
    (x ||| y <<< k).toNat = x.toNat + y.toNat * 2 ^ k := by
  rw [BitVec.toNat_or, BitVec.toNat_shiftLeft, Nat.shiftLeft_eq, Nat.mod_eq_of_lt hy, Nat.or_comm,
    ← Nat.shiftLeft_eq, ← Nat.shiftLeft_add_eq_or_of_lt hx, Nat.shiftLeft_eq, Nat.add_comm]

theorem toNat_wide (b : BitVec 8) (hw : 8 ≤ w) : (b.setWidth w).toNat = b.toNat := by
  rw [BitVec.toNat_setWidth, Nat.mod_eq_of_lt]
  exact lt_of_lt_of_le b.isLt (Nat.pow_le_pow_right Nat.two_pos hw)

theorem word2 (a b : BitVec 8) :
    (a.setWidth 16 ||| b.setWidth 16 <<< 8).toNat = a.toNat + 256 * b.toNat := by
  have ha := a.isLt
  have hb := b.isLt
  have ea := toNat_wide a (w := 16) (by decide)
  have eb := toNat_wide b (w := 16) (by decide)
  rw [or_shift (by omega) (by omega), ea, eb]
  omega

theorem word4 (a b c d : BitVec 8) :
    (a.setWidth 32 ||| b.setWidth 32 <<< 8 ||| c.setWidth 32 <<< 16 ||| d.setWidth 32 <<< 24).toNat =
      a.toNat + 256 * (b.toNat + 256 * (c.toNat + 256 * d.toNat)) := by
  have ha := a.isLt
  have hb := b.isLt
  have hc := c.isLt
  have hd := d.isLt
  have ea := toNat_wide a (w := 32) (by decide)
  have eb := toNat_wide b (w := 32) (by decide)
  have ec := toNat_wide c (w := 32) (by decide)
  have ed := toNat_wide d (w := 32) (by decide)
  have h1 := or_shift (x := a.setWidth 32) (y := b.setWidth 32) (k := 8) (by omega) (by omega)
  have h2 := or_shift (x := a.setWidth 32 ||| b.setWidth 32 <<< 8) (y := c.setWidth 32) (k := 16)
    (by omega) (by omega)
  rw [or_shift (by omega) (by omega), h2, h1, ea, eb, ec, ed]
  omega

theorem push {v : BitVec 64} {b : BitVec 8} (hv : v.toNat * 256 < 2 ^ 64) :
    (v <<< 8 ||| b.setWidth 64).toNat = b.toNat + 256 * v.toNat := by
  have hb := b.isLt
  have eb := toNat_wide b (w := 64) (by decide)
  rw [BitVec.or_comm, or_shift (by omega) (by omega), eb]
  omega

/-! ## arithmetic that must not wrap -/

/-- a sum; `none` if it wraps -/
def sum (a b : BitVec 64) : Option (BitVec 64) :=
  if a.toNat + b.toNat < 2 ^ 64 then some (a + b) else none

/-- a product; `none` if it wraps -/
def prod (a b : BitVec 64) : Option (BitVec 64) :=
  if a.toNat * b.toNat < 2 ^ 64 then some (a * b) else none

theorem sum_eq {a b : BitVec 64} (h : a.toNat + b.toNat < 2 ^ 64) :
    sum a b = some (BitVec.ofNat 64 (a.toNat + b.toNat)) := by
  unfold sum
  rw [if_pos h, BitVec.ofNat_add, BitVec.ofNat_toNat, BitVec.ofNat_toNat, BitVec.setWidth_eq,
    BitVec.setWidth_eq]

theorem prod_eq {a b : BitVec 64} (h : a.toNat * b.toNat < 2 ^ 64) :
    prod a b = some (BitVec.ofNat 64 (a.toNat * b.toNat)) := by
  unfold prod
  rw [if_pos h, BitVec.ofNat_mul, BitVec.ofNat_toNat, BitVec.ofNat_toNat, BitVec.setWidth_eq,
    BitVec.setWidth_eq]

theorem toNat_ofNat {n : Nat} (h : n < 2 ^ w) : (BitVec.ofNat w n).toNat = n := by
  rw [BitVec.toNat_ofNat, Nat.mod_eq_of_lt h]

theorem ofNat_inj {a b : Nat} (ha : a < 2 ^ w) (hb : b < 2 ^ w) :
    BitVec.ofNat w a = BitVec.ofNat w b ↔ a = b := by
  rw [← BitVec.toNat_inj, toNat_ofNat ha, toNat_ofNat hb]

end LittleEndian
