import Oemu.Aspace

/-!
# Little-endian bytes

`assemble` stores the low bytes of a value and `disassemble` reads them back: `disassemble_assemble`.
Both are described bit by bit.  `loaded` is the value a load makes of them; the extension codes of the
two providers compute it: `signExtend_loaded`, `extend_loaded`.
-/

namespace Oemu

theorem mask_bit {m : Nat} (hm : m < 64) (i : Nat) :
    (((1 : W64) <<< m) - 1).getLsbD i = decide (i < m) := by
  have hlt : 2 ^ m < 2 ^ 64 := Nat.pow_lt_pow_right (by decide) hm
  have h1 : ((1 : W64) <<< m).toNat = 2 ^ m := by
    rw [show (1 : W64) <<< m = BitVec.twoPow 64 m from (BitVec.twoPow_eq 64 m).symm,
      BitVec.toNat_twoPow, Nat.mod_eq_of_lt hlt]
  have h2 : (((1 : W64) <<< m) - 1).toNat = 2 ^ m - 1 := by
    rw [BitVec.toNat_sub_of_le (by rw [BitVec.le_def, h1]; exact Nat.one_le_two_pow), h1]
    rfl
  rw [← BitVec.testBit_toNat, h2, Nat.testBit_two_pow_sub_one]

/-- the low `n` bytes of a value -/
def lowBytes (value : W64) (n : Nat) : W64 := (value.setWidth (8 * n)).setWidth 64

theorem lowBytes_bit (value : W64) (n k : Nat) :
    (lowBytes value n).getLsbD k = (decide (k < 8 * n) && value.getLsbD k) := by
  unfold lowBytes
  rw [BitVec.getLsbD_setWidth, BitVec.getLsbD_setWidth]
  by_cases hk : k < 64
  · simp [hk]
  · rw [BitVec.getLsbD_of_ge value k (by omega)]
    simp

theorem disassemble_bit (src : Nat → BitVec 8) (n k : Nat) (hk : k < 64) :
    (disassemble src n).getLsbD k = (decide (k < 8 * n) && (src (k / 8)).getLsbD (k % 8)) := by
  induction n with
  | zero =>
    show (0#64).getLsbD k = _
    simp
  | succ n ih =>
    show (disassemble src n ||| ((src n).setWidth 64 <<< (8 * n))).getLsbD k = _
    rw [BitVec.getLsbD_or, ih, BitVec.getLsbD_shiftLeft, BitVec.getLsbD_setWidth]
    by_cases hlo : k < 8 * n
    · have hlo' : k < 8 * (n + 1) := by omega
      simp [hlo, hlo', hk]
    · by_cases hhi : k < 8 * (n + 1)
      · have hdiv : k / 8 = n := by omega
        have hmod : k % 8 = k - 8 * n := by omega
        have hw : k - 8 * n < 64 := by omega
        simp [hlo, hhi, hk, hdiv, hmod, hw]
      · have hb : (src n).getLsbD (k - 8 * n) = false := BitVec.getLsbD_of_ge _ _ (by omega)
        simp [hlo, hhi, hb]

theorem lowBytes_disassemble (src : Nat → BitVec 8) (n : Nat) :
    lowBytes (disassemble src n) n = disassemble src n := by
  apply BitVec.eq_of_getLsbD_eq
  intro k hk
  rw [lowBytes_bit, disassemble_bit _ _ _ hk]
  by_cases h : k < 8 * n <;> simp [h]

theorem disassemble_congr {src src' : Nat → BitVec 8} {n : Nat} (h : ∀ i < n, src i = src' i) :
    disassemble src n = disassemble src' n := by
  induction n with
  | zero => rfl
  | succ n ih =>
    show disassemble src n ||| _ = disassemble src' n ||| _
    rw [ih (fun i hi => h i (by omega)), h n (by omega)]

theorem assemble_inside (heap : Nat → BitVec 8) (dst n : Nat) (value : W64) {i : Nat}
    (hi : i < n) : assemble heap dst n value (dst + i) = (value >>> (8 * i)).setWidth 8 := by
  unfold assemble
  rw [if_pos (by omega), Nat.add_sub_cancel_left]

theorem assemble_outside (heap : Nat → BitVec 8) (dst n : Nat) (value : W64) {i : Nat}
    (hi : i < dst ∨ dst + n ≤ i) : assemble heap dst n value i = heap i := by
  unfold assemble
  rw [if_neg (by omega)]

theorem assemble_snoc (heap : Nat → BitVec 8) (dst n : Nat) (value : W64) :
    assemble (assemble heap dst n value) (dst + n) 1 ((value >>> (n * 8)) &&& 0xFF) =
      assemble heap dst (n + 1) value := by
  funext i
  unfold assemble
  by_cases hlo : dst + n ≤ i ∧ i < dst + n + 1
  · have hi : i = dst + n := by omega
    subst hi
    rw [if_pos hlo, if_pos (by omega), Nat.sub_self, Nat.mul_zero, BitVec.ushiftRight_zero,
      Nat.add_sub_cancel_left, Nat.mul_comm n 8]
    apply BitVec.eq_of_getLsbD_eq
    intro k hk
    rw [BitVec.getLsbD_setWidth, BitVec.getLsbD_and, BitVec.getLsbD_setWidth]
    have hmask : (0xFF : W64).getLsbD k = true := by
      have := mask_bit (show 8 < 64 by decide) k
      rw [show ((1 : W64) <<< 8) - 1 = 0xFF from rfl] at this
      rw [this]
      exact decide_eq_true hk
    rw [hmask, Bool.and_true]
  · rw [if_neg hlo]
    by_cases hin : dst ≤ i ∧ i < dst + n
    · rw [if_pos hin, if_pos (by omega)]
    · rw [if_neg hin, if_neg (by omega)]

theorem disassemble_assemble (heap : Nat → BitVec 8) (dst n : Nat) (value : W64) :
    disassemble (fun i => assemble heap dst n value (dst + i)) n = lowBytes value n := by
  apply BitVec.eq_of_getLsbD_eq
  intro k hk
  rw [disassemble_bit _ _ _ hk, lowBytes_bit]
  by_cases hn : k < 8 * n
  · rw [assemble_inside heap dst n value (by omega), BitVec.getLsbD_setWidth,
      BitVec.getLsbD_ushiftRight]
    have hsum : 8 * (k / 8) + k % 8 = k := by omega
    have hmod : k % 8 < 8 := by omega
    simp [hsum, hmod]
  · simp [hn]

/-! ## extension -/

/-- the value a load of `n` bytes makes of them -/
def loaded (value : W64) (n : Nat) (sx : Bool) : W64 :=
  if sx then (value.setWidth (8 * n)).signExtend 64 else lowBytes value n

/-- a load looks at the bytes it loads only -/
theorem loaded_lowBytes (value : W64) (n : Nat) (sx : Bool) :
    loaded (lowBytes value n) n sx = loaded value n sx := by
  have hlow : (lowBytes value n).setWidth (8 * n) = value.setWidth (8 * n) := by
    apply BitVec.eq_of_getLsbD_eq
    intro i hi
    rw [BitVec.getLsbD_setWidth, BitVec.getLsbD_setWidth, lowBytes_bit]
    simp [hi]
  unfold loaded
  rw [hlow]
  unfold lowBytes at hlow ⊢
  rw [hlow]

theorem loaded_bit (value : W64) {n i : Nat} (hn : 0 < n) (hi : i < 64) :
    (loaded value n true).getLsbD i =
      if i < 8 * n then value.getLsbD i else value.getLsbD (8 * n - 1) := by
  unfold loaded
  rw [if_pos rfl, BitVec.getLsbD_signExtend, BitVec.msb_eq_getLsbD_last, BitVec.getLsbD_setWidth,
    BitVec.getLsbD_setWidth]
  have hlast : 8 * n - 1 < 8 * n := by omega
  by_cases h : i < 8 * n <;> simp [hi, h, hlast]

theorem and_bit_ne {value : W64} {k : Nat} (hk : k < 64) :
    value &&& ((1 : W64) <<< k) ≠ 0 ↔ value.getLsbD k = true := by
  rw [show (1 : W64) <<< k = BitVec.twoPow 64 k from (BitVec.twoPow_eq 64 k).symm,
    BitVec.and_twoPow]
  cases hb : value.getLsbD k with
  | false => simp
  | true =>
    rw [if_pos rfl]
    constructor
    · intro _
      rfl
    · intro _ h0
      have hbit := congrArg (fun v : W64 => v.getLsbD k) h0
      simp [hk] at hbit

theorem shifted_ones_bit {n : Nat} (hn : n ≤ 8) (i : Nat) :
    (BitVec.allOnes 64 >>> (64 - 8 * n)).getLsbD i = decide (i < 8 * n) := by
  rw [BitVec.getLsbD_ushiftRight, BitVec.getLsbD_allOnes]
  exact decide_eq_decide.mpr (by omega)

/-- the flat memory extends as a load does -/
theorem signExtend_loaded (value : W64) {n : Nat} (h0 : 0 < n) (h8 : n ≤ 8) :
    Memory.signExtend (lowBytes value n) n = loaded value n true := by
  apply BitVec.eq_of_getLsbD_eq
  intro i hi
  rw [loaded_bit value h0 hi]
  unfold Memory.signExtend
  have hsign : (lowBytes value n).getLsbD (8 * n - 1) = value.getLsbD (8 * n - 1) := by
    rw [lowBytes_bit]
    simp [h0]
  by_cases hs : value.getLsbD (8 * n - 1) = true
  · rw [if_pos ((and_bit_ne (by omega)).mpr (hsign.trans hs)), BitVec.getLsbD_or, lowBytes_bit,
      BitVec.getLsbD_not, shifted_ones_bit h8, hs]
    by_cases h : i < 8 * n <;> simp [h, hi]
  · rw [if_neg (by rw [and_bit_ne (by omega), hsign]; exact hs), lowBytes_bit,
      Bool.eq_false_iff.mpr hs]
    by_cases h : i < 8 * n <;> simp [h]

/-- the bus normalises as a load does -/
theorem extend_loaded (value : W64) {n : Nat} (h0 : 0 < n) (h8 : n ≤ 8) (sx : Bool) :
    Aspace.extend value n sx = loaded value n sx := by
  unfold Aspace.extend
  by_cases hn : n < 8
  · rw [if_pos hn]
    have hlow : value &&& (((1 : W64) <<< (n * 8)) - 1) = lowBytes value n := by
      apply BitVec.eq_of_getLsbD_eq
      intro i hi
      rw [BitVec.getLsbD_and, mask_bit (by omega), lowBytes_bit, Bool.and_comm, Nat.mul_comm]
    dsimp only
    rw [hlow]
    cases sx with
    | false => simp [loaded]
    | true =>
      apply BitVec.eq_of_getLsbD_eq
      intro i hi
      rw [loaded_bit value h0 hi]
      have hsign : (lowBytes value n).getLsbD (n * 8 - 1) = value.getLsbD (8 * n - 1) := by
        rw [lowBytes_bit, Nat.mul_comm n 8]
        simp [h0]
      by_cases hs : value.getLsbD (8 * n - 1) = true
      · rw [if_pos ⟨rfl, (and_bit_ne (by omega)).mpr (hsign.trans hs)⟩, BitVec.getLsbD_or,
          lowBytes_bit, BitVec.getLsbD_not, mask_bit (by omega), Nat.mul_comm n 8, hs]
        by_cases h : i < 8 * n <;> simp [h, hi]
      · rw [if_neg (by rw [and_bit_ne (by omega), hsign]; exact fun h => hs h.2), lowBytes_bit,
          Bool.eq_false_iff.mpr hs]
        by_cases h : i < 8 * n <;> simp [h]
  · have h8' : n = 8 := by omega
    subst h8'
    rw [if_neg hn]
    apply BitVec.eq_of_getLsbD_eq
    intro i hi
    cases sx with
    | false =>
      show _ = (lowBytes value 8).getLsbD i
      rw [lowBytes_bit]
      simp [hi]
    | true =>
      rw [loaded_bit value h0 hi, if_pos hi]

end Oemu
