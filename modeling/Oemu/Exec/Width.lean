import Oemu.Exec.Alu
import Oemu.Memory.Bytes

/-!
# Operand widths

A register access truncates to the operand width.  What the masks of the executor are, bit by bit
and as numbers.

* `truncate_bit`, `toNat_truncate`   the truncation;
* `truncate_read`, `write_truncate`  a read is truncated already, and a write truncates.
-/

namespace Oemu

/-! ## masks -/

theorem RegWidth.bits_le (w : RegWidth) : w.bits ≤ 64 := by
  cases w <;> decide

theorem widthMask_bit (w : RegWidth) (i : Nat) : (widthMask w).getLsbD i = decide (i < w.bits) := by
  unfold widthMask
  cases w with
  | w32 => exact mask_bit (by decide) i
  | w64 =>
    show (BitVec.allOnes 64).getLsbD i = decide (i < 64)
    exact BitVec.getLsbD_allOnes

theorem truncate_bit (v : W64) (w : RegWidth) (i : Nat) :
    (truncate v w).getLsbD i = (decide (i < w.bits) && v.getLsbD i) := by
  cases w with
  | w32 =>
    show (v &&& 0xFFFFFFFF).getLsbD i = _
    rw [BitVec.getLsbD_and, show (0xFFFFFFFF : W64) = widthMask .w32 by decide, widthMask_bit,
      Bool.and_comm]
  | w64 =>
    show v.getLsbD i = (decide (i < 64) && v.getLsbD i)
    by_cases h : i < 64
    · simp [h]
    · rw [BitVec.getLsbD_of_ge v i (Nat.le_of_not_lt h), Bool.and_false]

theorem toNat_truncate (v : W64) (w : RegWidth) : (truncate v w).toNat = v.toNat % 2 ^ w.bits := by
  cases w with
  | w32 =>
    show (v &&& 0xFFFFFFFF).toNat = v.toNat % 2 ^ 32
    rw [BitVec.toNat_and]
    exact Nat.and_two_pow_sub_one_eq_mod v.toNat 32
  | w64 => exact (Nat.mod_eq_of_lt v.isLt).symm

theorem shift_and_one (v : W64) (k : Nat) : (v >>> k) &&& 1 ≠ 0 ↔ v.getLsbD k = true := by
  rw [show (1 : W64) = BitVec.twoPow 64 0 by decide, BitVec.and_twoPow,
    BitVec.getLsbD_ushiftRight, Nat.add_zero]
  cases v.getLsbD k with
  | true => exact ⟨fun _ => rfl, fun _ => by decide⟩
  | false => exact ⟨fun h => absurd rfl h, fun h => absurd h Bool.false_ne_true⟩

/-! ## accesses -/

theorem truncate_truncate (v : W64) (w : RegWidth) : truncate (truncate v w) w = truncate v w := by
  cases w with
  | w32 =>
    show v &&& 0xFFFFFFFF &&& 0xFFFFFFFF = v &&& 0xFFFFFFFF
    rw [BitVec.and_assoc, BitVec.and_self]
  | w64 => rfl

theorem truncate_read (r : Regs) (n : BitVec 5) (w : RegWidth) :
    truncate (r.read n w) w = r.read n w := by
  unfold Regs.read
  cases Regs.index n with
  | none =>
    show truncate 0 w = 0
    cases w <;> rfl
  | some i => exact truncate_truncate (r.x i) w

theorem write_truncate (r : Regs) (n : BitVec 5) (w : RegWidth) (v : W64) :
    r.write n w (truncate v w) = r.write n w v := by
  unfold Regs.write
  cases Regs.index n with
  | none => rfl
  | some i =>
    dsimp only
    rw [truncate_truncate]

theorem index_inj {n m : BitVec 5} {i : Fin 31} (hn : Regs.index n = some i)
    (hm : Regs.index m = some i) : n = m := by
  unfold Regs.index at hn hm
  by_cases h : n.toNat < 31
  · by_cases h' : m.toNat < 31
    · rw [dif_pos h] at hn
      rw [dif_pos h'] at hm
      apply BitVec.eq_of_toNat_eq
      have e := (Option.some.inj hn).trans (Option.some.inj hm).symm
      exact (Fin.mk.injEq _ _ _ _ ▸ e : n.toNat = m.toNat)
    · rw [dif_neg h'] at hm
      cases hm
  · rw [dif_neg h] at hn
    cases hn

theorem index_isSome {n : BitVec 5} (hn : n ≠ 31) : ∃ i, Regs.index n = some i := by
  have hlt : n.toNat < 31 := by
    have h := n.isLt
    by_contra hge
    apply hn
    apply BitVec.eq_of_toNat_eq
    show n.toNat = 31
    omega
  exact ⟨_, dif_pos hlt⟩

theorem read_write_ne (r : Regs) {n m : BitVec 5} (h : n ≠ m) (w w' : RegWidth) (v : W64) :
    (r.write m w v).read n w' = r.read n w' := by
  unfold Regs.write
  cases hm : Regs.index m with
  | none => rfl
  | some i =>
    unfold Regs.read
    cases hn : Regs.index n with
    | none => rfl
    | some j =>
      have hij : j ≠ i := fun e => h (index_inj hn (e ▸ hm))
      show truncate (Function.update r.x i (truncate v w) j) w' = _
      rw [Function.update_of_ne hij]

theorem read_write_self (r : Regs) {n : BitVec 5} (h : n ≠ 31) (w : RegWidth) (v : W64) :
    (r.write n w v).read n w = truncate v w := by
  obtain ⟨i, hi⟩ := index_isSome h
  unfold Regs.write Regs.read
  rw [hi]
  show truncate (Function.update r.x i (truncate v w) i) w = _
  rw [Function.update_self, truncate_truncate]

end Oemu
