import Oemu.Exec.Compare

/-!
# Flag-setting logical operations

`N` and `Z` are of the result and `V` is clear.  `C` comes from the shifter: the bit last shifted out
when the amount is not zero, the old flag when it is.  For an immediate it is clear, since a bitmask
immediate is never all ones.

* `decodeBitMasks_ne_ones`  a bitmask immediate leaves a bit clear;
* `shiftOperand_bit`        the shifted operand, bit by bit;
* `logical_flags`           the flags an `ANDS` or a `BICS` leaves.
-/

namespace Oemu

/-! ## bitmask immediates -/

theorem foldl_or_bit (f : Nat → W64) (l : List Nat) (z : W64) (i : Nat) :
    (l.foldl (fun m k => m ||| f k) z).getLsbD i =
      (z.getLsbD i || l.any fun k => (f k).getLsbD i) := by
  induction l generalizing z with
  | nil => exact (Bool.or_false _).symm
  | cons k l ih =>
    show (l.foldl _ (z ||| f k)).getLsbD i = (z.getLsbD i || ((f k).getLsbD i || l.any _))
    rw [ih, BitVec.getLsbD_or, Bool.or_assoc]

theorem decodeRor_bit {value : W64} {amount esize : Nat} (he : 0 < esize) (h64 : esize ≤ 64) {i : Nat}
    (hi : i < esize) :
    (decodeRor value amount esize).getLsbD i = value.getLsbD ((i + amount % esize) % esize) := by
  have hmask : ∀ j, (if esize = 64 then BitVec.allOnes 64 else ((1 : W64) <<< esize) - 1).getLsbD j =
      decide (j < esize) := by
    intro j
    by_cases h : esize = 64
    · rw [if_pos h, BitVec.getLsbD_allOnes, h]
    · rw [if_neg h]
      exact mask_bit (by omega) j
  have hs : amount % esize < esize := Nat.mod_lt _ he
  unfold decodeRor
  dsimp only
  generalize amount % esize = s at hs ⊢
  generalize (if esize = 64 then BitVec.allOnes 64 else ((1 : W64) <<< esize) - 1) = mask at hmask ⊢
  by_cases h0 : s = 0
  · rw [if_pos h0, BitVec.getLsbD_and, hmask, decide_eq_true hi, Bool.and_true, h0, Nat.add_zero,
      Nat.mod_eq_of_lt hi]
  · rw [if_neg h0, BitVec.getLsbD_and, hmask, decide_eq_true hi, Bool.and_true, BitVec.getLsbD_or,
      BitVec.getLsbD_ushiftRight, BitVec.getLsbD_shiftLeft, BitVec.getLsbD_and, BitVec.getLsbD_and,
      hmask, hmask]
    by_cases hlt : i + s < esize
    · rw [Nat.mod_eq_of_lt hlt, Nat.add_comm s i]
      simp [hlt, show i < esize - s by omega]
    · have e : (i + s) % esize = i - (esize - s) := by
        rw [Nat.mod_eq_sub_mod (by omega), Nat.mod_eq_of_lt (by omega)]
        omega
      rw [e]
      simp [show ¬ s + i < esize by omega, show ¬ i < esize - s by omega, show i < 64 by omega,
        show i - (esize - s) < esize by omega]

/-- the bit of an element that its run of ones does not reach -/
theorem element_clear {s r esize : Nat} (he : 0 < esize) (h64 : esize ≤ 64) (hs : s + 1 < esize) :
    (decodeRor (if s + 1 = 64 then BitVec.allOnes 64 else ((1 : W64) <<< (s + 1)) - 1) r
      esize).getLsbD (esize - 1 - r % esize) = false := by
  have hr : r % esize < esize := Nat.mod_lt _ he
  have e : (esize - 1 - r % esize + r % esize) % esize = esize - 1 := by
    rw [Nat.sub_add_cancel (by omega), Nat.mod_eq_of_lt (by omega)]
  rw [decodeRor_bit he h64 (by omega), e, if_neg (by omega), mask_bit (by omega)]
  exact decide_eq_false (by omega)

/-- copies of an element leave its clear bits clear in the lowest copy -/
theorem copies_clear {element : W64} {esize j : Nat} (hj : j < esize)
    (hc : element.getLsbD j = false) (copies : Nat) :
    ((List.range copies).foldl (fun m k => m ||| (element <<< (k * esize))) (0 : W64)).getLsbD j =
      false := by
  rw [foldl_or_bit (fun k => element <<< (k * esize))]
  have h0 : (0 : W64).getLsbD j = false := BitVec.getLsbD_zero
  rw [h0, Bool.false_or, List.any_eq_false]
  intro k _
  rw [Bool.not_eq_true, BitVec.getLsbD_shiftLeft]
  cases k with
  | zero => rw [Nat.zero_mul, Nat.sub_zero, hc, Bool.and_false]
  | succ k =>
    have hle : j < (k + 1) * esize := Nat.lt_of_lt_of_le hj (Nat.le_mul_of_pos_left _ k.succ_pos)
    rw [decide_eq_true hle, Bool.not_true, Bool.and_false, Bool.false_and]

/-- **a bitmask immediate is never all ones** -/
theorem decodeBitMasks_ne_ones {n : Bool} {imms immr : Nat} {w : RegWidth} {m : W64}
    (h : decodeBitMasks n imms immr w = some m) : m ≠ widthMask w := by
  unfold decodeBitMasks at h
  dsimp only at h
  split at h
  · cases h
  · rename_i len _
    split at h
    · cases h
    · split at h
      · cases h
      · rename_i hlen hle
        split at h
        · cases h
        · rename_i hs
          have hb := w.bits_le
          have hpos : 0 < 2 ^ len := Nat.two_pow_pos len
          have hr : immr &&& (2 ^ len - 1) < 2 ^ len := by
            rw [Nat.and_two_pow_sub_one_eq_mod]
            exact Nat.mod_lt _ hpos
          have hsl : imms &&& (2 ^ len - 1) < 2 ^ len := by
            rw [Nat.and_two_pow_sub_one_eq_mod]
            exact Nat.mod_lt _ hpos
          have hclear := element_clear (r := immr &&& (2 ^ len - 1)) hpos (by omega)
            (by omega : (imms &&& (2 ^ len - 1)) + 1 < 2 ^ len)
          have hj : 2 ^ len - 1 - (immr &&& (2 ^ len - 1)) % 2 ^ len < 2 ^ len := by omega
          have hmask := copies_clear hj hclear (w.bits / 2 ^ len)
          have hbit : m.getLsbD (2 ^ len - 1 - (immr &&& (2 ^ len - 1)) % 2 ^ len) = false := by
            cases h
            by_cases h32 : w.bits = 32
            · rw [if_pos h32, BitVec.getLsbD_and, hmask, Bool.false_and]
            · rw [if_neg h32]
              exact hmask
          intro he
          rw [he, widthMask_bit, decide_eq_true (by omega)] at hbit
          exact Bool.noConfusion hbit

/-! ## the shifter -/

/-- bit `i` of a shifted operand of a width -/
def shiftedBit (w : RegWidth) (type : ShiftType) (amount : Nat) (v : W64) (i : Nat) : Bool :=
  match type with
  | .lsl => decide (amount ≤ i) && v.getLsbD (i - amount)
  | .lsr => decide (i + amount < w.bits) && v.getLsbD (i + amount)
  | .asr => v.getLsbD (if i + amount < w.bits then i + amount else w.bits - 1)
  | .ror => v.getLsbD ((i + amount) % w.bits)

/-- the bit an operand is left with in the carry -/
def shiftedOut (w : RegWidth) (type : ShiftType) (amount : Nat) (v : W64) : Bool :=
  if type = .lsl then v.getLsbD (w.bits - amount) else v.getLsbD (amount - 1)

/-- **the shifter**, for an amount that is not zero: the shifted bits, and the bit last shifted
out -/
theorem shiftOperand_bit {w : RegWidth} {type : ShiftType} {amount : Nat} {v : W64}
    (h0 : amount ≠ 0) (ha : amount < w.bits) (hv : truncate v w = v) {i : Nat} (hi : i < w.bits) :
    (shiftOperand v type amount w).value.getLsbD i = shiftedBit w type amount v i := by
  have hb := w.bits_le
  have hmask : v &&& widthMask w = v := by
    apply BitVec.eq_of_getLsbD_eq
    intro j _
    rw [BitVec.getLsbD_and, widthMask_bit, Bool.and_comm, ← truncate_bit, hv]
  have hhigh : ∀ j, w.bits ≤ j → v.getLsbD j = false := by
    intro j hj
    rw [← hv, truncate_bit, decide_eq_false (Nat.not_lt.mpr hj), Bool.false_and]
  unfold shiftOperand
  dsimp only
  rw [if_neg h0, hmask]
  cases type with
  | lsl =>
    show ((v <<< amount) &&& widthMask w).getLsbD i = _
    rw [BitVec.getLsbD_and, widthMask_bit, BitVec.getLsbD_shiftLeft, decide_eq_true hi,
      Bool.and_true, decide_eq_true (by omega : i < 64), Bool.true_and]
    unfold shiftedBit
    rw [← decide_not, decide_eq_decide.mpr Nat.not_lt]
  | lsr =>
    show (v >>> amount).getLsbD i = _
    rw [BitVec.getLsbD_ushiftRight, Nat.add_comm]
    unfold shiftedBit
    by_cases h : i + amount < w.bits
    · rw [decide_eq_true h, Bool.true_and]
    · rw [hhigh _ (Nat.not_lt.mp h), decide_eq_false h, Bool.false_and]
  | asr =>
    have hsign : (v &&& ((1 : W64) <<< (w.bits - 1)) != 0) = v.getLsbD (w.bits - 1) := by
      rw [Bool.eq_iff_iff, bne_iff_ne]
      exact and_bit_ne (by omega)
    show ((((v &&& widthMask w) >>> amount) ||| if (v &&& ((1 : W64) <<< (w.bits - 1)) != 0) = true
      then (widthMask w <<< (w.bits - amount)) &&& widthMask w else 0) &&& widthMask w).getLsbD i = _
    rw [hmask, hsign, BitVec.getLsbD_and, widthMask_bit, decide_eq_true hi, Bool.and_true,
      BitVec.getLsbD_or, BitVec.getLsbD_ushiftRight, Nat.add_comm]
    unfold shiftedBit
    by_cases h : i + amount < w.bits
    · have hfill : ((widthMask w <<< (w.bits - amount)) &&& widthMask w).getLsbD i = false := by
        rw [BitVec.getLsbD_and, BitVec.getLsbD_shiftLeft,
          decide_eq_true (by omega : i < w.bits - amount), Bool.not_true, Bool.and_false,
          Bool.false_and, Bool.false_and]
      have h0 : (0 : W64).getLsbD i = false := BitVec.getLsbD_zero
      rw [if_pos h]
      by_cases ht : v.getLsbD (w.bits - 1) = true
      · rw [if_pos ht, hfill, Bool.or_false]
      · rw [if_neg ht, h0, Bool.or_false]
    · have hfill : ((widthMask w <<< (w.bits - amount)) &&& widthMask w).getLsbD i = true := by
        rw [BitVec.getLsbD_and, BitVec.getLsbD_shiftLeft, widthMask_bit, widthMask_bit,
          decide_eq_true (by omega : i < 64), decide_eq_false (by omega : ¬ i < w.bits - amount),
          decide_eq_true (by omega : i - (w.bits - amount) < w.bits), decide_eq_true hi]
        rfl
      have h0 : (0 : W64).getLsbD i = false := BitVec.getLsbD_zero
      rw [if_neg h, hhigh _ (Nat.not_lt.mp h), Bool.false_or]
      by_cases ht : v.getLsbD (w.bits - 1) = true
      · rw [if_pos ht, hfill, ht]
      · rw [if_neg ht, h0]
        exact (Bool.not_eq_true _ ▸ ht).symm
  | ror =>
    show (rotr v amount w).getLsbD i = _
    unfold rotr shiftedBit
    rw [BitVec.getLsbD_and, widthMask_bit, decide_eq_true hi, Bool.and_true, BitVec.getLsbD_or,
      BitVec.getLsbD_ushiftRight, BitVec.getLsbD_shiftLeft, Nat.add_comm amount i]
    dsimp only
    by_cases h : i + amount < w.bits
    · rw [Nat.mod_eq_of_lt h, decide_eq_true (by omega : i < w.bits - amount), Bool.not_true,
        Bool.and_false, Bool.false_and, Bool.or_false]
    · have e : (i + amount) % w.bits = i - (w.bits - amount) := by
        rw [Nat.mod_eq_sub_mod (by omega), Nat.mod_eq_of_lt (by omega)]
        omega
      rw [e, hhigh _ (Nat.not_lt.mp h), Bool.false_or, decide_eq_true (by omega : i < 64),
        decide_eq_false (by omega : ¬ i < w.bits - amount), Bool.not_false, Bool.and_true,
        Bool.true_and]

theorem shiftOperand_carry {w : RegWidth} (type : ShiftType) {amount : Nat} {v : W64}
    (h0 : amount ≠ 0) (hv : truncate v w = v) :
    (shiftOperand v type amount w).carryValid = true ∧
      (shiftOperand v type amount w).carry = shiftedOut w type amount v := by
  have hmask : v &&& widthMask w = v := by
    apply BitVec.eq_of_getLsbD_eq
    intro j _
    rw [BitVec.getLsbD_and, widthMask_bit, Bool.and_comm, ← truncate_bit, hv]
  unfold shiftOperand shiftedOut
  dsimp only
  rw [if_neg h0, hmask]
  refine ⟨rfl, ?_⟩
  dsimp only
  rw [Bool.eq_iff_iff, bne_iff_ne, shift_and_one]
  by_cases h : type = .lsl
  · rw [if_pos h, if_pos h]
  · rw [if_neg h, if_neg h]

/-! ## the flags -/

variable {word : W32} {pc : W64} {insn : Insn}

/-- the shift bits 23:22 name -/
def shiftOf (word : W32) : ShiftType :=
  match bit word 23, bit word 22 with
  | 0, 0 => .lsl
  | 0, _ => .lsr
  | _, 0 => .asr
  | _, _ => .ror

theorem toShiftType_bits (word : W32) : toShiftType (bits word 22 2) = shiftOf word := by
  have h : bits word 22 2 = 2 * bit word 23 + bit word 22 := by
    unfold bit bits
    simp only [Nat.shiftRight_eq_div_pow]
    omega
  unfold shiftOf
  rw [h]
  rcases bit_cases word 23 with h1 | h1 <;> rcases bit_cases word 22 with h0 | h0 <;>
    rw [h1, h0] <;> rfl

/-- bit `i` of the second operand of a logical operation: of the immediate, or of the shifted
register -/
def logicalOperandBit (word : W32) (insn : Insn) (r : Regs) (i : Nat) : Bool :=
  if LogicalImm word then insn.uimm.getLsbD i
  else shiftedBit (widthFromSf word) (shiftOf word) (bits word 10 6)
    (r.read (fieldRm word) (widthFromSf word)) i

/-- a value is the result of an `ANDS` or a `BICS`: the bits of `Rn` that the second operand, or
its complement, has -/
def IsLogical (word : W32) (insn : Insn) (r : Regs) (v : W64) : Prop :=
  ∀ i, v.getLsbD i = (decide (i < (widthFromSf word).bits) &&
    ((r.read (fieldRn word) (widthFromSf word)).getLsbD i &&
      (logicalOperandBit word insn r i ^^ decide (insn.op = .bics))))

theorem shiftedBit_zero (w : RegWidth) (type : ShiftType) (v : W64) {i : Nat} (hi : i < w.bits) :
    shiftedBit w type 0 v i = v.getLsbD i := by
  unfold shiftedBit
  cases type with
  | lsl => simp
  | lsr => simp [hi]
  | asr => simp [hi]
  | ror => simp [Nat.mod_eq_of_lt hi]

theorem nzFlags_eq (v : W64) (w : RegWidth) (hv : truncate v w = v) :
    nzFlags v w = packFlags (v.getLsbD (w.bits - 1)) (decide (v = 0)) false false := by
  have hb := w.bits_le
  have hpos := w.bits_pos
  unfold nzFlags packFlags
  dsimp only
  rw [hv]
  have hn : (v &&& ((1 : W64) <<< (w.bits - 1)) ≠ 0) ↔ v.getLsbD (w.bits - 1) = true :=
    and_bit_ne (by omega)
  rw [if_congr hn rfl rfl]
  by_cases hz : v = 0
  · rw [if_pos hz, decide_eq_true hz]
    cases v.getLsbD (w.bits - 1) <;> rfl
  · rw [if_neg hz, decide_eq_false hz]
    cases v.getLsbD (w.bits - 1) <;> rfl

theorem nzFlags_carry (v : W64) (w : RegWidth) (hv : truncate v w = v) (c : Bool) :
    nzFlags v w ||| (if c then nzcvC else 0) =
      packFlags (v.getLsbD (w.bits - 1)) (decide (v = 0)) c false := by
  rw [nzFlags_eq v w hv]
  generalize v.getLsbD (w.bits - 1) = n
  generalize decide (v = 0) = z
  revert n z c
  decide

/-- the old carry flag, masked out -/
theorem and_nzcvC (f : W32) : f &&& nzcvC = if (f &&& nzcvC != 0) = true then nzcvC else 0 := by
  have e : nzcvC = BitVec.twoPow 32 29 := by decide
  rw [e, BitVec.and_twoPow]
  cases f.getLsbD 29 <;> rfl

/-- the carry a logical operation leaves: none for an immediate, the old one for a register that is
not shifted, and the bit last shifted out -/
def logicalCarry (word : W32) (r : Regs) : Bool :=
  if LogicalImm word then false
  else if bits word 10 6 = 0 then r.nzcv.bits &&& nzcvC != 0
  else shiftedOut (widthFromSf word) (shiftOf word) (bits word 10 6)
    (r.read (fieldRm word) (widthFromSf word))

theorem and_operand_bit {w : RegWidth} {n m : W64} (hn : truncate n w = n) {negated : Prop}
    [Decidable negated] {b : Nat → Bool} (hm : ∀ i, i < w.bits → m.getLsbD i = b i) (i : Nat) :
    (n &&& if negated then ~~~m else m).getLsbD i =
      (decide (i < w.bits) && (n.getLsbD i && (b i ^^ decide negated))) := by
  have hb := w.bits_le
  rw [BitVec.getLsbD_and]
  by_cases hi : i < w.bits
  · rw [decide_eq_true hi, Bool.true_and]
    by_cases hneg : negated
    · rw [if_pos hneg, decide_eq_true hneg, BitVec.getLsbD_not, hm i hi,
        decide_eq_true (by omega : i < 64), Bool.true_and, Bool.xor_true]
    · rw [if_neg hneg, decide_eq_false hneg, hm i hi, Bool.xor_false]
  · rw [decide_eq_false hi, Bool.false_and, ← hn, truncate_bit, decide_eq_false hi, Bool.false_and,
      Bool.false_and]

theorem decodeLogicalImm_fields (h : decodeLogicalImm word = .ok insn) :
    insn.width = widthFromSf word ∧ insn.rd = fieldRd word ∧ insn.rn = fieldRn word ∧
      insn.operandKind = .imm ∧ insn.uimm ≠ widthMask (widthFromSf word) := by
  unfold decodeLogicalImm at h
  dsimp only at h
  split at h
  · cases h
  · rename_i m hm
    cases h
    exact ⟨rfl, rfl, rfl, rfl, decodeBitMasks_ne_ones hm⟩

theorem decodeLogicalShifted_fields (h : decodeLogicalShifted word = .ok insn) :
    insn.width = widthFromSf word ∧ insn.rd = fieldRd word ∧ insn.rn = fieldRn word ∧
      insn.rm = fieldRm word ∧ insn.shiftType = shiftOf word ∧
      insn.shiftAmount = bits word 10 6 ∧
      insn.operandKind = (if bits word 10 6 ≠ 0 then .regShifted else .reg) ∧
      bits word 10 6 < (widthFromSf word).bits := by
  have hlt := bits_lt word 10 6
  unfold decodeLogicalShifted at h
  dsimp only at h
  split at h
  · cases h
  · rename_i hw
    cases h
    refine ⟨rfl, rfl, rfl, rfl, toShiftType_bits word, rfl, rfl, ?_⟩
    cases hsf : widthFromSf word with
    | w32 =>
      rw [not_and, not_le] at hw
      exact hw hsf
    | w64 => exact hlt

theorem doLogical_and (hop : insn.op = .ands ∨ insn.op = .bics) (r : Regs) :
    doLogical r insn =
      (r.write insn.rd insn.width
        (r.read insn.rn insn.width &&&
          if insn.op = .bics then ~~~(operand2 r insn).2.1 else (operand2 r insn).2.1)).setNzcv
        (logicalFlags r.nzcv.bits
          (r.read insn.rn insn.width &&&
            if insn.op = .bics then ~~~(operand2 r insn).2.1 else (operand2 r insn).2.1) insn
          (if insn.operandKind = .regShifted then some (operand2 r insn).2.2 else none)) := by
  have hneg : (insn.op = .bic ∨ insn.op = .bics ∨ insn.op = .orn ∨ insn.op = .eon) ↔
      insn.op = .bics := by
    rcases hop with ho | ho <;> rw [ho] <;> decide
  have hand : insn.op = .and ∨ insn.op = .ands ∨ insn.op = .bic ∨ insn.op = .bics := by
    rcases hop with ho | ho
    · exact .inr (.inl ho)
    · exact .inr (.inr (.inr ho))
  unfold doLogical
  dsimp only
  rw [if_pos hop, if_pos hand, if_congr hneg rfl rfl]
  show Regs.setNzcv (r.write _ _ _) (logicalFlags (r.write _ _ _).nzcv.bits _ _ _) = _
  rw [Regs.write_nzcv]
  rfl

theorem truncate_and_left {n : W64} {w : RegWidth} (hn : truncate n w = n) (m : W64) :
    truncate (n &&& m) w = n &&& m := by
  apply BitVec.eq_of_getLsbD_eq
  intro i _
  rw [truncate_bit, BitVec.getLsbD_and, ← Bool.and_assoc, ← truncate_bit, hn]

/-- the two parts on which the forms differ: the bits of the operand, and the carry in the flags -/
theorem doLogical_of_operand (hop : insn.op = .ands ∨ insn.op = .bics)
    (hw : insn.width = widthFromSf word) (hrd : insn.rd = fieldRd word)
    (hrn : insn.rn = fieldRn word) (r : Regs)
    (hbits : ∀ i, i < (widthFromSf word).bits →
      (operand2 r insn).2.1.getLsbD i = logicalOperandBit word insn r i)
    (hflags : ∀ v, truncate v (widthFromSf word) = v →
      logicalFlags r.nzcv.bits v insn
          (if insn.operandKind = .regShifted then some (operand2 r insn).2.2 else none) =
        packFlags (v.getLsbD ((widthFromSf word).bits - 1)) (decide (v = 0)) (logicalCarry word r)
          false) :
    ∃ v, doLogical r insn = (r.write (fieldRd word) (widthFromSf word) v).setNzcv
        (packFlags (v.getLsbD ((widthFromSf word).bits - 1)) (decide (v = 0)) (logicalCarry word r)
          false) ∧ IsLogical word insn r v := by
  have hread := truncate_read r (fieldRn word) (widthFromSf word)
  refine ⟨_, ?_, and_operand_bit hread hbits⟩
  rw [doLogical_and hop, hw, hrd, hrn, hflags _ (truncate_and_left hread _)]

/-- what an `ANDS` or a `BICS` computes, and the flags it leaves -/
theorem doLogical_flags (h : decode word pc = .ok insn) (hop : insn.op = .ands ∨ insn.op = .bics)
    (r : Regs) :
    ∃ v, doLogical r insn = (r.write (fieldRd word) (widthFromSf word) v).setNzcv
        (packFlags (v.getLsbD ((widthFromSf word).bits - 1)) (decide (v = 0)) (logicalCarry word r)
          false) ∧ IsLogical word insn r v := by
  have hdata : insn.op.family = .data := by
    rcases hop with ho | ho <;> rw [ho] <;> rfl
  have hgroup : insn.op.group = .logical := by
    rcases hop with ho | ho <;> rw [ho] <;> rfl
  have hsrc := decode_source h hdata
  rw [hgroup] at hsrc
  cases hsrc with
  | logicalImm hl hd =>
    obtain ⟨hw, hrd, hrn, hk, hne⟩ := decodeLogicalImm_fields hd
    have hop2 : (operand2 r insn).2.1 = insn.uimm := by
      unfold operand2
      rw [hk]
    refine doLogical_of_operand hop hw hrd hrn r (fun i _ => ?_) fun v hv => ?_
    · rw [hop2]
      exact (if_pos hl).symm
    · unfold logicalFlags logicalCarry
      dsimp only
      rw [hk, if_pos rfl, if_pos hl, hw, if_neg hne]
      exact nzFlags_carry _ _ hv false
  | logicalShifted hl hd =>
    obtain ⟨hw, hrd, hrn, hrm, hty, ham, hk, hlt⟩ := decodeLogicalShifted_fields hd
    have hrdm := truncate_read r (fieldRm word) (widthFromSf word)
    by_cases h0 : bits word 10 6 = 0
    · rw [if_neg (not_not.mpr h0)] at hk
      have hop2 : (operand2 r insn).2.1 = r.read (fieldRm word) (widthFromSf word) := by
        unfold operand2
        rw [hk, hrm, hw]
        rfl
      refine doLogical_of_operand hop hw hrd hrn r (fun i hi => ?_) fun v hv => ?_
      · rw [hop2]
        unfold logicalOperandBit
        rw [if_neg hl, h0, shiftedBit_zero _ _ _ hi]
      · rw [hk, if_neg (show ¬ OperandKind.reg = .regShifted by decide)]
        unfold logicalFlags logicalCarry
        dsimp only
        rw [hk, if_neg (by decide), if_neg hl, if_pos h0, hw]
        exact (congrArg _ (and_nzcvC _)).trans (nzFlags_carry _ _ hv _)
    · rw [if_pos h0] at hk
      have hop2 : (operand2 r insn).2 =
          ((shiftOperand (r.read (fieldRm word) (widthFromSf word)) (shiftOf word)
            (bits word 10 6) (widthFromSf word)).value,
            shiftOperand (r.read (fieldRm word) (widthFromSf word)) (shiftOf word)
              (bits word 10 6) (widthFromSf word)) := by
        unfold operand2
        rw [hk, hrm, hw, hty, ham]
        rfl
      obtain ⟨hvalid, hcarry⟩ := shiftOperand_carry (shiftOf word) h0 hrdm
      refine doLogical_of_operand hop hw hrd hrn r (fun i hi => ?_) fun v hv => ?_
      · rw [hop2]
        unfold logicalOperandBit
        rw [if_neg hl]
        exact shiftOperand_bit h0 hlt hrdm hi
      · rw [hk, if_pos rfl, hop2]
        unfold logicalFlags logicalCarry
        dsimp only
        rw [hvalid, if_pos rfl, if_neg hl, if_neg h0, hw, hcarry]
        exact nzFlags_carry _ _ hv _

/-- **flag-setting logical operations**: `N` and `Z` of the result, a clear `V`, and the carry of
the shifter -/
theorem logical_flags {σ ε : Type} (h : decode word pc = .ok insn)
    (hop : insn.op = .ands ∨ insn.op = .bics) (mem : Memops σ) (env : Option (EnvOps σ ε))
    (cpu : Cpu) (s : σ × ε) :
    ∃ v f, dispatchBus mem env cpu insn s = some ((.ok, { cpu with regs :=
        ((cpu.regs.write (fieldRd word) (widthFromSf word) v).setNzcv f).advancePc }), s) ∧
      IsLogical word insn cpu.regs v ∧
      FlagsAre f (v.getLsbD ((widthFromSf word).bits - 1) = true) (v = 0)
        (logicalCarry word cpu.regs = true) False := by
  have hdata : insn.op.family = .data := by
    rcases hop with ho | ho <;> rw [ho] <;> rfl
  have hrun : dataProcessing cpu.regs insn = some (.ok, doLogical cpu.regs insn) := by
    unfold dataProcessing
    rcases hop with ho | ho <;> rw [ho]
  obtain ⟨v, hf, hv⟩ := doLogical_flags h hop cpu.regs
  rw [hf] at hrun
  refine ⟨v, _, dispatchBus_data mem env cpu s hdata hrun, hv, ?_⟩
  exact (packFlags_are _ _ _ _).congr Iff.rfl decide_eq_true_iff Iff.rfl (by simp)

/-- `ANDS X0, X1, #1` leaves the carry clear -/
theorem logical_flags_immediate : ∃ insn, decode 0xF2400020 0 = .ok insn ∧ insn.op = .ands ∧
    ∀ cpu, ∃ v f, dispatchBus Memory.memops (none : Option (EnvOps Memory Unit)) cpu insn
        (codeMemory 0xF2400020, ()) = some ((.ok, { cpu with regs :=
          ((cpu.regs.write 0 .w64 v).setNzcv f).advancePc }), (codeMemory 0xF2400020, ())) ∧
      FlagsAre f (v.getLsbD 63 = true) (v = 0) False False := by
  refine ⟨_, rfl, rfl, fun cpu => ?_⟩
  obtain ⟨v, f, hrun, -, hf⟩ := @logical_flags 0xF2400020 0 _ Memory Unit rfl (.inl rfl)
    Memory.memops none cpu (codeMemory 0xF2400020, ())
  have hc : logicalCarry 0xF2400020 cpu.regs = false := if_pos (by decide)
  exact ⟨v, f, hrun, hf.congr Iff.rfl Iff.rfl (by rw [hc]; decide) Iff.rfl⟩

/-- a reset processor with the carry flag set -/
def carryCpu : Cpu := { Cpu.init 0 0 with regs := (Cpu.init 0 0).regs.setNzcv nzcvC }

/-- `TST X0, X1` with the carry set leaves it set -/
theorem tst_keeps_carry :
    ¬ ∀ (word : W32) (pc : W64) (insn : Insn), decode word pc = .ok insn →
      insn.op = .ands ∨ insn.op = .bics → ∀ (cpu : Cpu) (m : Memory), ∃ v r,
        dispatchBus Memory.memops (none : Option (EnvOps Memory Unit)) cpu insn (m, ()) =
          some ((.ok, { cpu with regs := r }), (m, ())) ∧
        IsLogical word insn cpu.regs v ∧
        FlagsAre r.nzcv.bits (v.getLsbD ((widthFromSf word).bits - 1) = true) (v = 0) False
          False := by
  intro hall
  obtain ⟨insn, hi, hop⟩ : ∃ i, decode 0xEA01001F 0 = .ok i ∧ i.op = .ands := ⟨_, rfl, rfl⟩
  obtain ⟨v, r, hrun, -, hf⟩ := hall _ _ insn hi (.inl hop) carryCpu (codeMemory 0xEA01001F)
  have hbits := congrArg (fun q => q.map fun p => p.1.2.regs.nzcv.bits) hrun
  cases hi
  have hc : r.nzcv.bits = nzcvC ||| nzcvZ := (Option.some.inj hbits).symm
  refine hf.c.mp ?_
  rw [hc]
  decide

end Oemu
