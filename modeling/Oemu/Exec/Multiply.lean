import Oemu.Exec.Checked
import Oemu.Exec.Multiword
import Oemu.Exec.Shifter

/-!
# Multiplication and division

The high word of a product is assembled from four products of halves; the signed one corrects the
unsigned one by an operand for each negative factor.  A quotient and the multiply-subtract after it
give the remainder.

* `umulh_append`, `smulh_append`   the two words of a product are the whole product;
* `cDoDiv_eq`                      no division of the code is undefined;
* `wide_arithmetic`                the instructions.
-/

namespace Oemu

/-! ## high words -/

theorem toNat_low32 (a : W64) : (a &&& 0xFFFFFFFF).toNat = a.toNat % 2 ^ 32 := by
  rw [BitVec.toNat_and]
  exact Nat.and_two_pow_sub_one_eq_mod a.toNat 32

theorem toNat_high32 (a : W64) : (a >>> 32).toNat = a.toNat / 2 ^ 32 := by
  rw [BitVec.toNat_ushiftRight, Nat.shiftRight_eq_div_pow]

/-- the product of two halves does not wrap -/
theorem toNat_mul_half {a b : W64} (ha : a.toNat < 2 ^ 32) (hb : b.toNat < 2 ^ 32) :
    (a * b).toNat = a.toNat * b.toNat ∧ a.toNat * b.toNat ≤ (2 ^ 32 - 1) * (2 ^ 32 - 1) := by
  have hle : a.toNat * b.toNat ≤ (2 ^ 32 - 1) * (2 ^ 32 - 1) :=
    Nat.mul_le_mul (Nat.le_sub_one_of_lt ha) (Nat.le_sub_one_of_lt hb)
  refine ⟨?_, hle⟩
  rw [BitVec.toNat_mul]
  exact Nat.mod_eq_of_lt (by omega)

/-- the high word of four partial products -/
theorem highWord (p0 p1 p2 p3 : Nat) :
    (p3 * 2 ^ 64 + (p1 + p2) * 2 ^ 32 + p0) / 2 ^ 64 =
      p3 + p1 / 2 ^ 32 + p2 / 2 ^ 32 + (p0 / 2 ^ 32 + p1 % 2 ^ 32 + p2 % 2 ^ 32) / 2 ^ 32 := by
  omega

/-- **the unsigned high word** -/
theorem umulh_toNat (a b : W64) : (umulh a b).toNat = a.toNat * b.toNat / 2 ^ 64 := by
  have hal : (a &&& 0xFFFFFFFF).toNat < 2 ^ 32 := by rw [toNat_low32]; omega
  have hah : (a >>> 32).toNat < 2 ^ 32 := by rw [toNat_high32]; omega
  have hbl : (b &&& 0xFFFFFFFF).toNat < 2 ^ 32 := by rw [toNat_low32]; omega
  have hbh : (b >>> 32).toNat < 2 ^ 32 := by rw [toNat_high32]; omega
  obtain ⟨e0, l0⟩ := toNat_mul_half hal hbl
  obtain ⟨e1, l1⟩ := toNat_mul_half hal hbh
  obtain ⟨e2, l2⟩ := toNat_mul_half hah hbl
  obtain ⟨e3, l3⟩ := toNat_mul_half hah hbh
  have hprod : a.toNat * b.toNat =
      (a >>> 32).toNat * (b >>> 32).toNat * 2 ^ 64 +
        ((a &&& 0xFFFFFFFF).toNat * (b >>> 32).toNat +
          (a >>> 32).toNat * (b &&& 0xFFFFFFFF).toNat) * 2 ^ 32 +
        (a &&& 0xFFFFFFFF).toNat * (b &&& 0xFFFFFFFF).toNat := by
    have ea : a.toNat = (a >>> 32).toNat * 2 ^ 32 + (a &&& 0xFFFFFFFF).toNat := by
      rw [toNat_low32, toNat_high32]
      omega
    have eb : b.toNat = (b >>> 32).toNat * 2 ^ 32 + (b &&& 0xFFFFFFFF).toNat := by
      rw [toNat_low32, toNat_high32]
      omega
    calc a.toNat * b.toNat =
        ((a >>> 32).toNat * 2 ^ 32 + (a &&& 0xFFFFFFFF).toNat) *
          ((b >>> 32).toNat * 2 ^ 32 + (b &&& 0xFFFFFFFF).toNat) := by rw [← ea, ← eb]
      _ = _ := by ring
  have hlt : a.toNat * b.toNat < 2 ^ 64 * 2 ^ 64 := Nat.mul_lt_mul'' a.isLt b.isLt
  rw [hprod, highWord]
  rw [hprod] at hlt
  unfold umulh
  dsimp only
  simp only [BitVec.toNat_add, toNat_high32, toNat_low32, e0, e1, e2, e3] at *
  omega

/-- a word is its unsigned value, or that less `2 ^ 64` -/
theorem toInt_cases (a : W64) :
    a.getLsbD 63 = false ∧ a.toInt = a.toNat ∨
      a.getLsbD 63 = true ∧ a.toInt = a.toNat - 2 ^ 64 := by
  have hbit : a.getLsbD 63 = true ↔ 2 ^ 63 ≤ a.toNat := by
    have hlt := a.isLt
    rw [← BitVec.testBit_toNat, Nat.testBit_eq_decide_div_mod_eq, decide_eq_true_iff]
    omega
  rw [BitVec.toInt_eq_toNat_cond]
  by_cases h : 2 ^ 63 ≤ a.toNat
  · rw [if_neg (by omega)]
    exact .inr ⟨hbit.mpr h, by norm_num⟩
  · rw [if_pos (by omega)]
    exact .inl ⟨by rw [← Bool.not_eq_true]; exact mt hbit.mp h, rfl⟩

theorem ofInt_sub64 (x y : Int) :
    BitVec.ofInt 64 (x - y) = BitVec.ofInt 64 x - BitVec.ofInt 64 y := by
  rw [Int.sub_eq_add_neg, BitVec.ofInt_add, BitVec.ofInt_neg, ← BitVec.sub_eq_add_neg]

theorem ofInt_toNat64 (a : W64) : BitVec.ofInt 64 a.toNat = a := by
  rw [BitVec.ofInt_natCast, BitVec.ofNat_toNat, BitVec.setWidth_eq]

theorem ofInt_add_word (x k : Int) : BitVec.ofInt 64 (x + k * 2 ^ 64) = BitVec.ofInt 64 x := by
  apply BitVec.eq_of_toNat_eq
  rw [BitVec.toNat_ofInt, BitVec.toNat_ofInt]
  exact congrArg Int.toNat (Int.add_mul_emod_self_right x k (2 ^ 64))

theorem ediv_sub_word (n k : Int) : (n - k * 2 ^ 64) / 2 ^ 64 = n / 2 ^ 64 - k := by
  rw [Int.sub_eq_add_neg, ← Int.neg_mul, Int.add_mul_ediv_right _ _ (by norm_num)]
  rfl

/-- **the signed high word** -/
theorem smulh_eq (a b : W64) : smulh a b = BitVec.ofInt 64 (a.toInt * b.toInt / 2 ^ 64) := by
  have hu : umulh a b = BitVec.ofInt 64 ((a.toNat : Int) * b.toNat / 2 ^ 64) := by
    rw [← ofInt_toNat64 (umulh a b), umulh_toNat]
    push_cast
    rfl
  unfold smulh
  rcases toInt_cases a with ⟨sa, ea⟩ | ⟨sa, ea⟩
  · rcases toInt_cases b with ⟨sb, eb⟩ | ⟨sb, eb⟩
    · rw [sa, sb, ea, eb]
      exact hu
    · rw [sa, sb, ea, eb, show (a.toNat : Int) * (b.toNat - 2 ^ 64) =
        (a.toNat : Int) * b.toNat - a.toNat * 2 ^ 64 by ring, ediv_sub_word, ofInt_sub64, ← hu,
        ofInt_toNat64]
      rfl
  · rcases toInt_cases b with ⟨sb, eb⟩ | ⟨sb, eb⟩
    · rw [sa, sb, ea, eb, show ((a.toNat : Int) - 2 ^ 64) * b.toNat =
        (a.toNat : Int) * b.toNat - b.toNat * 2 ^ 64 by ring, ediv_sub_word, ofInt_sub64, ← hu,
        ofInt_toNat64]
      rfl
    · rw [sa, sb, ea, eb, show ((a.toNat : Int) - 2 ^ 64) * (b.toNat - 2 ^ 64) =
        (a.toNat : Int) * b.toNat - (b.toNat + a.toNat - 2 ^ 64) * 2 ^ 64 by ring, ediv_sub_word,
        show (a.toNat : Int) * b.toNat / 2 ^ 64 - (b.toNat + a.toNat - 2 ^ 64) =
          (a.toNat : Int) * b.toNat / 2 ^ 64 - b.toNat - a.toNat + 1 * 2 ^ 64 by ring,
        ofInt_add_word, ofInt_sub64, ofInt_sub64, ← hu, ofInt_toNat64, ofInt_toNat64]
      rfl

theorem mul_eq_ofInt (a b : W64) : a * b = BitVec.ofInt 64 (a.toInt * b.toInt) := by
  rw [BitVec.ofInt_mul, BitVec.ofInt_toInt, BitVec.ofInt_toInt]

theorem toNat_append64 (x y : W64) : (x ++ y).toNat = x.toNat * 2 ^ 64 + y.toNat := by
  rw [BitVec.toNat_append, ← Nat.shiftLeft_add_eq_or_of_lt y.isLt, Nat.shiftLeft_eq]

/-- **the two words of an unsigned product** -/
theorem umulh_append (a b : W64) :
    umulh a b ++ a * b = BitVec.ofNat 128 (a.toNat * b.toNat) := by
  have hlt : a.toNat * b.toNat < 2 ^ 64 * 2 ^ 64 := Nat.mul_lt_mul'' a.isLt b.isLt
  apply BitVec.eq_of_toNat_eq
  rw [toNat_append64, umulh_toNat, BitVec.toNat_mul, BitVec.toNat_ofNat]
  omega

/-- **the two words of a signed product** -/
theorem smulh_append (a b : W64) :
    smulh a b ++ a * b = BitVec.ofInt 128 (a.toInt * b.toInt) := by
  rw [smulh_eq, mul_eq_ofInt]
  apply BitVec.eq_of_toNat_eq
  rw [toNat_append64, BitVec.toNat_ofInt, BitVec.toNat_ofInt, BitVec.toNat_ofInt]
  generalize a.toInt * b.toInt = p
  have hsplit : p % 2 ^ 128 = p / 2 ^ 64 % 2 ^ 64 * 2 ^ 64 + p % 2 ^ 64 := by omega
  have h1 : 0 ≤ p / 2 ^ 64 % 2 ^ 64 := Int.emod_nonneg _ (by norm_num)
  have h2 : 0 ≤ p % 2 ^ 64 := Int.emod_nonneg _ (by norm_num)
  show (p / 2 ^ 64 % 2 ^ 64).toNat * 2 ^ 64 + (p % 2 ^ 64).toNat = (p % 2 ^ 128).toNat
  rw [hsplit, Int.toNat_add (by positivity) h2, Int.toNat_mul h1 (by norm_num)]
  rfl

/-! ## division -/

/-- the truncating quotient at a width; a quotient by zero is zero -/
def quot {n : Nat} (signed : Bool) (x d : BitVec n) : BitVec n :=
  if signed then BitVec.ofInt n (x.toInt.tdiv d.toInt) else BitVec.ofNat n (x.toNat / d.toNat)

def rem {n : Nat} (signed : Bool) (x d : BitVec n) : BitVec n :=
  if signed then BitVec.ofInt n (x.toInt.tmod d.toInt) else BitVec.ofNat n (x.toNat % d.toNat)

theorem sdiv_eq_quot {n : Nat} (x d : BitVec n) : x.sdiv d = quot true x d := by
  show _ = BitVec.ofInt n (x.toInt.tdiv d.toInt)
  rw [← BitVec.ofInt_toInt (x := x.sdiv d), BitVec.toInt_sdiv]
  apply BitVec.eq_of_toNat_eq
  rw [BitVec.toNat_ofInt, BitVec.toNat_ofInt, Int.bmod_emod]

theorem udiv_eq_quot {n : Nat} (x d : BitVec n) : x / d = quot false x d := by
  show _ = BitVec.ofNat n (x.toNat / d.toNat)
  apply BitVec.eq_of_toNat_eq
  rw [BitVec.toNat_udiv, BitVec.toNat_ofNat, Nat.mod_eq_of_lt]
  exact (Nat.div_le_self _ _).trans_lt x.isLt

theorem quot_zero {n : Nat} (signed : Bool) (x : BitVec n) : quot signed x 0#n = 0#n := by
  cases signed with
  | true =>
    show BitVec.ofInt n (x.toInt.tdiv (0#n).toInt) = 0#n
    rw [BitVec.toInt_zero, Int.tdiv_zero]
    rfl
  | false =>
    show BitVec.ofNat n (x.toNat / (0#n).toNat) = 0#n
    rw [BitVec.toNat_zero, Nat.div_zero]

theorem rem_zero {n : Nat} (signed : Bool) (x : BitVec n) : rem signed x 0#n = x := by
  cases signed with
  | true =>
    show BitVec.ofInt n (x.toInt.tmod (0#n).toInt) = x
    rw [BitVec.toInt_zero, Int.tmod_zero, BitVec.ofInt_toInt]
  | false =>
    show BitVec.ofNat n (x.toNat % (0#n).toNat) = x
    rw [BitVec.toNat_zero, Nat.mod_zero, BitVec.ofNat_toNat, BitVec.setWidth_eq]

/-- the multiply-subtract of a quotient is the remainder -/
theorem sub_quot_mul {n : Nat} (signed : Bool) (x d : BitVec n) :
    x - quot signed x d * d = rem signed x d := by
  unfold quot rem
  cases signed with
  | true =>
    show x - BitVec.ofInt n (x.toInt.tdiv d.toInt) * d = BitVec.ofInt n (x.toInt.tmod d.toInt)
    have hmod : x.toInt.tmod d.toInt = x.toInt + -(x.toInt.tdiv d.toInt * d.toInt) := by
      have h := Int.mul_tdiv_add_tmod x.toInt d.toInt
      rw [Int.mul_comm] at h
      omega
    rw [hmod, BitVec.ofInt_add, BitVec.ofInt_neg, BitVec.ofInt_mul, BitVec.ofInt_toInt,
      BitVec.ofInt_toInt, BitVec.sub_eq_add_neg]
  | false =>
    show x - BitVec.ofNat n (x.toNat / d.toNat) * d = BitVec.ofNat n (x.toNat % d.toNat)
    have hx : x = BitVec.ofNat n (x.toNat % d.toNat) + BitVec.ofNat n (x.toNat / d.toNat) * d := by
      have hm := congrArg (BitVec.ofNat n) (Nat.mod_add_div' x.toNat d.toNat)
      rw [BitVec.ofNat_add, BitVec.ofNat_mul, BitVec.ofNat_toNat, BitVec.ofNat_toNat,
        BitVec.setWidth_eq, BitVec.setWidth_eq] at hm
      exact hm.symm
    rw [BitVec.sub_eq_iff_eq_add]
    exact hx

/-! ## the instructions -/

def factor (signed : Bool) (x : BitVec 32) : Int := if signed then x.toInt else x.toNat

def Opcode.isMulAddLong : Opcode → Bool
  | .smaddl | .smsubl | .umaddl | .umsubl => true
  | _ => false

def Opcode.signedFactors : Opcode → Bool
  | .smaddl | .smsubl => true
  | _ => false

def Opcode.addsProduct : Opcode → Bool
  | .smaddl | .umaddl => true
  | _ => false

variable {word : W32} {pc : W64} {insn : Insn}

theorem ofInt_setWidth (x : BitVec 32) : BitVec.ofInt 64 x.toNat = x.setWidth 64 := by
  rw [BitVec.ofInt_natCast, BitVec.ofNat_toNat]

/-- **the long products** -/
theorem mulAddLong_result (h : decode word pc = .ok insn) (hop : insn.op.isMulAddLong = true)
    (r : Regs) :
    dataProcessing r insn =
      some (.ok, r.write (fieldRd word) .w64
        (BitVec.ofInt 64
          (if insn.op.addsProduct then
            (r.read (fieldRa word) .w64).toNat +
              factor insn.op.signedFactors (low .w32 (r.read (fieldRn word) .w32)) *
                factor insn.op.signedFactors (low .w32 (r.read (fieldRm word) .w32))
          else
            (r.read (fieldRa word) .w64).toNat -
              factor insn.op.signedFactors (low .w32 (r.read (fieldRn word) .w32)) *
                factor insn.op.signedFactors (low .w32 (r.read (fieldRm word) .w32))))) := by
  have hops : insn.op = .smaddl ∨ insn.op = .smsubl ∨ insn.op = .umaddl ∨ insn.op = .umsubl := by
    revert hop
    cases insn.op <;> decide
  have hdata : insn.op.family = .data := by
    rcases hops with ho | ho | ho | ho <;> rw [ho] <;> rfl
  obtain ⟨hrd, hrn, hrm, -⟩ := hasRm_regs h hdata (by
    rcases hops with ho | ho | ho | ho <;> rw [ho] <;> rfl)
  have hra : insn.ra = fieldRa word := (decode_routed h hdata).ra (by
    rcases hops with ho | ho | ho | ho <;> rw [ho] <;> rfl)
  have hrun : dataProcessing r insn = some (.ok, doMulAddLong r insn) := by
    unfold dataProcessing
    rcases hops with ho | ho | ho | ho <;> rw [ho]
  have hsigned : ∀ x y : W64, BitVec.ofInt 64 (factor true (low .w32 x) * factor true (low .w32 y)) =
      (x.setWidth 32).signExtend 64 * (y.setWidth 32).signExtend 64 := by
    intro x y
    exact BitVec.ofInt_mul _ _
  have hunsigned : ∀ x y : W64,
      BitVec.ofInt 64 (factor false (low .w32 x) * factor false (low .w32 y)) =
        (x &&& 0xFFFFFFFF) * (y &&& 0xFFFFFFFF) := by
    intro x y
    have hx := truncate_low .w32 x
    have hy := truncate_low .w32 y
    change x &&& 0xFFFFFFFF = _ at hx
    change y &&& 0xFFFFFFFF = _ at hy
    rw [hx, hy, BitVec.ofInt_mul]
    exact congrArg₂ _ (ofInt_setWidth _) (ofInt_setWidth _)
  rw [hrun]
  unfold doMulAddLong
  dsimp only
  rw [hrd, hrn, hrm, hra]
  show some (Status.ok, r.write _ _ _) = _
  congr 3
  rcases hops with ho | ho | ho | ho
  · rw [ho]
    show r.read _ _ + _ = BitVec.ofInt 64 (_ + _)
    rw [BitVec.ofInt_add, ofInt_toNat64]
    exact congrArg _ (hsigned _ _).symm
  · rw [ho]
    show r.read _ _ - _ = BitVec.ofInt 64 (_ - _)
    rw [ofInt_sub64, ofInt_toNat64]
    exact congrArg _ (hsigned _ _).symm
  · rw [ho]
    show r.read _ _ + _ = BitVec.ofInt 64 (_ + _)
    rw [BitVec.ofInt_add, ofInt_toNat64]
    exact congrArg _ (hunsigned _ _).symm
  · rw [ho]
    show r.read _ _ - _ = BitVec.ofInt 64 (_ - _)
    rw [ofInt_sub64, ofInt_toNat64]
    exact congrArg _ (hunsigned _ _).symm

theorem low_mul (w : RegWidth) (x y : W64) : low w (x * y) = low w x * low w y :=
  BitVec.setWidth_mul x y w.bits_le

theorem low_minus (w : RegWidth) (x y : W64) : low w (x - y) = low w x - low w y := by
  have h1 : low w (1 : W64) = 1 := by cases w <;> rfl
  rw [BitVec.sub_eq_add_neg, BitVec.neg_eq_not_add, low_add, low_add, low_not,
    BitVec.sub_eq_add_neg, BitVec.neg_eq_not_add]
  exact congrArg (fun v => low w x + (~~~low w y + v)) h1

theorem mulAdd_result (h : decode word pc = .ok insn) (hop : insn.op = .madd ∨ insn.op = .msub)
    (r : Regs) :
    dataProcessing r insn =
      some (.ok, r.write (fieldRd word) (widthFromSf word)
        ((if insn.op = .madd then
          low (widthFromSf word) (r.read (fieldRa word) (widthFromSf word)) +
            low (widthFromSf word) (r.read (fieldRn word) (widthFromSf word)) *
              low (widthFromSf word) (r.read (fieldRm word) (widthFromSf word))
        else
          low (widthFromSf word) (r.read (fieldRa word) (widthFromSf word)) -
            low (widthFromSf word) (r.read (fieldRn word) (widthFromSf word)) *
              low (widthFromSf word) (r.read (fieldRm word) (widthFromSf word))).setWidth 64)) := by
  have hdata : insn.op.family = .data := by
    rcases hop with ho | ho <;> rw [ho] <;> rfl
  obtain ⟨hrd, hrn, hrm, hw⟩ := hasRm_regs h hdata (by
    rcases hop with ho | ho <;> rw [ho] <;> rfl)
  have hra : insn.ra = fieldRa word := (decode_routed h hdata).ra (by
    rcases hop with ho | ho <;> rw [ho] <;> rfl)
  have hw : insn.width = widthFromSf word := by
    rw [hw]
    rcases hop with ho | ho <;> rw [ho] <;> rfl
  have hrun : dataProcessing r insn = some (.ok, doMulAdd r insn) := by
    unfold dataProcessing
    rcases hop with ho | ho <;> rw [ho]
  rw [hrun]
  unfold doMulAdd
  dsimp only
  rw [hrd, hrn, hrm, hra, hw, writeG_low]
  rcases hop with ho | ho
  · rw [if_pos ho, if_pos ho, low_add, low_mul]
    rfl
  · rw [if_neg (by rw [ho]; decide), if_neg (by rw [ho]; decide), low_minus, low_mul]
    rfl

/-- **the divisions** -/
theorem div_result (h : decode word pc = .ok insn) (hop : insn.op = .udiv ∨ insn.op = .sdiv)
    (r : Regs) :
    dataProcessing r insn =
      some (.ok, r.write (fieldRd word) (widthFromSf word)
        ((quot (decide (insn.op = .sdiv))
          (low (widthFromSf word) (r.read (fieldRn word) (widthFromSf word)))
          (low (widthFromSf word) (r.read (fieldRm word) (widthFromSf word)))).setWidth 64)) := by
  have hdata : insn.op.family = .data := by
    rcases hop with ho | ho <;> rw [ho] <;> rfl
  obtain ⟨hrd, hrn, hrm, hw⟩ := hasRm_regs h hdata (by
    rcases hop with ho | ho <;> rw [ho] <;> rfl)
  have hw : insn.width = widthFromSf word := by
    rw [hw]
    rcases hop with ho | ho <;> rw [ho] <;> rfl
  have hrun : dataProcessing r insn = some (.ok, doDiv r insn) := by
    unfold dataProcessing
    rcases hop with ho | ho <;> rw [ho]
  have hq : ∀ (signed : Bool) (w : RegWidth) (x d : W64), truncate d w = d →
      low w (quotient x d signed w) = quot signed (low w x) (low w d) := by
    intro signed w x d hd
    unfold quotient
    by_cases h0 : d = 0
    · have hl : low w (0 : W64) = 0#w.bits := by cases w <;> rfl
      rw [if_pos h0, h0, hl, quot_zero]
    · rw [if_neg h0]
      cases signed with
      | true =>
        rw [← sdiv_eq_quot]
        cases w with
        | w32 => exact low_setWidth .w32 _
        | w64 =>
          show (x.sdiv d).setWidth 64 = (x.setWidth 64).sdiv (d.setWidth 64)
          rw [BitVec.setWidth_eq, BitVec.setWidth_eq, BitVec.setWidth_eq]
      | false =>
        rw [← udiv_eq_quot]
        cases w with
        | w32 => exact low_setWidth .w32 _
        | w64 =>
          show (x / d).setWidth 64 = x.setWidth 64 / d.setWidth 64
          rw [BitVec.setWidth_eq, BitVec.setWidth_eq, BitVec.setWidth_eq]
  rw [hrun]
  unfold doDiv
  dsimp only
  rw [hrd, hrn, hrm, hw, writeG_low]
  refine congrArg (fun v : BitVec (widthFromSf word).bits =>
    some (Status.ok, r.write (fieldRd word) (widthFromSf word) (v.setWidth 64))) ?_
  exact hq _ _ _ _ (truncate_read _ _ _)

/-! ## divisions as C has them -/

/-- `n / d` of unsigned operands -/
def cUdiv {k : Nat} (n d : BitVec k) : Option (BitVec k) :=
  if d = 0 then none else some (n / d)

/-- `n / d` of signed operands: the divisor is not zero, and the quotient is in range -/
def cSdiv {k : Nat} (n d : BitVec k) : Option (BitVec k) :=
  if d = 0 ∨ ¬ (-2 ^ (k - 1) ≤ n.toInt.tdiv d.toInt ∧ n.toInt.tdiv d.toInt < 2 ^ (k - 1)) then none
  else some (BitVec.ofInt k (n.toInt.tdiv d.toInt))

/-- the signed quotient, with its one overflow taken out first -/
def cGuardedSdiv {k : Nat} (n d : BitVec k) : Option (BitVec k) :=
  if n = BitVec.intMin k ∧ d = -1#k then some (BitVec.intMin k) else cSdiv n d

def cQuotient (n d : W64) (signed : Bool) (width : RegWidth) : Option W64 :=
  if d ≠ 0 then
    match signed, width with
    | false, .w32 => (cUdiv (n.setWidth 32) (d.setWidth 32)).map (·.setWidth 64)
    | false, .w64 => cUdiv n d
    | true, .w32 => (cGuardedSdiv (n.setWidth 32) (d.setWidth 32)).map (·.setWidth 64)
    | true, .w64 => cGuardedSdiv n d
  else some 0

def cDoDiv (r : Regs) (insn : Insn) : Option Regs :=
  let d := readG r insn.rm false insn.width
  let n := readG r insn.rn false insn.width
  (cQuotient n d (decide (insn.op = .sdiv)) insn.width).map (writeG r insn.rd false insn.width)

/-- `INT_MIN / -1` -/
theorem intMin_sdiv {k : Nat} (hk : 1 < k) :
    (BitVec.intMin k).sdiv (-1#k) = BitVec.intMin k := by
  rw [sdiv_eq_quot]
  show BitVec.ofInt k ((BitVec.intMin k).toInt.tdiv (-1#k).toInt) = _
  have h1 : (-1#k).toInt = -1 := by
    rw [BitVec.neg_one_eq_allOnes, BitVec.toInt_allOnes, if_pos (by omega)]
  rw [h1, Int.tdiv_neg, Int.tdiv_one, BitVec.ofInt_neg, BitVec.ofInt_toInt, BitVec.neg_intMin]

theorem cGuardedSdiv_eq {k : Nat} (hk : 1 < k) (n : BitVec k) {d : BitVec k} (hd : d ≠ 0) :
    cGuardedSdiv n d = some (n.sdiv d) := by
  unfold cGuardedSdiv
  by_cases h : n = BitVec.intMin k ∧ d = -1#k
  · rw [if_pos h, h.1, h.2, intMin_sdiv hk]
  · have hne : n ≠ BitVec.intMin k ∨ d ≠ -1#k := by
      by_contra hno
      rw [not_or, not_not, not_not] at hno
      exact h hno
    have hval := BitVec.toInt_sdiv_of_ne_or_ne n d hne
    have hlo := BitVec.le_toInt (n.sdiv d)
    have hhi := BitVec.toInt_lt (x := n.sdiv d)
    rw [hval] at hlo hhi
    rw [if_neg h]
    unfold cSdiv
    rw [if_neg (by rw [not_or, not_not]; exact ⟨hd, hlo, hhi⟩), sdiv_eq_quot]
    rfl

/-- **no division of the code is undefined** -/
theorem cDoDiv_eq (r : Regs) (insn : Insn) : cDoDiv r insn = some (doDiv r insn) := by
  have hq : ∀ (n d : W64) (signed : Bool) (w : RegWidth), truncate d w = d →
      cQuotient n d signed w = some (quotient n d signed w) := by
    intro n d signed w hd
    unfold cQuotient quotient
    by_cases h0 : d = 0
    · rw [if_neg (not_not.mpr h0), if_pos h0]
    · have h32 : w = .w32 → d.setWidth 32 ≠ 0 := by
        rintro rfl hz
        apply h0
        rw [← hd, truncate_low]
        show (d.setWidth 32).setWidth 64 = 0
        rw [hz]
        rfl
      rw [if_pos h0, if_neg h0]
      cases signed with
      | true =>
        cases w with
        | w32 =>
          show (cGuardedSdiv (n.setWidth 32) (d.setWidth 32)).map _ = _
          rw [cGuardedSdiv_eq (by decide) _ (h32 rfl)]
          rfl
        | w64 => exact cGuardedSdiv_eq (by decide) _ h0
      | false =>
        cases w with
        | w32 =>
          show (cUdiv (n.setWidth 32) (d.setWidth 32)).map _ = _
          unfold cUdiv
          rw [if_neg (h32 rfl)]
          rfl
        | w64 => exact if_neg h0
  exact congrArg (Option.map (writeG r insn.rd false insn.width))
    (hq _ _ _ _ (truncate_read r insn.rm insn.width))

/-! ## the law -/

section Law

variable {σ ε : Type} (mem : Memops σ) (env : Option (EnvOps σ ε))

def Coded.quotient (c : Coded) (r : Regs) : BitVec (widthFromSf c.word).bits :=
  quot (decide (c.insn.op = .sdiv))
    (low (widthFromSf c.word) (r.read (fieldRn c.word) (widthFromSf c.word)))
    (low (widthFromSf c.word) (r.read (fieldRm c.word) (widthFromSf c.word)))

def Coded.remainder (c : Coded) (r : Regs) : BitVec (widthFromSf c.word).bits :=
  rem (decide (c.insn.op = .sdiv))
    (low (widthFromSf c.word) (r.read (fieldRn c.word) (widthFromSf c.word)))
    (low (widthFromSf c.word) (r.read (fieldRm c.word) (widthFromSf c.word)))

/-- what the multiplying and dividing instructions do -/
structure WideInstruction (c : Coded) (cpu : Cpu) (s : σ × ε) : Prop where
  umulh : c.insn.op = .umulh →
    dispatchBus mem env cpu c.insn s = some ((.ok, { cpu with
      regs := (cpu.regs.write c.rd .w64 (Oemu.umulh (cpu.regs.read (fieldRn c.word) .w64)
        (cpu.regs.read (fieldRm c.word) .w64))).advancePc }), s)
  smulh : c.insn.op = .smulh →
    dispatchBus mem env cpu c.insn s = some ((.ok, { cpu with
      regs := (cpu.regs.write c.rd .w64 (Oemu.smulh (cpu.regs.read (fieldRn c.word) .w64)
        (cpu.regs.read (fieldRm c.word) .w64))).advancePc }), s)
  mul : c.insn.op = .madd → fieldRa c.word = 31 →
    dispatchBus mem env cpu c.insn s = some ((.ok, { cpu with
      regs := (cpu.regs.write c.rd (widthFromSf c.word)
        ((low (widthFromSf c.word) (cpu.regs.read (fieldRn c.word) (widthFromSf c.word)) *
          low (widthFromSf c.word) (cpu.regs.read (fieldRm c.word)
            (widthFromSf c.word))).setWidth 64)).advancePc }), s)
  long : c.insn.op.isMulAddLong = true →
    dispatchBus mem env cpu c.insn s = some ((.ok, { cpu with
      regs := (cpu.regs.write c.rd .w64 (BitVec.ofInt 64
        (if c.insn.op.addsProduct then
          (cpu.regs.read (fieldRa c.word) .w64).toNat +
            factor c.insn.op.signedFactors (low .w32 (cpu.regs.read (fieldRn c.word) .w32)) *
              factor c.insn.op.signedFactors (low .w32 (cpu.regs.read (fieldRm c.word) .w32))
        else
          (cpu.regs.read (fieldRa c.word) .w64).toNat -
            factor c.insn.op.signedFactors (low .w32 (cpu.regs.read (fieldRn c.word) .w32)) *
              factor c.insn.op.signedFactors (low .w32 (cpu.regs.read (fieldRm c.word)
                .w32))))).advancePc }), s)
  div : c.insn.op = .udiv ∨ c.insn.op = .sdiv →
    dispatchBus mem env cpu c.insn s = some ((.ok, { cpu with
      regs := (cpu.regs.write c.rd (widthFromSf c.word)
        ((c.quotient cpu.regs).setWidth 64)).advancePc }), s)

theorem wide_instruction (c : Coded) (cpu : Cpu) (s : σ × ε) : WideInstruction mem env c cpu s := by
  obtain ⟨word, pc, insn, h⟩ := c
  have hhigh : ∀ f, insn.op = .umulh ∨ insn.op = .smulh →
      doMulHigh cpu.regs insn f = cpu.regs.write (fieldRd word) .w64
        (f (cpu.regs.read (fieldRn word) .w64) (cpu.regs.read (fieldRm word) .w64)) := by
    intro f hop
    obtain ⟨hrd, hrn, hrm, -⟩ := hasRm_regs h (by rcases hop with ho | ho <;> rw [ho] <;> rfl)
      (by rcases hop with ho | ho <;> rw [ho] <;> rfl)
    unfold doMulHigh
    rw [hrd, hrn, hrm]
    rfl
  constructor
  · intro hop
    change insn.op = .umulh at hop
    have hrun : dataProcessing cpu.regs insn = some (.ok, doMulHigh cpu.regs insn Oemu.umulh) := by
      unfold dataProcessing
      rw [hop]
    rw [hhigh _ (.inl hop)] at hrun
    exact dispatchBus_data mem env cpu s (by rw [hop]; rfl) hrun
  · intro hop
    change insn.op = .smulh at hop
    have hrun : dataProcessing cpu.regs insn = some (.ok, doMulHigh cpu.regs insn Oemu.smulh) := by
      unfold dataProcessing
      rw [hop]
    rw [hhigh _ (.inr hop)] at hrun
    exact dispatchBus_data mem env cpu s (by rw [hop]; rfl) hrun
  · intro hop hra
    change insn.op = .madd at hop
    change fieldRa word = 31 at hra
    have hrun := mulAdd_result h (.inl hop) cpu.regs
    have hzero : ∀ w : RegWidth, low w (cpu.regs.read 31 w) = 0#w.bits := by
      intro w
      cases w <;> rfl
    rw [if_pos hop, hra, hzero, BitVec.zero_add] at hrun
    exact dispatchBus_data mem env cpu s (by rw [hop]; rfl) hrun
  · intro hop
    have hdata : insn.op.family = .data := by
      change insn.op.isMulAddLong = true at hop
      revert hop
      cases insn.op <;> decide
    exact dispatchBus_data mem env cpu s hdata (mulAddLong_result h hop cpu.regs)
  · intro hop
    have hdata : insn.op.family = .data := by
      rcases hop with ho | ho
      · exact (congrArg Opcode.family ho).trans rfl
      · exact (congrArg Opcode.family ho).trans rfl
    exact dispatchBus_data mem env cpu s hdata (div_result h hop cpu.regs)

/-- a division and the multiply-subtract after it, of the same operands -/
structure DivMod (c c' : Coded) : Prop where
  div : c.insn.op = .udiv ∨ c.insn.op = .sdiv
  msub : c'.insn.op = .msub
  width : widthFromSf c'.word = widthFromSf c.word
  kept : c.rd ≠ 31 ∧ fieldRn c.word ≠ c.rd ∧ fieldRm c.word ≠ c.rd
  factors : fieldRn c'.word = c.rd ∧ fieldRm c'.word = fieldRm c.word ∨
    fieldRn c'.word = fieldRm c.word ∧ fieldRm c'.word = c.rd
  minuend : fieldRa c'.word = fieldRn c.word

/-- **the pair leaves the quotient and the remainder** -/
theorem divMod_runs {c c' : Coded} (hp : DivMod c c') (cpu : Cpu) (s : σ × ε) :
    execAll mem env [c.insn, c'.insn] cpu s = some ((.ok, { cpu with
      regs := ((cpu.regs.write c.rd (widthFromSf c.word)
        ((c.quotient cpu.regs).setWidth 64)).advancePc.write c'.rd (widthFromSf c.word)
        ((c.remainder cpu.regs).setWidth 64)).advancePc }), s) := by
  have hmsub := hp.msub
  have hdata : c'.insn.op.family = .data := by
    rw [hmsub]
    rfl
  rw [execAll_cons ((wide_instruction mem env c cpu s).div hp.div)]
  obtain ⟨h31, hn, hm⟩ := hp.kept
  have hval : low (widthFromSf c.word) (cpu.regs.read (fieldRn c.word) (widthFromSf c.word)) -
      c.quotient cpu.regs * low (widthFromSf c.word)
        (cpu.regs.read (fieldRm c.word) (widthFromSf c.word)) = c.remainder cpu.regs :=
    sub_quot_mul _ _ _
  generalize c.quotient cpu.regs = q at hval ⊢
  generalize hr : (cpu.regs.write c.rd (widthFromSf c.word) (q.setWidth 64)).advancePc = r
  have hreadq : low (widthFromSf c.word) (r.read c.rd (widthFromSf c.word)) = q := by
    rw [← hr]
    refine (congrArg (low _) (read_write_self cpu.regs h31 _ _)).trans ?_
    rw [low_truncate, low_setWidth]
  have hreadn : r.read (fieldRn c.word) (widthFromSf c.word) =
      cpu.regs.read (fieldRn c.word) (widthFromSf c.word) := by
    rw [← hr]
    exact read_write_ne cpu.regs hn _ _ _
  have hreadm : r.read (fieldRm c.word) (widthFromSf c.word) =
      cpu.regs.read (fieldRm c.word) (widthFromSf c.word) := by
    rw [← hr]
    exact read_write_ne cpu.regs hm _ _ _
  have hprod : low (widthFromSf c.word) (r.read (fieldRn c'.word) (widthFromSf c.word)) *
        low (widthFromSf c.word) (r.read (fieldRm c'.word) (widthFromSf c.word)) =
      q * low (widthFromSf c.word) (cpu.regs.read (fieldRm c.word) (widthFromSf c.word)) := by
    rcases hp.factors with ⟨e, e'⟩ | ⟨e, e'⟩
    · rw [e, e', hreadq, hreadm]
    · rw [e, e', hreadq, hreadm, BitVec.mul_comm]
  have hrun := mulAdd_result c'.decoded (.inr hmsub) r
  rw [if_neg (by rw [hmsub]; decide), hp.width, hprod, hp.minuend, hreadn, hval] at hrun
  exact execAll_cons (dispatchBus_data mem env { cpu with regs := r } s hdata hrun) []

/-- **multiplication and division**: the high words complete the products, the long forms add the
exact products, and a division and its multiply-subtract leave the truncating quotient and its
remainder, with no division that C leaves undefined -/
theorem wide_arithmetic :
    (∀ a b : W64, umulh a b ++ a * b = BitVec.ofNat 128 (a.toNat * b.toNat) ∧
      umulh a b = (BitVec.ofNat 128 (a.toNat * b.toNat)).extractLsb' 64 64 ∧
      smulh a b ++ a * b = BitVec.ofInt 128 (a.toInt * b.toInt) ∧
      smulh a b = (BitVec.ofInt 128 (a.toInt * b.toInt)).extractLsb' 64 64) ∧
    (∀ (c : Coded) (cpu : Cpu) (s : σ × ε), WideInstruction mem env c cpu s) ∧
    (∀ (c c' : Coded) (cpu : Cpu) (s : σ × ε), DivMod c c' →
      execAll mem env [c.insn, c'.insn] cpu s = some ((.ok, { cpu with
        regs := ((cpu.regs.write c.rd (widthFromSf c.word)
          ((c.quotient cpu.regs).setWidth 64)).advancePc.write c'.rd (widthFromSf c.word)
          ((c.remainder cpu.regs).setWidth 64)).advancePc }), s)) ∧
    (∀ (w : RegWidth) (signed : Bool) (x : BitVec w.bits),
      quot signed x 0#w.bits = 0#w.bits ∧ rem signed x 0#w.bits = x ∧
        quot true (BitVec.intMin w.bits) (-1#w.bits) = BitVec.intMin w.bits) ∧
    ∀ (r : Regs) (insn : Insn), cDoDiv r insn = some (doDiv r insn) := by
  have hhi : ∀ x y : W64, (x ++ y).extractLsb' 64 64 = x := fun x y =>
    BitVec.extractLsb'_append_eq_left
  refine ⟨fun a b => ?_, wide_instruction mem env, fun c c' cpu s hp => divMod_runs mem env hp cpu s,
    fun w signed x => ⟨quot_zero signed x, rem_zero signed x, ?_⟩, cDoDiv_eq⟩
  · refine ⟨umulh_append a b, ?_, smulh_append a b, ?_⟩
    · rw [← umulh_append, hhi]
    · rw [← smulh_append, hhi]
  · rw [← sdiv_eq_quot]
    cases w with
    | w32 => exact intMin_sdiv (by decide)
    | w64 => exact intMin_sdiv (by decide)

end Law

end Oemu
