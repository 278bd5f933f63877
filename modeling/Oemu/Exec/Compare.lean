import Oemu.Decode.Source
import Oemu.Exec.Operand
import Oemu.Exec.Width

/-!
# Flags and conditions

The flags of an addition are those of the exact sum of the operands, read as unsigned and as signed
numbers of the operand width; a subtraction is the addition of the complement and one.  So each
condition after a comparison is a relation of the two numbers.

* `addWithCarry_flags`     the flags of an exact sum, with either carry;
* `condHolds_compare`      the sixteen conditions after a subtraction;
* `doAddSub_compared`, `doCcmp_compared`   the flags of the comparing instructions.
-/

namespace Oemu

/-! ## numbers of a width -/

/-- an operand as an unsigned number of a width -/
def uval (w : RegWidth) (v : W64) : Nat := (truncate v w).toNat

/-- an operand as a signed number of a width -/
def sval (w : RegWidth) (v : W64) : Int :=
  if uval w v < 2 ^ (w.bits - 1) then uval w v else (uval w v : Int) - 2 ^ w.bits

theorem uval_eq (w : RegWidth) (v : W64) : uval w v = v.toNat % 2 ^ w.bits := toNat_truncate v w

theorem uval_lt (w : RegWidth) (v : W64) : uval w v < 2 ^ w.bits := by
  rw [uval_eq]
  exact Nat.mod_lt _ (Nat.two_pow_pos _)

@[simp] theorem uval_truncate (w : RegWidth) (v : W64) : uval w (truncate v w) = uval w v := by
  rw [uval_eq, toNat_truncate, Nat.mod_mod, uval_eq]

@[simp] theorem sval_truncate (w : RegWidth) (v : W64) : sval w (truncate v w) = sval w v := by
  unfold sval
  rw [uval_truncate]

theorem uval_not (w : RegWidth) (v : W64) : uval w (~~~v) = 2 ^ w.bits - 1 - uval w v := by
  have h : (~~~v).toNat = 2 ^ 64 - 1 - v.toNat := by
    rw [BitVec.toNat_not]
  have hv := v.isLt
  rw [uval_eq, uval_eq, h]
  cases w with
  | w32 =>
    show (2 ^ 64 - 1 - v.toNat) % 2 ^ 32 = 2 ^ 32 - 1 - v.toNat % 2 ^ 32
    omega
  | w64 =>
    show (2 ^ 64 - 1 - v.toNat) % 2 ^ 64 = 2 ^ 64 - 1 - v.toNat % 2 ^ 64
    omega

/-- the signed number is the unsigned one or 2 to the width less -/
theorem sval_cases (w : RegWidth) (v : W64) :
    uval w v < 2 ^ (w.bits - 1) ∧ sval w v = uval w v ∨
      2 ^ (w.bits - 1) ≤ uval w v ∧ sval w v = uval w v - 2 ^ w.bits := by
  unfold sval
  by_cases h : uval w v < 2 ^ (w.bits - 1)
  · rw [if_pos h]
    exact .inl ⟨h, rfl⟩
  · rw [if_neg h]
    exact .inr ⟨Nat.le_of_not_lt h, rfl⟩

theorem sval_not (w : RegWidth) (v : W64) : sval w (~~~v) = -1 - sval w v := by
  have h := uval_not w v
  have hlt := uval_lt w v
  have hc := sval_cases w v
  have hn := sval_cases w (~~~v)
  cases w with
  | w32 =>
    simp only [RegWidth.bits] at h hlt hc hn
    omega
  | w64 =>
    simp only [RegWidth.bits] at h hlt hc hn
    omega

/-! ## the flags of a sum -/

structure FlagsAre (f : W32) (n z c v : Prop) : Prop where
  n : (f &&& nzcvN != 0) = true ↔ n
  z : (f &&& nzcvZ != 0) = true ↔ z
  c : (f &&& nzcvC != 0) = true ↔ c
  v : (f &&& nzcvV != 0) = true ↔ v
  masked : f &&& nzcvMask = f

/-- the word composed of four flags -/
def packFlags (n z c v : Bool) : W32 :=
  (if n then nzcvN else 0) ||| (if z then nzcvZ else 0) ||| (if c then nzcvC else 0) |||
    (if v then nzcvV else 0)

theorem packFlags_are (n z c v : Bool) :
    FlagsAre (packFlags n z c v) (n = true) (z = true) (c = true) (v = true) := by
  constructor
  all_goals
    revert n z c v
    decide

theorem FlagsAre.congr {f : W32} {n n' z z' c c' v v' : Prop} (h : FlagsAre f n z c v)
    (hn : n ↔ n') (hz : z ↔ z') (hc : c ↔ c') (hv : v ↔ v') : FlagsAre f n' z' c' v' :=
  ⟨h.n.trans hn, h.z.trans hz, h.c.trans hc, h.v.trans hv, h.masked⟩

def signMask : RegWidth → W64
  | .w32 => 0x80000000
  | .w64 => 0x8000000000000000

/-- the sign bit is the upper half of the unsigned range -/
theorem and_signMask (w : RegWidth) (v : W64) :
    (truncate v w &&& signMask w != 0) = true ↔ 2 ^ (w.bits - 1) ≤ uval w v := by
  have hbit : ∀ (x : W64) (k : Nat), k < 64 → ((x &&& BitVec.twoPow 64 k != 0) = true ↔
      x.toNat / 2 ^ k % 2 = 1) := by
    intro x k hk
    rw [bne_iff_ne, BitVec.and_twoPow, ← BitVec.testBit_toNat, Nat.testBit_eq_decide_div_mod_eq]
    by_cases h : x.toNat / 2 ^ k % 2 = 1
    · rw [decide_eq_true h, if_pos rfl]
      refine ⟨fun _ => h, fun _ h0 => ?_⟩
      have h1 := congrArg BitVec.toNat h0
      rw [BitVec.toNat_twoPow, Nat.mod_eq_of_lt (Nat.pow_lt_pow_right (by decide) hk)] at h1
      exact absurd h1 (Nat.two_pow_pos k).ne'
    · rw [decide_eq_false h, if_neg Bool.false_ne_true]
      exact ⟨fun hne => absurd rfl hne, fun h1 => absurd h1 h⟩
  have hlt := uval_lt w v
  unfold uval at hlt ⊢
  cases w with
  | w32 =>
    refine (hbit _ 31 (by decide)).trans ?_
    show _ ↔ 2 ^ 31 ≤ _
    have hlt : (truncate v .w32).toNat < 2 ^ 32 := hlt
    omega
  | w64 =>
    refine (hbit _ 63 (by decide)).trans ?_
    show _ ↔ 2 ^ 63 ≤ _
    have hlt : (truncate v .w64).toNat < 2 ^ 64 := hlt
    omega

/-- what an addition with a carry makes of two operands, as numbers -/
def exactSum (w : RegWidth) (x y : W64) (carry : Bool) : Nat := uval w x + uval w y + carry.toNat

/-- the same sum of the signed operands -/
def exactSigned (w : RegWidth) (x y : W64) (carry : Bool) : Int :=
  sval w x + sval w y + carry.toNat

theorem addWithCarry_value (x y : W64) (carry : Bool) (w : RegWidth) :
    (addWithCarry x y carry w).value.toNat = exactSum w x y carry % 2 ^ w.bits := by
  show (truncate (truncate x w + truncate y w + if carry then 1 else 0) w).toNat = _
  rw [toNat_truncate, BitVec.toNat_add, BitVec.toNat_add]
  have hc : (if carry = true then (1 : W64) else 0).toNat = carry.toNat := by
    cases carry <;> rfl
  rw [hc]
  unfold exactSum uval
  cases w with
  | w32 =>
    simp only [RegWidth.bits]
    omega
  | w64 =>
    simp only [RegWidth.bits]
    omega

/-- the carry out is the overflow of the unsigned range -/
theorem carry32_iff (x y c : W64) (hx : x.toNat < 2 ^ 32) (hy : y.toNat < 2 ^ 32)
    (hc : c.toNat ≤ 1) :
    ((x + y + c) >>> 32 != 0) = true ↔ 2 ^ 32 ≤ x.toNat + y.toNat + c.toNat := by
  have hsum : (x + y + c).toNat = x.toNat + y.toNat + c.toNat := by
    rw [BitVec.toNat_add, BitVec.toNat_add]
    omega
  rw [bne_iff_ne, ne_eq, ← BitVec.toNat_inj, BitVec.toNat_ushiftRight, hsum,
    Nat.shiftRight_eq_div_pow]
  show ¬ (_ / 2 ^ 32 = 0) ↔ _
  omega

theorem carry64_iff (x y : W64) (carry : Bool) :
    (decide (x + y < x) || (carry && x + y == BitVec.allOnes 64)) = true ↔
      2 ^ 64 ≤ x.toNat + y.toNat + carry.toNat := by
  have hx := x.isLt
  have hy := y.isLt
  have hones : (BitVec.allOnes 64).toNat = 2 ^ 64 - 1 := rfl
  rw [Bool.or_eq_true, Bool.and_eq_true, decide_eq_true_iff, beq_iff_eq, BitVec.lt_def,
    ← BitVec.toNat_inj, BitVec.toNat_add, hones]
  cases carry with
  | false =>
    show _ ∨ false = true ∧ _ ↔ _ ≤ _ + 0
    simp only [Bool.false_eq_true, false_and, or_false]
    omega
  | true =>
    show _ ∨ true = true ∧ _ ↔ _ ≤ _ + 1
    simp only [true_and]
    omega

/-- the sign of the operands and of the wrapped sum decide whether the signed range is left -/
theorem overflow_iff {x y : W64} {carry : Bool} {w : RegWidth} {xn yn sn : Bool}
    (hx : xn = true ↔ 2 ^ (w.bits - 1) ≤ uval w x) (hy : yn = true ↔ 2 ^ (w.bits - 1) ≤ uval w y)
    (hs : sn = true ↔ 2 ^ (w.bits - 1) ≤ exactSum w x y carry % 2 ^ w.bits) :
    (xn = yn ∧ sn ≠ xn) ↔ ¬ (-2 ^ (w.bits - 1) ≤ exactSigned w x y carry ∧
      exactSigned w x y carry < 2 ^ (w.bits - 1)) := by
  have hcx := sval_cases w x
  have hcy := sval_cases w y
  have hlx := uval_lt w x
  have hly := uval_lt w y
  have hc : carry.toNat ≤ 1 := Bool.toNat_le carry
  unfold exactSigned
  unfold exactSum at hs
  cases w with
  | w32 =>
    simp only [RegWidth.bits] at *
    cases xn <;> cases yn <;> cases sn <;> simp at hx hy hs ⊢ <;> omega
  | w64 =>
    simp only [RegWidth.bits] at *
    cases xn <;> cases yn <;> cases sn <;> simp at hx hy hs ⊢ <;> omega

/-- **the flags of an addition** are those of the exact sum -/
theorem addWithCarry_flags (x y : W64) (carry : Bool) (w : RegWidth) :
    FlagsAre (addWithCarry x y carry w).nzcv
      (2 ^ (w.bits - 1) ≤ exactSum w x y carry % 2 ^ w.bits)
      (exactSum w x y carry % 2 ^ w.bits = 0)
      (2 ^ w.bits ≤ exactSum w x y carry)
      (¬ (-2 ^ (w.bits - 1) ≤ exactSigned w x y carry ∧
        exactSigned w x y carry < 2 ^ (w.bits - 1))) := by
  have hval := addWithCarry_value x y carry w
  have hx := and_signMask w x
  have hy := and_signMask w y
  have hc : (if carry then (1 : W64) else 0).toNat = carry.toNat := by
    cases carry <;> rfl
  have hlx : (truncate x w).toNat < 2 ^ w.bits := uval_lt w x
  have hly : (truncate y w).toNat < 2 ^ w.bits := uval_lt w y
  have hs : ((addWithCarry x y carry w).value &&& signMask w != 0) = true ↔
      2 ^ (w.bits - 1) ≤ exactSum w x y carry % 2 ^ w.bits := by
    rw [← hval]
    exact and_signMask w (truncate x w + truncate y w + if carry then 1 else 0)
  have hz : decide ((addWithCarry x y carry w).value = 0) = true ↔
      exactSum w x y carry % 2 ^ w.bits = 0 := by
    rw [← hval, decide_eq_true_iff, ← BitVec.toNat_inj]
    rfl
  have hv := decide_eq_true_iff.trans (overflow_iff hx hy hs)
  cases w with
  | w32 =>
    have hcar := carry32_iff (truncate x .w32) (truncate y .w32) (if carry then 1 else 0) hlx hly
      (by rw [hc]; exact Bool.toNat_le carry)
    rw [hc] at hcar
    have e := packFlags_are _ _ _ _ |>.congr hs hz hcar hv
    unfold packFlags at e
    simp only [decide_eq_true_iff] at e
    exact e
  | w64 =>
    have hcar := carry64_iff x y carry
    have e := packFlags_are _ _ _ _ |>.congr hs hz hcar hv
    unfold packFlags at e
    simp only [decide_eq_true_iff] at e
    exact e

/-! ## comparisons -/

def wrappedDiff (w : RegWidth) (a b : W64) : Nat := (uval w a + 2 ^ w.bits - uval w b) % 2 ^ w.bits

/-- does a signed number leave the range of a width -/
def Overflows (w : RegWidth) (n : Int) : Prop :=
  ¬ (-2 ^ (w.bits - 1) ≤ n ∧ n < 2 ^ (w.bits - 1))

/-- **the flags of a subtraction** -/
theorem sub_flags (a b : W64) (w : RegWidth) :
    FlagsAre (addWithCarry a (~~~b) true w).nzcv (2 ^ (w.bits - 1) ≤ wrappedDiff w a b)
      (uval w a = uval w b) (uval w b ≤ uval w a) (Overflows w (sval w a - sval w b)) := by
  have hb := uval_lt w b
  have ha := uval_lt w a
  have hsum : exactSum w a (~~~b) true = uval w a + 2 ^ w.bits - uval w b := by
    unfold exactSum
    rw [uval_not]
    show _ + _ + 1 = _
    omega
  have hsigned : exactSigned w a (~~~b) true = sval w a - sval w b := by
    unfold exactSigned
    rw [sval_not]
    show _ + _ + 1 = _
    omega
  have h := addWithCarry_flags a (~~~b) true w
  rw [hsum, hsigned] at h
  refine h.congr Iff.rfl ?_ ?_ Iff.rfl
  · cases w with
    | w32 =>
      simp only [RegWidth.bits] at ha hb ⊢
      omega
    | w64 =>
      simp only [RegWidth.bits] at ha hb ⊢
      omega
  · omega

/-- the relation of two operands that a condition stands for after their comparison -/
def CondRelation (w : RegWidth) (a b : W64) (cond : BitVec 4) : Prop :=
  match cond.toNat with
  | 0 => uval w a = uval w b
  | 1 => uval w a ≠ uval w b
  | 2 => uval w b ≤ uval w a
  | 3 => uval w a < uval w b
  | 4 => 2 ^ (w.bits - 1) ≤ wrappedDiff w a b
  | 5 => wrappedDiff w a b < 2 ^ (w.bits - 1)
  | 6 => Overflows w (sval w a - sval w b)
  | 7 => ¬ Overflows w (sval w a - sval w b)
  | 8 => uval w b < uval w a
  | 9 => uval w a ≤ uval w b
  | 10 => sval w b ≤ sval w a
  | 11 => sval w a < sval w b
  | 12 => sval w b < sval w a
  | 13 => sval w a ≤ sval w b
  | _ => True

/-- the sign of the wrapped difference is right unless the difference overflows -/
theorem signed_le_iff {w : RegWidth} {a b : W64} {n v : Bool}
    (hn : n = true ↔ 2 ^ (w.bits - 1) ≤ wrappedDiff w a b)
    (hv : v = true ↔ Overflows w (sval w a - sval w b)) :
    n = v ↔ sval w b ≤ sval w a := by
  have hca := sval_cases w a
  have hcb := sval_cases w b
  have hla := uval_lt w a
  have hlb := uval_lt w b
  unfold wrappedDiff at hn
  unfold Overflows at hv
  cases w with
  | w32 =>
    simp only [RegWidth.bits] at *
    cases n <;> cases v <;> simp at hn hv ⊢ <;> omega
  | w64 =>
    simp only [RegWidth.bits] at *
    cases n <;> cases v <;> simp at hn hv ⊢ <;> omega

theorem sval_eq_iff (w : RegWidth) (a b : W64) : sval w a = sval w b ↔ uval w a = uval w b := by
  have hca := sval_cases w a
  have hcb := sval_cases w b
  have hla := uval_lt w a
  have hlb := uval_lt w b
  cases w with
  | w32 =>
    simp only [RegWidth.bits] at *
    omega
  | w64 =>
    simp only [RegWidth.bits] at *
    omega

def condOf (n z c v : Bool) (cond : BitVec 4) : Bool :=
  match cond.toNat with
  | 0 => z
  | 1 => !z
  | 2 => c
  | 3 => !c
  | 4 => n
  | 5 => !n
  | 6 => v
  | 7 => !v
  | 8 => c && !z
  | 9 => !(c && !z)
  | 10 => n == v
  | 11 => !(n == v)
  | 12 => (n == v) && !z
  | 13 => !((n == v) && !z)
  | _ => true

theorem condHolds_eq (f : W32) (cond : BitVec 4) :
    condHolds f cond =
      condOf (f &&& nzcvN != 0) (f &&& nzcvZ != 0) (f &&& nzcvC != 0) (f &&& nzcvV != 0) cond := by
  unfold condHolds
  dsimp only
  generalize (f &&& nzcvN != 0) = n
  generalize (f &&& nzcvZ != 0) = z
  generalize (f &&& nzcvC != 0) = c
  generalize (f &&& nzcvV != 0) = v
  revert n z c v cond
  decide

/-- **the sixteen conditions** after a comparison are the relations of the operands -/
theorem condHolds_compare (a b : W64) (w : RegWidth) (cond : BitVec 4) :
    condHolds (addWithCarry a (~~~b) true w).nzcv cond = true ↔ CondRelation w a b cond := by
  obtain ⟨hn, hz, hc, hv, -⟩ := sub_flags a b w
  rw [condHolds_eq]
  generalize ((addWithCarry a (~~~b) true w).nzcv &&& nzcvN != 0) = n at hn ⊢
  generalize ((addWithCarry a (~~~b) true w).nzcv &&& nzcvZ != 0) = z at hz ⊢
  generalize ((addWithCarry a (~~~b) true w).nzcv &&& nzcvC != 0) = c at hc ⊢
  generalize ((addWithCarry a (~~~b) true w).nzcv &&& nzcvV != 0) = v at hv ⊢
  have hs := signed_le_iff hn hv
  have heq := sval_eq_iff w a b
  have hnot : ∀ {p : Bool} {q : Prop}, (p = true ↔ q) → ((!p) = true ↔ ¬ q) := by
    intro p q h
    rw [← h]
    cases p <;> simp
  have hhi : (c && !z) = true ↔ uval w b < uval w a := by
    rw [Bool.and_eq_true, hc, hnot hz]
    omega
  have hge : (n == v) = true ↔ sval w b ≤ sval w a := by
    rw [beq_iff_eq]
    exact hs
  have hgt : ((n == v) && !z) = true ↔ sval w b < sval w a := by
    rw [Bool.and_eq_true, hge, hnot hz, ← heq]
    omega
  unfold condOf CondRelation
  split
  · exact hz
  · exact hnot hz
  · exact hc
  · exact (hnot hc).trans Nat.not_le
  · exact hn
  · exact (hnot hn).trans Nat.not_le
  · exact hv
  · exact hnot hv
  · exact hhi
  · exact (hnot hhi).trans Nat.not_lt
  · exact hge
  · exact (hnot hge).trans Int.not_le
  · exact hgt
  · exact (hnot hgt).trans Int.not_lt
  · exact ⟨fun _ => trivial, fun _ => rfl⟩

/-! ## the instructions -/

/-- what a comparing instruction leaves: the conditions are the relations of two operands -/
def Compares (w : RegWidth) (a b : W64) (f : W32) : Prop :=
  ∀ cond, condHolds f cond = true ↔ CondRelation w a b cond

/-- what an adding instruction leaves: the flags of the exact sum of two operands -/
def Sums (w : RegWidth) (a b : W64) (f : W32) : Prop :=
  FlagsAre f (2 ^ (w.bits - 1) ≤ exactSum w a b false % 2 ^ w.bits)
    (exactSum w a b false % 2 ^ w.bits = 0) (2 ^ w.bits ≤ exactSum w a b false)
    (Overflows w (sval w a + sval w b))

variable {word : W32} {pc : W64} {insn : Insn}

theorem addsub_setsFlags (h : decode word pc = .ok insn)
    (hop : insn.op = .adds ∨ insn.op = .subs) : insn.setsFlags = true := by
  have hkey : ∀ isSub setsFlags,
      addsubOpcode isSub setsFlags = .adds ∨ addsubOpcode isSub setsFlags = .subs →
        setsFlags = true := by
    decide
  have hdata : insn.op.family = .data := by
    rcases hop with hop | hop <;> rw [hop] <;> rfl
  have hgroup : insn.op.group = .addsub := by
    rcases hop with hop | hop <;> rw [hop] <;> rfl
  have hs := decode_source h hdata
  rw [hgroup] at hs
  cases hs with
  | addsubImm hc hd =>
    unfold decodeAddsubImm at hd
    dsimp only at hd
    split at hd <;> cases hd
    exact hkey _ _ hop
  | addsubShifted hc hd =>
    unfold decodeAddsubShifted at hd
    dsimp only at hd
    split at hd
    · cases hd
    · split at hd <;> cases hd
      exact hkey _ _ hop
  | addsubExtended hc hd =>
    unfold decodeAddsubExtended at hd
    dsimp only at hd
    split at hd
    · cases hd
    · split at hd <;> cases hd
      exact hkey _ _ hop

def firstOperand (word : W32) (r : Regs) : W64 :=
  readG r (fieldRn word) (decide (SpSrc word)) (widthFromSf word)

/-- the second operand of a conditional comparison: a field, or a register -/
def ccmpOperand (word : W32) (r : Regs) : W64 :=
  if bit word 11 ≠ 0 then ufield word 16 5 else r.read (fieldRm word) (widthFromSf word)

theorem setNzcv_masked (r : Regs) {f : W32} (h : f &&& nzcvMask = f) :
    (r.setNzcv f).nzcv.bits = f := h

theorem doAddSub_nzcv (r : Regs) (hs : insn.setsFlags = true) :
    (doAddSub r insn).nzcv.bits =
      (addWithCarry (readG r insn.rn insn.rnIsSpForm insn.width)
        (if insn.op = .sub ∨ insn.op = .subs then ~~~(operand2 r insn).2.1
          else (operand2 r insn).2.1)
        (decide (insn.op = .sub ∨ insn.op = .subs)) insn.width).nzcv := by
  unfold doAddSub
  dsimp only
  rw [if_pos hs]
  exact setNzcv_masked _ (addWithCarry_flags _ _ _ _).masked

theorem decodeCondCompare_fields (h : decodeCondCompare word = .ok insn) :
    insn.width = widthFromSf word ∧ insn.rn = fieldRn word ∧
      insn.cond = toCond (bits word 12 4) ∧ insn.uimm = ufield word 0 4 ∧
      (bit word 11 ≠ 0 ∧ insn.operandKind = .imm ∧ insn.imm = ufield word 16 5 ∨
        bit word 11 = 0 ∧ insn.operandKind = .reg ∧ insn.rm = fieldRm word) := by
  unfold decodeCondCompare at h
  dsimp only at h
  split at h
  · cases h
  · split at h
    · rename_i h11
      cases h
      exact ⟨rfl, rfl, rfl, rfl, .inl ⟨h11, rfl, rfl⟩⟩
    · rename_i h11
      cases h
      exact ⟨rfl, rfl, rfl, rfl, .inr ⟨Decidable.not_not.mp h11, rfl, rfl⟩⟩

/-- the flags of a conditional comparison: those of the comparison where its condition holds, and
the immediate where not -/
theorem doCcmp_nzcv (hd : decodeCondCompare word = .ok insn) (r : Regs) :
    (doCcmp r insn).nzcv =
      if r.condHolds (toCond (bits word 12 4)) then
        Nzcv.ofWord
          (if insn.op = .ccmp then
            addWithCarry (r.read (fieldRn word) (widthFromSf word)) (~~~ccmpOperand word r) true
              (widthFromSf word)
          else
            addWithCarry (r.read (fieldRn word) (widthFromSf word)) (ccmpOperand word r) false
              (widthFromSf word)).nzcv
      else Nzcv.ofWord ((ufield word 0 4 <<< 28).setWidth 32) := by
  obtain ⟨hw, hn, hc, hu, hm⟩ := decodeCondCompare_fields hd
  have hop : (if insn.operandKind = .imm then insn.imm else readG r insn.rm false insn.width) =
      ccmpOperand word r := by
    unfold ccmpOperand
    rcases hm with ⟨h11, hk, hi⟩ | ⟨h11, hk, hi⟩
    · rw [if_pos hk, if_pos h11, hi]
    · rw [if_neg (by rw [hk]; decide), if_neg (not_not.mpr h11), hi, hw]
      rfl
  unfold doCcmp
  rw [hop, hc, hn, hw, hu]
  by_cases hcond : r.condHolds (toCond (bits word 12 4)) = true
  · rw [if_neg (by rw [hcond]; decide), if_pos hcond]
    rfl
  · rw [if_pos (by simpa using hcond), if_neg hcond]
    rfl

theorem ccmpImmediate (n : Nat) (hn : n < 16) :
    (Nzcv.ofWord ((BitVec.ofNat 64 n <<< 28).setWidth 32)).bits = BitVec.ofNat 32 n <<< 28 := by
  revert n
  decide

/-- what the comparing instructions leave in the flags, for a second operand of the additions -/
structure Compared (word : W32) (insn : Insn) (r : Regs) (m : W64) (f : W32) : Prop where
  subs : insn.op = .subs → Compares (widthFromSf word) (firstOperand word r) m f
  adds : insn.op = .adds → Sums (widthFromSf word) (firstOperand word r) m f
  ccmp : insn.op = .ccmp → r.condHolds (toCond (bits word 12 4)) = true →
    Compares (widthFromSf word) (r.read (fieldRn word) (widthFromSf word)) (ccmpOperand word r) f
  ccmn : insn.op = .ccmn → r.condHolds (toCond (bits word 12 4)) = true →
    Sums (widthFromSf word) (r.read (fieldRn word) (widthFromSf word)) (ccmpOperand word r) f
  immediate : insn.op = .ccmp ∨ insn.op = .ccmn →
    r.condHolds (toCond (bits word 12 4)) = false → f = BitVec.ofNat 32 (bits word 0 4) <<< 28

/-- a comparison looks at the low bits of its operands only -/
theorem compares_truncate (w : RegWidth) (a b : W64) (f : W32) :
    Compares w a (truncate b w) f ↔ Compares w a b f := by
  unfold Compares CondRelation wrappedDiff
  simp only [uval_truncate, sval_truncate]

theorem sums_truncate (w : RegWidth) (a b : W64) (f : W32) :
    Sums w a (truncate b w) f ↔ Sums w a b f := by
  unfold Sums exactSum
  simp only [uval_truncate, sval_truncate]

theorem Compared.truncate {r : Regs} {m : W64} {f : W32} (h : Compared word insn r m f) :
    Compared word insn r (truncate m (widthFromSf word)) f where
  subs ho := (compares_truncate _ _ _ _).mpr (h.subs ho)
  adds ho := (sums_truncate _ _ _ _).mpr (h.adds ho)
  ccmp := h.ccmp
  ccmn := h.ccmn
  immediate := h.immediate

theorem compares_sub (w : RegWidth) (a b : W64) :
    Compares w a b (addWithCarry a (~~~b) true w).nzcv := condHolds_compare a b w

theorem sums_add (w : RegWidth) (a b : W64) :
    Sums w a b (addWithCarry a b false w).nzcv := by
  have h := addWithCarry_flags a b false w
  have e : exactSigned w a b false = sval w a + sval w b := Int.add_zero _
  rw [e] at h
  exact h

theorem doAddSub_compared (h : decode word pc = .ok insn)
    (hop : insn.op = .adds ∨ insn.op = .subs) (r : Regs) :
    Compared word insn r (operand2 r insn).2.1 (doAddSub r insn).nzcv.bits := by
  have hdata : insn.op.family = .data := by
    rcases hop with hop | hop <;> rw [hop] <;> rfl
  have hrouted := decode_routed h hdata
  have hw : insn.width = widthFromSf word := by
    rw [hrouted.width]
    rcases hop with hop | hop <;> rw [hop] <;> rfl
  have hn : readG r insn.rn insn.rnIsSpForm insn.width = firstOperand word r := by
    have hrn : insn.rn = fieldRn word := hrouted.rn (by
      rcases hop with hop | hop <;> rw [hop] <;> rfl)
    unfold firstOperand
    rw [hrn, hrouted.src, hw]
  rw [doAddSub_nzcv r (addsub_setsFlags h hop), hn, hw]
  constructor
  · intro ho
    rw [if_pos (.inr ho), decide_eq_true (.inr ho)]
    exact compares_sub _ _ _
  · intro ho
    have hno : ¬ (insn.op = .sub ∨ insn.op = .subs) := by
      rw [ho]
      decide
    rw [if_neg hno, decide_eq_false hno]
    exact sums_add _ _ _
  all_goals
    intro ho
    rcases hop with hop | hop <;> rw [hop] at ho
  · cases ho
  · cases ho
  · cases ho
  · cases ho
  · exact absurd ho (by decide)
  · exact absurd ho (by decide)

theorem doCcmp_compared (hd : decodeCondCompare word = .ok insn)
    (hop : insn.op = .ccmp ∨ insn.op = .ccmn) (r : Regs) (m : W64) :
    Compared word insn r m (doCcmp r insn).nzcv.bits := by
  have hf := doCcmp_nzcv hd r
  constructor
  · intro ho
    rcases hop with hop | hop <;> rw [hop] at ho <;> cases ho
  · intro ho
    rcases hop with hop | hop <;> rw [hop] at ho <;> cases ho
  · intro ho hcond
    rw [if_pos hcond, if_pos ho] at hf
    rw [hf]
    show Compares _ _ _ (_ &&& nzcvMask)
    rw [(addWithCarry_flags _ _ _ _).masked]
    exact compares_sub _ _ _
  · intro ho hcond
    rw [if_pos hcond, if_neg (by rw [ho]; decide)] at hf
    rw [hf]
    show Sums _ _ _ (_ &&& nzcvMask)
    rw [(addWithCarry_flags _ _ _ _).masked]
    exact sums_add _ _ _
  · intro _ hcond
    rw [if_neg (by rw [hcond]; decide)] at hf
    rw [hf]
    exact ccmpImmediate _ (bits_lt word 0 4)

end Oemu
