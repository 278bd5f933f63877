import Oemu.Exec.Logical

/-!
# Operands from registers

The architecture's shifts and extensions act on a register of the operand width.  The executor keeps
values of sixty-four bits and has shifts by zero that these words never reach, because the decoder
marks a register that is not shifted as a plain one.

* `shiftOperand_shiftReg`, `extendOperand_extendReg`   the operands of the two forms;
* `RegisterResult`                                     a result computed at the operand width;
* `register_operands`                                  every form of a register operand.
-/

namespace Oemu

/-! ## the operations of the architecture -/

def shiftReg {n : Nat} (type : ShiftType) (x : BitVec n) (amount : Nat) : BitVec n :=
  match type with
  | .lsl => x <<< amount
  | .lsr => x >>> amount
  | .asr => x.sshiftRight amount
  | .ror => x.rotateRight amount

/-- the low bits an extension keeps -/
def extendLen : ExtendType → Nat
  | .uxtb | .sxtb => 8
  | .uxth | .sxth => 16
  | .uxtw | .sxtw => 32
  | .uxtx | .sxtx => 64

def extendSigned : ExtendType → Bool
  | .sxtb | .sxth | .sxtw | .sxtx => true
  | _ => false

def extendReg (n : Nat) (type : ExtendType) (x : W64) (shift : Nat) : BitVec n :=
  (if extendSigned type then (x.setWidth (extendLen type)).signExtend n
    else (x.setWidth (extendLen type)).setWidth n) <<< shift

def aluOp {n : Nat} (op : Opcode) (x m : BitVec n) : BitVec n :=
  match op with
  | .add | .adds => x + m
  | .sub | .subs => x - m
  | .and | .ands => x &&& m
  | .bic | .bics => x &&& ~~~m
  | .orr => x ||| m
  | .orn => x ||| ~~~m
  | .eor => x ^^^ m
  | .eon => x ^^^ ~~~m
  | _ => 0

def Opcode.shiftType : Opcode → ShiftType
  | .lslv => .lsl
  | .lsrv => .lsr
  | .asrv => .asr
  | _ => .ror

/-- a register at an operand width -/
def low (w : RegWidth) (v : W64) : BitVec w.bits := v.setWidth w.bits

/-! ## values at a width -/

theorem low_bit (w : RegWidth) (v : W64) (i : Nat) :
    (low w v).getLsbD i = (decide (i < w.bits) && v.getLsbD i) := BitVec.getLsbD_setWidth _ _ _

theorem truncate_low (w : RegWidth) (v : W64) : truncate v w = (low w v).setWidth 64 := by
  apply BitVec.eq_of_getLsbD_eq
  intro i hi
  rw [truncate_bit, BitVec.getLsbD_setWidth, low_bit, decide_eq_true hi, Bool.true_and]

theorem low_truncate (w : RegWidth) (v : W64) : low w (truncate v w) = low w v := by
  apply BitVec.eq_of_getLsbD_eq
  intro i hi
  rw [low_bit, low_bit, truncate_bit, decide_eq_true hi, Bool.true_and, Bool.true_and]

theorem low_setWidth (w : RegWidth) (x : BitVec w.bits) : low w (x.setWidth 64) = x := by
  have hb := w.bits_le
  apply BitVec.eq_of_getLsbD_eq
  intro i hi
  rw [low_bit, BitVec.getLsbD_setWidth, decide_eq_true hi, decide_eq_true (by omega : i < 64),
    Bool.true_and, Bool.true_and]

theorem low_add (w : RegWidth) (x y : W64) : low w (x + y) = low w x + low w y :=
  BitVec.setWidth_add x y w.bits_le

theorem low_not (w : RegWidth) (x : W64) : low w (~~~x) = ~~~low w x :=
  BitVec.setWidth_not w.bits_le

theorem low_and (w : RegWidth) (x y : W64) : low w (x &&& y) = low w x &&& low w y :=
  BitVec.setWidth_and

theorem low_or (w : RegWidth) (x y : W64) : low w (x ||| y) = low w x ||| low w y :=
  BitVec.setWidth_or

theorem low_xor (w : RegWidth) (x y : W64) : low w (x ^^^ y) = low w x ^^^ low w y :=
  BitVec.setWidth_xor

theorem low_and_not (w : RegWidth) (x y : W64) : low w (x &&& ~~~y) = low w x &&& ~~~low w y := by
  rw [low_and, low_not]

theorem low_or_not (w : RegWidth) (x y : W64) : low w (x ||| ~~~y) = low w x ||| ~~~low w y := by
  rw [low_or, low_not]

theorem low_xor_not (w : RegWidth) (x y : W64) : low w (x ^^^ ~~~y) = low w x ^^^ ~~~low w y := by
  rw [low_xor, low_not]

theorem low_addWithCarry (x y : W64) (c : Bool) (w : RegWidth) :
    low w (addWithCarry x y c w).value = low w x + low w y + (BitVec.ofBool c).setWidth w.bits := by
  have hc : low w (if c then 1 else 0) = (BitVec.ofBool c).setWidth w.bits := by
    cases w <;> cases c <;> rfl
  show low w (truncate (truncate x w + truncate y w + if c then 1 else 0) w) = _
  rw [low_truncate, low_add, low_add, low_truncate, low_truncate, hc]

theorem low_sum (x y : W64) (w : RegWidth) :
    low w (addWithCarry x y false w).value = low w x + low w y := by
  have h0 : (BitVec.ofBool false).setWidth w.bits = 0 := by
    cases w <;> rfl
  rw [low_addWithCarry, h0]
  exact BitVec.add_zero _

theorem low_sub (x y : W64) (w : RegWidth) :
    low w (addWithCarry x (~~~y) true w).value = low w x - low w y := by
  have h1 : (BitVec.ofBool true).setWidth w.bits = 1 := by
    cases w <;> rfl
  rw [low_addWithCarry, low_not, h1, BitVec.add_assoc, BitVec.sub_eq_add_neg,
    BitVec.neg_eq_not_add]
  rfl

/-! ## the shifter -/

/-- the shifter stays within its width -/
theorem shiftOperand_high {v : W64} {type : ShiftType} {amount i : Nat} {w : RegWidth}
    (h0 : amount ≠ 0) (hi : w.bits ≤ i) :
    (shiftOperand v type amount w).value.getLsbD i = false := by
  have hmask : ∀ x : W64, (x &&& widthMask w).getLsbD i = false := by
    intro x
    rw [BitVec.getLsbD_and, widthMask_bit, decide_eq_false (Nat.not_lt.mpr hi), Bool.and_false]
  unfold shiftOperand
  dsimp only
  rw [if_neg h0]
  cases type with
  | lsl => exact hmask _
  | lsr =>
    show ((v &&& widthMask w) >>> amount).getLsbD i = false
    rw [BitVec.getLsbD_ushiftRight, BitVec.getLsbD_and, widthMask_bit,
      decide_eq_false (by omega : ¬ amount + i < w.bits), Bool.and_false]
  | asr => exact hmask _
  | ror => exact hmask _

theorem shiftReg_bit (w : RegWidth) (type : ShiftType) {amount : Nat} (ha : amount < w.bits)
    {v : W64} {i : Nat} (hi : i < w.bits) :
    (shiftReg type (low w v) amount).getLsbD i = shiftedBit w type amount v i := by
  have hpos := w.bits_pos
  unfold shiftReg shiftedBit
  cases type with
  | lsl =>
    show (low w v <<< amount).getLsbD i = _
    rw [BitVec.getLsbD_shiftLeft, low_bit, decide_eq_true hi, Bool.true_and,
      decide_eq_true (by omega : i - amount < w.bits), Bool.true_and, ← decide_not,
      decide_eq_decide.mpr Nat.not_lt]
  | lsr =>
    show (low w v >>> amount).getLsbD i = _
    rw [BitVec.getLsbD_ushiftRight, low_bit, Nat.add_comm]
  | asr =>
    show ((low w v).sshiftRight amount).getLsbD i = _
    rw [BitVec.getLsbD_sshiftRight, decide_eq_false (Nat.not_le.mpr hi), Bool.not_false,
      Bool.true_and, BitVec.msb_eq_getLsbD_last, low_bit, low_bit, Nat.add_comm]
    dsimp only
    by_cases h : i + amount < w.bits
    · rw [if_pos h, if_pos h, decide_eq_true h, Bool.true_and]
    · rw [if_neg h, if_neg h, decide_eq_true (by omega : w.bits - 1 < w.bits), Bool.true_and]
  | ror =>
    show ((low w v).rotateRight amount).getLsbD i = _
    rw [BitVec.getLsbD_rotateRight_of_lt ha, low_bit, low_bit]
    dsimp only
    by_cases h : i < w.bits - amount
    · rw [decide_eq_true h, cond_true, decide_eq_true (by omega : amount + i < w.bits),
        Bool.true_and, Nat.mod_eq_of_lt (by omega : i + amount < w.bits), Nat.add_comm]
    · rw [decide_eq_false h, cond_false, decide_eq_true hi, Bool.true_and,
        decide_eq_true (by omega : i - (w.bits - amount) < w.bits), Bool.true_and,
        Nat.mod_eq_sub_mod (by omega), Nat.mod_eq_of_lt (by omega)]
      congr 1
      omega

/-- **the shifted operand** of the architecture, for an amount that is not zero -/
theorem shiftOperand_shiftReg {w : RegWidth} (type : ShiftType) {amount : Nat} {v : W64}
    (h0 : amount ≠ 0) (ha : amount < w.bits) (hv : truncate v w = v) :
    (shiftOperand v type amount w).value = (shiftReg type (low w v) amount).setWidth 64 := by
  apply BitVec.eq_of_getLsbD_eq
  intro i hi64
  rw [BitVec.getLsbD_setWidth, decide_eq_true hi64, Bool.true_and]
  by_cases hi : i < w.bits
  · rw [shiftOperand_bit h0 ha hv hi, shiftReg_bit w type ha hi]
  · rw [shiftOperand_high h0 (Nat.not_lt.mp hi), BitVec.getLsbD_of_ge _ _ (Nat.not_lt.mp hi)]

theorem shiftReg_zero {n : Nat} (type : ShiftType) (x : BitVec n) : shiftReg type x 0 = x := by
  cases type with
  | lsl => exact BitVec.shiftLeft_zero x
  | lsr => exact BitVec.ushiftRight_zero x
  | asr => exact BitVec.sshiftRight_zero
  | ror =>
    apply BitVec.eq_of_getLsbD_eq
    intro i hi
    show (x.rotateRight 0).getLsbD i = _
    rw [BitVec.getLsbD_rotateRight_of_lt (by omega), decide_eq_true (by omega : i < n - 0),
      cond_true, Nat.zero_add]

/-- **the extended operand** of the architecture -/
theorem extendOperand_extendReg (w : RegWidth) (type : ExtendType) (v : W64) (shift : Nat) :
    low w (extendOperand v type shift) = extendReg w.bits type v shift := by
  have hshift : ∀ x : W64, low w (x <<< shift) = low w x <<< shift := by
    intro x
    have hb := w.bits_le
    apply BitVec.eq_of_getLsbD_eq
    intro i hi
    rw [low_bit, BitVec.getLsbD_shiftLeft, BitVec.getLsbD_shiftLeft, low_bit, decide_eq_true hi,
      decide_eq_true (by omega : i < 64), decide_eq_true (by omega : i - shift < w.bits),
      Bool.true_and]
    rfl
  have hmask : ∀ k : Nat, k ≤ 64 → ∀ m : W64, (∀ i, i < 64 → m.getLsbD i = decide (i < k)) →
      low w (v &&& m) = (v.setWidth k).setWidth w.bits := by
    intro k hk m hm
    apply BitVec.eq_of_getLsbD_eq
    intro i hi
    have hb := w.bits_le
    rw [low_bit, BitVec.getLsbD_and, hm i (by omega), BitVec.getLsbD_setWidth,
      BitVec.getLsbD_setWidth, Bool.and_comm (v.getLsbD i)]
  have hsign : ∀ k : Nat, low w ((v.setWidth k).signExtend 64) = (v.setWidth k).signExtend w.bits := by
    intro k
    have hb := w.bits_le
    apply BitVec.eq_of_getLsbD_eq
    intro i hi
    rw [low_bit, BitVec.getLsbD_signExtend, BitVec.getLsbD_signExtend, decide_eq_true hi,
      decide_eq_true (by omega : i < 64), Bool.true_and]
  have hwhole : low w v = (v.setWidth 64).setWidth w.bits := by
    rw [BitVec.setWidth_eq]
    rfl
  unfold extendOperand extendReg
  dsimp only
  rw [hshift]
  congr 1
  cases type with
  | uxtb => exact hmask 8 (by decide) _ (by decide)
  | uxth => exact hmask 16 (by decide) _ (by decide)
  | uxtw => exact hmask 32 (by decide) _ (by decide)
  | uxtx => exact hwhole
  | sxtb => exact hsign 8
  | sxth => exact hsign 16
  | sxtw => exact hsign 32
  | sxtx =>
    refine hwhole.trans ?_
    show _ = (v.setWidth 64).signExtend w.bits
    rw [BitVec.signExtend_eq_setWidth_of_le _ w.bits_le]

/-! ## results -/

variable {word : W32} {pc : W64} {insn : Insn} {r : Regs}

/-- a result of the operand width is in the destination, and nothing else has changed but the
flags -/
def RegisterResult (word : W32) (r r' : Regs) (v : BitVec (widthFromSf word).bits) : Prop :=
  { r' with nzcv := r.nzcv } =
    writeG r (fieldRd word) (decide (SpDst word)) (widthFromSf word) (v.setWidth 64)

theorem writeG_low (r : Regs) (n : BitVec 5) (sp : Bool) (w : RegWidth) (v : W64) :
    writeG r n sp w v = writeG r n sp w ((low w v).setWidth 64) := by
  rw [← truncate_low]
  unfold writeG
  cases sp with
  | false => exact (write_truncate r n w v).symm
  | true =>
    show r.writeSpForm n w v = r.writeSpForm n w (truncate v w)
    unfold Regs.writeSpForm
    rw [truncate_truncate]

theorem writeG_nzcv (r : Regs) (n : BitVec 5) (sp : Bool) (w : RegWidth) (v : W64) :
    { writeG r n sp w v with nzcv := r.nzcv } = writeG r n sp w v := by
  unfold writeG
  cases sp with
  | false =>
    show { r.write n w v with nzcv := r.nzcv } = r.write n w v
    unfold Regs.write
    cases Regs.index n <;> rfl
  | true =>
    show { r.writeSpForm n w v with nzcv := r.nzcv } = r.writeSpForm n w v
    unfold Regs.writeSpForm
    cases Regs.index n <;> rfl

/-- a value written, with or without flags after it -/
theorem RegisterResult.of_write {n : BitVec 5} {sp : Bool} {w : RegWidth} {v : W64} {r' : Regs}
    {x : BitVec (widthFromSf word).bits} (hn : n = fieldRd word) (hsp : sp = decide (SpDst word))
    (hw : w = widthFromSf word) (hx : low (widthFromSf word) v = x)
    (hr : r' = writeG r n sp w v ∨ ∃ f, r' = (writeG r n sp w v).setNzcv f) :
    RegisterResult word r r' x := by
  subst hn hsp hw hx
  unfold RegisterResult
  rw [← writeG_low]
  rcases hr with rfl | ⟨f, rfl⟩
  · exact writeG_nzcv _ _ _ _ _
  · exact writeG_nzcv _ _ _ _ _

theorem doAddSub_write (r : Regs) (insn : Insn) (v : W64)
    (hv : v = (addWithCarry (readG r insn.rn insn.rnIsSpForm insn.width)
      (if insn.op = .sub ∨ insn.op = .subs then ~~~(operand2 r insn).2.1 else (operand2 r insn).2.1)
      (decide (insn.op = .sub ∨ insn.op = .subs)) insn.width).value) :
    doAddSub r insn = writeG r insn.rd insn.rdIsSpForm insn.width v ∨
      ∃ f, doAddSub r insn = (writeG r insn.rd insn.rdIsSpForm insn.width v).setNzcv f := by
  subst hv
  unfold doAddSub
  dsimp only
  by_cases hs : insn.setsFlags = true
  · rw [if_pos hs]
    exact .inr ⟨_, rfl⟩
  · rw [if_neg hs]
    exact .inl rfl

theorem addSub_result (h : decode word pc = .ok insn) (hop : insn.op.isAddSub = true)
    {m : BitVec (widthFromSf word).bits}
    (hm : low (widthFromSf word) (operand2 r insn).2.1 = m) :
    dataProcessing r insn = some (.ok, doAddSub r insn) ∧
      RegisterResult word r (doAddSub r insn)
        (aluOp insn.op (low (widthFromSf word) (firstOperand word r)) m) := by
  have hops : insn.op = .add ∨ insn.op = .adds ∨ insn.op = .sub ∨ insn.op = .subs := by
    revert hop
    cases insn.op <;> decide
  have hdata : insn.op.family = .data := by
    rcases hops with ho | ho | ho | ho <;> rw [ho] <;> rfl
  have hrouted := decode_routed h hdata
  have hw : insn.width = widthFromSf word := by
    rw [hrouted.width]
    rcases hops with ho | ho | ho | ho <;> rw [ho] <;> rfl
  have hrd : insn.rd = fieldRd word := hrouted.rd (by
    rcases hops with ho | ho | ho | ho <;> rw [ho] <;> rfl)
  have hrn : insn.rn = fieldRn word := hrouted.rn (by
    rcases hops with ho | ho | ho | ho <;> rw [ho] <;> rfl)
  have hfirst : readG r insn.rn insn.rnIsSpForm insn.width = firstOperand word r := by
    unfold firstOperand
    rw [hrn, hrouted.src, hw]
  refine ⟨?_, RegisterResult.of_write hrd hrouted.dst hw ?_ (doAddSub_write r insn _ rfl)⟩
  · unfold dataProcessing
    rcases hops with ho | ho | ho | ho <;> rw [ho]
  · subst hm
    rw [hfirst, hw]
    rcases hops with ho | ho | ho | ho
    · rw [ho]
      exact low_sum _ _ _
    · rw [ho]
      exact low_sum _ _ _
    · rw [ho]
      exact low_sub _ _ _
    · rw [ho]
      exact low_sub _ _ _

theorem doLogical_write (r : Regs) (insn : Insn) (v : W64)
    (hv : v =
      if insn.op = .and ∨ insn.op = .ands ∨ insn.op = .bic ∨ insn.op = .bics then
        readG r insn.rn false insn.width &&&
          if insn.op = .bic ∨ insn.op = .bics ∨ insn.op = .orn ∨ insn.op = .eon then
            ~~~(operand2 r insn).2.1 else (operand2 r insn).2.1
      else if insn.op = .orr ∨ insn.op = .orn then
        readG r insn.rn false insn.width |||
          if insn.op = .bic ∨ insn.op = .bics ∨ insn.op = .orn ∨ insn.op = .eon then
            ~~~(operand2 r insn).2.1 else (operand2 r insn).2.1
      else
        readG r insn.rn false insn.width ^^^
          if insn.op = .bic ∨ insn.op = .bics ∨ insn.op = .orn ∨ insn.op = .eon then
            ~~~(operand2 r insn).2.1 else (operand2 r insn).2.1) :
    doLogical r insn = writeG r insn.rd false insn.width v ∨
      ∃ f, doLogical r insn = (writeG r insn.rd false insn.width v).setNzcv f := by
  subst hv
  unfold doLogical
  dsimp only
  by_cases hs : insn.op = .ands ∨ insn.op = .bics
  · rw [if_pos hs]
    exact .inr ⟨_, rfl⟩
  · rw [if_neg hs]
    exact .inl rfl

theorem logical_result (h : decode word pc = .ok insn) (hd : decodeLogicalShifted word = .ok insn)
    {m : BitVec (widthFromSf word).bits}
    (hm : low (widthFromSf word) (operand2 r insn).2.1 = m) :
    dataProcessing r insn = some (.ok, doLogical r insn) ∧
      RegisterResult word r (doLogical r insn)
        (aluOp insn.op (low (widthFromSf word) (firstOperand word r)) m) := by
  have hgroup := decodeLogicalShifted_group hd
  have hops : insn.op = .and ∨ insn.op = .orr ∨ insn.op = .eor ∨ insn.op = .bic ∨ insn.op = .orn ∨
      insn.op = .eon ∨ insn.op = .ands ∨ insn.op = .bics := by
    revert hgroup
    cases insn.op <;> decide
  have hdata : insn.op.family = .data := by
    rcases hops with ho | ho | ho | ho | ho | ho | ho | ho <;> rw [ho] <;> rfl
  obtain ⟨hw, hrd, hrn, -⟩ := decodeLogicalShifted_fields hd
  have hrouted := decode_routed h hdata
  have hplain : insn.rnIsSpForm = false ∧ insn.rdIsSpForm = false := by
    unfold decodeLogicalShifted at hd
    dsimp only at hd
    split at hd <;> cases hd
    exact ⟨rfl, rfl⟩
  have hfirst : readG r insn.rn false insn.width = firstOperand word r := by
    unfold firstOperand
    rw [hrn, ← hrouted.src, hplain.1, hw]
  refine ⟨?_, RegisterResult.of_write hrd (hplain.2.symm.trans hrouted.dst) hw ?_
    (doLogical_write r insn _ rfl)⟩
  · unfold dataProcessing
    rcases hops with ho | ho | ho | ho | ho | ho | ho | ho <;> rw [ho]
  · subst hm
    rw [hfirst]
    rcases hops with ho | ho | ho | ho | ho | ho | ho | ho
    · rw [ho]
      exact low_and _ _ _
    · rw [ho]
      exact low_or _ _ _
    · rw [ho]
      exact low_xor _ _ _
    · rw [ho]
      exact low_and_not _ _ _
    · rw [ho]
      exact low_or_not _ _ _
    · rw [ho]
      exact low_xor_not _ _ _
    · rw [ho]
      exact low_and _ _ _
    · rw [ho]
      exact low_and_not _ _ _

/-! ## variable shifts and windows -/

theorem low_read (r : Regs) (n : BitVec 5) (w : RegWidth) :
    (low w (r.read n w)).setWidth 64 = r.read n w := by
  rw [← truncate_low, truncate_read]

theorem hasRm_regs (h : decode word pc = .ok insn) (hdata : insn.op.family = .data)
    (hm : insn.op.hasRm = true) :
    insn.rd = fieldRd word ∧ insn.rn = fieldRn word ∧ insn.rm = fieldRm word ∧
      insn.width = destWidth word insn.op := by
  have hrouted := decode_routed h hdata
  obtain ⟨hrn, hrd, -⟩ := Opcode.hasRm_fields hm
  exact ⟨hrouted.rd hrd, hrouted.rn hrn, hrouted.rm (hrouted.kind hm), hrouted.width⟩

def Opcode.isShiftVariable : Opcode → Bool
  | .lslv | .lsrv | .asrv | .rorv => true
  | _ => false

/-- **the variable shifts** take their amount modulo the width -/
theorem shiftVariable_result (h : decode word pc = .ok insn)
    (hop : insn.op.isShiftVariable = true) (r : Regs) :
    dataProcessing r insn =
      some (.ok, r.write (fieldRd word) (widthFromSf word)
        ((shiftReg insn.op.shiftType
          (low (widthFromSf word) (r.read (fieldRn word) (widthFromSf word)))
          ((r.read (fieldRm word) (widthFromSf word)).toNat % (widthFromSf word).bits)).setWidth
            64)) := by
  have hops : insn.op = .lslv ∨ insn.op = .lsrv ∨ insn.op = .asrv ∨ insn.op = .rorv := by
    revert hop
    cases insn.op <;> decide
  have hdata : insn.op.family = .data := by
    rcases hops with ho | ho | ho | ho <;> rw [ho] <;> rfl
  obtain ⟨hrd, hrn, hrm, hw⟩ := hasRm_regs h hdata (by
    rcases hops with ho | ho | ho | ho <;> rw [ho] <;> rfl)
  have hw : insn.width = widthFromSf word := by
    rw [hw]
    rcases hops with ho | ho | ho | ho <;> rw [ho] <;> rfl
  have hrun : dataProcessing r insn = some (.ok, doShiftVariable r insn) := by
    unfold dataProcessing
    rcases hops with ho | ho | ho | ho <;> rw [ho]
  have htype : (if insn.op = .lslv then ShiftType.lsl else if insn.op = .lsrv then .lsr
      else if insn.op = .asrv then .asr else .ror) = insn.op.shiftType := by
    rcases hops with ho | ho | ho | ho <;> rw [ho] <;> rfl
  rw [hrun]
  unfold doShiftVariable
  dsimp only
  rw [htype, hw, hrn, hrm, hrd]
  show some (Status.ok, r.write _ _ _) = _
  have hread := truncate_read r (fieldRn word) (widthFromSf word)
  generalize widthFromSf word = w at hread ⊢
  have hlt : (readG r (fieldRm word) false w).toNat % w.bits < w.bits := Nat.mod_lt _ w.bits_pos
  congr 3
  by_cases h0 : (readG r (fieldRm word) false w).toNat % w.bits = 0
  · rw [if_pos h0]
    change _ = (shiftReg _ _ ((readG r (fieldRm word) false w).toNat % w.bits)).setWidth 64
    rw [h0, shiftReg_zero, low_read]
    show r.read (fieldRn word) w &&& widthMask w = _
    apply BitVec.eq_of_getLsbD_eq
    intro i _
    rw [BitVec.getLsbD_and, widthMask_bit, Bool.and_comm, ← truncate_bit, hread]
  · rw [if_neg h0]
    exact shiftOperand_shiftReg _ h0 hlt hread

theorem decodeExtract_fields (h : decodeExtract word = .ok insn) :
    insn.width = widthFromSf word ∧ insn.rd = fieldRd word ∧ insn.rn = fieldRn word ∧
      insn.rm = fieldRm word ∧ insn.shiftAmount = bits word 10 6 ∧ insn.op = .extr ∧
      bits word 10 6 < (widthFromSf word).bits := by
  unfold decodeExtract at h
  dsimp only at h
  split at h
  · cases h
  · split at h
    · cases h
    · split at h
      · cases h
      · rename_i hlt
        cases h
        exact ⟨rfl, rfl, rfl, rfl, rfl, rfl, Nat.not_le.mp hlt⟩

theorem window_bit {w : RegWidth} {hi lo : W64} {lsb : Nat} (hl : lsb < w.bits)
    (hlo : truncate lo w = lo) {i : Nat} (hi' : i < w.bits) :
    ((lo >>> lsb) ||| (hi <<< (w.bits - lsb))).getLsbD i =
      ((low w hi ++ low w lo).extractLsb' lsb w.bits).getLsbD i := by
  have hb := w.bits_le
  rw [BitVec.getLsbD_or, BitVec.getLsbD_ushiftRight, BitVec.getLsbD_shiftLeft,
    BitVec.getLsbD_extractLsb', BitVec.getLsbD_append, low_bit, low_bit, decide_eq_true hi',
    decide_eq_true (by omega : i < 64), Bool.true_and, Bool.true_and]
  by_cases h : lsb + i < w.bits
  · rw [if_pos h, decide_eq_true h, decide_eq_true (by omega : i < w.bits - lsb), Bool.true_and,
      Bool.not_true, Bool.false_and, Bool.or_false]
  · have hout : lo.getLsbD (lsb + i) = false := by
      rw [← hlo, truncate_bit, decide_eq_false h, Bool.false_and]
    rw [if_neg h, hout, Bool.false_or, decide_eq_false (by omega : ¬ i < w.bits - lsb),
      decide_eq_true (by omega : lsb + i - w.bits < w.bits), Bool.not_false, Bool.true_and,
      Bool.true_and]
    congr 1
    omega

/-- **the extraction** takes a window of the two sources side by side -/
theorem extr_result (h : decode word pc = .ok insn) (hop : insn.op = .extr) (r : Regs) :
    dataProcessing r insn =
      some (.ok, r.write (fieldRd word) (widthFromSf word)
        (((low (widthFromSf word) (r.read (fieldRn word) (widthFromSf word)) ++
          low (widthFromSf word) (r.read (fieldRm word) (widthFromSf word))).extractLsb'
            (bits word 10 6) (widthFromSf word).bits).setWidth 64)) := by
  have hsrc := decode_source h (by rw [hop]; rfl)
  rw [hop] at hsrc
  cases hsrc with
  | extract hd =>
    obtain ⟨hw, hrd, hrn, hrm, ha, -, hlt⟩ := decodeExtract_fields hd
    have hrun : dataProcessing r insn = some (.ok, doExtr r insn) := by
      unfold dataProcessing
      rw [hop]
    rw [hrun]
    unfold doExtr
    dsimp only
    rw [hw, hrn, hrm, hrd, ha]
    have hlo := truncate_read r (fieldRm word) (widthFromSf word)
    generalize widthFromSf word = w at hlo hlt ⊢
    generalize bits word 10 6 = lsb at hlt ⊢
    rw [writeG_low]
    show some (Status.ok, r.write _ _ _) = _
    refine congrArg (fun x : BitVec w.bits =>
      some (Status.ok, r.write (fieldRd word) w (x.setWidth 64))) ?_
    apply BitVec.eq_of_getLsbD_eq
    intro i hi
    rw [low_bit, decide_eq_true hi, Bool.true_and]
    by_cases h0 : lsb = 0
    · rw [if_pos h0, h0, BitVec.getLsbD_extractLsb', BitVec.getLsbD_append, Nat.zero_add,
        if_pos hi, low_bit, decide_eq_true hi, Bool.true_and, Bool.true_and]
      rfl
    · rw [if_neg h0, if_neg (Nat.ne_of_lt hlt)]
      exact window_bit hlt hlo hi

/-- a window of a value beside itself is a rotation -/
theorem extract_rotate {n : Nat} (x : BitVec n) {lsb : Nat} (hl : lsb < n) :
    (x ++ x).extractLsb' lsb n = x.rotateRight lsb := by
  apply BitVec.eq_of_getLsbD_eq
  intro i hi
  rw [BitVec.getLsbD_extractLsb', BitVec.getLsbD_append, BitVec.getLsbD_rotateRight_of_lt hl,
    decide_eq_true hi, Bool.true_and, Bool.true_and]
  by_cases h : i < n - lsb
  · rw [if_pos (by omega), decide_eq_true h, cond_true]
  · rw [if_neg (by omega), decide_eq_false h, cond_false]
    congr 1
    omega

/-! ## the forms of a word -/

def LogicalShifted (word : W32) : Prop := bits word 24 5 = 0x0A

theorem decode_dpRegister (hg : bits word 25 4 = 5) : decode word pc = decodeDpRegister word := by
  simp only [decode, hg]

theorem decode_logicalShifted (hl : LogicalShifted word) :
    decode word pc = decodeLogicalShifted word := by
  unfold LogicalShifted at hl
  have hg : bits word 25 4 = 5 := by
    unfold bits at *
    simp only [Nat.shiftRight_eq_div_pow] at *
    omega
  have h28 : bit word 28 = 0 := by
    unfold bit bits at *
    simp only [Nat.shiftRight_eq_div_pow] at *
    omega
  have hop2 : bits word 21 4 < 8 := by
    unfold bits at *
    simp only [Nat.shiftRight_eq_div_pow] at *
    omega
  rw [decode_dpRegister hg]
  unfold decodeDpRegister
  exact (if_pos h28).trans (if_pos hop2)

theorem decode_addSub (hl : bits word 24 5 = 0x0B) :
    decode word pc =
      if bit word 21 = 0 then decodeAddsubShifted word else decodeAddsubExtended word := by
  have hg : bits word 25 4 = 5 := by
    unfold bits at *
    simp only [Nat.shiftRight_eq_div_pow] at *
    omega
  have h28 : bit word 28 = 0 := by
    unfold bit bits at *
    simp only [Nat.shiftRight_eq_div_pow] at *
    omega
  have hop2 : 8 ≤ bits word 21 4 ∧ bits word 21 4 % 2 = bit word 21 := by
    unfold bit bits at *
    simp only [Nat.shiftRight_eq_div_pow] at *
    omega
  rw [decode_dpRegister hg]
  unfold decodeDpRegister
  dsimp only
  rw [if_pos h28, if_neg (Nat.not_lt.mpr hop2.1), hop2.2]
  rcases bit_cases word 21 with h | h
  · rw [h]
    rfl
  · rw [h]
    rfl

theorem decodeAddsubShifted_fields (h : decodeAddsubShifted word = .ok insn) :
    insn.width = widthFromSf word ∧ insn.rm = fieldRm word ∧
      insn.shiftType = shiftOf word ∧ insn.shiftAmount = bits word 10 6 ∧
      insn.operandKind = (if bits word 10 6 ≠ 0 then .regShifted else .reg) ∧
      bits word 10 6 < (widthFromSf word).bits ∧ insn.op.isAddSub = true := by
  have hlt := bits_lt word 10 6
  unfold decodeAddsubShifted at h
  dsimp only at h
  split at h
  · cases h
  · split at h
    · cases h
    · rename_i hw
      cases h
      refine ⟨rfl, rfl, toShiftType_bits word, rfl, rfl, ?_, (@addsub_isAddSub word _ _).1⟩
      cases hsf : widthFromSf word with
      | w32 =>
        rw [not_and, not_le] at hw
        exact hw hsf
      | w64 => exact hlt

theorem decodeAddsubExtended_fields (h : decodeAddsubExtended word = .ok insn) :
    insn.width = widthFromSf word ∧ insn.rm = fieldRm word ∧
      insn.extendType = toExtendType (bits word 13 3) ∧ insn.shiftAmount = bits word 10 3 ∧
      insn.operandKind = .regExtended ∧ bits word 10 3 ≤ 4 ∧ insn.op.isAddSub = true := by
  unfold decodeAddsubExtended at h
  dsimp only at h
  split at h
  · cases h
  · split at h
    · cases h
    · rename_i hvalid
      cases h
      refine ⟨rfl, rfl, rfl, rfl, rfl, ?_, (@addsub_isAddSub word _ _).1⟩
      unfold extendAmountValid at hvalid
      simpa using hvalid

/-- the shifted operand, whether the decoder marked it as shifted or as plain -/
theorem operand2_shifted (r : Regs) (hw : insn.width = widthFromSf word)
    (hrm : insn.rm = fieldRm word) (ht : insn.shiftType = shiftOf word)
    (ha : insn.shiftAmount = bits word 10 6)
    (hk : insn.operandKind = if bits word 10 6 ≠ 0 then .regShifted else .reg)
    (hlt : bits word 10 6 < (widthFromSf word).bits) :
    (operand2 r insn).1 = .ok ∧ (operand2 r insn).2.1 =
      (shiftReg (shiftOf word) (low (widthFromSf word) (r.read (fieldRm word) (widthFromSf word)))
        (bits word 10 6)).setWidth 64 := by
  unfold operand2
  rw [hk, hw, hrm, ht, ha]
  by_cases h0 : bits word 10 6 = 0
  · rw [if_neg (not_not.mpr h0), h0, shiftReg_zero, low_read]
    exact ⟨rfl, rfl⟩
  · rw [if_pos h0]
    exact ⟨rfl, shiftOperand_shiftReg _ h0 hlt (truncate_read _ _ _)⟩

/-! ## every form -/

/-- the instruction runs, with a result of the operand width -/
def Computes {σ ε : Type} (mem : Memops σ) (env : Option (EnvOps σ ε)) (word : W32) (insn : Insn)
    (cpu : Cpu) (s : σ × ε) (v : BitVec (widthFromSf word).bits) : Prop :=
  ∃ r, dispatchBus mem env cpu insn s = some ((.ok, { cpu with regs := r.advancePc }), s) ∧
    RegisterResult word cpu.regs r v

def shiftedRm (word : W32) (r : Regs) : BitVec (widthFromSf word).bits :=
  shiftReg (shiftOf word) (low (widthFromSf word) (r.read (fieldRm word) (widthFromSf word)))
    (bits word 10 6)

/-- the extension bits 15:13 name: the sign, and the length -/
def extendOf (word : W32) (x : W64) (n : Nat) : BitVec n :=
  let len := 8 * 2 ^ bits word 13 2
  if bit word 15 = 0 then (x.setWidth len).setWidth n else (x.setWidth len).signExtend n

def extendedRm (word : W32) (r : Regs) : BitVec (widthFromSf word).bits :=
  extendOf word (r.read (fieldRm word) .w64) (widthFromSf word).bits <<< bits word 10 3

theorem extendReg_of (word : W32) (n : Nat) (x : W64) (shift : Nat) :
    extendReg n (toExtendType (bits word 13 3)) x shift = extendOf word x n <<< shift := by
  have h : bits word 13 3 = 4 * bit word 15 + bits word 13 2 := by
    unfold bit bits
    simp only [Nat.shiftRight_eq_div_pow]
    omega
  have hlt : bits word 13 2 < 4 := bits_lt word 13 2
  unfold extendReg extendOf
  rw [h]
  rcases bit_cases word 15 with h1 | h1 <;> rw [h1] <;>
    generalize bits word 13 2 = size at hlt <;> interval_cases size <;> rfl

/-- what an instruction makes of its register operands -/
structure RegisterForms {σ ε : Type} (mem : Memops σ) (env : Option (EnvOps σ ε)) (word : W32)
    (insn : Insn) (cpu : Cpu) (s : σ × ε) : Prop where
  shifted : LogicalShifted word ∨ AddSubShifted word →
    bits word 10 6 < (widthFromSf word).bits ∧ (operand2 cpu.regs insn).1 = .ok ∧
      (operand2 cpu.regs insn).2.1 = (shiftedRm word cpu.regs).setWidth 64 ∧
      Computes mem env word insn cpu s
        (aluOp insn.op (low (widthFromSf word) (firstOperand word cpu.regs))
          (shiftedRm word cpu.regs))
  extended : AddSubExtended word →
    bits word 10 3 ≤ 4 ∧ (operand2 cpu.regs insn).1 = .ok ∧
      truncate (operand2 cpu.regs insn).2.1 (widthFromSf word) =
        (extendedRm word cpu.regs).setWidth 64 ∧
      Computes mem env word insn cpu s
        (aluOp insn.op (low (widthFromSf word) (firstOperand word cpu.regs))
          (extendedRm word cpu.regs))
  byRegister : insn.op.isShiftVariable = true →
    dispatchBus mem env cpu insn s =
      some ((.ok, { cpu with
        regs := (cpu.regs.write (fieldRd word) (widthFromSf word)
          ((shiftReg insn.op.shiftType
            (low (widthFromSf word) (cpu.regs.read (fieldRn word) (widthFromSf word)))
            ((cpu.regs.read (fieldRm word) (widthFromSf word)).toNat %
              (widthFromSf word).bits)).setWidth 64)).advancePc }), s)
  window : insn.op = .extr →
    bits word 10 6 < (widthFromSf word).bits ∧
    dispatchBus mem env cpu insn s =
      some ((.ok, { cpu with
        regs := (cpu.regs.write (fieldRd word) (widthFromSf word)
          (((low (widthFromSf word) (cpu.regs.read (fieldRn word) (widthFromSf word)) ++
            low (widthFromSf word) (cpu.regs.read (fieldRm word) (widthFromSf word))).extractLsb'
              (bits word 10 6) (widthFromSf word).bits).setWidth 64)).advancePc }), s)
  rotate : insn.op = .extr → fieldRn word = fieldRm word →
    dispatchBus mem env cpu insn s =
      some ((.ok, { cpu with
        regs := (cpu.regs.write (fieldRd word) (widthFromSf word)
          (((low (widthFromSf word) (cpu.regs.read (fieldRn word) (widthFromSf word))).rotateRight
            (bits word 10 6)).setWidth 64)).advancePc }), s)

/-- **register operands**: the shifted and the extended register of an addition, a subtraction or a
logical operation, the variable shifts, and the window of an extraction are those of the
architecture -/
theorem register_operands {σ ε : Type} (h : decode word pc = .ok insn) (mem : Memops σ)
    (env : Option (EnvOps σ ε)) (cpu : Cpu) (s : σ × ε) :
    RegisterForms mem env word insn cpu s := by
  have hwindow : insn.op = .extr → bits word 10 6 < (widthFromSf word).bits := by
    intro hop
    have hsrc := decode_source h (by rw [hop]; rfl)
    rw [hop] at hsrc
    cases hsrc with
    | extract hd => exact (decodeExtract_fields hd).2.2.2.2.2.2
  constructor
  · rintro (hl | ⟨ha, h21⟩)
    · have hd := (decode_logicalShifted hl).symm.trans h
      obtain ⟨hw, -, -, hrm, ht, ham, hk, hlt⟩ := decodeLogicalShifted_fields hd
      obtain ⟨hok, hval⟩ := operand2_shifted cpu.regs hw hrm ht ham hk hlt
      have hm : low (widthFromSf word) (operand2 cpu.regs insn).2.1 = shiftedRm word cpu.regs := by
        rw [hval, low_setWidth]
        rfl
      obtain ⟨hrun, hres⟩ := logical_result h hd hm
      have hdata := decodeLogicalShifted_family hd
      exact ⟨hlt, hok, hval, _, dispatchBus_data mem env cpu s hdata hrun, hres⟩
    · have hd := (decode_addSub ha).symm.trans h
      rw [if_pos h21] at hd
      obtain ⟨hw, hrm, ht, ham, hk, hlt, hop⟩ := decodeAddsubShifted_fields hd
      obtain ⟨hok, hval⟩ := operand2_shifted cpu.regs hw hrm ht ham hk hlt
      have hm : low (widthFromSf word) (operand2 cpu.regs insn).2.1 = shiftedRm word cpu.regs := by
        rw [hval, low_setWidth]
        rfl
      obtain ⟨hrun, hres⟩ := addSub_result h hop hm
      have hdata := decodeAddsubShifted_family hd
      exact ⟨hlt, hok, hval, _, dispatchBus_data mem env cpu s hdata hrun, hres⟩
  · rintro ⟨ha, h21⟩
    have hd := (decode_addSub ha).symm.trans h
    rw [if_neg (by rw [h21]; decide)] at hd
    obtain ⟨hw, hrm, ht, ham, hk, hlt, hop⟩ := decodeAddsubExtended_fields hd
    have hval : operand2 cpu.regs insn =
        (.ok, extendOperand (cpu.regs.read (fieldRm word) .w64) (toExtendType (bits word 13 3))
          (bits word 10 3), ⟨0, false, false⟩) := by
      unfold operand2
      rw [hk, hrm, ht, ham]
      rfl
    have hm : low (widthFromSf word) (operand2 cpu.regs insn).2.1 = extendedRm word cpu.regs := by
      rw [hval]
      exact (extendOperand_extendReg _ _ _ _).trans (extendReg_of word _ _ _)
    obtain ⟨hrun, hres⟩ := addSub_result h hop hm
    have hdata := decodeAddsubExtended_family hd
    refine ⟨hlt, congrArg Prod.fst hval, ?_, _, dispatchBus_data mem env cpu s hdata hrun, hres⟩
    rw [truncate_low, hm]
  · intro hop
    have hdata : insn.op.family = .data := by
      revert hop
      cases insn.op <;> decide
    exact dispatchBus_data mem env cpu s hdata (shiftVariable_result h hop cpu.regs)
  · intro hop
    exact ⟨hwindow hop, dispatchBus_data mem env cpu s (by rw [hop]; rfl)
      (extr_result h hop cpu.regs)⟩
  · intro hop heq
    have hrun := extr_result h hop cpu.regs
    rw [heq, extract_rotate _ (hwindow hop)] at hrun
    rw [heq]
    exact dispatchBus_data mem env cpu s (by rw [hop]; rfl) hrun

/-- `ADD X0, X1, W2, SXTB #2` -/
theorem register_operands_sxtb : ∃ insn, decode 0x8B228820 0 = .ok insn ∧
    AddSubExtended 0x8B228820 ∧
    ∀ cpu, RegisterForms Memory.memops (none : Option (EnvOps Memory Unit)) 0x8B228820 insn cpu
      (codeMemory 0x8B228820, ()) := by
  refine ⟨_, rfl, ⟨rfl, rfl⟩, fun cpu => ?_⟩
  exact @register_operands _ 0 _ _ _ rfl Memory.memops none cpu _

end Oemu
