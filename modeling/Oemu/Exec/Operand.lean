import Oemu.Decode.Operand
import Oemu.Exec.Total
import Oemu.Vcpu.Step

/-!
# Which registers data processing reads and writes

The architecture's account of an instruction of data processing has three parts: the operands, from
the register fields of the word; what the operation makes of them; and the one place the result goes
to.  Only the first and the last know register numbers.

* `Operands`, `archOperands`   the values the fields name, number 31 read as `SP` or as zero;
* `aluResult`                  what the operation makes of the values;
* `archWrite`                  where the result goes, and nothing else changes;
* `dataProcessing_arch`        the executor does this, except that a logical immediate with
                               destination 31 is discarded;
* `dispatchBus_arch_iff`       which words meet the account in every state of the processor.
-/

namespace Oemu

/-! ## the account -/

/-- the value a register number names -/
def archReg (r : Regs) (n : BitVec 5) (spForm : Bool) : W64 :=
  match Regs.index n with
  | some i => r.x i
  | none => if spForm then r.sp else 0

/-- the sources of an instruction: `Rn`, `Rm`, `Ra`, the old `Rd` and the flags -/
structure Operands where
  n : W64
  m : W64
  a : W64
  d : W64
  nzcv : W32

def archOperands (word : W32) (r : Regs) : Operands where
  n := archReg r (fieldRn word) (decide (SpSrc word))
  m := archReg r (fieldRm word) false
  a := archReg r (fieldRa word) false
  d := archReg r (fieldRd word) false
  nzcv := r.nzcv.bits

def secondOperand (insn : Insn) (m : W64) : W64 × ShiftResult :=
  match insn.operandKind with
  | .imm => (insn.uimm, ⟨0, false, false⟩)
  | .reg => (truncate m insn.width, ⟨0, false, false⟩)
  | .regShifted =>
    let s := shiftOperand (truncate m insn.width) insn.shiftType insn.shiftAmount insn.width
    (s.value, s)
  | .regExtended => (extendOperand m insn.extendType insn.shiftAmount, ⟨0, false, false⟩)
  | .none => (0, ⟨0, false, false⟩)
  | .mem => (0, ⟨0, false, false⟩)

def addSubResult (insn : Insn) (o : Operands) : AluResult :=
  let m := (secondOperand insn o.m).1
  let sub := insn.op = .sub ∨ insn.op = .subs
  addWithCarry (truncate o.n insn.width) (if sub then ~~~m else m) (decide sub) insn.width

def carryResult (insn : Insn) (o : Operands) : AluResult :=
  let m := truncate o.m insn.width
  let sub := insn.op = .sbc ∨ insn.op = .sbcs
  addWithCarry (truncate o.n insn.width) (if sub then ~~~m else m) (o.nzcv &&& nzcvC != 0) insn.width

def logicalResult (insn : Insn) (o : Operands) : W64 :=
  let n := truncate o.n insn.width
  let m := (secondOperand insn o.m).1
  let negated := insn.op = .bic ∨ insn.op = .bics ∨ insn.op = .orn ∨ insn.op = .eon
  let m := if negated then ~~~m else m
  if insn.op = .and ∨ insn.op = .ands ∨ insn.op = .bic ∨ insn.op = .bics then n &&& m
  else if insn.op = .orr ∨ insn.op = .orn then n ||| m
  else n ^^^ m

def bitfieldResult (insn : Insn) (o : Operands) : W64 :=
  let bits := insn.width.bits
  let lsb := insn.shiftAmount
  let msb := insn.bitPos
  let len := if msb < lsb then bits - lsb + msb + 1 else msb - lsb + 1
  let mask : W64 := if len = bits then widthMask insn.width else ((1 : W64) <<< len) - 1
  let fld := bitfieldExtract (truncate o.n insn.width) lsb msb insn.width &&& mask
  if insn.op = .bfm then
    let bottom := if msb < lsb then bits - lsb else 0
    let fbits := len - bottom
    let dm : W64 :=
      if fbits = bits then widthMask insn.width else (((1 : W64) <<< fbits) - 1) <<< bottom
    (truncate o.d insn.width &&& ~~~dm) ||| (fld &&& dm)
  else if insn.op = .sbfm ∧ (fld >>> (len - 1)) &&& 1 ≠ 0 then
    fld ||| (widthMask insn.width &&& ~~~mask)
  else fld

def extrResult (insn : Insn) (o : Operands) : W64 :=
  let lo := truncate o.m insn.width
  let hi := truncate o.n insn.width
  if insn.shiftAmount = 0 then lo
  else
    (lo >>> insn.shiftAmount) |||
      (if insn.shiftAmount = insn.width.bits then hi
       else hi <<< (insn.width.bits - insn.shiftAmount))

def shiftVariableResult (insn : Insn) (o : Operands) : W64 :=
  let src := truncate o.n insn.width
  let amt := (truncate o.m insn.width).toNat % insn.width.bits
  if amt = 0 then src &&& widthMask insn.width
  else
    let type : ShiftType :=
      if insn.op = .lslv then .lsl
      else if insn.op = .lsrv then .lsr
      else if insn.op = .asrv then .asr
      else .ror
    (shiftOperand src type amt insn.width).value

def mulAddLongResult (insn : Insn) (o : Operands) : W64 :=
  let sgn := insn.op = .smaddl ∨ insn.op = .smsubl
  let add := insn.op = .smaddl ∨ insn.op = .umaddl
  let n := truncate o.n .w32
  let m := truncate o.m .w32
  let prod : W64 :=
    if sgn then (n.setWidth 32).signExtend 64 * (m.setWidth 32).signExtend 64
    else (n &&& 0xFFFFFFFF) * (m &&& 0xFFFFFFFF)
  if add then o.a + prod else o.a - prod

def cselResult (insn : Insn) (o : Operands) : W64 :=
  let b := truncate o.m insn.width
  if condHolds o.nzcv insn.cond then truncate o.n insn.width
  else if insn.op = .csinc then b + 1
  else if insn.op = .csinv then ~~~b
  else if insn.op = .csneg then 0 - b
  else b

def ccmpResult (insn : Insn) (o : Operands) : W32 :=
  if !condHolds o.nzcv insn.cond then (insn.uimm <<< 28).setWidth 32
  else
    let n := truncate o.n insn.width
    let m := if insn.operandKind = .imm then insn.imm else truncate o.m insn.width
    if insn.op = .ccmp then (addWithCarry n (~~~m) true insn.width).nzcv
    else (addWithCarry n m false insn.width).nzcv

/-- the result and the flags an operation makes of its operands, where it makes any -/
def aluResult (insn : Insn) (o : Operands) : Option W64 × Option W32 :=
  let n := truncate o.n insn.width
  let m := truncate o.m insn.width
  match insn.op with
  | .add | .sub | .adds | .subs =>
    (some (addSubResult insn o).value,
      if insn.setsFlags then some (addSubResult insn o).nzcv else none)
  | .adc | .sbc => (some (carryResult insn o).value, none)
  | .adcs | .sbcs => (some (carryResult insn o).value, some (carryResult insn o).nzcv)
  | .and | .orr | .eor | .bic | .orn | .eon => (some (logicalResult insn o), none)
  | .ands | .bics =>
    let shiftedRef :=
      if insn.operandKind = .regShifted then some (secondOperand insn o.m).2 else none
    (some (logicalResult insn o),
      some (logicalFlags o.nzcv (logicalResult insn o) insn shiftedRef))
  | .movz => (some insn.uimm, none)
  | .movn => (some (~~~insn.uimm), none)
  | .movk =>
    let mask : W64 := (0xFFFF : W64) <<< insn.shiftAmount
    (some ((truncate o.d insn.width &&& ~~~mask) ||| (insn.uimm &&& mask)), none)
  | .adr | .adrp => (some insn.imm, none)
  | .sbfm | .bfm | .ubfm => (some (bitfieldResult insn o), none)
  | .extr => (some (extrResult insn o), none)
  | .lslv | .lsrv | .asrv | .rorv => (some (shiftVariableResult insn o), none)
  | .crc32 | .crc32c =>
    (some ((crc32 ((truncate o.n .w32).setWidth 32) o.m (insn.uimm.toNat % 2 ^ 32)
      (decide (insn.op = .crc32c))).setWidth 64), none)
  | .rbit => (some (rbit n insn.width), none)
  | .clz => (some (clz n insn.width), none)
  | .cls => (some (cls n insn.width), none)
  | .rev => (some (rev n insn.width), none)
  | .rev16 => (some (rev16 n insn.width), none)
  | .rev32 => (some (rev32 n), none)
  | .udiv | .sdiv => (some (quotient n m (decide (insn.op = .sdiv)) insn.width), none)
  | .madd => (some (truncate o.a insn.width + n * m), none)
  | .msub => (some (truncate o.a insn.width - n * m), none)
  | .smaddl | .smsubl | .umaddl | .umsubl => (some (mulAddLongResult insn o), none)
  | .smulh => (some (smulh o.n o.m), none)
  | .umulh => (some (umulh o.n o.m), none)
  | .csel | .csinc | .csinv | .csneg => (some (cselResult insn o), none)
  | .ccmp | .ccmn => (none, some (ccmpResult insn o))
  | _ => (none, none)

/-- a result goes to `Rd`: to a general register, to `SP`, or nowhere -/
def archDest (word : W32) (width : RegWidth) (r : Regs) (v : W64) : Regs :=
  { r with
    x := fun i => if Regs.index (fieldRd word) = some i then truncate v width else r.x i
    sp := if Regs.index (fieldRd word) = none ∧ SpDst word then truncate v width else r.sp }

def archWrite (word : W32) (width : RegWidth) (r : Regs) (res : Option W64 × Option W32) : Regs :=
  let r :=
    match res.1 with
    | some v => archDest word width r v
    | none => r
  match res.2 with
  | some f => r.setNzcv f
  | none => r

/-- the register file after an instruction, by the account -/
def archData (word : W32) (insn : Insn) (r : Regs) : Regs :=
  let width := destWidth word insn.op
  archWrite word width r (aluResult { insn with width := width } (archOperands word r))

/-! ## one access -/

variable {word : W32} {pc : W64} {insn : Insn}

theorem readG_arch (r : Regs) (n : BitVec 5) (b : Bool) (w : RegWidth) :
    readG r n b w = truncate (archReg r n b) w := by
  have h0 : truncate 0 w = 0 := by cases w <;> rfl
  unfold readG archReg Regs.read Regs.readSpForm
  cases b with
  | true =>
    rw [if_pos rfl]
    cases Regs.index n with
    | some i => rfl
    | none => rfl
  | false =>
    rw [if_neg Bool.false_ne_true]
    cases Regs.index n with
    | some i => rfl
    | none => exact h0.symm

theorem archDest_some {r : Regs} {w : RegWidth} {v : W64} {i : Fin 31}
    (hi : Regs.index (fieldRd word) = some i) :
    archDest word w r v = { r with x := Function.update r.x i (truncate v w) } := by
  have hx : (fun j => if some i = some j then truncate v w else r.x j) =
      Function.update r.x i (truncate v w) := by
    funext j
    by_cases hj : j = i
    · rw [hj, Function.update_self, if_pos rfl]
    · rw [Function.update_of_ne hj, if_neg fun he => hj (Option.some.inj he).symm]
  unfold archDest
  rw [hi, hx, if_neg (not_and_of_not_left _ (Option.some_ne_none i))]

theorem archDest_none {r : Regs} {w : RegWidth} {v : W64}
    (hi : Regs.index (fieldRd word) = none) :
    archDest word w r v = if SpDst word then { r with sp := truncate v w } else r := by
  have hx : (fun j => if none = some j then truncate v w else r.x j) = r.x := by
    funext j
    rw [if_neg (Option.some_ne_none j).symm]
  unfold archDest
  rw [hi, hx]
  by_cases hs : SpDst word
  · rw [if_pos ⟨rfl, hs⟩, if_pos hs]
  · rw [if_neg (not_and_of_not_right _ hs), if_neg hs]

theorem writeG_arch (r : Regs) (w : RegWidth) (v : W64) :
    writeG r (fieldRd word) (decide (SpDst word)) w v = archDest word w r v := by
  unfold writeG Regs.write Regs.writeSpForm
  cases hi : Regs.index (fieldRd word) with
  | some i =>
    rw [archDest_some hi]
    split <;> rfl
  | none =>
    rw [archDest_none hi]
    by_cases hs : SpDst word
    · rw [if_pos (decide_eq_true hs), if_pos hs]
    · rw [decide_eq_false hs, if_neg Bool.false_ne_true, if_neg hs]

/-- a logical immediate with destination 31: the result belongs to the stack pointer -/
def LogicalToSp (word : W32) : Prop :=
  LogicalImm word ∧ bits word 29 2 ≠ 3 ∧ bits word 0 5 = 31

theorem index_field_none {n : Nat} (h : Regs.index (field word n) = none) :
    bits word n 5 = 31 := by
  have hb := bits_lt word n 5
  have hn : (field word n).toNat = bits word n 5 := by
    unfold field
    rw [BitVec.toNat_ofNat, Nat.mod_eq_of_lt hb]
  unfold Regs.index at h
  rw [hn] at h
  by_cases hc : bits word n 5 < 31
  · rw [dif_pos hc] at h
    cases h
  · omega

/-- off the logical immediates, the plain accessor writes where the account says -/
theorem writeG_plain_arch (r : Regs) (w : RegWidth) (v : W64) (hs : ¬ SpSrc word)
    (hg : ¬ LogicalToSp word) : writeG r (fieldRd word) false w v = archDest word w r v := by
  by_cases hd : SpDst word
  · rcases hd with ⟨h, -⟩ | ⟨hl, h3⟩
    · exact absurd h hs
    · rw [← writeG_arch, writeG, writeG, if_neg Bool.false_ne_true,
        if_pos (decide_eq_true (show SpDst word from .inr ⟨hl, h3⟩))]
      unfold Regs.write Regs.writeSpForm
      cases hi : Regs.index (fieldRd word) with
      | some i => rfl
      | none => exact absurd ⟨hl, h3, index_field_none hi⟩ hg
  · rw [← writeG_arch, decide_eq_false hd]

/-! ## the arms -/

namespace Routed

variable (h : Routed word insn) (r : Regs)
include h

theorem plain (hp : insn.op.isAddSub = false) : ¬ SpSrc word := by
  intro hs
  rw [h.addsub hs] at hp
  cases hp

theorem readN (hn : insn.op.hasRn = true) (hp : insn.op.isAddSub = false) (w : RegWidth) :
    readG r insn.rn false w = truncate (archOperands word r).n w := by
  rw [h.rn hn, readG_arch]
  unfold archOperands
  rw [decide_eq_false (h.plain hp)]

theorem readM (hm : insn.operandKind.isReg = true) (w : RegWidth) :
    readG r insn.rm false w = truncate (archOperands word r).m w := by
  rw [h.rm hm, readG_arch]
  rfl

theorem readA (ha : insn.op.hasRa = true) (w : RegWidth) :
    readG r insn.ra false w = truncate (archOperands word r).a w := by
  rw [h.ra ha, readG_arch]
  rfl

theorem readD (hd : insn.op.hasRd = true) (w : RegWidth) :
    readG r insn.rd false w = truncate (archOperands word r).d w := by
  rw [h.rd hd, readG_arch]
  rfl

theorem operand2 : (operand2 r insn).2 = secondOperand insn (archOperands word r).m := by
  unfold Oemu.operand2 secondOperand
  cases hk : insn.operandKind with
  | imm => rfl
  | reg =>
    dsimp only
    rw [h.readM r (by rw [hk]; rfl)]
  | regShifted =>
    dsimp only
    rw [h.readM r (by rw [hk]; rfl)]
  | regExtended =>
    dsimp only
    rw [h.readM r (by rw [hk]; rfl)]
    rfl
  | none => rfl
  | mem => rfl

theorem write (hd : insn.op.hasRd = true) (hp : insn.op.isAddSub = false)
    (hg : ¬ LogicalToSp word) (w : RegWidth) (v : W64) :
    writeG r insn.rd false w v = archDest word w r v := by
  rw [h.rd hd, writeG_plain_arch r w v (h.plain hp) hg]

end Routed

/-- add and subtract go through the flags of the record -/
theorem Opcode.addSub_fields {op : Opcode} (hp : op.isAddSub = true) :
    op.hasRn = true ∧ op.hasRd = true := by
  cases op <;> first | exact ⟨rfl, rfl⟩ | cases hp

/-- the opcodes with two register sources have a destination, and are not add or subtract -/
theorem Opcode.hasRm_fields {op : Opcode} (hm : op.hasRm = true) :
    op.hasRn = true ∧ op.hasRd = true ∧ op.isAddSub = false := by
  cases op <;> first | exact ⟨rfl, rfl, rfl⟩ | cases hm

section Arms

variable (h : Routed word insn) (r : Regs)
include h

theorem doAddSub_arch (hp : insn.op.isAddSub = true) :
    doAddSub r insn = archWrite word insn.width r
      (some (addSubResult insn (archOperands word r)).value,
        if insn.setsFlags then some (addSubResult insn (archOperands word r)).nzcv else none) := by
  obtain ⟨hrn, hrd⟩ := Opcode.addSub_fields hp
  unfold doAddSub archWrite addSubResult
  dsimp only
  rw [h.operand2, h.rn hrn, h.rd hrd, h.src, h.dst, readG_arch, writeG_arch]
  split <;> rfl

variable (hg : ¬ LogicalToSp word)
include hg

theorem doAddSubCarry_arch (hm : insn.op.hasRm = true) :
    doAddSubCarry r insn = archWrite word insn.width r
      (some (carryResult insn (archOperands word r)).value,
        if insn.op = .adcs ∨ insn.op = .sbcs then
          some (carryResult insn (archOperands word r)).nzcv
        else none) := by
  obtain ⟨hrn, hrd, hp⟩ := Opcode.hasRm_fields hm
  unfold doAddSubCarry archWrite carryResult
  dsimp only
  rw [h.readM r (h.kind hm), h.readN r hrn hp, h.write r hrd hp hg]
  split <;> rfl

theorem doLogical_arch (hrn : insn.op.hasRn = true) (hrd : insn.op.hasRd = true)
    (hp : insn.op.isAddSub = false) :
    doLogical r insn = archWrite word insn.width r
      (some (logicalResult insn (archOperands word r)),
        if insn.op = .ands ∨ insn.op = .bics then
          some (logicalFlags r.nzcv.bits (logicalResult insn (archOperands word r)) insn
            (if insn.operandKind = .regShifted then
              some (secondOperand insn (archOperands word r).m).2
            else none))
        else none) := by
  have hw : ∀ v, (archDest word insn.width r v).nzcv = r.nzcv := fun _ => rfl
  unfold doLogical archWrite logicalResult
  rw [← h.operand2 r]
  dsimp only
  rw [h.readN r hrn hp, h.write r hrd hp hg, hw]
  split <;> rfl

theorem doMovk_arch (hrd : insn.op.hasRd = true) (hp : insn.op.isAddSub = false) :
    doMovk r insn = archDest word insn.width r
      ((truncate (archOperands word r).d insn.width &&& ~~~((0xFFFF : W64) <<< insn.shiftAmount)) |||
        (insn.uimm &&& ((0xFFFF : W64) <<< insn.shiftAmount))) := by
  unfold doMovk
  dsimp only
  rw [h.readD r hrd, h.write r hrd hp hg]

theorem doBitfield_arch (hwf : insn.WellFormed) (hrn : insn.op.hasRn = true)
    (hrd : insn.op.hasRd = true) (hp : insn.op.isAddSub = false) :
    doBitfield r insn =
      (.ok, archDest word insn.width r (bitfieldResult insn (archOperands word r))) := by
  unfold doBitfield bitfieldResult
  dsimp only
  rw [if_neg (by rw [not_or, not_le, not_le]; exact ⟨hwf.amount, hwf.position⟩),
    h.readN r hrn hp, h.readD r hrd, h.write r hrd hp hg]

theorem doExtr_arch (hm : insn.op.hasRm = true) :
    doExtr r insn = archDest word insn.width r (extrResult insn (archOperands word r)) := by
  obtain ⟨hrn, hrd, hp⟩ := Opcode.hasRm_fields hm
  unfold doExtr extrResult
  dsimp only
  rw [h.readM r (h.kind hm), h.readN r hrn hp, h.write r hrd hp hg]

theorem doShiftVariable_arch (hm : insn.op.hasRm = true) :
    doShiftVariable r insn =
      archDest word insn.width r (shiftVariableResult insn (archOperands word r)) := by
  obtain ⟨hrn, hrd, hp⟩ := Opcode.hasRm_fields hm
  unfold doShiftVariable shiftVariableResult
  dsimp only
  rw [h.readM r (h.kind hm), h.readN r hrn hp, h.write r hrd hp hg]

theorem doCrc32_arch (hm : insn.op.hasRm = true) :
    doCrc32 r insn = archDest word .w32 r
      ((crc32 ((truncate (archOperands word r).n .w32).setWidth 32) (archOperands word r).m
        (insn.uimm.toNat % 2 ^ 32) (decide (insn.op = .crc32c))).setWidth 64) := by
  obtain ⟨hrn, hrd, hp⟩ := Opcode.hasRm_fields hm
  unfold doCrc32
  dsimp only
  rw [h.readM r (h.kind hm), h.readN r hrn hp, h.write r hrd hp hg]
  rfl

theorem doOneSource_arch (f : W64 → W64) (hrn : insn.op.hasRn = true)
    (hrd : insn.op.hasRd = true) (hp : insn.op.isAddSub = false) :
    doOneSource r insn f =
      archDest word insn.width r (f (truncate (archOperands word r).n insn.width)) := by
  unfold doOneSource
  rw [h.readN r hrn hp, h.write r hrd hp hg]

theorem doDiv_arch (hm : insn.op.hasRm = true) :
    doDiv r insn = archDest word insn.width r
      (quotient (truncate (archOperands word r).n insn.width)
        (truncate (archOperands word r).m insn.width) (decide (insn.op = .sdiv)) insn.width) := by
  obtain ⟨hrn, hrd, hp⟩ := Opcode.hasRm_fields hm
  unfold doDiv
  dsimp only
  rw [h.readM r (h.kind hm), h.readN r hrn hp, h.write r hrd hp hg]

theorem doMulAdd_arch (hm : insn.op.hasRm = true) (ha : insn.op.hasRa = true) :
    doMulAdd r insn = archDest word insn.width r
      (if insn.op = .madd then
        truncate (archOperands word r).a insn.width +
          truncate (archOperands word r).n insn.width * truncate (archOperands word r).m insn.width
      else
        truncate (archOperands word r).a insn.width -
          truncate (archOperands word r).n insn.width *
            truncate (archOperands word r).m insn.width) := by
  obtain ⟨hrn, hrd, hp⟩ := Opcode.hasRm_fields hm
  unfold doMulAdd
  dsimp only
  rw [h.readM r (h.kind hm), h.readN r hrn hp, h.readA r ha, h.write r hrd hp hg]

theorem doMulAddLong_arch (hm : insn.op.hasRm = true) (ha : insn.op.hasRa = true) :
    doMulAddLong r insn =
      archDest word .w64 r (mulAddLongResult insn (archOperands word r)) := by
  obtain ⟨hrn, hrd, hp⟩ := Opcode.hasRm_fields hm
  unfold doMulAddLong mulAddLongResult
  dsimp only
  rw [h.readM r (h.kind hm), h.readN r hrn hp, h.readA r ha, h.write r hrd hp hg]
  rfl

theorem doMulHigh_arch (f : W64 → W64 → W64) (hm : insn.op.hasRm = true) :
    doMulHigh r insn f =
      archDest word .w64 r (f (archOperands word r).n (archOperands word r).m) := by
  obtain ⟨hrn, hrd, hp⟩ := Opcode.hasRm_fields hm
  unfold doMulHigh
  rw [h.readM r (h.kind hm), h.readN r hrn hp, h.write r hrd hp hg]
  rfl

theorem doCsel_arch (hm : insn.op.hasRm = true) :
    doCsel r insn = archDest word insn.width r (cselResult insn (archOperands word r)) := by
  obtain ⟨hrn, hrd, hp⟩ := Opcode.hasRm_fields hm
  unfold doCsel cselResult Regs.condHolds
  dsimp only
  rw [h.readM r (h.kind hm), h.readN r hrn hp, h.write r hrd hp hg]
  rfl

omit hg in
theorem doCcmp_arch (hrn : insn.op.hasRn = true) (hrd : insn.op.hasRd = false)
    (hp : insn.op.isAddSub = false) :
    doCcmp r insn = r.setNzcv (ccmpResult insn (archOperands word r)) := by
  have hm : (if insn.operandKind = .imm then insn.imm else readG r insn.rm false insn.width) =
      if insn.operandKind = .imm then insn.imm
      else truncate (archOperands word r).m insn.width := by
    rcases h.compared hrd with hk | hk
    · rw [if_pos hk, if_pos hk]
    · rw [h.readM r hk]
  unfold doCcmp ccmpResult Regs.condHolds
  dsimp only
  rw [hm, h.readN r hrn hp]
  by_cases hc : (!condHolds r.nzcv.bits insn.cond) = true
  · rw [if_pos hc, if_pos (show (!condHolds (archOperands word r).nzcv insn.cond) = true from hc)]
  · rw [if_neg hc, if_neg (show ¬ (!condHolds (archOperands word r).nzcv insn.cond) = true from hc)]
    by_cases hop : insn.op = .ccmp
    · rw [if_pos hop, if_pos hop]
    · rw [if_neg hop, if_neg hop]

end Arms

/-! ## the switch -/

/-- **the executor follows the account, off the logical immediates with destination 31** -/
theorem dataProcessing_arch (h : Routed word insn) (hwf : insn.WellFormed)
    (hop : insn.op.family = .data) (hg : ¬ LogicalToSp word) (r : Regs) :
    dataProcessing r insn = some (.ok, archData word insn r) := by
  have hw : ({ insn with width := destWidth word insn.op } : Insn) = insn := by
    rw [← h.width]
  unfold archData
  dsimp only
  rw [hw, ← h.width]
  have hwidth := h.width
  unfold dataProcessing aluResult
  cases ho : insn.op <;> rw [ho] at hop hwidth <;> cases hop <;> dsimp only
  case add | sub | adds | subs => rw [doAddSub_arch h r (by rw [ho]; rfl)]
  case adc | sbc => 
    rw [doAddSubCarry_arch h r hg (by rw [ho]; rfl), ho]
    rfl
  case adcs | sbcs =>
    rw [doAddSubCarry_arch h r hg (by rw [ho]; rfl), ho]
    rfl
  case and | orr | eor | bic | orn | eon | ands | bics =>
    rw [doLogical_arch h r hg (by rw [ho]; rfl) (by rw [ho]; rfl) (by rw [ho]; rfl), ho]
    rfl
  case movz | movn | adr | adrp =>
    rw [h.write r (by rw [ho]; rfl) (by rw [ho]; rfl) hg]
    rfl
  case movk =>
    rw [doMovk_arch h r hg (by rw [ho]; rfl) (by rw [ho]; rfl)]
    rfl
  case sbfm | bfm | ubfm =>
    rw [doBitfield_arch h r hg hwf (by rw [ho]; rfl) (by rw [ho]; rfl) (by rw [ho]; rfl)]
    rfl
  case extr =>
    rw [doExtr_arch h r hg (by rw [ho]; rfl)]
    rfl
  case lslv | lsrv | asrv | rorv =>
    rw [doShiftVariable_arch h r hg (by rw [ho]; rfl)]
    rfl
  case crc32 | crc32c =>
    rw [doCrc32_arch h r hg (by rw [ho]; rfl), hwidth, ho]
    rfl
  case rbit | clz | cls | rev | rev16 | rev32 =>
    rw [doOneSource_arch h r hg _ (by rw [ho]; rfl) (by rw [ho]; rfl) (by rw [ho]; rfl)]
    rfl
  case udiv | sdiv =>
    rw [doDiv_arch h r hg (by rw [ho]; rfl), ho]
    rfl
  case madd | msub =>
    rw [doMulAdd_arch h r hg (by rw [ho]; rfl) (by rw [ho]; rfl), ho]
    rfl
  case smaddl | smsubl | umaddl | umsubl =>
    rw [doMulAddLong_arch h r hg (by rw [ho]; rfl) (by rw [ho]; rfl), hwidth]
    rfl
  case smulh | umulh =>
    rw [doMulHigh_arch h r hg _ (by rw [ho]; rfl), hwidth]
    rfl
  case csel | csinc | csinv | csneg =>
    rw [doCsel_arch h r hg (by rw [ho]; rfl)]
    rfl
  case ccmp | ccmn =>
    rw [doCcmp_arch h r (by rw [ho]; rfl) (by rw [ho]; rfl) (by rw [ho]; rfl)]
    rfl

theorem dispatchBus_data {σ ε : Type} (mem : Memops σ) (env : Option (EnvOps σ ε)) (cpu : Cpu)
    (s : σ × ε) (hop : insn.op.family = .data) {r : Regs}
    (hd : dataProcessing cpu.regs insn = some (.ok, r)) :
    dispatchBus mem env cpu insn s = some ((.ok, { cpu with regs := r.advancePc }), s) := by
  have hsvc : insn.op ≠ .svc := by
    intro h
    rw [h] at hop
    cases hop
  have hpure : dispatchShared mem cpu insn = pure (dispatchPure cpu insn) := by
    unfold dispatchShared
    cases ho : insn.op <;> rw [ho] at hop <;> cases hop
  have hres : dispatchPure cpu insn = (.ok, { cpu with regs := r.advancePc }) := by
    unfold dispatchPure
    rw [hd]
    rfl
  unfold dispatchBus
  rw [if_neg hsvc, hpure, hres]
  rfl

/-! ## the logical immediates with destination 31 -/

section ToSp

/-- what the decoder makes of a logical immediate that does not set flags -/
theorem decode_logicalToSp (h : decode word pc = .ok insn) (hop : insn.op.family = .data)
    (hl : LogicalToSp word) :
    (insn.op = .and ∨ insn.op = .orr ∨ insn.op = .eor) ∧ Regs.index insn.rd = none ∧
      Regs.index (fieldRd word) = none := by
  obtain ⟨hlog, h3, h31⟩ := hl
  have hidx : Regs.index (fieldRd word) = none := by
    unfold Regs.index fieldRd field
    rw [h31]
    rfl
  have hrd := (decode_routed h hop).rd
  have hops : insn.op = .and ∨ insn.op = .orr ∨ insn.op = .eor := by
    rcases decode_data h hop with ⟨hg, hd⟩ | ⟨hg, -⟩
    · have hclass := (immClass hg).1
      unfold LogicalImm at hlog
      have h4 : bits word 23 3 = 4 := by omega
      have hform : decodeLogicalImm word = .ok insn := by
        unfold decodeDpImmediate at hd
        rw [h4] at hd
        exact hd
      unfold decodeLogicalImm at hform
      dsimp only at hform
      split at hform
      · cases hform
      · cases hform
        dsimp only
        split
        · exact .inl rfl
        · exact .inr (.inl rfl)
        · exact .inr (.inr rfl)
        · case _ h0 h1 h2 =>
          have hb : bits word 29 2 < 4 := bits_lt word 29 2
          have h0' : bits word 29 2 ≠ 0 := h0
          have h1' : bits word 29 2 ≠ 1 := h1
          have h2' : bits word 29 2 ≠ 2 := h2
          omega
    · exact absurd hlog (regClass hg).2.1
  refine ⟨hops, ?_, hidx⟩
  rw [hrd (by rcases hops with ho | ho | ho <;> rw [ho] <;> rfl)]
  exact hidx

theorem dataProcessing_discard (hops : insn.op = .and ∨ insn.op = .orr ∨ insn.op = .eor)
    (hidx : Regs.index insn.rd = none) (r : Regs) : dataProcessing r insn = some (.ok, r) := by
  have hw : ∀ v, writeG r insn.rd false insn.width v = r := by
    intro v
    unfold writeG Regs.write
    rw [if_neg Bool.false_ne_true, hidx]
  have hlog : doLogical r insn = r := by
    unfold doLogical
    dsimp only
    rw [hw, if_neg]
    rcases hops with ho | ho | ho <;> rw [ho] <;> decide
  unfold dataProcessing
  rcases hops with ho | ho | ho <;> rw [ho] <;> dsimp only <;> rw [hlog]

theorem archData_toSp (hops : insn.op = .and ∨ insn.op = .orr ∨ insn.op = .eor)
    (hidx : Regs.index (fieldRd word) = none) (hd : SpDst word) (r : Regs) :
    (archData word insn r).sp = truncate
      (logicalResult { insn with width := destWidth word insn.op } (archOperands word r))
      (destWidth word insn.op) := by
  unfold archData archWrite aluResult
  rcases hops with ho | ho | ho <;> dsimp only <;> rw [ho] <;> dsimp only <;>
    rw [archDest_none hidx, if_pos hd]

/-- the sources do not include the stack pointer -/
theorem archOperands_sp (hs : ¬ SpSrc word) (r : Regs) (v : W64) :
    archOperands word { r with sp := v } = archOperands word r := by
  have hreg : ∀ n, archReg { r with sp := v } n false = archReg r n false := by
    intro n
    unfold archReg
    cases Regs.index n with
    | some i => rfl
    | none => rfl
  unfold archOperands
  rw [decide_eq_false hs, hreg, hreg, hreg, hreg]

/-- a state in which the two differ -/
theorem exists_discarded (h : decode word pc = .ok insn) (hop : insn.op.family = .data)
    (hl : LogicalToSp word) (r : Regs) :
    ∃ v : W64, (archData word insn { r with sp := v }).sp ≠ v := by
  obtain ⟨hops, -, hidx⟩ := decode_logicalToSp h hop hl
  have hs : ¬ SpSrc word := fun hs => hs.not_logical hl.1
  have hd : SpDst word := .inr ⟨hl.1, hl.2.1⟩
  have hsp : ∀ v, (archData word insn { r with sp := v }).sp = (archData word insn r).sp := by
    intro v
    rw [archData_toSp hops hidx hd, archData_toSp hops hidx hd, archOperands_sp hs]
  refine ⟨(archData word insn r).sp + 1, ?_⟩
  rw [hsp]
  intro he
  have hone := congrArg BitVec.toNat he
  rw [BitVec.toNat_add] at hone
  have h1 : (1 : W64).toNat = 1 := rfl
  omega

theorem dispatchBus_toSp {σ ε : Type} (h : decode word pc = .ok insn)
    (hop : insn.op.family = .data) (hl : LogicalToSp word) (mem : Memops σ)
    (env : Option (EnvOps σ ε)) (s : σ × ε) :
    ∃ cpu, dispatchBus mem env cpu insn s ≠
      some ((.ok, { cpu with regs := (archData word insn cpu.regs).advancePc }), s) := by
  obtain ⟨hops, hidx, -⟩ := decode_logicalToSp h hop hl
  obtain ⟨v, hv⟩ := exists_discarded h hop hl (Cpu.init 0 0).regs
  refine ⟨{ Cpu.init 0 0 with regs := { (Cpu.init 0 0).regs with sp := v } }, ?_⟩
  rw [dispatchBus_data mem env _ s hop (dataProcessing_discard hops hidx _)]
  intro hrun
  have hsp := congrArg (fun q => q.map fun p => p.1.2.regs.sp) hrun
  exact hv (Option.some.inj hsp).symm

end ToSp

/-- **which words meet the account in every state**: all of them but the logical immediates with
destination 31 -/
theorem dispatchBus_arch_iff {σ ε : Type} (h : decode word pc = .ok insn)
    (hop : insn.op.family = .data) (mem : Memops σ) (env : Option (EnvOps σ ε)) (s : σ × ε) :
    (∀ cpu, dispatchBus mem env cpu insn s =
      some ((.ok, { cpu with regs := (archData word insn cpu.regs).advancePc }), s)) ↔
      ¬ LogicalToSp word := by
  constructor
  · intro hall hl
    obtain ⟨cpu, hne⟩ := dispatchBus_toSp h hop hl mem env s
    exact hne (hall cpu)
  · intro hg cpu
    exact dispatchBus_data mem env cpu s hop
      (dataProcessing_arch (decode_routed h hop) (decode_wellFormed h) hop hg cpu.regs)

/-- `AND SP, X0, #~15`, which aligns the stack, leaves the stack pointer as it was -/
theorem and_sp_discarded :
    (¬ ∀ (word : W32) (pc : W64) (insn : Insn), decode word pc = .ok insn →
      insn.op.family = .data → ∀ (cpu : Cpu) (m : Memory),
        dispatchBus Memory.memops (none : Option (EnvOps Memory Unit)) cpu insn (m, ()) =
          some ((.ok, { cpu with regs := (archData word insn cpu.regs).advancePc }), (m, ()))) ∧
    (codeVcpu 0x927CEC1F .el1 0x1238).stepped.cpu.regs.sp =
      (codeVcpu 0x927CEC1F .el1 0x1238).cpu.regs.sp := by
  refine ⟨?_, by decide +kernel⟩
  intro hall
  obtain ⟨insn, hi, hop⟩ : ∃ i, decode 0x927CEC1F 0 = .ok i ∧ i.op.family = .data :=
    ⟨_, rfl, rfl⟩
  obtain ⟨cpu, hne⟩ := dispatchBus_toSp hi hop ⟨by decide, by decide, by decide⟩ Memory.memops
    (none : Option (EnvOps Memory Unit)) (codeMemory 0x927CEC1F, ())
  exact hne (hall _ _ _ hi hop cpu _)

/-- `ADD SP, X0, #16` moves the stack pointer -/
theorem add_sp_moves : ∃ insn, decode 0x9100401F 0 = .ok insn ∧
    ∀ cpu, dispatchBus Memory.memops (none : Option (EnvOps Memory Unit)) cpu insn
      (codeMemory 0x9100401F, ()) =
        some ((.ok, { cpu with regs := (archData 0x9100401F insn cpu.regs).advancePc }),
          (codeMemory 0x9100401F, ())) :=
  ⟨_, rfl, (@dispatchBus_arch_iff 0x9100401F 0 _ Memory Unit rfl rfl Memory.memops none
    (codeMemory 0x9100401F, ())).mpr fun hl => absurd hl.1 (by decide)⟩

end Oemu
