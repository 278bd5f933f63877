import Oemu.Decode

/-!
# Data processing

The operand forms, the arithmetic helpers and the arms of the switch that read and write registers
only.  `dataProcessing` collects the arms; it moves neither the PC nor anything outside the register
file, and on a refusal it has written nothing: `dataProcessing_pc`, `dataProcessing_refused`.
-/

namespace Oemu

/-! ## register access -/

def readG (r : Regs) (n : BitVec 5) (spForm : Bool) (width : RegWidth) : W64 :=
  if spForm then r.readSpForm n width else r.read n width

def writeG (r : Regs) (n : BitVec 5) (spForm : Bool) (width : RegWidth) (value : W64) : Regs :=
  if spForm then r.writeSpForm n width value else r.write n width value

@[simp] theorem writeG_pc (r : Regs) (n : BitVec 5) (s : Bool) (w : RegWidth) (v : W64) :
    (writeG r n s w v).pc = r.pc := by
  unfold writeG
  split <;> simp

def widthMask (width : RegWidth) : W64 :=
  if width.bits = 64 then BitVec.allOnes 64 else ((1 : W64) <<< width.bits) - 1

/-! ## pure helpers -/

def rotr (value : W64) (amount : Nat) (width : RegWidth) : W64 :=
  ((value >>> amount) ||| (value <<< (width.bits - amount))) &&& widthMask width

/-- a shifted operand; without a valid carry the flag keeps its old value -/
structure ShiftResult where
  value : W64
  carryValid : Bool
  carry : Bool
deriving DecidableEq

def shiftOperand (value : W64) (type : ShiftType) (amount : Nat) (width : RegWidth) :
    ShiftResult :=
  let bits := width.bits
  let mask := widthMask width
  let masked := value &&& mask
  let sign := masked &&& ((1 : W64) <<< (bits - 1)) != 0
  if amount = 0 then
    match type with
    | .lsl => ⟨masked, false, false⟩
    | .lsr => ⟨0, true, masked >>> (bits - 1) != 0⟩
    | .asr => ⟨if sign then mask else 0, true, sign⟩
    | .ror => ⟨if sign then mask else 0, true, sign⟩
  else
    let shifted :=
      match type with
      | .lsl => (masked <<< amount) &&& mask
      | .lsr => masked >>> amount
      | .asr =>
        let fill := if sign then (mask <<< (bits - amount)) &&& mask else 0
        (((masked &&& mask) >>> amount) ||| fill) &&& mask
      | .ror => rotr masked amount width
    let carryBit := if type = .lsl then bits - amount else amount - 1
    ⟨shifted, true, (masked >>> carryBit) &&& 1 != 0⟩

def extendOperand (indexValue : W64) (type : ExtendType) (shift : Nat) : W64 :=
  let base : W64 :=
    match type with
    | .uxtb => indexValue &&& 0xFF
    | .uxth => indexValue &&& 0xFFFF
    | .uxtw => indexValue &&& 0xFFFFFFFF
    | .sxtb => (indexValue.setWidth 8).signExtend 64
    | .sxth => (indexValue.setWidth 16).signExtend 64
    | .sxtw => (indexValue.setWidth 32).signExtend 64
    | .uxtx => indexValue
    | .sxtx => indexValue
  base <<< shift

def nzFlags (result : W64) (width : RegWidth) : W32 :=
  let value := truncate result width
  (if value = 0 then nzcvZ else 0) |||
    (if value &&& ((1 : W64) <<< (width.bits - 1)) ≠ 0 then nzcvN else 0)

def umulh (a b : W64) : W64 :=
  let aLo := a &&& 0xFFFFFFFF
  let aHi := a >>> 32
  let bLo := b &&& 0xFFFFFFFF
  let bHi := b >>> 32
  let p0 := aLo * bLo
  let p1 := aLo * bHi
  let p2 := aHi * bLo
  let p3 := aHi * bHi
  let mid := (p0 >>> 32) + (p1 &&& 0xFFFFFFFF) + (p2 &&& 0xFFFFFFFF)
  p3 + (p1 >>> 32) + (p2 >>> 32) + (mid >>> 32)

def smulh (a b : W64) : W64 :=
  let hi := umulh a b
  let hi := if a.getLsbD 63 then hi - b else hi
  if b.getLsbD 63 then hi - a else hi

/-- the zeros above the highest set bit, from a bit down -/
def clzLoop (value : W64) : Nat → Nat
  | 0 => 0
  | bit + 1 => if value.getLsbD (bit + 1) then 0 else clzLoop value bit + 1

def clz64Ref (value : W64) : W64 :=
  if value = 0 then 64 else BitVec.ofNat 64 (clzLoop value 63)

def clz (value : W64) (width : RegWidth) : W64 :=
  match width with
  | .w32 =>
    let low := value &&& 0xFFFFFFFF
    if low = 0 then 32 else clz64Ref (low <<< 32)
  | .w64 => clz64Ref value

def cls (value : W64) (width : RegWidth) : W64 :=
  let mask := widthMask width
  let v := value &&& mask
  if v = 0 ∨ v = mask then 0
  else
    let sign := if v >>> (width.bits - 1) ≠ 0 then mask else 0
    clz (v ^^^ sign) width - 1

def rbit (value : W64) (width : RegWidth) : W64 :=
  (List.range width.bits).foldl
    (fun out i => if value.getLsbD i then out ||| ((1 : W64) <<< (width.bits - 1 - i)) else out)
    0 &&& widthMask width

def rev (value : W64) (width : RegWidth) : W64 :=
  (List.range (width.bits / 8)).foldl
    (fun out byte => out ||| (((value >>> (8 * byte)) &&& 0xFF) <<<
      (8 * (width.bits / 8 - 1 - byte)))) 0

def rev16 (value : W64) (width : RegWidth) : W64 :=
  (List.range (width.bits / 16)).foldl
    (fun out half =>
      let h := (value >>> (16 * half)) &&& 0xFFFF
      out ||| ((((h &&& 0xFF) <<< 8) ||| (h >>> 8)) <<< (16 * half))) 0

def rev32 (value : W64) : W64 := ((value &&& 0xFFFFFFFF) <<< 32) ||| (value >>> 32)

/-- one bit of the reflected register: shift right, fold the polynomial in when a one drops off -/
def crcBit (poly crc : W32) : W32 :=
  if crc &&& 1 ≠ 0 then (crc >>> 1) ^^^ poly else crc >>> 1

def crc32 (crcIn : W32) (data : W64) (bytes : Nat) (castagnoli : Bool) : W32 :=
  let poly : W32 := if castagnoli then 0x82F63B78 else 0xEDB88320
  (List.range bytes).foldl
    (fun crc i =>
      let crc := crc ^^^ ((data >>> (8 * i)) &&& 0xFF).setWidth 32
      (List.range 8).foldl (fun crc _ => crcBit poly crc) crc) crcIn

/-! ## operands and flags -/

/-- the second operand, whatever its kind; the refusal of a kind without one leaves the zeroes the
callers start from -/
def operand2 (r : Regs) (insn : Insn) : Status × W64 × ShiftResult :=
  match insn.operandKind with
  | .imm => (.ok, insn.uimm, ⟨0, false, false⟩)
  | .reg => (.ok, readG r insn.rm false insn.width, ⟨0, false, false⟩)
  | .regShifted =>
    let s := shiftOperand (readG r insn.rm false insn.width) insn.shiftType insn.shiftAmount
      insn.width
    (.ok, s.value, s)
  | .regExtended =>
    (.ok, extendOperand (readG r insn.rm false .w64) insn.extendType insn.shiftAmount,
      ⟨0, false, false⟩)
  | .none => (.decode, 0, ⟨0, false, false⟩)
  | .mem => (.decode, 0, ⟨0, false, false⟩)

def logicalFlags (oldNzcv : W32) (result : W64) (insn : Insn) (shifted : Option ShiftResult) :
    W32 :=
  let nzcv := nzFlags result insn.width
  match shifted with
  | some s =>
    if s.carryValid then nzcv ||| (if s.carry then nzcvC else 0) else nzcv ||| (oldNzcv &&& nzcvC)
  | none =>
    if insn.operandKind = .imm then
      nzcv ||| (if insn.uimm = widthMask insn.width then nzcvC else 0)
    else nzcv ||| (oldNzcv &&& nzcvC)

/-! ## the arms -/

def doAddSub (r : Regs) (insn : Insn) : Regs :=
  let m := (operand2 r insn).2.1
  let n := readG r insn.rn insn.rnIsSpForm insn.width
  let sub := insn.op = .sub ∨ insn.op = .subs
  let res := addWithCarry n (if sub then ~~~m else m) (decide sub) insn.width
  let r := writeG r insn.rd insn.rdIsSpForm insn.width res.value
  if insn.setsFlags then r.setNzcv res.nzcv else r

/-- the carry forms: `SBC` is `n + ~m + C` -/
def doAddSubCarry (r : Regs) (insn : Insn) : Regs :=
  let m := readG r insn.rm false insn.width
  let n := readG r insn.rn false insn.width
  let c := r.nzcv.bits &&& nzcvC != 0
  let sub := insn.op = .sbc ∨ insn.op = .sbcs
  let res := addWithCarry n (if sub then ~~~m else m) c insn.width
  let r := writeG r insn.rd false insn.width res.value
  if insn.op = .adcs ∨ insn.op = .sbcs then r.setNzcv res.nzcv else r

def doLogical (r : Regs) (insn : Insn) : Regs :=
  let (_, m, shifted) := operand2 r insn
  let shiftedRef := if insn.operandKind = .regShifted then some shifted else none
  let n := readG r insn.rn false insn.width
  let negated := insn.op = .bic ∨ insn.op = .bics ∨ insn.op = .orn ∨ insn.op = .eon
  let m := if negated then ~~~m else m
  let result :=
    if insn.op = .and ∨ insn.op = .ands ∨ insn.op = .bic ∨ insn.op = .bics then n &&& m
    else if insn.op = .orr ∨ insn.op = .orn then n ||| m
    else n ^^^ m
  let r' := writeG r insn.rd false insn.width result
  if insn.op = .ands ∨ insn.op = .bics then
    r'.setNzcv (logicalFlags r'.nzcv.bits result insn shiftedRef)
  else r'

def doMovk (r : Regs) (insn : Insn) : Regs :=
  let old := readG r insn.rd false insn.width
  let mask : W64 := (0xFFFF : W64) <<< insn.shiftAmount
  writeG r insn.rd false insn.width ((old &&& ~~~mask) ||| (insn.uimm &&& mask))

/-- the field a bitfield move extracts: its length and its bits -/
def bitfieldExtract (src : W64) (lsb msb : Nat) (width : RegWidth) : W64 :=
  if msb < lsb then (src <<< (width.bits - lsb)) &&& widthMask width
  else if lsb = 0 then src
  else ((src >>> lsb) ||| (src <<< (width.bits - lsb))) &&& widthMask width

def doBitfield (r : Regs) (insn : Insn) : Status × Regs :=
  let bits := insn.width.bits
  let lsb := insn.shiftAmount
  let msb := insn.bitPos
  if lsb ≥ bits ∨ msb ≥ bits then (.decode, r)
  else
    let src := readG r insn.rn false insn.width
    let len := if msb < lsb then bits - lsb + msb + 1 else msb - lsb + 1
    let rot := bitfieldExtract src lsb msb insn.width
    let mask : W64 := if len = bits then widthMask insn.width else ((1 : W64) <<< len) - 1
    let fld := rot &&& mask
    let fld :=
      if insn.op = .bfm then
        let bottom := if msb < lsb then bits - lsb else 0
        let fbits := len - bottom
        let dm : W64 :=
          if fbits = bits then widthMask insn.width else (((1 : W64) <<< fbits) - 1) <<< bottom
        let old := readG r insn.rd false insn.width
        (old &&& ~~~dm) ||| (fld &&& dm)
      else if insn.op = .sbfm ∧ (fld >>> (len - 1)) &&& 1 ≠ 0 then
        fld ||| (widthMask insn.width &&& ~~~mask)
      else fld
    (.ok, writeG r insn.rd false insn.width fld)

def doExtr (r : Regs) (insn : Insn) : Regs :=
  let lo := readG r insn.rm false insn.width
  let hi := readG r insn.rn false insn.width
  let bits := insn.width.bits
  let result :=
    if insn.shiftAmount = 0 then lo
    else
      (lo >>> insn.shiftAmount) |||
        (if insn.shiftAmount = bits then hi else hi <<< (bits - insn.shiftAmount))
  writeG r insn.rd false insn.width result

def doShiftVariable (r : Regs) (insn : Insn) : Regs :=
  let src := readG r insn.rn false insn.width
  let amt := (readG r insn.rm false insn.width).toNat % insn.width.bits
  let value :=
    if amt = 0 then src &&& widthMask insn.width
    else
      let type : ShiftType :=
        if insn.op = .lslv then .lsl
        else if insn.op = .lsrv then .lsr
        else if insn.op = .asrv then .asr
        else .ror
      (shiftOperand src type amt insn.width).value
  writeG r insn.rd false insn.width value

def doCrc32 (r : Regs) (insn : Insn) : Regs :=
  let seed := (readG r insn.rn false .w32).setWidth 32
  let data := readG r insn.rm false .w64
  writeG r insn.rd false .w32
    ((crc32 seed data (insn.uimm.toNat % 2 ^ 32) (decide (insn.op = .crc32c))).setWidth 64)

/-- one source, one result at the operand width -/
def doOneSource (r : Regs) (insn : Insn) (f : W64 → W64) : Regs :=
  writeG r insn.rd false insn.width (f (readG r insn.rn false insn.width))

/-- division by zero is zero, and the one overflowing quotient is the dividend -/
def quotient (n d : W64) (signed : Bool) (width : RegWidth) : W64 :=
  if d = 0 then 0
  else
    match signed, width with
    | false, .w32 => (n.setWidth 32 / d.setWidth 32).setWidth 64
    | false, .w64 => n / d
    | true, .w32 => ((n.setWidth 32).sdiv (d.setWidth 32)).setWidth 64
    | true, .w64 => n.sdiv d

def doDiv (r : Regs) (insn : Insn) : Regs :=
  let d := readG r insn.rm false insn.width
  let n := readG r insn.rn false insn.width
  writeG r insn.rd false insn.width (quotient n d (decide (insn.op = .sdiv)) insn.width)

def doMulAdd (r : Regs) (insn : Insn) : Regs :=
  let prod := readG r insn.rn false insn.width * readG r insn.rm false insn.width
  let acc := readG r insn.ra false insn.width
  writeG r insn.rd false insn.width (if insn.op = .madd then acc + prod else acc - prod)

def doMulAddLong (r : Regs) (insn : Insn) : Regs :=
  let sgn := insn.op = .smaddl ∨ insn.op = .smsubl
  let add := insn.op = .smaddl ∨ insn.op = .umaddl
  let n := readG r insn.rn false .w32
  let m := readG r insn.rm false .w32
  let a := readG r insn.ra false .w64
  let prod : W64 :=
    if sgn then (n.setWidth 32).signExtend 64 * (m.setWidth 32).signExtend 64
    else (n &&& 0xFFFFFFFF) * (m &&& 0xFFFFFFFF)
  writeG r insn.rd false .w64 (if add then a + prod else a - prod)

def doMulHigh (r : Regs) (insn : Insn) (f : W64 → W64 → W64) : Regs :=
  writeG r insn.rd false .w64 (f (readG r insn.rn false .w64) (readG r insn.rm false .w64))

def doCsel (r : Regs) (insn : Insn) : Regs :=
  let a := readG r insn.rn false insn.width
  let b := readG r insn.rm false insn.width
  let out :=
    if r.condHolds insn.cond then a
    else if insn.op = .csinc then b + 1
    else if insn.op = .csinv then ~~~b
    else if insn.op = .csneg then 0 - b
    else b
  writeG r insn.rd false insn.width out

def doCcmp (r : Regs) (insn : Insn) : Regs :=
  if !r.condHolds insn.cond then r.setNzcv ((insn.uimm <<< 28).setWidth 32)
  else
    let n := readG r insn.rn false insn.width
    let m := if insn.operandKind = .imm then insn.imm else readG r insn.rm false insn.width
    let res :=
      if insn.op = .ccmp then addWithCarry n (~~~m) true insn.width
      else addWithCarry n m false insn.width
    r.setNzcv res.nzcv

/-- the arms of the switch that touch registers only; `none` is an opcode of another arm -/
def dataProcessing (r : Regs) (insn : Insn) : Option (Status × Regs) :=
  match insn.op with
  | .add | .sub | .adds | .subs => some (.ok, doAddSub r insn)
  | .adc | .adcs | .sbc | .sbcs => some (.ok, doAddSubCarry r insn)
  | .and | .ands | .orr | .eor | .bic | .bics | .orn | .eon => some (.ok, doLogical r insn)
  | .movz => some (.ok, writeG r insn.rd false insn.width insn.uimm)
  | .movn => some (.ok, writeG r insn.rd false insn.width (~~~insn.uimm))
  | .movk => some (.ok, doMovk r insn)
  | .adr | .adrp => some (.ok, writeG r insn.rd false insn.width insn.imm)
  | .sbfm | .bfm | .ubfm => some (doBitfield r insn)
  | .extr => some (.ok, doExtr r insn)
  | .lslv | .lsrv | .asrv | .rorv => some (.ok, doShiftVariable r insn)
  | .crc32 | .crc32c => some (.ok, doCrc32 r insn)
  | .rbit => some (.ok, doOneSource r insn fun v => rbit v insn.width)
  | .clz => some (.ok, doOneSource r insn fun v => clz v insn.width)
  | .cls => some (.ok, doOneSource r insn fun v => cls v insn.width)
  | .rev => some (.ok, doOneSource r insn fun v => rev v insn.width)
  | .rev16 => some (.ok, doOneSource r insn fun v => rev16 v insn.width)
  | .rev32 => some (.ok, doOneSource r insn rev32)
  | .udiv | .sdiv => some (.ok, doDiv r insn)
  | .madd | .msub => some (.ok, doMulAdd r insn)
  | .smaddl | .smsubl | .umaddl | .umsubl => some (.ok, doMulAddLong r insn)
  | .smulh => some (.ok, doMulHigh r insn smulh)
  | .umulh => some (.ok, doMulHigh r insn umulh)
  | .csel | .csinc | .csinv | .csneg => some (.ok, doCsel r insn)
  | .ccmp | .ccmn => some (.ok, doCcmp r insn)
  | _ => none

/-! ## what the arms leave alone -/

section Frame

variable (r : Regs) (insn : Insn)

theorem doAddSub_pc : (doAddSub r insn).pc = r.pc := by
  unfold doAddSub
  dsimp only
  split <;> simp

theorem doAddSubCarry_pc : (doAddSubCarry r insn).pc = r.pc := by
  unfold doAddSubCarry
  dsimp only
  split <;> simp

theorem doLogical_pc : (doLogical r insn).pc = r.pc := by
  unfold doLogical
  dsimp only
  split <;> simp

theorem doBitfield_pc : (doBitfield r insn).2.pc = r.pc := by
  unfold doBitfield
  dsimp only
  split <;> simp

theorem doCcmp_pc : (doCcmp r insn).pc = r.pc := by
  unfold doCcmp
  dsimp only
  split <;> simp

theorem dataProcessing_pc {res : Status × Regs} (h : dataProcessing r insn = some res) :
    res.2.pc = r.pc := by
  unfold dataProcessing at h
  cases hop : insn.op <;> rw [hop] at h <;> cases h <;>
    first
    | exact doAddSub_pc r insn
    | exact doAddSubCarry_pc r insn
    | exact doLogical_pc r insn
    | exact doBitfield_pc r insn
    | exact doCcmp_pc r insn
    | exact writeG_pc _ _ _ _ _

theorem doBitfield_refused (h : (doBitfield r insn).1 ≠ .ok) : (doBitfield r insn).2 = r := by
  unfold doBitfield at h ⊢
  dsimp only at h ⊢
  split
  · rfl
  · rename_i hc
    rw [if_neg hc] at h
    exact absurd rfl h

theorem dataProcessing_refused {res : Status × Regs} (h : dataProcessing r insn = some res)
    (hst : res.1 ≠ .ok) : res.2 = r := by
  unfold dataProcessing at h
  cases hop : insn.op <;> rw [hop] at h <;> cases h <;>
    first
    | exact absurd rfl hst
    | exact doBitfield_refused r insn hst

theorem dataProcessing_not_fault {res : Status × Regs} (h : dataProcessing r insn = some res) :
    res.1 ≠ .fault := by
  unfold dataProcessing at h
  cases hop : insn.op <;> rw [hop] at h <;> cases h <;>
    first
    | exact Status.noConfusion
    | (unfold doBitfield; dsimp only; split <;> exact Status.noConfusion)

end Frame

/-! ## the stack pointer -/

/-- the live stack pointer is the destination, or the base an indexed form writes back -/
def Insn.writesSp (insn : Insn) : Bool :=
  (insn.rdIsSpForm && insn.rd == 31) || (insn.indexMode != .none && insn.rn == 31)

theorem Regs.index_isSome {n : BitVec 5} (h : n ≠ 31) : (Regs.index n).isSome := by
  unfold Regs.index
  rw [dif_pos (by bv_omega)]
  rfl

theorem writeG_sp {r : Regs} {n : BitVec 5} {b : Bool} {w : RegWidth} {v : W64}
    (h : b = true → n ≠ 31) : (writeG r n b w v).sp = r.sp := by
  unfold writeG
  cases b with
  | false => exact Regs.write_sp r n w v
  | true =>
    obtain ⟨i, hi⟩ := Option.isSome_iff_exists.mp (Regs.index_isSome (h rfl))
    rw [if_pos rfl]
    unfold Regs.writeSpForm
    rw [hi]

section StackPointer

variable {r : Regs} {insn : Insn}

theorem doAddSub_sp (h : insn.writesSp = false) : (doAddSub r insn).sp = r.sp := by
  have hw : insn.rdIsSpForm = true → insn.rd ≠ 31 := by
    intro hf he
    simp [Insn.writesSp, hf, he] at h
  unfold doAddSub
  dsimp only
  split
  · exact writeG_sp hw
  · exact writeG_sp hw

/-- writes through the plain accessor keep the stack pointer -/
theorem writeG_plain_sp (n : BitVec 5) (w : RegWidth) (v : W64) :
    (writeG r n false w v).sp = r.sp :=
  writeG_sp Bool.noConfusion

theorem doAddSubCarry_sp : (doAddSubCarry r insn).sp = r.sp := by
  unfold doAddSubCarry
  dsimp only
  split <;> exact writeG_plain_sp _ _ _

theorem doLogical_sp : (doLogical r insn).sp = r.sp := by
  unfold doLogical
  dsimp only
  split <;> exact writeG_plain_sp _ _ _

theorem doBitfield_sp : (doBitfield r insn).2.sp = r.sp := by
  unfold doBitfield
  dsimp only
  split
  · rfl
  · exact writeG_plain_sp _ _ _

theorem doCcmp_sp : (doCcmp r insn).sp = r.sp := by
  unfold doCcmp
  dsimp only
  split <;> rfl

theorem dataProcessing_sp {res : Status × Regs} (h : dataProcessing r insn = some res)
    (hw : insn.writesSp = false) : res.2.sp = r.sp := by
  unfold dataProcessing at h
  cases hop : insn.op <;> rw [hop] at h <;> cases h <;>
    first
    | exact doAddSub_sp hw
    | exact doAddSubCarry_sp
    | exact doLogical_sp
    | exact doBitfield_sp
    | exact doCcmp_sp
    | exact writeG_plain_sp _ _ _

end StackPointer

end Oemu
