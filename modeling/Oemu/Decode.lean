import Oemu.Insn

/-!
# The decoder

The decode tree, function for function: `decode` keys on bits 28:25 and each helper on the fields of
its own group.  A refusal is `Status.decode` for an encoding taken as unallocated and
`Status.unsupported` for one outside the subset.
-/

namespace Oemu

/-! ## bit primitives -/

/-- the `n` bits of a word from `lsb` up -/
def bits (word : W32) (lsb n : Nat) : Nat := (word.toNat >>> lsb) % 2 ^ n

def bit (word : W32) (pos : Nat) : Nat := bits word pos 1

def decodeSignExtend (value : W64) (width : Nat) : W64 :=
  if width = 64 then value
  else
    let mask : W64 := ((1 : W64) <<< width) - 1
    let sign : W64 := (1 : W64) <<< (width - 1)
    let masked := value &&& mask
    if masked &&& sign ≠ 0 then masked ||| ~~~mask else masked

def decodeRor (value : W64) (amount esize : Nat) : W64 :=
  let shift := amount % esize
  let mask : W64 := if esize = 64 then BitVec.allOnes 64 else ((1 : W64) <<< esize) - 1
  let masked := value &&& mask
  if shift = 0 then masked else ((masked >>> shift) ||| (masked <<< (esize - shift))) &&& mask

/-- the repeating pattern of `N:imms:immr`; `none` is a reserved combination -/
def decodeBitMasks (n : Bool) (imms immr : Nat) (width : RegWidth) : Option W64 :=
  let regBits := width.bits
  let combined := (if n then 64 else 0) ||| (63 ^^^ (imms % 64))
  match [6, 5, 4, 3, 2, 1, 0].find? fun b => combined.testBit b with
  | none => none
  | some len =>
    if len < 1 then none
    else
      let esize := 2 ^ len
      if esize > regBits then none
      else
        let levels := esize - 1
        let s := imms &&& levels
        let r := immr &&& levels
        if s = levels then none
        else
          let element : W64 :=
            if s + 1 = 64 then BitVec.allOnes 64 else ((1 : W64) <<< (s + 1)) - 1
          let element := decodeRor element r esize
          let mask := (List.range (regBits / esize)).foldl
            (fun m k => m ||| (element <<< (k * esize))) (0 : W64)
          some (if regBits = 32 then mask &&& 0xFFFFFFFF else mask)

def extendAmountValid (amount : Nat) : Bool := decide (amount ≤ 4)

/-! ## field accessors -/

def field (word : W32) (lsb : Nat) : BitVec 5 := BitVec.ofNat 5 (bits word lsb 5)

def fieldRd (word : W32) : BitVec 5 := field word 0

def fieldRn (word : W32) : BitVec 5 := field word 5

def fieldRm (word : W32) : BitVec 5 := field word 16

def fieldRa (word : W32) : BitVec 5 := field word 10

def widthFromSf (word : W32) : RegWidth := if bit word 31 ≠ 0 then .w64 else .w32

def toCond (value : Nat) : BitVec 4 := BitVec.ofNat 4 value

def toShiftType : Nat → ShiftType
  | 0 => .lsl
  | 1 => .lsr
  | 2 => .asr
  | _ => .ror

def toExtendType : Nat → ExtendType
  | 0 => .uxtb
  | 1 => .uxth
  | 2 => .uxtw
  | 3 => .uxtx
  | 4 => .sxtb
  | 5 => .sxth
  | 6 => .sxtw
  | _ => .sxtx

def toMemSize : Nat → MemSize
  | 0 => .byte
  | 1 => .half
  | 2 => .word
  | _ => .dword

def addsubOpcode (isSub setsFlags : Bool) : Opcode :=
  if isSub then (if setsFlags then .subs else .sub) else (if setsFlags then .adds else .add)

def addsubCarryOpcode (isSub setsFlags : Bool) : Opcode :=
  if isSub then (if setsFlags then .sbcs else .sbc) else (if setsFlags then .adcs else .adc)

def moveWideOpcode : Nat → Opcode
  | 0 => .movn
  | 2 => .movz
  | _ => .movk

def bitfieldOpcode : Nat → Opcode
  | 0 => .sbfm
  | 1 => .bfm
  | _ => .ubfm

/-- a field as an unsigned 64-bit value -/
def ufield (word : W32) (lsb n : Nat) : W64 := BitVec.ofNat 64 (bits word lsb n)

/-- a field as a signed 64-bit value -/
def sfield (word : W32) (lsb n : Nat) : W64 := decodeSignExtend (ufield word lsb n) n

/-! ## data processing: immediate -/

def decodePcRelAddr (word : W32) (pc : W64) : Except Status Insn :=
  let immlo := ufield word 29 2
  let immhi := ufield word 5 19
  let offset := decodeSignExtend ((immhi <<< 2) ||| immlo) 21
  let insn := { Insn.reset word with rd := fieldRd word, operandKind := .imm, width := .w64 }
  if bit word 31 ≠ 0 then
    .ok { insn with op := .adrp, imm := (pc &&& ~~~(0xFFF : W64)) + (offset <<< 12) }
  else .ok { insn with op := .adr, imm := pc + offset }

def decodeAddsubImm (word : W32) : Except Status Insn :=
  let shift := bits word 22 2
  if shift > 1 then .error .decode
  else
    let imm12 := ufield word 10 12
    let isSub := decide (bit word 30 ≠ 0)
    let setsFlags := decide (bit word 29 ≠ 0)
    let uimm := if shift ≠ 0 then imm12 <<< 12 else imm12
    .ok { Insn.reset word with
      width := widthFromSf word, rd := fieldRd word, rn := fieldRn word, operandKind := .imm
      uimm := uimm, imm := uimm, setsFlags := setsFlags, op := addsubOpcode isSub setsFlags
      rnIsSpForm := true, rdIsSpForm := !setsFlags }

def decodeLogicalImm (word : W32) : Except Status Insn :=
  let width := widthFromSf word
  match decodeBitMasks (decide (bit word 22 ≠ 0)) (bits word 10 6) (bits word 16 6) width with
  | none => .error .decode
  | some wmask =>
    let opc := bits word 29 2
    let setsFlags := decide (opc = 3)
    .ok { Insn.reset word with
      width := width, rd := fieldRd word, rn := fieldRn word, operandKind := .imm
      uimm := wmask, imm := wmask, setsFlags := setsFlags, rdIsSpForm := !setsFlags
      op := match opc with
        | 0 => .and
        | 1 => .orr
        | 2 => .eor
        | _ => .ands }

def decodeMoveWide (word : W32) : Except Status Insn :=
  let hw := bits word 21 2
  let width := widthFromSf word
  if width = .w32 ∧ hw > 1 then .error .decode
  else
    let opc := bits word 29 2
    if opc = 1 then .error .decode
    else
      let uimm := ufield word 5 16 <<< (hw * 16)
      .ok { Insn.reset word with
        width := width, rd := fieldRd word, operandKind := .imm, shiftAmount := hw * 16
        uimm := uimm, imm := uimm, op := moveWideOpcode opc }

def decodeBitfield (word : W32) : Except Status Insn :=
  let n := decide (bit word 22 ≠ 0)
  let width := widthFromSf word
  let opc := bits word 29 2
  if opc = 3 then .error .decode
  else if decide (width = .w64) ≠ n then .error .decode
  else
    let immr := bits word 16 6
    let imms := bits word 10 6
    if immr ≥ width.bits ∨ imms ≥ width.bits then .error .decode
    else
      let uimm := (ufield word 16 6 <<< 8) ||| ufield word 10 6
      .ok { Insn.reset word with
        width := width, rd := fieldRd word, rn := fieldRn word, operandKind := .imm
        uimm := uimm, imm := uimm, shiftAmount := immr, bitPos := imms, op := bitfieldOpcode opc }

def decodeExtract (word : W32) : Except Status Insn :=
  let n := decide (bit word 22 ≠ 0)
  let width := widthFromSf word
  if bits word 29 2 ≠ 0 ∨ bit word 21 ≠ 0 then .error .decode
  else if decide (width = .w64) ≠ n then .error .decode
  else
    let imms := bits word 10 6
    if imms ≥ width.bits then .error .decode
    else
      .ok { Insn.reset word with
        width := width, rd := fieldRd word, rn := fieldRn word, rm := fieldRm word
        operandKind := .reg, shiftAmount := imms, uimm := ufield word 10 6
        imm := ufield word 10 6, op := .extr }

def decodeDpImmediate (word : W32) (pc : W64) : Except Status Insn :=
  match bits word 23 3 with
  | 0 => decodePcRelAddr word pc
  | 1 => decodePcRelAddr word pc
  | 2 => decodeAddsubImm word
  | 3 => decodeAddsubImm word
  | 4 => decodeLogicalImm word
  | 5 => decodeMoveWide word
  | 6 => decodeBitfield word
  | _ => decodeExtract word

/-! ## branches, exceptions and system -/

/-- a branch target: a signed instruction offset from the PC -/
def branchTarget (word : W32) (pc : W64) (lsb n : Nat) : W64 := pc + (sfield word lsb n <<< 2)

def decodeUncondBranchImm (word : W32) (pc : W64) : Except Status Insn :=
  .ok { Insn.reset word with
    op := if bit word 31 ≠ 0 then .bl else .b
    operandKind := .imm, imm := branchTarget word pc 0 26 }

def decodeCondBranchImm (word : W32) (pc : W64) : Except Status Insn :=
  if bit word 24 ≠ 0 ∨ bit word 4 ≠ 0 then .error .decode
  else
    .ok { Insn.reset word with
      op := .bCond, operandKind := .imm, cond := toCond (bits word 0 4)
      imm := branchTarget word pc 5 19 }

def decodeCompareBranch (word : W32) (pc : W64) : Except Status Insn :=
  .ok { Insn.reset word with
    width := widthFromSf word, rt2 := fieldRd word, rd := fieldRd word, operandKind := .imm
    imm := branchTarget word pc 5 19, op := if bit word 24 ≠ 0 then .cbnz else .cbz }

def decodeTestBranch (word : W32) (pc : W64) : Except Status Insn :=
  .ok { Insn.reset word with
    width := widthFromSf word, rd := fieldRd word, rt2 := fieldRd word
    bitPos := (bit word 31 <<< 5) ||| bits word 19 5, operandKind := .imm
    imm := branchTarget word pc 5 14, op := if bit word 24 ≠ 0 then .tbnz else .tbz }

def decodeException (word : W32) : Except Status Insn :=
  let opc := bits word 21 3
  let op2 := bits word 2 3
  let ll := bits word 0 2
  if op2 ≠ 0 then .error .decode
  else
    let insn := { Insn.reset word with
      operandKind := .imm, uimm := ufield word 5 16, imm := ufield word 5 16 }
    if opc = 0 ∧ ll = 1 then .ok { insn with op := .svc }
    else if opc = 1 ∧ ll = 0 then .ok { insn with op := .brk }
    else if opc = 2 ∧ ll = 0 then .ok { insn with op := .hlt }
    else if opc = 0 ∧ ll = 2 then .ok { insn with op := .hvc }
    else if opc = 0 ∧ ll = 3 then .ok { insn with op := .smc }
    else if opc = 5 then .error .unsupported
    else .error .decode

def decodeHintsAndBarriers (word : W32) : Except Status Insn :=
  let crn := bits word 12 4
  let crm := bits word 8 4
  let op2 := bits word 5 3
  if crn = 2 then
    let uimm := (ufield word 8 4 <<< 3) ||| ufield word 5 3
    let insn := { Insn.reset word with uimm := uimm, imm := uimm }
    if crm = 0 ∧ op2 = 2 then .ok { insn with op := .wfe }
    else if crm = 0 ∧ op2 = 3 then .ok { insn with op := .wfi }
    else .ok { insn with op := if uimm = 0 then .nop else .hint }
  else if crn = 3 then
    .ok { Insn.reset word with uimm := ufield word 8 4, imm := ufield word 8 4, op := .barrier }
  else if crn = 4 then
    .ok { Insn.reset word with
      operandKind := .imm, uimm := ufield word 5 3, imm := ufield word 8 4, op := .msrImm }
  else .error .unsupported

def decodeSystem (word : W32) : Except Status Insn :=
  let l := bit word 21
  let op0 := bits word 19 2
  if op0 = 0 then
    if fieldRd word ≠ 31 then .error .decode
    else if l ≠ 0 then .error .decode
    else decodeHintsAndBarriers word
  else if op0 = 1 then
    .ok { Insn.reset word with
      sysreg := BitVec.ofNat 32 (bits word 5 14), rd := fieldRd word, rt2 := fieldRd word
      operandKind := .none, op := .sys }
  else
    .ok { Insn.reset word with
      sysreg := BitVec.ofNat 32 (bits word 5 15), rd := fieldRd word, rt2 := fieldRd word
      operandKind := .none, op := if l ≠ 0 then .mrs else .msr }

def decodeUncondBranchReg (word : W32) : Except Status Insn :=
  let opc := bits word 21 4
  let op2 := bits word 16 5
  let op3 := bits word 10 6
  let op4 := bits word 0 5
  if op2 ≠ 0x1F ∨ op3 ≠ 0 ∨ op4 ≠ 0 then
    if op3 ≠ 0 then .error .unsupported else .error .decode
  else
    let insn := { Insn.reset word with rn := fieldRn word, operandKind := .reg }
    match opc with
    | 0 => .ok { insn with op := .br }
    | 1 => .ok { insn with op := .blr }
    | 2 => .ok { insn with op := .ret }
    | 4 => .ok { insn with operandKind := .none, op := .eret }
    | 5 => .error .unsupported
    | _ => .error .decode

def decodeBranchSystem (word : W32) (pc : W64) : Except Status Insn :=
  match bits word 29 3 with
  | 0 => decodeUncondBranchImm word pc
  | 4 => decodeUncondBranchImm word pc
  | 2 => if bit word 25 ≠ 0 then .error .decode else decodeCondBranchImm word pc
  | 1 => if bit word 25 = 0 then decodeCompareBranch word pc else decodeTestBranch word pc
  | 5 => if bit word 25 = 0 then decodeCompareBranch word pc else decodeTestBranch word pc
  | 6 =>
    if bit word 25 ≠ 0 then decodeUncondBranchReg word
    else if bit word 24 = 0 then decodeException word
    else decodeSystem word
  | _ => .error .decode

/-! ## data processing: register -/

def decodeLogicalShifted (word : W32) : Except Status Insn :=
  let opc := bits word 29 2
  let negate := decide (bit word 21 ≠ 0)
  let shift := bits word 22 2
  let amount := bits word 10 6
  let width := widthFromSf word
  if width = .w32 ∧ amount ≥ 32 then .error .decode
  else
    .ok { Insn.reset word with
      width := width, rd := fieldRd word, rn := fieldRn word, rm := fieldRm word
      shiftType := toShiftType shift, shiftAmount := amount
      operandKind := if amount ≠ 0 then .regShifted else .reg
      setsFlags := decide (opc = 3)
      op := match opc with
        | 0 => if negate then .bic else .and
        | 1 => if negate then .orn else .orr
        | 2 => if negate then .eon else .eor
        | _ => if negate then .bics else .ands }

def decodeAddsubShifted (word : W32) : Except Status Insn :=
  let shift := bits word 22 2
  let amount := bits word 10 6
  let width := widthFromSf word
  if shift = 3 then .error .decode
  else if width = .w32 ∧ amount ≥ 32 then .error .decode
  else
    let isSub := decide (bit word 30 ≠ 0)
    let setsFlags := decide (bit word 29 ≠ 0)
    .ok { Insn.reset word with
      width := width, rd := fieldRd word, rn := fieldRn word, rm := fieldRm word
      shiftType := toShiftType shift, shiftAmount := amount
      operandKind := if amount ≠ 0 then .regShifted else .reg
      setsFlags := setsFlags, op := addsubOpcode isSub setsFlags }

def decodeAddsubExtended (word : W32) : Except Status Insn :=
  let amount := bits word 10 3
  if bits word 22 2 ≠ 0 then .error .decode
  else if !extendAmountValid amount then .error .decode
  else
    let isSub := decide (bit word 30 ≠ 0)
    let setsFlags := decide (bit word 29 ≠ 0)
    .ok { Insn.reset word with
      width := widthFromSf word, rd := fieldRd word, rn := fieldRn word, rm := fieldRm word
      extendType := toExtendType (bits word 13 3), shiftAmount := amount
      operandKind := .regExtended, setsFlags := setsFlags, op := addsubOpcode isSub setsFlags
      rnIsSpForm := true, rdIsSpForm := !setsFlags }

def decodeAddsubCarry (word : W32) : Except Status Insn :=
  if bits word 10 6 ≠ 0 then .error .decode
  else
    let isSub := decide (bit word 30 ≠ 0)
    let setsFlags := decide (bit word 29 ≠ 0)
    .ok { Insn.reset word with
      width := widthFromSf word, rd := fieldRd word, rn := fieldRn word, rm := fieldRm word
      operandKind := .reg, setsFlags := setsFlags, op := addsubCarryOpcode isSub setsFlags }

def decodeCondCompare (word : W32) : Except Status Insn :=
  if bit word 29 = 0 ∨ bit word 10 ≠ 0 ∨ bit word 4 ≠ 0 then .error .decode
  else
    let insn := { Insn.reset word with
      width := widthFromSf word, rn := fieldRn word, cond := toCond (bits word 12 4)
      uimm := ufield word 0 4, setsFlags := true
      op := if bit word 30 ≠ 0 then .ccmp else .ccmn }
    if bit word 11 ≠ 0 then .ok { insn with operandKind := .imm, imm := ufield word 16 5 }
    else .ok { insn with operandKind := .reg, rm := fieldRm word }

def decodeCondSelect (word : W32) : Except Status Insn :=
  if bit word 29 ≠ 0 ∨ bit word 11 ≠ 0 then .error .decode
  else
    let op := bit word 30
    let o2 := bit word 10
    .ok { Insn.reset word with
      width := widthFromSf word, rd := fieldRd word, rn := fieldRn word, rm := fieldRm word
      cond := toCond (bits word 12 4), operandKind := .reg
      op := if op = 0 then (if o2 = 0 then .csel else .csinc)
        else (if o2 = 0 then .csinv else .csneg) }

def decodeDp1source (word : W32) : Except Status Insn :=
  if bit word 29 ≠ 0 ∨ bits word 16 5 ≠ 0 then .error .decode
  else
    let width := widthFromSf word
    let insn := { Insn.reset word with
      width := width, rd := fieldRd word, rn := fieldRn word, operandKind := .none }
    match bits word 10 6 with
    | 0 => .ok { insn with op := .rbit }
    | 1 => .ok { insn with op := .rev16 }
    | 2 => .ok { insn with op := if width = .w32 then .rev else .rev32 }
    | 3 => if width = .w32 then .error .decode else .ok { insn with op := .rev }
    | 4 => .ok { insn with op := .clz }
    | 5 => .ok { insn with op := .cls }
    | _ => .error .decode

def decodeDp2source (word : W32) : Except Status Insn :=
  if bit word 29 ≠ 0 then .error .decode
  else
    let opcode := bits word 10 6
    let insn := { Insn.reset word with
      width := widthFromSf word, rd := fieldRd word, rn := fieldRn word, rm := fieldRm word
      operandKind := .reg }
    if opcode = 0x02 then .ok { insn with op := .udiv }
    else if opcode = 0x03 then .ok { insn with op := .sdiv }
    else if opcode = 0x08 then .ok { insn with op := .lslv }
    else if opcode = 0x09 then .ok { insn with op := .lsrv }
    else if opcode = 0x0A then .ok { insn with op := .asrv }
    else if opcode = 0x0B then .ok { insn with op := .rorv }
    else if 0x10 ≤ opcode ∧ opcode ≤ 0x17 then
      .ok { insn with
        op := if opcode ≥ 0x14 then .crc32c else .crc32
        uimm := (1 : W64) <<< (opcode % 4), width := .w32 }
    else .error .decode

def decodeDp3source (word : W32) : Except Status Insn :=
  if bits word 29 2 ≠ 0 then .error .decode
  else
    let op31 := bits word 21 3
    let o0 := bit word 15
    let width := widthFromSf word
    let insn := { Insn.reset word with
      width := width, rd := fieldRd word, rn := fieldRn word, rm := fieldRm word
      ra := fieldRa word, operandKind := .reg }
    if op31 = 0 then .ok { insn with op := if o0 = 0 then .madd else .msub }
    else if width ≠ .w64 then .error .decode
    else
      match op31 with
      | 1 => .ok { insn with op := if o0 = 0 then .smaddl else .smsubl }
      | 2 => if o0 ≠ 0 then .error .decode else .ok { insn with op := .smulh }
      | 5 => .ok { insn with op := if o0 = 0 then .umaddl else .umsubl }
      | 6 => if o0 ≠ 0 then .error .decode else .ok { insn with op := .umulh }
      | _ => .error .decode

def decodeDpRegister (word : W32) : Except Status Insn :=
  let op2 := bits word 21 4
  if bit word 28 = 0 then
    if op2 < 8 then decodeLogicalShifted word
    else if op2 % 2 ≠ 0 then decodeAddsubExtended word
    else decodeAddsubShifted word
  else
    match op2 with
    | 0 => decodeAddsubCarry word
    | 2 => decodeCondCompare word
    | 4 => decodeCondSelect word
    | 6 => if bit word 30 ≠ 0 then decodeDp1source word else decodeDp2source word
    | op2 => if op2 ≥ 8 then decodeDp3source word else .error .decode

/-! ## loads and stores -/

/-- the operation, signedness and width the two-bit `opc` gives at a size -/
def classifyLoadStore (opc : Nat) (size : MemSize) (insn : Insn) : Except Status Insn :=
  if opc = 0 then .ok { insn with op := .str }
  else if opc = 1 then .ok { insn with op := .ldr }
  else if size = .dword then
    if opc = 2 then .ok { insn with op := .hint } else .error .decode
  else if size = .word ∧ opc = 3 then .error .decode
  else
    .ok { insn with
      op := .ldrs, isSignedLoad := true, width := if opc = 2 then .w64 else .w32 }

/-- the size and width of the single-register forms, classified -/
def ldstSingle (word : W32) : Except Status Insn :=
  let size := toMemSize (bits word 30 2)
  classifyLoadStore (bits word 22 2) size
    { Insn.reset word with
      memSize := size, width := if size = .dword then .w64 else .w32 }

def decodeLdstUnsignedImm (word : W32) : Except Status Insn :=
  match ldstSingle word with
  | .error st => .error st
  | .ok insn =>
    let uimm := ufield word 10 12 <<< insn.memSize.log2
    .ok { insn with
      rd := fieldRd word, rn := fieldRn word, rt2 := fieldRd word, operandKind := .mem
      indexMode := .none, uimm := uimm, imm := uimm, rnIsSpForm := true }

def decodeLdstImmUnscaled (word : W32) : Except Status Insn :=
  match ldstSingle word with
  | .error st => .error st
  | .ok insn =>
    .ok { insn with
      indexMode := match bits word 10 2 with
        | 0 => .none
        | 1 => .post
        | 3 => .pre
        | _ => .none
      rd := fieldRd word, rn := fieldRn word, rt2 := fieldRd word, operandKind := .mem
      imm := sfield word 12 9, uimm := sfield word 12 9, rnIsSpForm := true }

def decodeLdstRegOffset (word : W32) : Except Status Insn :=
  let option := bits word 13 3
  if option &&& 2 = 0 then .error .decode
  else
    match ldstSingle word with
    | .error st => .error st
    | .ok insn =>
      .ok { insn with
        rd := fieldRd word, rn := fieldRn word, rm := fieldRm word, rt2 := fieldRd word
        operandKind := .mem, indexMode := .none, extendType := toExtendType option
        shiftAmount := if bit word 12 ≠ 0 then insn.memSize.log2 else 0
        extendIsLsl := decide (option = 3), rnIsSpForm := true }

def decodeVecDup (word : W32) : Except Status Insn :=
  .ok { Insn.reset word with
    op := .vecDup, rd := fieldRd word, rm := fieldRn word, operandKind := .reg, isVector := true
    memSize := if bit word 30 ≠ 0 then .m128 else .dword }

def decodeLdstVector (word : W32) : Except Status Insn :=
  if bits word 30 2 ≠ 0 ∨ bit word 23 = 0 then .error .unsupported
  else
    let insn := { Insn.reset word with
      op := if bit word 22 ≠ 0 then .ldr else .str
      isVector := true, memSize := .m128, rd := fieldRd word, rn := fieldRn word
      operandKind := .mem, rnIsSpForm := true }
    if bit word 24 ≠ 0 then
      let imm := ufield word 12 10 <<< 4
      .ok { insn with indexMode := .none, imm := imm, uimm := imm }
    else
      let imm := sfield word 12 9
      match bits word 10 2 with
      | 0 => .ok { insn with indexMode := .none, imm := imm, uimm := imm }
      | 1 => .ok { insn with indexMode := .post, imm := imm, uimm := imm }
      | 3 => .ok { insn with indexMode := .pre, imm := imm, uimm := imm }
      | _ => .error .unsupported

/-- the index mode of the pair forms; form 0 is the non-temporal pair -/
def pairIndexMode : Nat → IndexMode
  | 1 => .post
  | 2 => .none
  | 3 => .pre
  | _ => .none

def decodeLdstPairVector (word : W32) : Except Status Insn :=
  let opc := bits word 30 2
  if opc = 3 then .error .decode
  else
    let size : MemSize := if opc = 0 then .word else if opc = 1 then .dword else .m128
    let imm := sfield word 15 7 * ((1 : W64) <<< size.log2)
    .ok { Insn.reset word with
      isVector := true, op := if bit word 22 ≠ 0 then .ldp else .stp
      memSize := size, indexMode := pairIndexMode (bits word 23 2)
      rd := fieldRd word, rn := fieldRn word, rt2 := field word 10, operandKind := .mem
      imm := imm, uimm := imm, rnIsSpForm := true }

def decodeLdstPair (word : W32) : Except Status Insn :=
  let opc := bits word 30 2
  let isLoad := decide (bit word 22 ≠ 0)
  let finish (insn : Insn) : Except Status Insn :=
    let imm := sfield word 15 7 * ((1 : W64) <<< insn.memSize.log2)
    .ok { insn with
      indexMode := pairIndexMode (bits word 23 2), rd := fieldRd word, rn := fieldRn word
      rt2 := field word 10, operandKind := .mem, imm := imm, uimm := imm, rnIsSpForm := true }
  if opc = 3 then .error .decode
  else if opc = 1 then
    if !isLoad then .error .decode
    else
      finish { Insn.reset word with
        op := .ldpsw, memSize := .word, width := .w64, isSignedLoad := true }
  else
    let is64 := decide (opc = 2)
    finish { Insn.reset word with
      op := if isLoad then .ldp else .stp
      memSize := if is64 then .dword else .word
      width := if is64 then .w64 else .w32 }

def decodeLdstLiteral (word : W32) (pc : W64) : Except Status Insn :=
  let opc := bits word 30 2
  if opc = 3 then .ok { Insn.reset word with op := .hint, operandKind := .none }
  else
    let insn :=
      if opc = 2 then
        { Insn.reset word with
          op := .ldrs, isSignedLoad := true, memSize := .word, width := .w64 }
      else
        { Insn.reset word with
          op := .ldr, memSize := if opc = 1 then .dword else .word
          width := if opc = 1 then .w64 else .w32 }
    .ok { insn with
      rd := fieldRd word, rt2 := fieldRd word, operandKind := .imm
      imm := branchTarget word pc 5 19 }

def decodeLdstExclusive (word : W32) : Except Status Insn :=
  let size : MemSize := toMemSize (bits word 30 2)
  let o2 := bit word 23
  let l := bit word 22
  let o1 := bit word 21
  let o0 := bit word 15
  if o1 ≠ 0 then .error .unsupported
  else
    let insn := { Insn.reset word with
      memSize := size, width := if size = MemSize.dword then .w64 else .w32
      rd := fieldRd word, rn := fieldRn word, rm := fieldRm word, rt2 := fieldRd word
      operandKind := .mem, rnIsSpForm := true }
    if o2 = 0 then .ok { insn with op := if l ≠ 0 then .ldxr else .stxr }
    else if o0 = 0 then .error .decode
    else .ok { insn with op := if l ≠ 0 then .ldar else .stlr }

def decodeLoadStore (word : W32) (pc : W64) : Except Status Insn :=
  let op0 := bits word 28 2
  if bit word 26 ≠ 0 then
    if bits word 28 2 = 3 ∧ bits word 30 2 = 0 ∧ bit word 25 = 0 then decodeLdstVector word
    else if op0 = 2 ∧ bit word 25 = 0 then decodeLdstPairVector word
    else .error .unsupported
  else if op0 = 0 then
    if bits word 24 2 ≠ 0 then .error .decode else decodeLdstExclusive word
  else if op0 = 1 then
    if bit word 24 ≠ 0 then .error .decode else decodeLdstLiteral word pc
  else if op0 = 2 then decodeLdstPair word
  else if bit word 24 ≠ 0 then decodeLdstUnsignedImm word
  else if bit word 21 ≠ 0 then decodeLdstRegOffset word
  else decodeLdstImmUnscaled word

/-! ## top level -/

/-- the fixed bits of `DUP (general)` -/
def isVecDup (word : W32) : Bool := word &&& 0xBFFFFC00 == 0x0E010C00

def decode (word : W32) (pc : W64) : Except Status Insn :=
  match bits word 25 4 with
  | 0x8 => decodeDpImmediate word pc
  | 0x9 => decodeDpImmediate word pc
  | 0xA => decodeBranchSystem word pc
  | 0xB => decodeBranchSystem word pc
  | 0x4 => decodeLoadStore word pc
  | 0x6 => decodeLoadStore word pc
  | 0xC => decodeLoadStore word pc
  | 0xE => decodeLoadStore word pc
  | 0x5 => decodeDpRegister word
  | 0xD => decodeDpRegister word
  | 0x7 => if isVecDup word then decodeVecDup word else .error .unsupported
  | 0xF => if isVecDup word then decodeVecDup word else .error .unsupported
  | op0 => if op0 = 2 ∨ op0 = 3 then .error .unsupported else .error .decode

end Oemu
