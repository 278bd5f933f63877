import Oemu.Decode.BitMask
import Oemu.Decode.PcRelative

/-!
# The encodings of the subset

The rows of the A64 encoding table that the emulator implements: for each class of words its fixed
bits, the combinations of its fields that are allocated, and the record of the instruction.  Forms
that differ in a hint only (the non-temporal and the unprivileged accesses, acquire and release on
an exclusive access, the kinds of barrier) share the opcode the record has for them.

* `ImmRow`, `BranchRow`, `RegRow`, `MemRow`  the rows of the four groups;
* `A64`  all of them.
-/

namespace Oemu

variable (word : W32)

/-! ## what the fields name -/

/-- the operand width of bit 31 -/
def sfOf : RegWidth := if word.getLsbD 31 then .w64 else .w32

/-- addition and subtraction: bit 30 subtracts, bit 29 sets the flags -/
def addsubOf : Opcode :=
  match word.getLsbD 30, word.getLsbD 29 with
  | false, false => .add
  | false, true => .adds
  | true, false => .sub
  | true, true => .subs

def carryOf : Opcode :=
  match word.getLsbD 30, word.getLsbD 29 with
  | false, false => .adc
  | false, true => .adcs
  | true, false => .sbc
  | true, true => .sbcs

/-- the logical operations of bits 30:29, on the operand or on its complement -/
def logicalOf (negated : Bool) : Opcode :=
  match word.getLsbD 30, word.getLsbD 29, negated with
  | false, false, false => .and
  | false, false, true => .bic
  | false, true, false => .orr
  | false, true, true => .orn
  | true, false, false => .eor
  | true, false, true => .eon
  | true, true, false => .ands
  | true, true, true => .bics

/-- the extension of bits 15:13 -/
def extendTypeOf : ExtendType :=
  match word.getLsbD 15, word.getLsbD 14, word.getLsbD 13 with
  | false, false, false => .uxtb
  | false, false, true => .uxth
  | false, true, false => .uxtw
  | false, true, true => .uxtx
  | true, false, false => .sxtb
  | true, false, true => .sxth
  | true, true, false => .sxtw
  | true, true, true => .sxtx

/-- the size of an access, bits 31:30 -/
def memSizeOf : MemSize :=
  match word.getLsbD 31, word.getLsbD 30 with
  | false, false => .byte
  | false, true => .half
  | true, false => .word
  | true, true => .dword

def moveWideOf : Opcode :=
  match word.getLsbD 30, word.getLsbD 29 with
  | false, _ => .movn
  | true, false => .movz
  | true, true => .movk

def bitfieldOf : Opcode :=
  match word.getLsbD 30, word.getLsbD 29 with
  | false, false => .sbfm
  | false, true => .bfm
  | true, _ => .ubfm

/-! ## data processing, immediate -/

inductive ImmRow (pc : W64) : Insn → Prop where
  | adr (h : bits word 24 5 = 0b10000) (h31 : bit word 31 = 0) : ImmRow pc
      { word, op := .adr, operandKind := .imm, rd := field word 0
        imm := pc + BitVec.ofInt 64 (displacement word .adr) }
  | adrp (h : bits word 24 5 = 0b10000) (h31 : bit word 31 = 1) : ImmRow pc
      { word, op := .adrp, operandKind := .imm, rd := field word 0
        imm := (pc &&& ~~~(0xFFF : W64)) + BitVec.ofInt 64 (displacement word .adrp) }
  | addsub (h : bits word 23 6 = 0b100010) {v : W64}
      (hv : v = uimm word 10 12 <<< (12 * bit word 22)) : ImmRow pc
      { word, op := addsubOf word, operandKind := .imm, width := sfOf word
        rd := field word 0, rn := field word 5, imm := v, uimm := v
        setsFlags := word.getLsbD 29, rnIsSpForm := true, rdIsSpForm := !word.getLsbD 29 }
  | logical (h : bits word 23 6 = 0b100100) {len : Nat} {m : W64}
      (hm : BitMask (word.getLsbD 22) (bits word 10 6) (bits word 16 6) (sfOf word) len m) :
      ImmRow pc
      { word, op := logicalOf word false, operandKind := .imm, width := sfOf word
        rd := field word 0, rn := field word 5, imm := m, uimm := m
        setsFlags := decide (bits word 29 2 = 0b11), rdIsSpForm := !decide (bits word 29 2 = 0b11) }
  | moveWide (h : bits word 23 6 = 0b100101) (hopc : bits word 29 2 ≠ 0b01)
      (hhw : bit word 31 = 0 → bit word 22 = 0) {v : W64}
      (hv : v = uimm word 5 16 <<< (bits word 21 2 * 16)) : ImmRow pc
      { word, op := moveWideOf word, operandKind := .imm, width := sfOf word
        rd := field word 0, imm := v, uimm := v, shiftAmount := bits word 21 2 * 16 }
  | bitfield (h : bits word 23 6 = 0b100110) (hopc : bits word 29 2 ≠ 0b11)
      (hn : bit word 22 = bit word 31) (hr : bits word 16 6 < (sfOf word).bits)
      (hs : bits word 10 6 < (sfOf word).bits) {v : W64}
      (hv : v = uimm word 16 6 <<< 8 ||| uimm word 10 6) : ImmRow pc
      { word, op := bitfieldOf word, operandKind := .imm, width := sfOf word
        rd := field word 0, rn := field word 5, imm := v, uimm := v
        shiftAmount := bits word 16 6, bitPos := bits word 10 6 }
  | extract (h : bits word 23 6 = 0b100111) (hopc : bits word 29 2 = 0) (ho : bit word 21 = 0)
      (hn : bit word 22 = bit word 31) (hs : bits word 10 6 < (sfOf word).bits) : ImmRow pc
      { word, op := .extr, operandKind := .reg, width := sfOf word
        rd := field word 0, rn := field word 5, rm := field word 16
        imm := uimm word 10 6, uimm := uimm word 10 6, shiftAmount := bits word 10 6 }

/-! ## branches, exceptions and system -/

/-- the exception of `opc` and `LL` -/
inductive Exceptional : Nat → Nat → Opcode → Prop where
  | svc : Exceptional 0 1 .svc
  | hvc : Exceptional 0 2 .hvc
  | smc : Exceptional 0 3 .smc
  | brk : Exceptional 1 0 .brk
  | hlt : Exceptional 2 0 .hlt

/-- the opcode of a hint number -/
def hintOf (n : Nat) : Opcode :=
  if n = 0 then .nop else if n = 2 then .wfe else if n = 3 then .wfi else .hint

/-- `op1` and `op2` of a `PSTATE` field: `UAO`, `PAN` and `SPSel`; `SSBS`, `DIT`, `DAIFSet` and
`DAIFClr` -/
def PstateField (op1 op2 : Nat) : Prop :=
  (op1 = 0 ∧ (op2 = 3 ∨ op2 = 4 ∨ op2 = 5)) ∨ (op1 = 3 ∧ (op2 = 1 ∨ op2 = 2 ∨ op2 = 6 ∨ op2 = 7))

/-- `op2` of a barrier: `CLREX`, `DSB`, `DMB` and `ISB` -/
def BarrierKind (op2 : Nat) : Prop := op2 = 2 ∨ op2 = 4 ∨ op2 = 5 ∨ op2 = 6

inductive BranchRow (pc : W64) : Insn → Prop where
  | branch (h : bits word 26 5 = 0b00101) : BranchRow pc
      { word, op := if word.getLsbD 31 then .bl else .b, operandKind := .imm
        imm := pc + BitVec.ofInt 64 (displacement word .b) }
  | cond (h : bits word 24 8 = 0b01010100) (h4 : bit word 4 = 0) : BranchRow pc
      { word, op := .bCond, operandKind := .imm, cond := word.extractLsb' 0 4
        imm := pc + BitVec.ofInt 64 (displacement word .bCond) }
  | compare (h : bits word 25 6 = 0b011010) : BranchRow pc
      { word, op := if word.getLsbD 24 then .cbnz else .cbz, operandKind := .imm
        width := sfOf word, rd := field word 0, rt2 := field word 0
        imm := pc + BitVec.ofInt 64 (displacement word .cbz) }
  | test (h : bits word 25 6 = 0b011011) : BranchRow pc
      { word, op := if word.getLsbD 24 then .tbnz else .tbz, operandKind := .imm
        width := sfOf word, rd := field word 0, rt2 := field word 0
        bitPos := 32 * bit word 31 + bits word 19 5
        imm := pc + BitVec.ofInt 64 (displacement word .tbz) }
  | exception (h : bits word 24 8 = 0b11010100) (h2 : bits word 2 3 = 0) {op : Opcode}
      (ho : Exceptional (bits word 21 3) (bits word 0 2) op) : BranchRow pc
      { word, op, operandKind := .imm, imm := uimm word 5 16, uimm := uimm word 5 16 }
  | hint (h : bits word 12 20 = 0b11010101000000110010) (ht : bits word 0 5 = 31) : BranchRow pc
      { word, op := hintOf (bits word 5 7), imm := uimm word 5 7, uimm := uimm word 5 7 }
  | barrier (h : bits word 12 20 = 0b11010101000000110011) (ht : bits word 0 5 = 31)
      (hk : BarrierKind (bits word 5 3)) : BranchRow pc
      { word, op := .barrier, imm := uimm word 8 4, uimm := uimm word 8 4 }
  | msrImm (h : bits word 19 13 = 0b1101010100000) (hn : bits word 12 4 = 4)
      (ht : bits word 0 5 = 31) (hp : PstateField (bits word 16 3) (bits word 5 3)) : BranchRow pc
      { word, op := .msrImm, operandKind := .imm, imm := uimm word 8 4, uimm := uimm word 5 3 }
  | sys (h : bits word 22 10 = 0b1101010100) (h0 : bits word 19 2 = 0b01) : BranchRow pc
      { word, op := .sys, rd := field word 0, rt2 := field word 0
        sysreg := (word.extractLsb' 5 14).setWidth 32 }
  | move (h : bits word 22 10 = 0b1101010100) (h0 : bit word 20 = 1) : BranchRow pc
      { word, op := if word.getLsbD 21 then .mrs else .msr, rd := field word 0, rt2 := field word 0
        sysreg := (word.extractLsb' 5 15).setWidth 32 }
  | br (h : bits word 10 22 = 0b1101011000011111000000) (h0 : bits word 0 5 = 0) : BranchRow pc
      { word, op := .br, operandKind := .reg, rn := field word 5 }
  | blr (h : bits word 10 22 = 0b1101011000111111000000) (h0 : bits word 0 5 = 0) : BranchRow pc
      { word, op := .blr, operandKind := .reg, rn := field word 5 }
  | ret (h : bits word 10 22 = 0b1101011001011111000000) (h0 : bits word 0 5 = 0) : BranchRow pc
      { word, op := .ret, operandKind := .reg, rn := field word 5 }
  | eret (h : bits word 10 22 = 0b1101011010011111000000) (h0 : bits word 0 10 = 0b1111100000) :
      BranchRow pc
      { word, op := .eret, rn := field word 5 }

/-! ## data processing, register -/

/-- the operations on one register, of `opcode`; two of them depend on the width -/
inductive OneSource : RegWidth → Nat → Opcode → Prop where
  | rbit (w : RegWidth) : OneSource w 0 .rbit
  | rev16 (w : RegWidth) : OneSource w 1 .rev16
  | revW : OneSource .w32 2 .rev
  | rev32 : OneSource .w64 2 .rev32
  | rev : OneSource .w64 3 .rev
  | clz (w : RegWidth) : OneSource w 4 .clz
  | cls (w : RegWidth) : OneSource w 5 .cls

/-- the operations on two registers, of `opcode` -/
inductive TwoSource : Nat → Opcode → Prop where
  | udiv : TwoSource 2 .udiv
  | sdiv : TwoSource 3 .sdiv
  | lslv : TwoSource 8 .lslv
  | lsrv : TwoSource 9 .lsrv
  | asrv : TwoSource 10 .asrv
  | rorv : TwoSource 11 .rorv

/-- the selects of bits 30 and 10 -/
def condSelectOf : Opcode :=
  match word.getLsbD 30, word.getLsbD 10 with
  | false, false => .csel
  | false, true => .csinc
  | true, false => .csinv
  | true, true => .csneg

/-- the long multiplications: bit 23 is unsigned, bit 15 subtracts -/
def mulLongOf : Opcode :=
  match word.getLsbD 23, word.getLsbD 15 with
  | false, false => .smaddl
  | false, true => .smsubl
  | true, false => .umaddl
  | true, true => .umsubl

inductive RegRow : Insn → Prop where
  | logical (h : bits word 24 5 = 0b01010) (ha : bit word 31 = 0 → bit word 15 = 0) : RegRow
      { word, op := logicalOf word (word.getLsbD 21), width := sfOf word
        operandKind := if bits word 10 6 = 0 then .reg else .regShifted
        rd := field word 0, rn := field word 5, rm := field word 16
        shiftType := shiftOf word, shiftAmount := bits word 10 6
        setsFlags := decide (bits word 29 2 = 0b11) }
  | addsubShifted (h : bits word 24 5 = 0b01011) (h21 : bit word 21 = 0)
      (hs : bits word 22 2 ≠ 0b11) (ha : bit word 31 = 0 → bit word 15 = 0) : RegRow
      { word, op := addsubOf word, width := sfOf word
        operandKind := if bits word 10 6 = 0 then .reg else .regShifted
        rd := field word 0, rn := field word 5, rm := field word 16
        shiftType := shiftOf word, shiftAmount := bits word 10 6, setsFlags := word.getLsbD 29 }
  | addsubExtended (h : bits word 21 8 = 0b01011001) (ha : bits word 10 3 ≤ 4) : RegRow
      { word, op := addsubOf word, operandKind := .regExtended, width := sfOf word
        rd := field word 0, rn := field word 5, rm := field word 16
        extendType := extendTypeOf word, shiftAmount := bits word 10 3
        setsFlags := word.getLsbD 29, rnIsSpForm := true, rdIsSpForm := !word.getLsbD 29 }
  | carry (h : bits word 21 8 = 0b11010000) (h10 : bits word 10 6 = 0) : RegRow
      { word, op := carryOf word, operandKind := .reg, width := sfOf word
        rd := field word 0, rn := field word 5, rm := field word 16, setsFlags := word.getLsbD 29 }
  | condCompareImm (h : bits word 21 9 = 0b111010010) (h10 : bits word 10 2 = 0b10)
      (h4 : bit word 4 = 0) : RegRow
      { word, op := if word.getLsbD 30 then .ccmp else .ccmn, operandKind := .imm
        width := sfOf word, rn := field word 5, cond := word.extractLsb' 12 4
        imm := uimm word 16 5, uimm := uimm word 0 4, setsFlags := true }
  | condCompareReg (h : bits word 21 9 = 0b111010010) (h10 : bits word 10 2 = 0)
      (h4 : bit word 4 = 0) : RegRow
      { word, op := if word.getLsbD 30 then .ccmp else .ccmn, operandKind := .reg
        width := sfOf word, rn := field word 5, rm := field word 16, cond := word.extractLsb' 12 4
        uimm := uimm word 0 4, setsFlags := true }
  | condSelect (h : bits word 21 9 = 0b011010100) (h11 : bit word 11 = 0) : RegRow
      { word, op := condSelectOf word, operandKind := .reg, width := sfOf word
        rd := field word 0, rn := field word 5, rm := field word 16
        cond := word.extractLsb' 12 4 }
  | oneSource (h : bits word 16 15 = 0b101101011000000) {op : Opcode}
      (ho : OneSource (sfOf word) (bits word 10 6) op) : RegRow
      { word, op, width := sfOf word, rd := field word 0, rn := field word 5 }
  | twoSource (h : bits word 21 10 = 0b0011010110) {op : Opcode}
      (ho : TwoSource (bits word 10 6) op) : RegRow
      { word, op, operandKind := .reg, width := sfOf word
        rd := field word 0, rn := field word 5, rm := field word 16 }
  | crc32 (h : bits word 21 10 = 0b0011010110) (h13 : bits word 13 3 = 0b010)
      (hsf : bit word 31 = 1 ↔ bits word 10 2 = 3) : RegRow
      { word, op := if word.getLsbD 12 then .crc32c else .crc32, operandKind := .reg, width := .w32
        rd := field word 0, rn := field word 5, rm := field word 16
        uimm := BitVec.ofNat 64 (2 ^ bits word 10 2) }
  | mulAdd (h : bits word 21 10 = 0b0011011000) : RegRow
      { word, op := if word.getLsbD 15 then .msub else .madd, operandKind := .reg
        width := sfOf word, rd := field word 0, rn := field word 5, rm := field word 16
        ra := field word 10 }
  | mulLong (h : bits word 24 8 = 0b10011011) (h21 : bits word 21 2 = 0b01) : RegRow
      { word, op := mulLongOf word, operandKind := .reg
        rd := field word 0, rn := field word 5, rm := field word 16, ra := field word 10 }
  | mulHigh (h : bits word 24 8 = 0b10011011) (h21 : bits word 21 2 = 0b10)
      (h15 : bit word 15 = 0) : RegRow
      { word, op := if word.getLsbD 23 then .umulh else .smulh, operandKind := .reg
        rd := field word 0, rn := field word 5, rm := field word 16, ra := field word 10 }

/-! ## loads and stores -/

/-- opcode, sign and width of `size` and `opc`; the last of them prefetches -/
inductive OneRegister (size : Nat) : Nat → Opcode → Bool → RegWidth → Prop where
  | str : OneRegister size 0 .str false (if size = 3 then .w64 else .w32)
  | ldr : OneRegister size 1 .ldr false (if size = 3 then .w64 else .w32)
  | ldrs64 (h : size ≠ 3) : OneRegister size 2 .ldrs true .w64
  | ldrs32 (h : size = 0 ∨ size = 1) : OneRegister size 3 .ldrs true .w32
  | prfm (h : size = 3) : OneRegister size 2 .hint false .w64

/-- the literals of `opc` -/
inductive Literal : Nat → Opcode → MemSize → Bool → RegWidth → Prop where
  | w : Literal 0 .ldr .word false .w32
  | x : Literal 1 .ldr .dword false .w64
  | sw : Literal 2 .ldrs .word true .w64

/-- the size of one register of a vector pair, of `opc` -/
inductive VectorSize : Nat → MemSize → Prop where
  | s : VectorSize 0 .word
  | d : VectorSize 1 .dword
  | q : VectorSize 2 .m128

inductive MemRow (pc : W64) : Insn → Prop where
  | unsignedImm (h : bits word 24 6 = 0b111001) {op : Opcode} {signed : Bool} {width : RegWidth}
      (ho : OneRegister (bits word 30 2) (bits word 22 2) op signed width) {v : W64}
      (hv : v = uimm word 10 12 <<< bits word 30 2) : MemRow pc
      { word, op, operandKind := .mem, width, rd := field word 0, rn := field word 5
        rt2 := field word 0, imm := v, uimm := v, memSize := memSizeOf word
        isSignedLoad := signed, rnIsSpForm := true }
  | unscaled (h : bits word 24 6 = 0b111000) (h21 : bit word 21 = 0) {op : Opcode} {signed : Bool}
      {width : RegWidth} (ho : OneRegister (bits word 30 2) (bits word 22 2) op signed width)
      (hp : op = .hint → bits word 10 2 = 0) : MemRow pc
      { word, op, operandKind := .mem, width, rd := field word 0, rn := field word 5
        rt2 := field word 0, imm := simm word 12 9, uimm := simm word 12 9
        memSize := memSizeOf word, indexMode := indexBits (bits word 10 2)
        isSignedLoad := signed, rnIsSpForm := true }
  | regOffset (h : bits word 24 6 = 0b111000) (h21 : bit word 21 = 1) (h10 : bits word 10 2 = 0b10)
      (h14 : bit word 14 = 1) {op : Opcode} {signed : Bool} {width : RegWidth}
      (ho : OneRegister (bits word 30 2) (bits word 22 2) op signed width) : MemRow pc
      { word, op, operandKind := .mem, width, rd := field word 0, rn := field word 5
        rm := field word 16, rt2 := field word 0, extendType := extendTypeOf word
        shiftAmount := bit word 12 * bits word 30 2, memSize := memSizeOf word
        isSignedLoad := signed, extendIsLsl := decide (bits word 13 3 = 0b011)
        rnIsSpForm := true }
  | literal (h : bits word 24 6 = 0b011000) {op : Opcode} {size : MemSize} {signed : Bool}
      {width : RegWidth} (ho : Literal (bits word 30 2) op size signed width) : MemRow pc
      { word, op, operandKind := .imm, width, rd := field word 0, rt2 := field word 0
        imm := pc + BitVec.ofInt 64 (displacement word .ldr), memSize := size
        isSignedLoad := signed }
  | prefetchLiteral (h : bits word 24 8 = 0b11011000) : MemRow pc { word, op := .hint }
  | pair (h : bits word 25 5 = 0b10100) (h30 : bit word 30 = 0) {size : MemSize}
      (hs : size = if word.getLsbD 31 then .dword else .word) : MemRow pc
      { word, op := if word.getLsbD 22 then .ldp else .stp, operandKind := .mem, width := sfOf word
        rd := field word 0, rn := field word 5, rt2 := field word 10
        imm := simm word 15 7 <<< size.log2, uimm := simm word 15 7 <<< size.log2
        memSize := size, indexMode := indexBits (bits word 23 2), rnIsSpForm := true }
  | pairSigned (h : bits word 25 7 = 0b0110100) (h22 : bit word 22 = 1)
      (h23 : bits word 23 2 ≠ 0) : MemRow pc
      { word, op := .ldpsw, operandKind := .mem, rd := field word 0, rn := field word 5
        rt2 := field word 10, imm := simm word 15 7 <<< 2, uimm := simm word 15 7 <<< 2
        memSize := .word, indexMode := indexBits (bits word 23 2), isSignedLoad := true
        rnIsSpForm := true }
  | vectorPair (h : bits word 25 5 = 0b10110) {size : MemSize}
      (hs : VectorSize (bits word 30 2) size) : MemRow pc
      { word, op := if word.getLsbD 22 then .ldp else .stp, operandKind := .mem
        rd := field word 0, rn := field word 5, rt2 := field word 10
        imm := simm word 15 7 <<< size.log2, uimm := simm word 15 7 <<< size.log2
        memSize := size, indexMode := indexBits (bits word 23 2), isVector := true
        rnIsSpForm := true }
  | vectorImm (h : bits word 23 9 = 0b001111011) {v : W64} (hv : v = uimm word 10 12 <<< 4) :
      MemRow pc
      { word, op := if word.getLsbD 22 then .ldr else .str, operandKind := .mem
        rd := field word 0, rn := field word 5, imm := v, uimm := v, memSize := .m128
        isVector := true, rnIsSpForm := true }
  | vectorUnscaled (h : bits word 23 9 = 0b001111001) (h21 : bit word 21 = 0)
      (h10 : bits word 10 2 ≠ 0b10) : MemRow pc
      { word, op := if word.getLsbD 22 then .ldr else .str, operandKind := .mem
        rd := field word 0, rn := field word 5, imm := simm word 12 9, uimm := simm word 12 9
        memSize := .m128, indexMode := indexBits (bits word 10 2), isVector := true
        rnIsSpForm := true }
  | exclusive (h : bits word 23 7 = 0b0010000) (h21 : bit word 21 = 0) : MemRow pc
      { word, op := if word.getLsbD 22 then .ldxr else .stxr, operandKind := .mem
        width := if bits word 30 2 = 3 then .w64 else .w32, rd := field word 0, rn := field word 5
        rm := field word 16, rt2 := field word 0, memSize := memSizeOf word, rnIsSpForm := true }
  | ordered (h : bits word 23 7 = 0b0010001) (h21 : bit word 21 = 0) (h15 : bit word 15 = 1) :
      MemRow pc
      { word, op := if word.getLsbD 22 then .ldar else .stlr, operandKind := .mem
        width := if bits word 30 2 = 3 then .w64 else .w32, rd := field word 0, rn := field word 5
        rm := field word 16, rt2 := field word 0, memSize := memSizeOf word, rnIsSpForm := true }

/-! ## the table -/

end Oemu
