import Oemu.Regs

/-!
# Decoded instructions

One opcode for each operation the executor implements, and the record the decoder hands it: every
immediate final, sign-extended and scaled, so that the executor never touches encoding bits.
Register numbers are the raw five bits; whether 31 means the stack pointer is a flag beside them.
-/

namespace Oemu

inductive ShiftType where
  | lsl | lsr | asr | ror
deriving DecidableEq, Repr

inductive ExtendType where
  | uxtb | uxth | uxtw | uxtx | sxtb | sxth | sxtw | sxtx
deriving DecidableEq, Repr

/-- how a load or store computes and writes back its address -/
inductive IndexMode where
  | none | post | pre
deriving DecidableEq, Repr

inductive Opcode where
  | unknown
  | add | adds | sub | subs | adc | adcs | sbc | sbcs
  | and | ands | orr | eor | bic | bics | orn | eon
  | movz | movn | movk
  | adr | adrp
  | sbfm | bfm | ubfm | extr
  | lslv | lsrv | asrv | rorv | crc32 | crc32c
  | rbit | rev16 | rev32 | rev | clz | cls
  | udiv | sdiv | madd | msub | smaddl | smsubl | umaddl | umsubl | smulh | umulh
  | csel | csinc | csinv | csneg | ccmp | ccmn
  | b | bl | bCond | br | blr | ret | cbz | cbnz | tbz | tbnz
  | ldr | str | ldrs | ldp | stp | ldpsw | ldxr | stxr | ldar | stlr
  | svc | brk | hlt | hvc | smc | eret | nop | hint | wfi | wfe | barrier | mrs | msr | msrImm
  | sys | vecDup
deriving DecidableEq, Repr

/-- how the second source operand is expressed -/
inductive OperandKind where
  | none | imm | reg | regShifted | regExtended | mem
deriving DecidableEq, Repr

structure Insn where
  word : W32
  op : Opcode := .unknown
  operandKind : OperandKind := .none
  width : RegWidth := .w64
  rd : BitVec 5 := 0
  rn : BitVec 5 := 0
  rm : BitVec 5 := 0
  ra : BitVec 5 := 0
  rt2 : BitVec 5 := 0
  imm : W64 := 0
  uimm : W64 := 0
  shiftType : ShiftType := .lsl
  extendType : ExtendType := .uxtb
  shiftAmount : Nat := 0
  cond : BitVec 4 := 0
  memSize : MemSize := .byte
  indexMode : IndexMode := .none
  isSignedLoad : Bool := false
  isVector : Bool := false
  extendIsLsl : Bool := false
  setsFlags : Bool := false
  rnIsSpForm : Bool := false
  rdIsSpForm : Bool := false
  bitPos : Nat := 0
  sysreg : W32 := 0
deriving DecidableEq

/-- the cleared record: everything zero, 64 bits wide -/
def Insn.reset (word : W32) : Insn := { word }

end Oemu
