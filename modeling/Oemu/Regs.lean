import Oemu.Basic

/-!
# The register file

`X0`..`X30`, `SP`, `PC` and the condition flags.  Register number 31 is the zero register in the
plain accessors and the stack pointer in the `SpForm` ones.  The flags are stored masked, so they
are a type of their own and a stray low bit cannot be built.
-/

namespace Oemu

def nzcvN : W32 := 0x80000000

def nzcvZ : W32 := 0x40000000

def nzcvC : W32 := 0x20000000

def nzcvV : W32 := 0x10000000

def nzcvMask : W32 := nzcvN ||| nzcvZ ||| nzcvC ||| nzcvV

/-- the stored condition flags: nothing outside bits 31:28 -/
structure Nzcv where
  bits : W32
  masked : bits &&& nzcvMask = bits
deriving DecidableEq

/-- what `oemu_regs_set_nzcv` stores of a word -/
def Nzcv.ofWord (w : W32) : Nzcv :=
  ⟨w &&& nzcvMask, by rw [BitVec.and_assoc, BitVec.and_self]⟩

/-- operand width, from the `sf` bit -/
inductive RegWidth where
  | w32 | w64
deriving DecidableEq, Repr

def RegWidth.bits : RegWidth → Nat
  | .w32 => 32
  | .w64 => 64

def truncate (value : W64) : RegWidth → W64
  | .w32 => value &&& 0xFFFFFFFF
  | .w64 => value

structure Regs where
  x : Fin 31 → W64
  sp : W64
  pc : W64
  nzcv : Nzcv

namespace Regs

/-- the general register a number names, if it names one -/
def index (n : BitVec 5) : Option (Fin 31) :=
  if h : n.toNat < 31 then some ⟨n.toNat, h⟩ else none

def init (entryPc initialSp : W64) : Regs :=
  { x := fun _ => 0, sp := initialSp, pc := entryPc, nzcv := Nzcv.ofWord 0 }

def read (r : Regs) (n : BitVec 5) (width : RegWidth) : W64 :=
  match index n with
  | some i => truncate (r.x i) width
  | none => 0

def write (r : Regs) (n : BitVec 5) (width : RegWidth) (value : W64) : Regs :=
  match index n with
  | some i => { r with x := Function.update r.x i (truncate value width) }
  | none => r

def readSpForm (r : Regs) (n : BitVec 5) (width : RegWidth) : W64 :=
  match index n with
  | some i => truncate (r.x i) width
  | none => truncate r.sp width

def writeSpForm (r : Regs) (n : BitVec 5) (width : RegWidth) (value : W64) : Regs :=
  match index n with
  | some i => { r with x := Function.update r.x i (truncate value width) }
  | none => { r with sp := truncate value width }

def setSp (r : Regs) (value : W64) : Regs := { r with sp := value }

def setPc (r : Regs) (value : W64) : Regs := { r with pc := value }

def advancePc (r : Regs) : Regs := { r with pc := r.pc + 4 }

def setNzcv (r : Regs) (w : W32) : Regs := { r with nzcv := Nzcv.ofWord w }

end Regs

/-- the sixteen conditions, as eight base tests with an inverting low bit; `NV` is also always -/
def condHolds (nzcv : W32) (cond : BitVec 4) : Bool :=
  let n := nzcv &&& nzcvN != 0
  let z := nzcv &&& nzcvZ != 0
  let c := nzcv &&& nzcvC != 0
  let v := nzcv &&& nzcvV != 0
  let result :=
    match (cond.toNat >>> 1) % 8 with
    | 0 => z
    | 1 => c
    | 2 => n
    | 3 => v
    | 4 => c && !z
    | 5 => n == v
    | 6 => (n == v) && !z
    | _ => true
  if cond &&& 1 != 0 ∧ cond ≠ 0xF then !result else result

def Regs.condHolds (r : Regs) (cond : BitVec 4) : Bool := Oemu.condHolds r.nzcv.bits cond

structure AluResult where
  value : W64
  nzcv : W32

def addWithCarry (x y : W64) (carryIn : Bool) (width : RegWidth) : AluResult :=
  let carry : W64 := if carryIn then 1 else 0
  let xa := truncate x width
  let ya := truncate y width
  let sign : W64 :=
    match width with
    | .w32 => 0x80000000
    | .w64 => 0x8000000000000000
  let sum := truncate (xa + ya + carry) width
  let carryOut : Bool :=
    match width with
    | .w32 => (xa + ya + carry) >>> 32 != 0
    | .w64 => decide (xa + ya < xa) || (carryIn && xa + ya == BitVec.allOnes 64)
  let xNeg := xa &&& sign != 0
  let yNeg := ya &&& sign != 0
  let sumNeg := sum &&& sign != 0
  { value := sum
    nzcv := (if sumNeg then nzcvN else 0) ||| (if sum = 0 then nzcvZ else 0) |||
      (if carryOut then nzcvC else 0) |||
      (if xNeg = yNeg ∧ sumNeg ≠ xNeg then nzcvV else 0) }

/-! ## the fields an accessor leaves alone -/

section Frame

variable (r : Regs) (n : BitVec 5) (w : RegWidth) (v : W64) (f : W32)

@[simp] theorem Regs.write_pc : (r.write n w v).pc = r.pc := by
  unfold Regs.write
  split <;> rfl

@[simp] theorem Regs.write_sp : (r.write n w v).sp = r.sp := by
  unfold Regs.write
  split <;> rfl

@[simp] theorem Regs.write_nzcv : (r.write n w v).nzcv = r.nzcv := by
  unfold Regs.write
  split <;> rfl

@[simp] theorem Regs.writeSpForm_pc : (r.writeSpForm n w v).pc = r.pc := by
  unfold Regs.writeSpForm
  split <;> rfl

@[simp] theorem Regs.writeSpForm_nzcv : (r.writeSpForm n w v).nzcv = r.nzcv := by
  unfold Regs.writeSpForm
  split <;> rfl

@[simp] theorem Regs.setNzcv_pc : (r.setNzcv f).pc = r.pc := rfl

@[simp] theorem Regs.setNzcv_sp : (r.setNzcv f).sp = r.sp := rfl

@[simp] theorem Regs.setNzcv_x : (r.setNzcv f).x = r.x := rfl

@[simp] theorem Regs.setPc_pc : (r.setPc v).pc = v := rfl

@[simp] theorem Regs.setPc_x : (r.setPc v).x = r.x := rfl

@[simp] theorem Regs.setPc_sp : (r.setPc v).sp = r.sp := rfl

@[simp] theorem Regs.setPc_nzcv : (r.setPc v).nzcv = r.nzcv := rfl

@[simp] theorem Regs.setSp_pc : (r.setSp v).pc = r.pc := rfl

@[simp] theorem Regs.advancePc_pc : r.advancePc.pc = r.pc + 4 := rfl

end Frame

end Oemu
