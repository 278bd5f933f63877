import Oemu.Exec.Alu
import Oemu.Lib.Prog

/-!
# Loads and stores

The memory arms of the switch, over any bus.  A bus access may abort the whole run: after a
successful `validate` the executor takes a refused access for a bug of its own and stops, which is
`Prog.abort` here.  Every arm threads the processor it was handed, so what a refusal leaves behind
is what the arm had written by then.
-/

namespace Oemu

/-- one core: the registers, the exclusive monitor, the thread register and the vector file -/
structure Cpu where
  regs : Regs
  monitorAddr : W64
  monitorSize : W64
  monitorValid : Bool
  tpidrurEl0 : W64
  v : BitVec 5 → W64 × W64

def Cpu.init (entryPc initialSp : W64) : Cpu where
  regs := Regs.init entryPc initialSp
  monitorAddr := 0
  monitorSize := 0
  monitorValid := false
  tpidrurEl0 := 0
  v := fun _ => (0, 0)

namespace Cpu

def writeG (cpu : Cpu) (n : BitVec 5) (spForm : Bool) (width : RegWidth) (value : W64) : Cpu :=
  { cpu with regs := Oemu.writeG cpu.regs n spForm width value }

def setV (cpu : Cpu) (n : BitVec 5) (lo hi : W64) : Cpu :=
  { cpu with v := Function.update cpu.v n (lo, hi) }

end Cpu

/-- does a store overlap the reserved range: subtractions only, the range may touch `2^64` -/
def monitorOverlap (cpu : Cpu) (addr nbytes : W64) : Bool :=
  if cpu.monitorAddr ≤ addr then decide (addr - cpu.monitorAddr < cpu.monitorSize)
  else decide (cpu.monitorAddr - addr < nbytes)

/-- the store side of the monitor rules -/
def noteStore (cpu : Cpu) (addr nbytes : W64) : Cpu :=
  if !cpu.monitorValid then cpu
  else if monitorOverlap cpu addr nbytes then { cpu with monitorValid := false }
  else cpu

/-- the size of an access as the byte count `validate` takes -/
def MemSize.count (s : MemSize) : W64 := (1 : W64) <<< s.log2

/-! ## the bus, from an instruction -/

variable {σ : Type}

def accessOrPanic (st : Status) : StateT σ Option PUnit :=
  if st = .ok then pure () else Prog.abort

def busValidate (mem : Memops σ) (addr size : W64) (perm : W32) : StateT σ Option Status :=
  Prog.act fun s => mem.validate s addr size perm

def busRead (mem : Memops σ) (addr : W64) (size : MemSize) (sx : Bool) : StateT σ Option W64 := do
  let r ← Prog.act fun s =>
    (((mem.read s addr size sx).1, (mem.read s addr size sx).2.1), (mem.read s addr size sx).2.2)
  accessOrPanic r.1
  pure r.2

def busWrite (mem : Memops σ) (addr : W64) (size : MemSize) (value : W64) :
    StateT σ Option PUnit := do
  let st ← Prog.act fun s => mem.write s addr size value
  accessOrPanic st

/-- `validate` over several addresses, up to the first refusal -/
def validateAll (mem : Memops σ) (bytes : W64) (perm : W32) : List W64 → StateT σ Option Status
  | [] => pure .ok
  | a :: l => do
    let st ← busValidate mem a bytes perm
    if st ≠ .ok then pure .fault else validateAll mem bytes perm l

/-! ## addresses -/

/-- the address and the writeback value of every non-literal form -/
def resolveMemAddr (r : Regs) (insn : Insn) : W64 × W64 :=
  let base := readG r insn.rn true .w64
  let offset :=
    if insn.extendType ≠ .uxtb ∨ insn.extendIsLsl then
      extendOperand (readG r insn.rm false .w64) insn.extendType insn.shiftAmount
    else insn.imm
  (if insn.indexMode = .post then base else base + offset, base + offset)

/-- the base register after an indexed form -/
def writebackG (cpu : Cpu) (insn : Insn) (writeback : W64) : Cpu :=
  if insn.indexMode ≠ .none then cpu.writeG insn.rn true .w64 writeback else cpu

/-! ## the arms -/

/-- both transfers of a pair, the second only when the first is good -/
def validatePair (mem : Memops σ) (addr addr2 size : W64) (perm : W32) :
    StateT σ Option Status := do
  let st ← busValidate mem addr size perm
  if st = .ok then busValidate mem addr2 size perm else pure st

/-- `LDP`, `LDPSW` and `STP` of general registers -/
def doPair (mem : Memops σ) (cpu : Cpu) (insn : Insn) : StateT σ Option (Status × Cpu) := do
  let addr := (resolveMemAddr cpu.regs insn).1
  let writeback := (resolveMemAddr cpu.regs insn).2
  let transfer := insn.memSize.count
  let addr2 := addr + transfer
  let perm := if insn.op = .stp then permWrite else permRead
  let st ← validatePair mem addr addr2 transfer perm
  if st ≠ .ok then pure (.fault, cpu)
  else if insn.op = .stp then do
    let v1 := readG cpu.regs insn.rd false insn.width
    let v2 := readG cpu.regs insn.rt2 false insn.width
    busWrite mem addr insn.memSize v1
    busWrite mem addr2 insn.memSize v2
    pure (.ok, writebackG (noteStore cpu addr (transfer * 2)) insn writeback)
  else do
    let v1 ← busRead mem addr insn.memSize insn.isSignedLoad
    let v2 ← busRead mem addr2 insn.memSize insn.isSignedLoad
    let cpu := cpu.writeG insn.rd false insn.width v1
    let cpu := cpu.writeG insn.rt2 false insn.width v2
    pure (.ok, writebackG cpu insn writeback)

/-- the size of one bus transfer of a vector register, and how many it takes -/
def vectorPiece (insn : Insn) : MemSize := if insn.memSize = .m128 then .dword else insn.memSize

def vectorPieces (insn : Insn) : Nat := if insn.memSize = .m128 then 2 else 1

def pairVectorMove (mem : Memops σ) (cpu : Cpu) (insn : Insn) (reg : BitVec 5) (a : W64) :
    StateT σ Option Cpu := do
  if insn.op = .stp then do
    busWrite mem a (vectorPiece insn) (cpu.v reg).1
    if vectorPieces insn = 2 then busWrite mem (a + 8) .dword (cpu.v reg).2 else pure ()
    pure cpu
  else do
    let lo ← busRead mem a (vectorPiece insn) false
    let hi ← if vectorPieces insn = 2 then busRead mem (a + 8) .dword false else pure 0
    pure (cpu.setV reg lo hi)

def pairVectorAddrs (insn : Insn) (addr : W64) : List W64 :=
  let stride := insn.memSize.count
  if vectorPieces insn = 2 then [addr, addr + 8, addr + stride, addr + stride + 8]
  else [addr, addr + stride]

/-- `LDP` and `STP` of vector registers -/
def doPairVector (mem : Memops σ) (cpu : Cpu) (insn : Insn) : StateT σ Option (Status × Cpu) := do
  let addr := (resolveMemAddr cpu.regs insn).1
  let writeback := (resolveMemAddr cpu.regs insn).2
  let stride := insn.memSize.count
  let bytes := if stride < 8 then stride else 8
  let perm := if insn.op = .stp then permWrite else permRead
  let st ← validateAll mem bytes perm (pairVectorAddrs insn addr)
  if st ≠ .ok then pure (.fault, cpu)
  else do
    let cpu ← pairVectorMove mem cpu insn insn.rd addr
    let cpu ← pairVectorMove mem cpu insn insn.rt2 (addr + stride)
    let cpu := if insn.op = .stp then noteStore cpu addr (stride * 2) else cpu
    pure (.ok, writebackG cpu insn writeback)

/-- `LDR` and `STR` of one 16-byte vector register -/
def doSingleVector (mem : Memops σ) (cpu : Cpu) (insn : Insn) :
    StateT σ Option (Status × Cpu) := do
  let addr := (resolveMemAddr cpu.regs insn).1
  let writeback := (resolveMemAddr cpu.regs insn).2
  let perm := if insn.op = .str then permWrite else permRead
  let st ← validateAll mem 8 perm [addr, addr + 8]
  if st ≠ .ok then pure (.fault, cpu)
  else if insn.op = .str then do
    busWrite mem addr .dword (cpu.v insn.rd).1
    busWrite mem (addr + 8) .dword (cpu.v insn.rd).2
    pure (.ok, writebackG cpu insn writeback)
  else do
    let lo ← busRead mem addr .dword false
    let hi ← busRead mem (addr + 8) .dword false
    pure (.ok, writebackG (cpu.setV insn.rd lo hi) insn writeback)

/-- the address of a single transfer: a literal is resolved already -/
def singleAddr (r : Regs) (insn : Insn) : W64 :=
  if insn.operandKind = .imm then insn.imm else (resolveMemAddr r insn).1

/-- one general register -/
def doSingleMem (mem : Memops σ) (cpu : Cpu) (insn : Insn) : StateT σ Option (Status × Cpu) := do
  let isStore := insn.op = .str ∨ insn.op = .stlr
  let nbytes := insn.memSize.count
  let addr := singleAddr cpu.regs insn
  let finish (cpu' : Cpu) : Cpu :=
    if insn.operandKind = .imm then cpu'
    else writebackG cpu' insn (resolveMemAddr cpu.regs insn).2
  let st ← busValidate mem addr nbytes (if isStore then permWrite else permRead)
  if st ≠ .ok then pure (.fault, cpu)
  else if isStore then do
    busWrite mem addr insn.memSize (readG cpu.regs insn.rd false insn.width)
    pure (.ok, finish (noteStore cpu addr nbytes))
  else do
    let value ← busRead mem addr insn.memSize insn.isSignedLoad
    pure (.ok, finish (cpu.writeG insn.rd false insn.width value))

/-- does a store-exclusive find its reservation -/
def exclusiveHit (cpu : Cpu) (addr nbytes : W64) : Bool :=
  cpu.monitorValid && cpu.monitorAddr == addr && cpu.monitorSize == nbytes

def doExclusive (mem : Memops σ) (cpu : Cpu) (insn : Insn) : StateT σ Option (Status × Cpu) := do
  let nbytes := insn.memSize.count
  let addr := readG cpu.regs insn.rn true .w64
  let st ← busValidate mem addr nbytes (if insn.op = .ldxr then permRead else permWrite)
  if st ≠ .ok then pure (.fault, cpu)
  else if insn.op = .ldxr then do
    let value ← busRead mem addr insn.memSize false
    let cpu := cpu.writeG insn.rd false insn.width value
    pure (.ok, { cpu with monitorAddr := addr, monitorSize := nbytes, monitorValid := true })
  else do
    let success := exclusiveHit cpu addr nbytes
    let cpu := { cpu with monitorValid := false }
    if success then do
      busWrite mem addr insn.memSize (readG cpu.regs insn.rd false insn.width)
      pure (.ok, cpu.writeG insn.rm false .w32 0)
    else pure (.ok, cpu.writeG insn.rm false .w32 1)

end Oemu
