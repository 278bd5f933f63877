import Oemu.Exec.Dispatch
import Oemu.Mmu.Bus

/-!
# System mode

The same opcodes at EL1 and above: traps enter the guest's vectors, register moves go through the
table, `ERET` returns, `SYS` reaches the translation layer, and a refused access becomes a data
abort.  Everything else is the shared switch.  The bus is a view over the translation layer, so the
world is `MmuWorld σ`; a firmware call sees the environment only.
-/

namespace Oemu

/-! ## the `SYS` space -/

def sysOp1 (sel : W32) : Nat := (sel.toNat >>> 11) % 8

def sysCrn (sel : W32) : Nat := (sel.toNat >>> 7) % 16

def sysCrm (sel : W32) : Nat := (sel.toNat >>> 3) % 16

def sysDcZva : W32 := 0x1BA1

def cacheLine : W64 := 64

inductive SysAction where
  | trap | nop | dcZva | tlbi | at
deriving DecidableEq, Repr

def sysAction (sel : W32) : SysAction :=
  let op1 := sysOp1 sel
  let crn := sysCrn sel
  let crm := sysCrm sel
  if sel = sysDcZva then .dcZva
  else if (crn = 8 ∨ crn = 9) ∧ (op1 = 0 ∨ op1 = 1 ∨ op1 = 2 ∨ op1 = 4) then .tlbi
  else if crn = 7 ∧ (crm = 8 ∨ crm = 9) ∧ op1 = 0 then .at
  else if crn = 7 ∧ (crm = 8 ∨ crm = 9) ∧ op1 = 4 then .trap
  else if (op1 = 0 ∨ op1 = 3) ∧ (crn = 7 ∨ crn = 10 ∨ crn = 11 ∨ crn = 15) then .nop
  else .trap

/-! ## what a data abort reports -/

/-- the address a refused access was made at -/
def faultFarOf (r : Regs) (insn : Insn) : W64 :=
  if insn.operandKind = .imm then insn.imm
  else if insn.op = .ldxr ∨ insn.op = .stxr then readG r insn.rn true .w64
  else (resolveMemAddr r insn).1

def opIsStore (op : Opcode) : Bool :=
  decide (op = .str ∨ op = .stp ∨ op = .stlr ∨ op = .stxr)

def opIsPair (op : Opcode) : Bool := decide (op = .ldp ∨ op = .stp ∨ op = .ldpsw)

/-! ## register moves -/

/-- the processor and its bank after a delivery -/
def Cpu.trapped (cpu : Cpu) (p : Regs × Sysregs) : Cpu × Sysregs := ({ cpu with regs := p.1 }, p.2)

/-- an encoding the table refuses is undefined -/
def doMrsSystem (cpu : Cpu) (sr : Sysregs) (insn : Insn) (word : W32) : Status × Cpu × Sysregs :=
  match sysregRead cpu.regs sr insn.sel with
  | none => (.fault, cpu.trapped (excUndefined cpu.regs sr word))
  | some value => (.ok, cpu.writeG insn.rd false .w64 value, sr)

def doMsrSystem (cpu : Cpu) (sr : Sysregs) (insn : Insn) (word : W32) : Status × Cpu × Sysregs :=
  let value := readG cpu.regs insn.rd false .w64
  match sysregWrite cpu.regs sr insn.sel value with
  | none => (.fault, cpu.trapped (excUndefined cpu.regs sr word))
  | some p => (.ok, cpu.trapped p)

def msrImmSpSel : W32 := 5

def msrImmDaifSet : W32 := 6

def msrImmDaifClr : W32 := 7

/-- `MSR` (immediate).  A register the table refuses here is reported as a delivered exception,
and none is delivered. -/
def doMsrImmediate (cpu : Cpu) (sr : Sysregs) (insn : Insn) (word : W32) :
    Status × Cpu × Sysregs :=
  let op2 : W32 := insn.uimm.setWidth 32
  let imm : W64 := (insn.imm.setWidth 32 &&& (0xF : W32)).setWidth 64
  if op2 = msrImmSpSel then
    match sysregWrite cpu.regs sr selSpsel (imm &&& 1) with
    | some p => (.ok, cpu.trapped p)
    | none => (.fault, cpu, sr)
  else if op2 = msrImmDaifSet ∨ op2 = msrImmDaifClr then
    match sysregRead cpu.regs sr selDaif with
    | none => (.fault, cpu, sr)
    | some daif =>
      let mask := imm <<< 6
      let next := if op2 = msrImmDaifSet then daif ||| mask else daif &&& ~~~mask
      match sysregWrite cpu.regs sr selDaif next with
      | some p => (.ok, cpu.trapped p)
      | none => (.fault, cpu, sr)
  else if op2 = 1 ∨ op2 = 2 ∨ op2 = 3 ∨ op2 = 4 then (.ok, cpu, sr)
  else (.fault, cpu.trapped (excUndefined cpu.regs sr word))

/-! ## the bus, and what its refusals become -/

variable {σ ε τ : Type}

/-- deliver a refused access: the record the translation layer left, or else `alt` -/
def deliverFault (cpu : Cpu) (sr : Sysregs) (alt : Regs × Sysregs) :
    StateT (MmuWorld σ) Option (Cpu × Sysregs) :=
  Prog.act fun w =>
    match w.mmu.takeFault with
    | (some f, m) =>
      (cpu.trapped (excTake cpu.regs sr .sync (excRoute sr.el) f.esr (some f.far)),
        { w with mmu := m })
    | (none, m) => (cpu.trapped alt, { w with mmu := m })

def zeroLine (mem : Memops (MmuWorld σ)) (line : W64) : StateT (MmuWorld σ) Option PUnit :=
  (List.range 8).forM fun i => busWrite mem (line + BitVec.ofNat 64 (8 * i)) .dword 0

def lineOf (addr : W64) : W64 := addr &&& ~~~(cacheLine - 1)

def doDcZva (mem : Memops (MmuWorld σ)) (cpu : Cpu) (sr : Sysregs) (insn : Insn) :
    StateT (MmuWorld σ) Option (Status × Cpu × Sysregs) := do
  let addr := readG cpu.regs insn.rd false .w64
  if addr &&& 7 ≠ 0 then
    pure (.fault, cpu.trapped (excDataAbort cpu.regs sr addr 3 true false 0x21))
  else do
    let st ← busValidate mem (lineOf addr) cacheLine permWrite
    if st ≠ .ok then do
      let p ← deliverFault cpu sr (excDataAbort cpu.regs sr (lineOf addr) 3 true false 0x2C)
      pure (.fault, p)
    else do
      zeroLine mem (lineOf addr)
      pure (.ok, cpu, sr)

/-- does an `AT` probe for a write -/
def atWrite (word : W32) : Bool :=
  decide ((word.toNat >>> 5) % 8 = 1 ∨ (word.toNat >>> 5) % 8 = 3)

/-- what an `AT` publishes in `PAR_EL1` -/
def parOf : Except MmuFault W64 → W64
  | .ok pa => pa &&& ~~~(1 : W64)
  | .error _ => 1

def doSys (mem : Memops (MmuWorld σ)) (phys : Memops σ) (cpu : Cpu) (sr : Sysregs) (insn : Insn)
    (word : W32) : StateT (MmuWorld σ) Option (Status × Cpu × Sysregs) :=
  match sysAction insn.sel with
  | .nop => pure (.ok, cpu, sr)
  | .trap => pure (.fault, cpu.trapped (excUndefined cpu.regs sr word))
  | .tlbi => do
    Prog.act fun w => (PUnit.unit, { w with mmu := w.mmu.flushAll })
    pure (.ok, cpu, sr)
  | .at => do
    let addr := readG cpu.regs insn.rd false .w64
    let t ← Prog.act fun w => mmuTranslate sr phys w addr (atWrite word) false
    pure (.ok, cpu, sr.set .parEl1 (parOf t))
  | .dcZva => doDcZva mem cpu sr insn

/-! ## the dispatch -/

/-- the tail of the intercepted opcodes: "fault" stands for an exception already delivered -/
def intercept (res : Status × Cpu × Sysregs) : Status × Cpu × Sysregs :=
  if res.1 = .fault then (.ok, res.2)
  else if res.1 ≠ .ok then res
  else (.ok, { res.2.1 with regs := res.2.1.regs.advancePc }, res.2.2)

/-- what the firmware conduit answers a call, and the environment after it -/
def firmwareAnswer (env : Option (EnvOps τ ε)) (r : Regs) (insn : Insn) (e : ε) :
    Option W64 × ε :=
  match env.bind (·.fwCall) with
  | some fwCall =>
    fwCall (decide (insn.op = .hvc)) (insn.imm.setWidth 16)
      (fun i => r.read (BitVec.ofNat 5 i) .w64) e
  | none => (none, e)

/-- `HVC` and `SMC`: a firmware conduit answers in `x0`, and without one they trap -/
def doFirmware (env : Option (EnvOps τ ε)) (cpu : Cpu) (sr : Sysregs) (insn : Insn) (e : ε) :
    (Cpu × Sysregs) × ε :=
  let imm16 : BitVec 16 := insn.imm.setWidth 16
  match firmwareAnswer env cpu.regs insn e with
  | (some ret0, e) =>
    (({ cpu with regs := (cpu.regs.write 0 .w64 ret0).setPc (cpu.regs.pc + 4) }, sr), e)
  | (none, e) =>
    (cpu.trapped (if insn.op = .hvc then excHvc cpu.regs sr imm16 else excSmc cpu.regs sr imm16), e)

/-- the shared switch, with its refusals delivered -/
def dispatchGuest (mem : Memops (MmuWorld σ)) (cpu : Cpu) (sr : Sysregs) (insn : Insn)
    (word : W32) : StateT (MmuWorld σ) Option (Status × Cpu × Sysregs) := do
  let res ← dispatchShared mem cpu insn
  if res.1 = .fault then do
    let p ← deliverFault res.2 sr (excDataAbort res.2.regs sr (faultFarOf res.2.regs insn)
      insn.memSize.log2 (opIsStore insn.op) (!opIsPair insn.op) 0x2C)
    pure (.ok, p)
  else if res.1 = .unsupported then
    pure (.ok, res.2.trapped (excUndefined res.2.regs sr word))
  else pure (res.1, res.2, sr)

/-- one instruction at the current level, over a view of the translation layer on `phys` -/
def dispatchSystem (mem : Memops (MmuWorld σ)) (phys : Memops σ) (env : Option (EnvOps τ ε))
    (cpu : Cpu) (sr : Sysregs) (insn : Insn) (word : W32) :
    StateT (MmuWorld σ × ε) Option (Status × Cpu × Sysregs) :=
  match insn.op with
  | .unknown => pure (.invalidArg, cpu, sr)
  | .svc => pure (.ok, cpu.trapped (excSvc cpu.regs sr (insn.imm.setWidth 16)))
  | .brk => pure (.ok, cpu.trapped (excBrk cpu.regs sr (insn.imm.setWidth 16)))
  | .hlt => pure (.ok, cpu.trapped (excBreakpoint cpu.regs sr))
  | .hvc | .smc => Prog.act fun s =>
      ((.ok, (doFirmware env cpu sr insn s.2).1), s.1, (doFirmware env cpu sr insn s.2).2)
  | .eret => do
    let p ← Prog.require (excEret cpu.regs sr)
    pure (.ok, cpu.trapped p)
  | .mrs => pure (intercept (doMrsSystem cpu sr insn word))
  | .msr => pure (intercept (doMsrSystem cpu sr insn word))
  | .msrImm => pure (intercept (doMsrImmediate cpu sr insn word))
  | .sys => onBus (intercept <$> doSys mem phys cpu sr insn word)
  | _ => onBus (dispatchGuest mem cpu sr insn word)

theorem dispatchSystem_eret {insn : Insn} (hop : insn.op = .eret) (mem : Memops (MmuWorld σ))
    (phys : Memops σ) (env : Option (EnvOps τ ε)) (cpu : Cpu) (sr : Sysregs) (word : W32)
    (s : MmuWorld σ × ε) :
    dispatchSystem mem phys env cpu sr insn word s =
      (excEret cpu.regs sr).map fun p => ((.ok, cpu.trapped p), s) := by
  unfold dispatchSystem
  rw [hop]
  dsimp only
  rw [Prog.require_bind_apply]
  cases excEret cpu.regs sr <;> rfl

end Oemu
