import Oemu.Exec.Arm

/-!
# The shared switch and the user-mode step

`dispatchShared` is the switch every instruction of either mode ends in, without an environment;
`dispatchBus` adds the one opcode that talks to one, and `execStepBus` fetches and decodes before
it.

* `dispatchShared_eq`  the switch is a transaction on the bus or touches the processor only;
* `dispatchPure_cases` what the latter can do.
-/

namespace Oemu

/-! ## system registers without a bank -/

def sysregMask : W32 := 0x3FFF

def sysregCurrentEl : W32 := 0x212

def sysregSpEl0 : W32 := 0x208

def sysregNzcv : W32 := 0x1A10

def sysregTpidrroEl0 : W32 := 0x1E83

def sysregTpidrurEl0 : W32 := 0x1E87

def Insn.sel (insn : Insn) : W32 := insn.sysreg &&& sysregMask

def doMrs (cpu : Cpu) (insn : Insn) : Status × Cpu :=
  let value :=
    if insn.sel = sysregCurrentEl then some 0
    else if insn.sel = sysregSpEl0 then some cpu.regs.sp
    else if insn.sel = sysregNzcv then some (cpu.regs.nzcv.bits.setWidth 64)
    else if insn.sel = sysregTpidrurEl0 then some cpu.tpidrurEl0
    else if insn.sel = sysregTpidrroEl0 then some 0
    else none
  match value with
  | some v => (.ok, cpu.writeG insn.rd false .w64 v)
  | none => (.unsupported, cpu)

def doMsr (cpu : Cpu) (insn : Insn) : Status × Cpu :=
  let value := readG cpu.regs insn.rd false .w64
  if insn.sel = sysregSpEl0 then (.ok, { cpu with regs := cpu.regs.setSp value })
  else if insn.sel = sysregNzcv then
    (.ok, { cpu with regs := cpu.regs.setNzcv (value.setWidth 32) })
  else if insn.sel = sysregTpidrurEl0 then (.ok, { cpu with tpidrurEl0 := value })
  else (.unsupported, cpu)

/-! ## the switch -/

/-- the tail of the switch: a refusal is handed on, anything else falls through to the next word -/
def fallThrough (res : Status × Cpu) : Status × Cpu :=
  if res.1 ≠ .ok then res else (.ok, { res.2 with regs := res.2.regs.advancePc })

/-- the tail for a branch, taken or not -/
def branchTo (cpu : Cpu) (taken : Bool) (target : W64) (link : Bool) : Status × Cpu :=
  if taken then
    let r := if link then cpu.regs.write 30 .w64 (cpu.regs.pc + 4) else cpu.regs
    (.ok, { cpu with regs := r.setPc target })
  else fallThrough (.ok, cpu)

/-- the arms that leave the bus alone -/
def dispatchPure (cpu : Cpu) (insn : Insn) : Status × Cpu :=
  match dataProcessing cpu.regs insn with
  | some res => fallThrough (res.1, { cpu with regs := res.2 })
  | none =>
    match insn.op with
    | .unknown => (.invalidArg, cpu)
    | .b => branchTo cpu true insn.imm false
    | .bl => branchTo cpu true insn.imm true
    | .bCond => branchTo cpu (cpu.regs.condHolds insn.cond) insn.imm false
    | .br => branchTo cpu true (readG cpu.regs insn.rn false .w64) false
    | .blr => branchTo cpu true (readG cpu.regs insn.rn false .w64) true
    | .ret => branchTo cpu true (readG cpu.regs insn.rn false .w64) false
    | .cbz | .cbnz =>
      let v := readG cpu.regs insn.rd false insn.width
      branchTo cpu (decide (v = 0) == decide (insn.op = .cbz)) insn.imm false
    | .tbz | .tbnz =>
      let v := readG cpu.regs insn.rd false insn.width
      branchTo cpu (v.getLsbD insn.bitPos == decide (insn.op = .tbnz)) insn.imm false
    | .svc | .hvc | .smc | .eret | .sys => (.unsupported, cpu)
    | .brk | .hlt => (.fault, cpu)
    | .vecDup => fallThrough (.ok, cpu.setV insn.rd (readG cpu.regs insn.rm false .w64) 0)
    | .nop | .hint | .wfi | .wfe | .barrier => fallThrough (.ok, cpu)
    | .mrs => fallThrough (doMrs cpu insn)
    | .msr | .msrImm => fallThrough (doMsr cpu insn)
    | _ => (.unsupported, cpu)

variable {σ ε : Type}

/-- the switch, without an environment -/
def dispatchShared (mem : Memops σ) (cpu : Cpu) (insn : Insn) : StateT σ Option (Status × Cpu) :=
  match insn.op with
  | .ldr | .str =>
    fallThrough <$> (if insn.isVector then doSingleVector mem cpu insn else doSingleMem mem cpu insn)
  | .ldrs | .ldar | .stlr => fallThrough <$> doSingleMem mem cpu insn
  | .ldp | .stp =>
    fallThrough <$> (if insn.isVector then doPairVector mem cpu insn else doPair mem cpu insn)
  | .ldpsw => fallThrough <$> doPair mem cpu insn
  | .ldxr | .stxr => fallThrough <$> doExclusive mem cpu insn
  | _ => pure (dispatchPure cpu insn)

/-! ## the environment -/

/-- the arguments and the number of a syscall, and its answer in `x0` -/
def doSvc (env : Option (EnvOps σ ε)) (mem : Memops σ) (cpu : Cpu) :
    StateT (σ × ε) Option (Status × Cpu) :=
  match env.bind (·.syscall) with
  | none => pure (.unsupported, cpu)
  | some syscall => do
    let args : Fin 6 → W64 := fun i => cpu.regs.read (BitVec.ofNat 5 i) .w64
    let nr := cpu.regs.read 8 .w64
    let result ← Prog.act (syscall mem nr args)
    pure (.ok, { cpu with regs := cpu.regs.write 0 .w64 result })

/-- run on the bus, with the environment untouched -/
def onBus {α : Type} (m : StateT σ Option α) : StateT (σ × ε) Option α := fun s =>
  (m s.1).map fun p => (p.1, p.2, s.2)

def dispatchBus (mem : Memops σ) (env : Option (EnvOps σ ε)) (cpu : Cpu) (insn : Insn) :
    StateT (σ × ε) Option (Status × Cpu) :=
  if insn.op = .svc then fallThrough <$> doSvc env mem cpu
  else onBus (dispatchShared mem cpu insn)

/-- one instruction of a user-mode process -/
def execStepBus (mem : Memops σ) (env : Option (EnvOps σ ε)) (cpu : Cpu) :
    StateT (σ × ε) Option (Status × Cpu) := do
  let f ← onBus (Prog.act fun s =>
    (((mem.fetch32 s cpu.regs.pc).1, (mem.fetch32 s cpu.regs.pc).2.1),
      (mem.fetch32 s cpu.regs.pc).2.2))
  if f.1 ≠ .ok then pure (f.1, cpu)
  else
    match decode f.2 cpu.regs.pc with
    | .error st => pure (st, cpu)
    | .ok insn => dispatchBus mem env cpu insn

/-! ## the shape of the switch -/

/-- a run on the bus with its tail -/
def armOf (mem : Memops σ) (cpu : Cpu) (t : Plan) : StateT σ Option (Status × Cpu) :=
  fallThrough <$> Txn.run (busOps mem) (.fault, cpu) t

theorem dispatchShared_eq (mem : Memops σ) (cpu : Cpu) (insn : Insn) :
    dispatchShared mem cpu insn =
      match memPlan cpu insn with
      | some t => armOf mem cpu t
      | none => pure (dispatchPure cpu insn) := by
  unfold dispatchShared memPlan armOf
  cases hop : insn.op <;> dsimp only
  case ldr =>
    by_cases h : insn.isVector = true
    · rw [if_pos h, if_pos h, doSingleVector_eq]
    · rw [if_neg h, if_neg h, doSingleMem_eq]
  case str =>
    by_cases h : insn.isVector = true
    · rw [if_pos h, if_pos h, doSingleVector_eq]
    · rw [if_neg h, if_neg h, doSingleMem_eq]
  case ldrs => rw [doSingleMem_eq]
  case ldar => rw [doSingleMem_eq]
  case stlr => rw [doSingleMem_eq]
  case ldp =>
    by_cases h : insn.isVector = true
    · rw [if_pos h, if_pos h, doPairVector_eq]
    · rw [if_neg h, if_neg h, doPair_eq]
  case stp =>
    by_cases h : insn.isVector = true
    · rw [if_pos h, if_pos h, doPairVector_eq]
    · rw [if_neg h, if_neg h, doPair_eq]
  case ldpsw => rw [doPair_eq]
  case ldxr => rw [doExclusive_eq]
  case stxr => rw [doExclusive_eq]

/-- a run of the switch: the arm left the bus alone, or was refused, or committed -/
theorem dispatchShared_run {mem : Memops σ} {cpu : Cpu} {insn : Insn} {s s' : σ}
    {res : Status × Cpu} (h : dispatchShared mem cpu insn s = some (res, s')) :
    (memPlan cpu insn = none ∧ res = dispatchPure cpu insn ∧ s' = s) ∨
      (∃ t, memPlan cpu insn = some t ∧ res = (.fault, cpu) ∧
        Txn.checkAll (busOps mem) t.checks s = (false, s')) ∨
      (∃ t s₁ vs, memPlan cpu insn = some t ∧ Txn.checkAll (busOps mem) t.checks s = (true, s₁) ∧
        Txn.actAll (busOps mem) t.acts s₁ = some (vs, s') ∧ res = fallThrough (t.commit vs)) := by
  rw [dispatchShared_eq] at h
  cases hp : memPlan cpu insn with
  | none =>
    rw [hp] at h
    cases h
    exact .inl ⟨rfl, rfl, rfl⟩
  | some t =>
    rw [hp] at h
    have e : armOf mem cpu t s =
        (Txn.run (busOps mem) (.fault, cpu) t s).map fun p => (fallThrough p.1, p.2) := by
      unfold armOf
      show (Txn.run (busOps mem) (.fault, cpu) t s).bind _ = _
      cases Txn.run (busOps mem) (.fault, cpu) t s <;> rfl
    dsimp only at h
    rw [e] at h
    cases hr : Txn.run (busOps mem) (.fault, cpu) t s with
    | none =>
      rw [hr] at h
      cases h
    | some p =>
      rw [hr] at h
      cases h
      rcases Txn.run_cases (show _ = some (p.1, p.2) from hr) with ⟨hg, hc⟩ | ⟨s₁, vs, hc, ha, hg⟩
      · refine .inr (.inl ⟨t, rfl, ?_, hc⟩)
        rw [hg]
        rfl
      · exact .inr (.inr ⟨t, s₁, vs, rfl, hc, ha, by rw [hg]⟩)

end Oemu
