import Oemu.Exec.System

/-!
# The virtual CPU

One core at any level: the processor, its bank, the translation layer over the physical bus, the
interrupt pins, the event register and the quantum.  `vcpuStep` is one step of the machine: a
delivered interrupt, a delivered abort or undefined word, a wait, or an instruction.
-/

namespace Oemu

/-- which interrupt is pending and unmasked; `FIQ` wins -/
def pendingKind (pstate : W64) (irqLevel fiqLevel : Bool) : Option ExcKind :=
  if fiqLevel && !pstate.getLsbD 6 then some .fiq
  else if irqLevel && !pstate.getLsbD 7 then some .irq
  else none

structure Vcpu (σ ε : Type) where
  cpu : Cpu
  sr : Sysregs
  world : MmuWorld σ
  env : ε
  irqLevel : Bool
  fiqLevel : Bool
  eventReg : Bool
  quantum : W64
  insnsLeft : W64

namespace Vcpu

variable {σ ε τ : Type}

def init (p : σ) (e : ε) (el : El) (entryPc entrySp quantum : W64) : Vcpu σ ε where
  cpu := Cpu.init entryPc entrySp
  sr := Sysregs.init (Regs.init entryPc entrySp) el
  world := ⟨Mmu.init, p⟩
  env := e
  irqLevel := false
  fiqLevel := false
  eventReg := false
  quantum := quantum
  insnsLeft := quantum

def setIrq (v : Vcpu σ ε) (level : Bool) : Vcpu σ ε := { v with irqLevel := level }

def setFiq (v : Vcpu σ ε) (level : Bool) : Vcpu σ ε := { v with fiqLevel := level }

def rearm (v : Vcpu σ ε) : Vcpu σ ε := { v with insnsLeft := v.quantum }

/-- the counter moves one count an instruction -/
def tick (v : Vcpu σ ε) : Vcpu σ ε :=
  { v with sr := v.sr.set .cntvct (v.sr.val .cntvct + 1) }

/-- the processor and bank of a delivery -/
def trapped (v : Vcpu σ ε) (p : Cpu × Sysregs) : Vcpu σ ε := { v with cpu := p.1, sr := p.2 }

/-- one unit of the quantum -/
def charge (v : Vcpu σ ε) : Vcpu σ ε := { v with insnsLeft := v.insnsLeft - 1 }

def takePending (v : Vcpu σ ε) : Option (Vcpu σ ε) :=
  match pendingKind v.sr.pstate v.irqLevel v.fiqLevel with
  | some kind =>
    some (v.trapped (v.cpu.trapped (excTake v.cpu.regs v.sr kind (excRoute v.sr.el) 0 none)))
  | none => none

/-- does a wait wake up -/
def wakes (v : Vcpu σ ε) (op : Opcode) : Bool :=
  v.irqLevel || v.fiqLevel || (decide (op = .wfe) && v.eventReg)

/-- the event register, as the hints and waits leave it -/
def noteEvent (v : Vcpu σ ε) (insn : Insn) : Vcpu σ ε :=
  if insn.op = .hint ∧ (insn.uimm = 4 ∨ insn.uimm = 5) then { v with eventReg := true }
  else if insn.op = .wfe then { v with eventReg := false }
  else v

/-- execute a decoded instruction over the translated bus -/
def execute (phys : Memops σ) (f₀ : MmuFault) (env : Option (EnvOps τ ε)) (v : Vcpu σ ε)
    (insn : Insn) (word : W32) : Option (Status × Vcpu σ ε) :=
  (dispatchSystem (mmuMemops v.sr phys f₀) phys env v.cpu v.sr insn word (v.world, v.env)).map
    fun q =>
      let v' := { v with cpu := q.1.2.1, sr := q.1.2.2, world := q.2.1, env := q.2.2 }
      if q.1.1 ≠ .ok then (q.1.1, v') else (.ok, v'.charge)

/-- the rest of a step, from a fetched word on -/
def decoded (phys : Memops σ) (f₀ : MmuFault) (env : Option (EnvOps τ ε)) (v : Vcpu σ ε)
    (word : W32) : Option (Status × Vcpu σ ε) :=
  match decode word v.cpu.regs.pc with
  | .error _ =>
    some (.ok, (v.trapped (v.cpu.trapped (excUndefined v.cpu.regs v.sr word))).charge)
  | .ok insn =>
    if (insn.op = .wfi ∨ insn.op = .wfe) ∧ !v.wakes insn.op then some (.blocked, v)
    else (v.noteEvent insn).execute phys f₀ env insn word

def fetchAbort (v : Vcpu σ ε) : Vcpu σ ε :=
  match v.world.mmu.takeFault with
  | (some f, m) =>
    { v.trapped (v.cpu.trapped (excTake v.cpu.regs v.sr .sync (excRoute v.sr.el) f.esr
        (some f.far))) with world := { v.world with mmu := m } }
  | (none, m) =>
    { v.trapped (v.cpu.trapped (excInstructionAbort v.cpu.regs v.sr v.cpu.regs.pc)) with
      world := { v.world with mmu := m } }

def fetched (phys : Memops σ) (f₀ : MmuFault) (env : Option (EnvOps τ ε)) (v : Vcpu σ ε) :
    Option (Status × Vcpu σ ε) :=
  match mmuFetch32 v.sr phys v.world v.cpu.regs.pc with
  | (.ok, word, w) => decoded phys f₀ env { v with world := w } word
  | (_, _, w) => some (.ok, ({ v with world := w }.fetchAbort).charge)

end Vcpu

variable {σ ε τ : Type}

/-- one step; `none` is the abort of the host on a refused validated access -/
def vcpuStep (phys : Memops σ) (f₀ : MmuFault) (env : Option (EnvOps τ ε)) (v : Vcpu σ ε) :
    Option (Status × Vcpu σ ε) :=
  if v.insnsLeft = 0 then some (.timeout, v)
  else
    match v.tick.takePending with
    | some v' => some (.ok, v'.charge)
    | none => v.tick.fetched phys f₀ env

end Oemu
