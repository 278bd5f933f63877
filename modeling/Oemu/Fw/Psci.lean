import Oemu.Basic

/-!
# The firmware conduit

PSCI answers the calls that travel on `HVC` and `SMC`.  `psciDispatch` is the conduit body; the boot
path stacks the power events of the machine on it, `bootFwCall`.
-/

namespace Oemu

variable {τ : Type}

/-! ## PSCI -/

structure Psci where
  halted : Bool
  reset : Bool
  calls : W64
deriving DecidableEq, Repr

def Psci.init : Psci where
  halted := false
  reset := false
  calls := 0

def psciVersion : W64 := 0x00010001

def smcccVersion : W64 := 0x00010000

def smcccOwnerArmStd : W64 := 0x47

def psciFnVersion : W64 := 0x84000000

def psciFnSystemOff : W64 := 0x84000008

def psciFnSystemReset : W64 := 0x84000009

def psciFnFeatures : W64 := 0x8400000A

def psciRetSuccess : W64 := 0

def psciRetNotSupported : W64 := ~~~0

/-- the service spaces that share the conduit: by class byte and owner byte of the identifier -/
def psciOwns (fnid : W64) : Bool :=
  let hi := (fnid >>> 24) &&& 0xFF
  let svc := (fnid >>> 16) &&& 0xFF
  let psciClass := hi == 0x84 || hi == 0xC4
  let isPsci := psciClass && svc == 0
  let isFast := (hi == 0x80 || hi == 0xC0) && svc == 0
  let isStd := psciClass && svc == smcccOwnerArmStd
  isPsci || isFast || isStd

/-- a fast call with id 0 -/
def smcccFeatures (fnid : W64) : Bool :=
  let hi := (fnid >>> 24) &&& 0xFF
  let svc := (fnid >>> 16) &&& 0xFF
  (hi == 0x80 || hi == 0xC0) && svc == 0 && (fnid &&& 0xFFFF) == 0

/-- consume a call, or leave it to the guest's own trap path -/
def psciDispatch (psci : Psci) (fnid : W64) : Option W64 × Psci :=
  if !psciOwns fnid then (none, psci)
  else if smcccFeatures fnid then (some smcccVersion, { psci with calls := psci.calls + 1 })
  else
    let (ret0, psci) :=
      if fnid = psciFnVersion then (psciVersion, psci)
      else if fnid = psciFnFeatures then (0, psci)
      else if fnid = psciFnSystemOff then (psciRetSuccess, { psci with halted := true })
      else if fnid = psciFnSystemReset then (psciRetSuccess, { psci with reset := true })
      else (psciRetNotSupported, psci)
    (some ret0, { psci with calls := psci.calls + 1 })

def psciEnvops : EnvOps τ Psci where
  syscall := none
  halted := some fun psci => psci.halted || psci.reset
  fwCall := some fun _ _ args psci => psciDispatch psci (args 0)

/-! ## the boot environment -/

inductive MachineEvent where
  | none | powerdown | reset
deriving DecidableEq, Repr

/-- what the boot path hands the core: the power state and the machine's event.  `asked` is a ghost:
how often the conduit was called -/
structure BootEnv where
  psci : Psci
  event : MachineEvent
  exitCode : Int
  asked : Nat
deriving DecidableEq, Repr

def BootEnv.init : BootEnv where
  psci := .init
  event := .none
  exitCode := 0
  asked := 0

namespace BootEnv

def poweroff (e : BootEnv) (exitCode : Int) : BootEnv :=
  { e with event := .powerdown, exitCode := exitCode }

def resetMachine (e : BootEnv) : BootEnv := { e with event := .reset }

end BootEnv

def bootHalted (e : BootEnv) : Bool := decide (e.event ≠ .none) || e.psci.halted

/-- PSCI answers what it knows; a `SYSTEM_OFF` that landed powers the machine down, and a reset is
raised after it -/
def bootFwCall (fnid : W64) (e : BootEnv) : Option W64 × BootEnv :=
  let e := { e with asked := e.asked + 1 }
  match psciDispatch e.psci fnid with
  | (none, _) => (none, e)
  | (some ret0, psci) =>
    let e := { e with psci := psci }
    let e := if e.psci.halted then e.poweroff 0 else e
    let e := if e.psci.reset then e.resetMachine else e
    (some ret0, e)

def bootEnvops : EnvOps τ BootEnv where
  syscall := none
  halted := some bootHalted
  fwCall := some fun _ _ args e => bootFwCall (args 0) e

@[simp] theorem bootFwCall_asked (fnid : W64) (e : BootEnv) :
    (bootFwCall fnid e).2.asked = e.asked + 1 := by
  unfold bootFwCall
  dsimp only
  rcases psciDispatch e.psci fnid with ⟨_ | ret0, psci⟩
  · rfl
  · dsimp only
    split <;> split <;> rfl

end Oemu
