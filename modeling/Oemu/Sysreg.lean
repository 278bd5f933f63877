import Oemu.Regs

/-!
# System registers

The system-register bank and the table-driven `MRS`/`MSR` accessors built on it.  The bank is a
function from its fields to words, so that "a write to one field leaves the others alone" is
`Function.update`.  `SP_EL0` and `NZCV` live in the paired register file, which the accessors take
beside the bank.

* `switchSp`: the one place a stack pointer bank is changed;
* `kRows`: the table, row for row;
* `sysregRead`, `sysregWrite`: the accessors.
-/

namespace Oemu

/-! ## PSTATE -/

def pstateEl (p : W64) : El := El.ofNum ((p.toNat >>> 2) % 4)

def pstateSpSel (p : W64) : Bool := p &&& 1 != 0

/-- the mode value for running at a level: `t` form at EL0, `h` form above -/
def pstateMode : El → W64
  | .el0 => 0x00
  | .el1 => 0x05
  | .el2 => 0x09
  | .el3 => 0x0D

/-- the four interrupt masks where they sit in PSTATE -/
def daifField : W64 := (0xF : W64) <<< 6

def pstateIl : W64 := 0x100000

def modeMask : W64 := 0x1F

theorem pstateEl_mode (p : W64) : pstateEl (p &&& modeMask) = pstateEl p := by
  have h : (p &&& modeMask).toNat = p.toNat % 32 := by
    rw [BitVec.toNat_and]
    exact Nat.and_two_pow_sub_one_eq_mod p.toNat 5
  unfold pstateEl
  rw [h, Nat.shiftRight_eq_div_pow, Nat.shiftRight_eq_div_pow]
  congr 1
  omega

theorem pstateSpSel_mode (p : W64) : pstateSpSel (p &&& modeMask) = pstateSpSel p := by
  unfold pstateSpSel
  rw [BitVec.and_assoc]
  rfl

/-! ## the bank -/

inductive SysField where
  | spEl (e : El) | elrEl (e : El) | spsrEl (e : El) | vbarEl (e : El) | esrEl (e : El)
  | farEl (e : El)
  | sctlrEl1 | ttbr0El1 | ttbr1El1 | tcrEl1 | mairEl1 | parEl1 | cntvoffEl1 | cntvCtlEl1
  | cntvCvalEl1 | cntkctlEl1 | cntpCtlEl1 | cntpCvalEl1 | cntfrqEl0 | cntvct | amairEl1
  | contextidrEl1 | cpacrEl1 | fpcr | fpsr | tpidrEl1 | tpidrEl0 | tpidrroEl0
  | midrEl1 | mpidrEl1 | revidrEl1 | ctrEl0 | clidrEl1 | ccsidrEl1 | dczidEl0 | idAa64pfr0El1
  | idAa64isar0El1 | idAa64isar1El1 | idAa64dfr0El1 | idAa64mmfr0El1 | idAa64mmfr1El1
  | pstate
deriving DecidableEq, Repr

inductive ExcKind where
  | sync | irq | fiq | serror
deriving DecidableEq, Repr

structure Delivery where
  kind : ExcKind
  target : El
  esr : W32
  far : Option W64
deriving DecidableEq

/-- the bank.  `taken` is an auxiliary history of the deliveries `excTake` made, which the source
does not store and nothing of the machine reads: it lets "this step delivered an exception" be said
of a state. -/
structure Sysregs where
  val : SysField → W64
  taken : List Delivery

namespace Sysregs

def set (sr : Sysregs) (f : SysField) (v : W64) : Sysregs :=
  { sr with val := Function.update sr.val f v }

def pstate (sr : Sysregs) : W64 := sr.val .pstate

/-- the current exception level -/
def el (sr : Sysregs) : El := pstateEl sr.pstate

@[simp] theorem set_val_self (sr : Sysregs) (f : SysField) (v : W64) : (sr.set f v).val f = v := by
  simp [set]

theorem set_val_of_ne (sr : Sysregs) {f g : SysField} (v : W64) (h : g ≠ f) :
    (sr.set f v).val g = sr.val g := by
  simp [set, h]

@[simp] theorem set_val (sr : Sysregs) (f g : SysField) (v : W64) :
    (sr.set f v).val g = if g = f then v else sr.val g := by
  by_cases h : g = f
  · subst h
    simp
  · rw [set_val_of_ne sr v h, if_neg h]

@[simp] theorem set_taken (sr : Sysregs) (f : SysField) (v : W64) :
    (sr.set f v).taken = sr.taken := rfl

end Sysregs

/-- does a PSTATE select the bank of `SP_EL0` -/
def spUser (p : W64) : Bool := !pstateSpSel p || pstateEl p == .el0

/-- the bank the live stack pointer belongs to under a PSTATE -/
def spBank (p : W64) : El := if spUser p then .el0 else pstateEl p

theorem spBank_mode (p : W64) : spBank (p &&& modeMask) = spBank p := by
  unfold spBank spUser
  rw [pstateEl_mode, pstateSpSel_mode]

/-- switch the active stack pointer: deposit the live one, withdraw the new one, adopt the PSTATE -/
def switchSp (r : Regs) (sr : Sysregs) (newPstate : W64) : Regs × Sysregs :=
  let oldEl := pstateEl sr.pstate
  let newEl := pstateEl newPstate
  let oldUser := spUser sr.pstate
  let newUser := spUser newPstate
  if oldUser != newUser || (!oldUser && oldEl != newEl) then
    let sr := sr.set (.spEl (if oldUser then .el0 else oldEl)) r.sp
    let r := { r with sp := sr.val (.spEl (if newUser then .el0 else newEl)) }
    (r, sr.set .pstate newPstate)
  else
    (r, sr.set .pstate newPstate)

section SwitchSp

variable (r : Regs) (sr : Sysregs) (p : W64)

@[simp] theorem switchSp_pc : (switchSp r sr p).1.pc = r.pc := by
  unfold switchSp
  dsimp only
  split <;> rfl

@[simp] theorem switchSp_x : (switchSp r sr p).1.x = r.x := by
  unfold switchSp
  dsimp only
  split <;> rfl

@[simp] theorem switchSp_nzcv : (switchSp r sr p).1.nzcv = r.nzcv := by
  unfold switchSp
  dsimp only
  split <;> rfl

@[simp] theorem switchSp_taken : (switchSp r sr p).2.taken = sr.taken := by
  unfold switchSp
  dsimp only
  split <;> rfl

@[simp] theorem switchSp_pstate : (switchSp r sr p).2.val .pstate = p := by
  unfold switchSp
  dsimp only
  split <;> simp

theorem switchSp_val {f : SysField} (hp : f ≠ .pstate) (hs : ∀ e, f ≠ .spEl e) :
    (switchSp r sr p).2.val f = sr.val f := by
  unfold switchSp
  dsimp only
  split <;> simp [hp, hs]

/-- what a stack pointer bank holds: the live pointer, or the stored one -/
def spOf (e : El) : W64 := if spBank sr.pstate = e then r.sp else sr.val (.spEl e)

theorem spBank_of_not_user {q : W64} (h : spUser q = false) :
    spBank q = pstateEl q ∧ pstateEl q ≠ .el0 := by
  constructor
  · unfold spBank
    rw [h]
    rfl
  · intro he
    unfold spUser at h
    simp [he] at h

theorem spBank_of_user {q : W64} (h : spUser q = true) : spBank q = .el0 := by
  unfold spBank
  rw [h]
  rfl

/-- the switch in terms of banks: nothing moves when the bank stays the same -/
theorem switchSp_eq :
    switchSp r sr p =
      if spBank sr.pstate = spBank p then (r, sr.set .pstate p)
      else ({ r with sp := sr.val (.spEl (spBank p)) },
        (sr.set (.spEl (spBank sr.pstate)) r.sp).set .pstate p) := by
  unfold switchSp
  dsimp only
  cases ho : spUser sr.pstate <;> cases hn : spUser p
  · obtain ⟨hob, -⟩ := spBank_of_not_user ho
    obtain ⟨hnb, -⟩ := spBank_of_not_user hn
    rw [hob, hnb]
    by_cases he : pstateEl sr.pstate = pstateEl p
    · simp [he]
    · simp [he, Ne.symm he]
  · obtain ⟨hob, hne⟩ := spBank_of_not_user ho
    rw [hob, spBank_of_user hn]
    simp [hne, Ne.symm hne]
  · obtain ⟨hnb, hne⟩ := spBank_of_not_user hn
    rw [hnb, spBank_of_user ho]
    simp [hne, Ne.symm hne]
  · rw [spBank_of_user ho, spBank_of_user hn]
    simp

/-- deposit and withdrawal keep every bank -/
theorem spOf_switchSp (e : El) :
    spOf (switchSp r sr p).1 (switchSp r sr p).2 e = spOf r sr e := by
  rw [switchSp_eq]
  by_cases hb : spBank sr.pstate = spBank p
  · rw [if_pos hb]
    unfold spOf
    rw [hb]
    simp [Sysregs.pstate]
  · rw [if_neg hb]
    unfold spOf
    have hp : ((sr.set (.spEl (spBank sr.pstate)) r.sp).set .pstate p).pstate = p := by
      simp [Sysregs.pstate]
    rw [hp]
    by_cases h1 : spBank p = e
    · subst h1
      simp [hb]
    · by_cases h2 : spBank sr.pstate = e
      · subst h2
        simp [h1]
      · simp [h1, h2, Ne.symm h2]

end SwitchSp

/-- `SP_EL0` is the live stack pointer at EL0, and above it whenever `SPSel` is 0 -/
def spEl0Active (sr : Sysregs) : Bool := pstateEl sr.pstate == .el0 || !pstateSpSel sr.pstate

def spEl1Active (sr : Sysregs) : Bool := pstateEl sr.pstate == .el1 && pstateSpSel sr.pstate

/-! ## the generic timer -/

def gtimerCtlEnable : W64 := 1

def gtimerCtlImask : W64 := 2

def gtimerCtlIstat : W64 := 4

/-- does a timer output assert -/
def gtimerPending (counter ctl cval : W64) : Bool :=
  if ctl &&& gtimerCtlEnable = 0 then false
  else if ctl &&& gtimerCtlImask ≠ 0 then false
  else decide (0 ≤ (counter - cval).toInt)

/-! ## the callbacks of rows whose backing lives elsewhere -/

inductive Getter where
  | currentEl | spSel | daif | nzcv | spEl0 | spEl1 | cntvct | cntpct | cntpTval | cntvCtl
  | cntpCtl | cntvTval
deriving DecidableEq, Repr

inductive Setter where
  | spSel | daif | nzcv | spEl0 | spEl1 | cntvCtl | cntpCtl | cntvTval | cntpTval
deriving DecidableEq, Repr

def Getter.run (r : Regs) (sr : Sysregs) : Getter → W64
  | .currentEl => BitVec.ofNat 64 ((pstateEl sr.pstate).num <<< 2)
  | .spSel => sr.pstate &&& 1
  | .daif => sr.pstate &&& daifField
  | .nzcv => r.nzcv.bits.setWidth 64
  | .spEl0 => if spEl0Active sr then r.sp else sr.val (.spEl .el0)
  | .spEl1 => if spEl1Active sr then r.sp else sr.val (.spEl .el1)
  | .cntvct => sr.val .cntvct - sr.val .cntvoffEl1
  | .cntpct => sr.val .cntvct
  | .cntpTval => sr.val .cntpCvalEl1 - sr.val .cntvct
  | .cntvCtl =>
    (sr.val .cntvCtlEl1 &&& ~~~gtimerCtlIstat) |||
      (if gtimerPending (sr.val .cntvct - sr.val .cntvoffEl1) (sr.val .cntvCtlEl1)
          (sr.val .cntvCvalEl1) then gtimerCtlIstat else 0)
  | .cntpCtl =>
    (sr.val .cntpCtlEl1 &&& ~~~gtimerCtlIstat) |||
      (if gtimerPending (sr.val .cntvct) (sr.val .cntpCtlEl1) (sr.val .cntpCvalEl1)
        then gtimerCtlIstat else 0)
  | .cntvTval => sr.val .cntvCvalEl1 - (sr.val .cntvct - sr.val .cntvoffEl1)

def Setter.run (r : Regs) (sr : Sysregs) (value : W64) : Setter → Regs × Sysregs
  | .spSel => switchSp r sr ((sr.pstate &&& ~~~1) ||| (value &&& 1))
  | .daif => (r, sr.set .pstate ((sr.pstate &&& ~~~daifField) ||| (value &&& daifField)))
  | .nzcv => (r.setNzcv (value.setWidth 32), sr)
  | .spEl0 => (if spEl0Active sr then r.setSp value else r, sr.set (.spEl .el0) value)
  | .spEl1 => (if spEl1Active sr then r.setSp value else r, sr.set (.spEl .el1) value)
  | .cntvCtl => (r, sr.set .cntvCtlEl1 (value &&& ~~~gtimerCtlIstat))
  | .cntpCtl => (r, sr.set .cntpCtlEl1 (value &&& ~~~gtimerCtlIstat))
  | .cntvTval =>
    (r, sr.set .cntvCvalEl1 ((sr.val .cntvct - sr.val .cntvoffEl1) + value))
  | .cntpTval => (r, sr.set .cntpCvalEl1 (sr.val .cntvct + value))

/-! ## the table -/

/-- row behaviour beyond plain storage: a write to an `ro` row traps, to a `wi` row is dropped -/
inductive RowFlags where
  | none | ro | wi
deriving DecidableEq, Repr

/-- one system register; `field` is the storage of a plain row -/
structure Row where
  name : String
  sel : W32
  minEl : El
  flags : RowFlags
  field : Option SysField := .none
  writeMask : W64
  resetValue : W64 := 0
  get : Option Getter := .none
  set : Option Setter := .none
deriving DecidableEq

/-- every bit writable -/
def full : W64 := BitVec.allOnes 64

def kRows : List Row :=
  [{ name := "MIDR_EL1", sel := 0x0000, minEl := .el0, flags := .ro, field := some .midrEl1,
     writeMask := full, resetValue := 0x410FD034 },
   { name := "MPIDR_EL1", sel := 0x0005, minEl := .el0, flags := .ro, field := some .mpidrEl1,
     writeMask := full, resetValue := 0x80000000 },
   { name := "REVIDR_EL1", sel := 0x0006, minEl := .el0, flags := .ro,
     field := some .revidrEl1, writeMask := full, resetValue := 0x00000100 },
   { name := "MDSCR_EL1", sel := 0x0012, minEl := .el1, flags := .wi, writeMask := 0 },
   { name := "ID_AA64PFR0_EL1", sel := 0x0020, minEl := .el0, flags := .ro,
     field := some .idAa64pfr0El1, writeMask := full, resetValue := 0x00000010 },
   { name := "ID_AA64PFR1_EL1", sel := 0x0021, minEl := .el0, flags := .wi, writeMask := 0 },
   { name := "ID_AA64PFR2_EL1", sel := 0x0022, minEl := .el0, flags := .wi, writeMask := 0 },
   { name := "ID_AA64ZFR0_EL1", sel := 0x0024, minEl := .el0, flags := .wi, writeMask := 0 },
   { name := "ID_AA64SMFR0_EL1", sel := 0x0025, minEl := .el0, flags := .wi, writeMask := 0 },
   { name := "ID_AA64DFR0_EL1", sel := 0x0028, minEl := .el0, flags := .ro,
     field := some .idAa64dfr0El1, writeMask := full, resetValue := 0x10305106 },
   { name := "ID_AA64DFR1_EL1", sel := 0x0029, minEl := .el0, flags := .wi, writeMask := 0 },
   { name := "ID_AA64DFR2_EL1", sel := 0x002a, minEl := .el0, flags := .wi, writeMask := 0 },
   { name := "ID_AA64AFR0_EL1", sel := 0x002c, minEl := .el0, flags := .wi, writeMask := 0 },
   { name := "ID_AA64ISAR0_EL1", sel := 0x0030, minEl := .el0, flags := .ro,
     field := some .idAa64isar0El1, writeMask := full, resetValue := 0x00011120 },
   { name := "ID_AA64ISAR1_EL1", sel := 0x0031, minEl := .el0, flags := .ro,
     field := some .idAa64isar1El1, writeMask := full, resetValue := 0x00000000 },
   { name := "ID_AA64ISAR2_EL1", sel := 0x0032, minEl := .el0, flags := .wi, writeMask := 0 },
   { name := "ID_AA64ISAR3_EL1", sel := 0x0033, minEl := .el0, flags := .wi, writeMask := 0 },
   { name := "ID_AA64ISAR4_EL1", sel := 0x0034, minEl := .el0, flags := .wi, writeMask := 0 },
   { name := "ID_AA64ISAR5_EL1", sel := 0x0035, minEl := .el0, flags := .wi, writeMask := 0 },
   { name := "ID_AA64MMFR0_EL1", sel := 0x0038, minEl := .el0, flags := .ro,
     field := some .idAa64mmfr0El1, writeMask := full, resetValue := 0x00001122 },
   { name := "ID_AA64MMFR1_EL1", sel := 0x0039, minEl := .el0, flags := .ro,
     field := some .idAa64mmfr1El1, writeMask := full, resetValue := 0x00000000 },
   { name := "ID_AA64MMFR2_EL1", sel := 0x003a, minEl := .el0, flags := .wi, writeMask := 0 },
   { name := "ID_AA64MMFR3_EL1", sel := 0x003b, minEl := .el0, flags := .wi, writeMask := 0 },
   { name := "SCTLR_EL1", sel := 0x0080, minEl := .el1, flags := .none,
     field := some .sctlrEl1, writeMask := full, resetValue := 0x30D00800 },
   { name := "CPACR_EL1", sel := 0x0082, minEl := .el1, flags := .none,
     field := some .cpacrEl1, writeMask := full },
   { name := "OSLAR_EL1", sel := 0x0084, minEl := .el1, flags := .wi, writeMask := 0 },
   { name := "OSDLR_EL1", sel := 0x009c, minEl := .el1, flags := .wi, writeMask := 0 },
   { name := "TTBR0_EL1", sel := 0x0100, minEl := .el1, flags := .none,
     field := some .ttbr0El1, writeMask := full },
   { name := "TTBR1_EL1", sel := 0x0101, minEl := .el1, flags := .none,
     field := some .ttbr1El1, writeMask := full },
   { name := "TCR_EL1", sel := 0x0102, minEl := .el1, flags := .none, field := some .tcrEl1,
     writeMask := full },
   { name := "TCR2_EL1", sel := 0x0103, minEl := .el1, flags := .wi, writeMask := 0 },
   { name := "SPSR_EL1", sel := 0x0200, minEl := .el1, flags := .none,
     field := some (.spsrEl .el1), writeMask := full },
   { name := "ELR_EL1", sel := 0x0201, minEl := .el1, flags := .none,
     field := some (.elrEl .el1), writeMask := full },
   { name := "SP_EL0", sel := 0x0208, minEl := .el0, flags := .none, writeMask := full,
     get := some .spEl0, set := some .spEl0 },
   { name := "SPSEL", sel := 0x0210, minEl := .el1, flags := .none, writeMask := full,
     get := some .spSel, set := some .spSel },
   { name := "CurrentEL", sel := 0x0212, minEl := .el1, flags := .ro, writeMask := full,
     get := some .currentEl },
   { name := "ESR_EL1", sel := 0x0290, minEl := .el1, flags := .none,
     field := some (.esrEl .el1), writeMask := full },
   { name := "FAR_EL1", sel := 0x0300, minEl := .el1, flags := .none,
     field := some (.farEl .el1), writeMask := full },
   { name := "PAR_EL1", sel := 0x03a0, minEl := .el1, flags := .ro, field := some .parEl1,
     writeMask := 0 },
   { name := "MAIR_EL1", sel := 0x0510, minEl := .el1, flags := .none, field := some .mairEl1,
     writeMask := full },
   { name := "PIRE0_EL1", sel := 0x0512, minEl := .el1, flags := .wi, writeMask := 0 },
   { name := "PIR_EL1", sel := 0x0513, minEl := .el1, flags := .wi, writeMask := 0 },
   { name := "AMAIR_EL1", sel := 0x0518, minEl := .el1, flags := .none,
     field := some .amairEl1, writeMask := full },
   { name := "VBAR_EL1", sel := 0x0600, minEl := .el1, flags := .none,
     field := some (.vbarEl .el1), writeMask := full },
   { name := "DISR_EL1", sel := 0x0609, minEl := .el1, flags := .wi, writeMask := 0 },
   { name := "CONTEXTIDR_EL1", sel := 0x0681, minEl := .el1, flags := .none,
     field := some .contextidrEl1, writeMask := full },
   { name := "TPIDR_EL1", sel := 0x0684, minEl := .el1, flags := .none,
     field := some .tpidrEl1, writeMask := full },
   { name := "CNTKCTL_EL1", sel := 0x0708, minEl := .el1, flags := .none,
     field := some .cntkctlEl1, writeMask := full },
   { name := "CCSIDR_EL1", sel := 0x0800, minEl := .el1, flags := .ro,
     field := some .ccsidrEl1, writeMask := full, resetValue := 0x100FE01A },
   { name := "CLIDR_EL1", sel := 0x0801, minEl := .el1, flags := .ro, field := some .clidrEl1,
     writeMask := full, resetValue := 0x0A200023 },
   { name := "CSSELR_EL1", sel := 0x1000, minEl := .el1, flags := .wi, writeMask := full },
   { name := "CTR_EL0", sel := 0x1801, minEl := .el0, flags := .ro, field := some .ctrEl0,
     writeMask := full, resetValue := 0x84448004 },
   { name := "DCZID_EL0", sel := 0x1807, minEl := .el0, flags := .ro, field := some .dczidEl0,
     writeMask := full, resetValue := 0x00000010 },
   { name := "NZCV", sel := 0x1A10, minEl := .el0, flags := .none, writeMask := full,
     get := some .nzcv, set := some .nzcv },
   { name := "DAIF", sel := 0x1A11, minEl := .el1, flags := .none, writeMask := full,
     get := some .daif, set := some .daif },
   { name := "FPCR", sel := 0x1a20, minEl := .el0, flags := .none, field := some .fpcr,
     writeMask := 0xFFFFFFFF },
   { name := "FPSR", sel := 0x1a21, minEl := .el0, flags := .none, field := some .fpsr,
     writeMask := 0xFFFFFFFF },
   { name := "PMUSERENR_EL0", sel := 0x1cf0, minEl := .el0, flags := .wi, writeMask := 0 },
   { name := "TPIDR_EL0", sel := 0x1E82, minEl := .el0, flags := .none,
     field := some .tpidrEl0, writeMask := full },
   { name := "TPIDRRO_EL0", sel := 0x1E83, minEl := .el0, flags := .none,
     field := some .tpidrroEl0, writeMask := full },
   { name := "AMUSERENR_EL0", sel := 0x1e93, minEl := .el0, flags := .wi, writeMask := 0 },
   { name := "CNTFRQ_EL0", sel := 0x1f00, minEl := .el0, flags := .ro,
     field := some .cntfrqEl0, writeMask := full, resetValue := 62500000 },
   { name := "CNTPCT_EL0", sel := 0x1f01, minEl := .el0, flags := .ro, writeMask := 0,
     get := some .cntpct },
   { name := "CNTVCT_EL0", sel := 0x1f02, minEl := .el0, flags := .ro, writeMask := 0,
     get := some .cntvct },
   { name := "CNTVOFF_EL1", sel := 0x1f03, minEl := .el1, flags := .none,
     field := some .cntvoffEl1, writeMask := full },
   { name := "CNTPCTSS_EL0", sel := 0x1f05, minEl := .el1, flags := .ro, writeMask := 0,
     get := some .cntpct },
   { name := "CNTVCTSS_EL0", sel := 0x1f06, minEl := .el1, flags := .ro, writeMask := 0,
     get := some .cntvct },
   { name := "CNTP_CTL_EL1", sel := 0x1f11, minEl := .el1, flags := .none, writeMask := full,
     get := some .cntpCtl, set := some .cntpCtl },
   { name := "CNTP_CVAL_EL1", sel := 0x1f12, minEl := .el1, flags := .none,
     field := some .cntpCvalEl1, writeMask := full },
   { name := "CNTP_TVAL_EL1", sel := 0x1f13, minEl := .el1, flags := .none, writeMask := full,
     get := some .cntpTval, set := some .cntpTval },
   { name := "CNTV_CTL_EL0", sel := 0x1f19, minEl := .el1, flags := .none, writeMask := full,
     get := some .cntvCtl, set := some .cntvCtl },
   { name := "CNTV_CVAL_EL0", sel := 0x1f1a, minEl := .el1, flags := .none,
     field := some .cntvCvalEl1, writeMask := full },
   { name := "CNTV_TVAL_EL0", sel := 0x1f1b, minEl := .el1, flags := .none, writeMask := full,
     get := some .cntvTval, set := some .cntvTval },
   { name := "SP_EL1", sel := 0x2208, minEl := .el2, flags := .none, writeMask := full,
     get := some .spEl1, set := some .spEl1 },
   { name := "SPSR_EL3", sel := 0x3200, minEl := .el3, flags := .none,
     field := some (.spsrEl .el3), writeMask := full },
   { name := "ELR_EL3", sel := 0x3201, minEl := .el3, flags := .none,
     field := some (.elrEl .el3), writeMask := full },
   { name := "ESR_EL3", sel := 0x3290, minEl := .el3, flags := .none,
     field := some (.esrEl .el3), writeMask := full },
   { name := "FAR_EL3", sel := 0x3300, minEl := .el3, flags := .none,
     field := some (.farEl .el3), writeMask := full },
   { name := "VBAR_EL3", sel := 0x3600, minEl := .el3, flags := .none,
     field := some (.vbarEl .el3), writeMask := full }]

/-- first row whose selector matches -/
def sysregFind (sel : W32) : Option Row := kRows.find? fun row => row.sel == sel

def sysregName (sel : W32) : String :=
  match sysregFind sel with
  | some row => row.name
  | none => "unknown"

/-! ## the accessors -/

def rowAccessAllowed (sr : Sysregs) (row : Row) : Bool := decide (row.minEl.num ≤ sr.el.num)

def rowRead (r : Regs) (sr : Sysregs) (row : Row) : W64 :=
  match row.get with
  | some g => g.run r sr
  | none =>
    if row.flags = .wi then 0
    else
      match row.field with
      | some f => sr.val f &&& row.writeMask
      | none => 0

def rowWrite (r : Regs) (sr : Sysregs) (row : Row) (value : W64) : Regs × Sysregs :=
  match row.set with
  | some g => g.run r sr value
  | none =>
    match row.field with
    | some f =>
      (r, sr.set f ((sr.val f &&& ~~~row.writeMask) ||| (value &&& row.writeMask)))
    | none => (r, sr)

/-- the table-driven `MRS`: `none` is the refusal `OEMU_ERR_UNSUPPORTED` -/
def sysregRead (r : Regs) (sr : Sysregs) (sel : W32) : Option W64 :=
  match sysregFind sel with
  | some row => if rowAccessAllowed sr row then some (rowRead r sr row) else none
  | none => none

/-- the table-driven `MSR`: `none` is the refusal `OEMU_ERR_UNSUPPORTED` -/
def sysregWrite (r : Regs) (sr : Sysregs) (sel : W32) (value : W64) : Option (Regs × Sysregs) :=
  match sysregFind sel with
  | some row =>
    if !rowAccessAllowed sr row || row.flags = .ro then none
    else if row.flags = .wi then some (r, sr)
    else some (rowWrite r sr row value)
  | none => none

theorem Setter.run_pc (r : Regs) (sr : Sysregs) (v : W64) (g : Setter) :
    (g.run r sr v).1.pc = r.pc ∧ (g.run r sr v).2.taken = sr.taken := by
  cases g
  case spSel => exact ⟨switchSp_pc r sr _, switchSp_taken r sr _⟩
  case spEl0 =>
    refine ⟨?_, rfl⟩
    unfold Setter.run
    dsimp only
    split <;> rfl
  case spEl1 =>
    refine ⟨?_, rfl⟩
    unfold Setter.run
    dsimp only
    split <;> rfl
  all_goals exact ⟨rfl, rfl⟩

theorem sysregWrite_cases {r : Regs} {sr : Sysregs} {sel : W32} {value : W64}
    {p : Regs × Sysregs} (h : sysregWrite r sr sel value = some p) :
    ∃ row ∈ kRows, row.sel = sel ∧ row.minEl.num ≤ sr.el.num ∧ row.flags ≠ .ro ∧
      (row.flags = .wi ∧ p = (r, sr) ∨ row.flags = .none ∧ p = rowWrite r sr row value) := by
  unfold sysregWrite at h
  cases hf : sysregFind sel with
  | none =>
    rw [hf] at h
    cases h
  | some row =>
    rw [hf] at h
    dsimp only at h
    have hm : row ∈ kRows := List.mem_of_find?_eq_some hf
    have hs : row.sel = sel := by
      have := List.find?_some hf
      simpa using this
    by_cases ha : (!rowAccessAllowed sr row || row.flags = .ro) = true
    · rw [if_pos ha] at h
      cases h
    · rw [if_neg ha] at h
      simp only [Bool.or_eq_true, Bool.not_eq_true', decide_eq_true_eq, not_or,
        Bool.not_eq_false, rowAccessAllowed] at ha
      refine ⟨row, hm, hs, ha.1, ha.2, ?_⟩
      by_cases hw : row.flags = .wi
      · rw [if_pos hw] at h
        cases h
        exact .inl ⟨hw, rfl⟩
      · rw [if_neg hw] at h
        cases h
        refine .inr ⟨?_, rfl⟩
        cases hfl : row.flags with
        | none => rfl
        | ro => exact absurd hfl ha.2
        | wi => exact absurd hfl hw

/-- a register move leaves the program counter alone and delivers nothing -/
theorem sysregWrite_pc {r : Regs} {sr : Sysregs} {sel : W32} {value : W64} {p : Regs × Sysregs}
    (h : sysregWrite r sr sel value = some p) : p.1.pc = r.pc ∧ p.2.taken = sr.taken := by
  obtain ⟨row, -, -, -, -, ⟨-, rfl⟩ | ⟨-, rfl⟩⟩ := sysregWrite_cases h
  · exact ⟨rfl, rfl⟩
  · unfold rowWrite
    cases row.set with
    | some g => exact g.run_pc r sr value
    | none =>
      dsimp only
      cases row.field <;> exact ⟨rfl, rfl⟩

/-- the bank at reset: every stored row takes its reset value -/
def Sysregs.reset : Sysregs :=
  kRows.foldl (fun sr row =>
    match row.field with
    | some f => sr.set f row.resetValue
    | none => sr) { val := fun _ => 0, taken := [] }

/-- boot at a level, paired with a register file -/
def Sysregs.init (r : Regs) (el : El) : Sysregs :=
  (Sysregs.reset.set .pstate (pstateMode el ||| daifField)).set (.spEl el) r.sp

def selSpsel : W32 := 0x0210

def selDaif : W32 := 0x1A11

def selSpEl0 : W32 := 0x0208

def selSpEl1 : W32 := 0x2208

/-! ## writes that reach PSTATE or a stack pointer -/

theorem daif_mode (p value : W64) :
    ((p &&& ~~~daifField) ||| (value &&& daifField)) &&& modeMask = p &&& modeMask := by
  rw [BitVec.and_or_distrib_right, BitVec.and_assoc, BitVec.and_assoc]
  rw [show ~~~daifField &&& modeMask = modeMask from rfl,
    show daifField &&& modeMask = 0#64 from rfl, BitVec.and_zero, BitVec.or_zero]

/-- the fields a row's own storage never is -/
def SysField.isBanked : SysField → Bool
  | .pstate => true
  | .spEl _ => true
  | _ => false

/-- a write to a register, by what it does to PSTATE and the stack pointers -/
inductive BankWrite (r : Regs) (sr : Sysregs) (sel : W32) (value : W64) :
    Regs × Sysregs → Prop where
  | spSel (hsel : sel = selSpsel) :
      BankWrite r sr sel value (switchSp r sr ((sr.pstate &&& ~~~1) ||| (value &&& 1)))
  | daif (hsel : sel = selDaif) :
      BankWrite r sr sel value
        (r, sr.set .pstate ((sr.pstate &&& ~~~daifField) ||| (value &&& daifField)))
  | spEl0 (hsel : sel = selSpEl0) :
      BankWrite r sr sel value
        (if spEl0Active sr then r.setSp value else r, sr.set (.spEl .el0) value)
  | spEl1 (hsel : sel = selSpEl1) :
      BankWrite r sr sel value
        (if spEl1Active sr then r.setSp value else r, sr.set (.spEl .el1) value)
  | aside (p : Regs × Sysregs) (hsp : p.1.sp = r.sp)
      (hval : ∀ f : SysField, f.isBanked = true → p.2.val f = sr.val f)
      (hsel : sel ≠ selSpEl0 ∧ sel ≠ selSpEl1) : BankWrite r sr sel value p

/-- the callbacks of the four rows, each under its own selector, and no storage among these -/
def Row.bankedOk (row : Row) : Bool :=
  match row.set with
  | some .spSel => row.sel == selSpsel
  | some .daif => row.sel == selDaif
  | some .spEl0 => row.sel == selSpEl0
  | some .spEl1 => row.sel == selSpEl1
  | _ => row.sel != selSpEl0 && row.sel != selSpEl1 &&
      match row.field with
      | some f => !f.isBanked
      | none => true

theorem kRows_bankedOk : ∀ row ∈ kRows, row.bankedOk = true := by
  decide

theorem kRows_dropped :
    ∀ row ∈ kRows, row.flags = .wi → row.sel ≠ selSpEl0 ∧ row.sel ≠ selSpEl1 := by
  decide

theorem sysregWrite_bank {r : Regs} {sr : Sysregs} {sel : W32} {value : W64} {p : Regs × Sysregs}
    (h : sysregWrite r sr sel value = some p) : BankWrite r sr sel value p := by
  obtain ⟨row, hm, rfl, -, -, hp⟩ := sysregWrite_cases h
  have hok := kRows_bankedOk row hm
  unfold Row.bankedOk at hok
  rcases hp with ⟨hfl, rfl⟩ | ⟨-, rfl⟩
  · exact .aside _ rfl (fun _ _ => rfl) (kRows_dropped row hm hfl)
  · unfold rowWrite
    cases hset : row.set with
    | some g =>
      rw [hset] at hok
      cases g <;> dsimp only at hok ⊢
      case spSel => exact .spSel (eq_of_beq hok)
      case daif => exact .daif (eq_of_beq hok)
      case spEl0 => exact .spEl0 (eq_of_beq hok)
      case spEl1 => exact .spEl1 (eq_of_beq hok)
      all_goals
        simp only [Bool.and_eq_true, bne_iff_ne] at hok
        refine .aside _ rfl ?_ hok.1
        intro f hf
        cases f <;> first | rfl | cases hf
    | none =>
      rw [hset] at hok
      simp only [Bool.and_eq_true, bne_iff_ne] at hok
      cases hfield : row.field with
      | none => exact .aside _ rfl (fun _ _ => rfl) hok.1
      | some f =>
        rw [hfield] at hok
        refine .aside _ rfl ?_ hok.1
        intro g hg
        refine Sysregs.set_val_of_ne _ _ ?_
        rintro rfl
        have hb : (!g.isBanked) = true := hok.2
        rw [hg] at hb
        cases hb

theorem spEl0Active_iff (sr : Sysregs) : spEl0Active sr = true ↔ spBank sr.pstate = .el0 := by
  have hu : spEl0Active sr = spUser sr.pstate := by
    unfold spEl0Active spUser
    exact Bool.or_comm _ _
  rw [hu]
  cases h : spUser sr.pstate with
  | true => simp [spBank_of_user h]
  | false =>
    obtain ⟨hb, hne⟩ := spBank_of_not_user h
    simp [hb, hne]

theorem spEl1Active_iff (sr : Sysregs) : spEl1Active sr = true ↔ spBank sr.pstate = .el1 := by
  unfold spEl1Active spBank spUser
  cases pstateSpSel sr.pstate <;> cases pstateEl sr.pstate <;> decide

theorem spOf_set {r : Regs} {sr : Sysregs} {k : El} {b : Bool}
    (hb : b = true ↔ spBank sr.pstate = k) (value : W64) (e : El) :
    spOf (if b then r.setSp value else r) (sr.set (.spEl k) value) e =
      if e = k then value else spOf r sr e := by
  have hp : (sr.set (.spEl k) value).pstate = sr.pstate := by simp [Sysregs.pstate]
  unfold spOf
  rw [hp]
  cases b with
  | true =>
    have hk := hb.mp rfl
    subst hk
    by_cases he : spBank sr.pstate = e
    · subst he
      simp [Regs.setSp]
    · simp [he, Ne.symm he]
  | false =>
    have hk : spBank sr.pstate ≠ k := fun h => Bool.noConfusion (hb.mpr h)
    by_cases he : spBank sr.pstate = e
    · subst he
      simp [hk]
    · by_cases hek : e = k
      · subst hek
        simp [he]
      · simp [he, hek]

theorem spOf_get {r : Regs} {sr : Sysregs} {k : El} {b : Bool}
    (hb : b = true ↔ spBank sr.pstate = k) :
    (if b then r.sp else sr.val (.spEl k)) = spOf r sr k := by
  unfold spOf
  simp [hb]

theorem BankWrite.spOf {r : Regs} {sr : Sysregs} {sel : W32} {value : W64} {p : Regs × Sysregs}
    (h : BankWrite r sr sel value p) (e : El) :
    Oemu.spOf p.1 p.2 e =
      if sel = selSpEl0 ∧ e = .el0 ∨ sel = selSpEl1 ∧ e = .el1 then value else Oemu.spOf r sr e := by
  cases h with
  | spSel hsel =>
    subst hsel
    rw [spOf_switchSp, if_neg]
    rintro (⟨h, -⟩ | ⟨h, -⟩) <;> cases h
  | daif hsel =>
    subst hsel
    rw [if_neg (by rintro (⟨h, -⟩ | ⟨h, -⟩) <;> cases h)]
    unfold Oemu.spOf
    have hp : (sr.set .pstate ((sr.pstate &&& ~~~daifField) ||| (value &&& daifField))).pstate =
        (sr.pstate &&& ~~~daifField) ||| (value &&& daifField) := by
      simp [Sysregs.pstate]
    rw [hp, ← spBank_mode, daif_mode, spBank_mode]
    simp
  | spEl0 hsel =>
    subst hsel
    rw [spOf_set (spEl0Active_iff sr)]
    by_cases he : e = .el0
    · simp [he]
    · rw [if_neg he, if_neg]
      rintro (⟨-, h⟩ | ⟨h, -⟩)
      · exact he h
      · cases h
  | spEl1 hsel =>
    subst hsel
    rw [spOf_set (spEl1Active_iff sr)]
    by_cases he : e = .el1
    · simp [he]
    · rw [if_neg he, if_neg]
      rintro (⟨h, -⟩ | ⟨-, h⟩)
      · cases h
      · exact he h
  | aside p hsp hval hsel =>
    rw [if_neg (by rintro (⟨h, -⟩ | ⟨h, -⟩) <;> simp [h] at hsel)]
    unfold Oemu.spOf Sysregs.pstate
    rw [hsp, hval .pstate rfl, hval (.spEl e) rfl]

theorem sysregRead_spEl0 (r : Regs) (sr : Sysregs) :
    sysregRead r sr selSpEl0 = some (spOf r sr .el0) := by
  have h : sysregRead r sr selSpEl0 = some (if spEl0Active sr then r.sp else sr.val (.spEl .el0)) := by
    show (if decide (0 ≤ sr.el.num) = true then _ else none) = _
    rw [if_pos (by simp)]
    rfl
  rw [h, spOf_get (spEl0Active_iff sr)]

theorem sysregRead_spEl1 (r : Regs) (sr : Sysregs) :
    sysregRead r sr selSpEl1 = if 2 ≤ sr.el.num then some (spOf r sr .el1) else none := by
  have h : sysregRead r sr selSpEl1 =
      if decide (2 ≤ sr.el.num) = true then
        some (if spEl1Active sr then r.sp else sr.val (.spEl .el1)) else none := rfl
  rw [h, spOf_get (spEl1Active_iff sr)]
  simp

end Oemu
