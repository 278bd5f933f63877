import Oemu.Sysreg

/-!
# Exception entry and return

`excTake` is the one way an exception is entered and `excEret` the one way it is returned from.
Both act on the register file and the paired bank.  The fault sources at the end fix the kind, the
target and the syndrome of each cause.

An exception is never delivered to EL0 or EL2, and the host stops where one would be: `excTake` asks
for an `ExcTarget`, the routes are targets, and the one caller that passes the current level checks
it (`excTarget`).
-/

namespace Oemu

/-! ## syndromes -/

/-- the exception classes the machine raises -/
inductive ExcEc where
  | unknown | svc64 | illegalEret | iabortLower | iabortSame | dabortLower | dabortSame
  | breakpoint | brk64
deriving DecidableEq, Repr

def ExcEc.code : ExcEc → W32
  | .unknown => 0x00
  | .svc64 => 0x15
  | .illegalEret => 0x1A
  | .iabortLower => 0x20
  | .iabortSame => 0x21
  | .dabortLower => 0x24
  | .dabortSame => 0x25
  | .breakpoint => 0x30
  | .brk64 => 0x3C

def excEsr (ec : ExcEc) (iss : W32) : W32 :=
  (ec.code <<< 26) ||| ((1 : W32) <<< 25) ||| (iss &&& 0x01FFFFFF)

def esrUndefined (insn : W32) : W32 := excEsr .unknown (insn &&& 0x01FFFFFF)

def esrImm16 (ec : ExcEc) (imm16 : W32) : W32 := excEsr ec (imm16 &&& 0xFFFF)

def esrDataAbort (ec : ExcEc) (log2Size : Nat) (isWrite isv : Bool) (dfsc : W32) : W32 :=
  excEsr ec ((dfsc &&& 0x3F) |||
    (if isv then ((1 : W32) <<< 24) ||| (BitVec.ofNat 32 (log2Size % 4) <<< 21) |||
      ((1 : W32) <<< 11) else 0) |||
    (if isWrite then (1 : W32) <<< 6 else 0))

def esrInstructionAbort (ec : ExcEc) (dfsc : W32) : W32 := excEsr ec (dfsc &&& 0x3F)

def esrIllegalEret : W32 := excEsr .illegalEret 0

/-! ## mode and routing -/

/-- the implemented AArch64 modes: not AArch32, bit 1 clear, EL0 only as EL0t -/
def modeValid (mode : W64) : Bool :=
  mode &&& 0x12 == 0 && !((mode.toNat >>> 2) % 4 == 0 && mode &&& 1 != 0)

/-- a level exceptions are delivered to: not EL0, and there is no EL2 -/
abbrev ExcTarget := {e : El // e ≠ .el0 ∧ e ≠ .el2}

/-- the requirement on the target of an entry; `none` is the abort of the host -/
def excTarget (e : El) : Option ExcTarget :=
  if h : e ≠ .el0 ∧ e ≠ .el2 then some ⟨e, h⟩ else none

def excRoute (cur : El) : ExcTarget :=
  match cur with
  | .el3 => ⟨.el3, by decide⟩
  | _ => ⟨.el1, by decide⟩

theorem excRoute_el3 {e : El} (h : (excRoute e).1 = .el3) : e = .el3 := by
  cases e with
  | el3 => rfl
  | _ => cases h

theorem excTarget_some {e : El} {target : ExcTarget} (h : excTarget e = some target) :
    target = excRoute e := by
  cases e with
  | el0 => cases h
  | el1 => exact (Option.some.inj h).symm
  | el2 => cases h
  | el3 => exact (Option.some.inj h).symm

theorem excTarget_eq_none {e : El} : excTarget e = none ↔ e = .el0 ∨ e = .el2 := by
  cases e <;> decide

def ExcKind.num : ExcKind → Nat
  | .sync => 0
  | .irq => 1
  | .fiq => 2
  | .serror => 3

def vectorOffset (sameEl spSel : Bool) (kind : ExcKind) : W64 :=
  (if sameEl then (if spSel then 0x200 else 0x000) else 0x400) + BitVec.ofNat 64 (kind.num <<< 7)

/-! ## entry and return -/

def excVector (sr : Sysregs) (kind : ExcKind) (target : El) : W64 :=
  sr.val (.vbarEl target) +
    vectorOffset (decide (pstateEl sr.pstate = target)) (pstateSpSel sr.pstate) kind

/-- the 64-bit mask of the flag bits -/
def nzcvMask64 : W64 := nzcvMask.setWidth 64

/-- the word saved in `SPSR`: the interrupted PSTATE with the live flags folded in -/
def savedPstate (r : Regs) (sr : Sysregs) : W64 :=
  (sr.pstate &&& ~~~nzcvMask64) ||| r.nzcv.bits.setWidth 64

/-- target `h` mode, all four interrupt masks set -/
def entryPstate (target : El) : W64 := pstateMode target ||| daifField

def excTake (r : Regs) (sr : Sysregs) (kind : ExcKind) (target : ExcTarget) (esr : W32)
    (far : Option W64) : Regs × Sysregs :=
  let vector := excVector sr kind target
  let spsr := savedPstate r sr
  let (r, sr) := switchSp r sr (entryPstate target)
  let sr := sr.set (.spsrEl target) spsr
  let sr := sr.set (.elrEl target) r.pc
  let sr :=
    if kind = .sync ∨ kind = .serror then sr.set (.esrEl target) (esr.setWidth 64) else sr
  let sr :=
    match far with
    | some a => sr.set (.farEl target) a
    | none => sr
  (r.setPc vector, { sr with taken := sr.taken ++ [⟨kind, target, esr, far⟩] })

/-! ## fault sources -/

def excUndefined (r : Regs) (sr : Sysregs) (insn : W32) : Regs × Sysregs :=
  excTake r sr .sync (excRoute sr.el) (esrUndefined insn) none

/-- `SVC` is taken, not re-run: the return address is the next instruction -/
def excSvc (r : Regs) (sr : Sysregs) (imm16 : BitVec 16) : Regs × Sysregs :=
  excTake r.advancePc sr .sync (excRoute sr.el) (esrImm16 .svc64 (imm16.setWidth 32)) none

def excBrk (r : Regs) (sr : Sysregs) (imm16 : BitVec 16) : Regs × Sysregs :=
  excTake r sr .sync (excRoute sr.el) (esrImm16 .brk64 (imm16.setWidth 32)) none

def excSmc (r : Regs) (sr : Sysregs) (imm16 : BitVec 16) : Regs × Sysregs :=
  excUndefined r sr (0xD4000003 ||| (imm16.setWidth 32 <<< 5))

def excHvc (r : Regs) (sr : Sysregs) (imm16 : BitVec 16) : Regs × Sysregs :=
  excUndefined r.advancePc sr (0xD4000002 ||| (imm16.setWidth 32 <<< 5))

def excBreakpoint (r : Regs) (sr : Sysregs) : Regs × Sysregs :=
  excTake r sr .sync (excRoute sr.el) (excEsr .breakpoint (((1 : W32) <<< 24) ||| 0x04)) none

def excInstructionAbort (r : Regs) (sr : Sysregs) (far : W64) : Regs × Sysregs :=
  let cur := sr.el
  let target := excRoute cur
  let ec := if cur.num < target.1.num then ExcEc.iabortLower else .iabortSame
  excTake r sr .sync target (esrInstructionAbort ec 0x2C) (some far)

def excDataAbort (r : Regs) (sr : Sysregs) (far : W64) (log2Size : Nat) (isWrite isv : Bool)
    (dfsc : W32) : Regs × Sysregs :=
  let cur := sr.el
  let target := excRoute cur
  let ec := if cur.num < target.1.num then ExcEc.dabortLower else .dabortSame
  excTake r sr .sync target (esrDataAbort ec log2Size isWrite isv dfsc) (some far)

/-- the encoding of `ERET`, the syndrome of a refused one -/
def eretWord : W32 := 0xD69F03E0

/-- the return itself: the saved PSTATE and flags, and the saved address -/
def excReturn (r : Regs) (sr : Sysregs) : Regs × Sysregs :=
  let cur := sr.el
  let saved := sr.val (.spsrEl cur)
  let (r, sr) := switchSp r sr (saved &&& ~~~nzcvMask64)
  let r := r.setNzcv ((saved &&& nzcvMask64).setWidth 32)
  (r.setPc (sr.val (.elrEl cur)), sr)

/-- `none` is a refused return at EL2, where the exception it raises has no target -/
def excEret (r : Regs) (sr : Sysregs) : Option (Regs × Sysregs) :=
  let cur := sr.el
  if cur = .el0 then some (excUndefined r sr eretWord)
  else
    let saved := sr.val (.spsrEl cur)
    if saved &&& pstateIl ≠ 0 then
      (excTarget cur).map fun target => excTake r sr .sync target esrIllegalEret none
    else
      let mode := saved &&& 0x1F
      let target := pstateEl mode
      if !modeValid mode ∨ cur.num < target.num then
        (excTarget cur).map fun target => excTake r sr .sync target (esrUndefined eretWord) none
      else some (excReturn r sr)

/-- what a return is refused for: `IL` in the saved word, or a mode that is not implemented or is
above the current level -/
def ReturnRefused (sr : Sysregs) : Prop :=
  sr.val (.spsrEl sr.el) &&& pstateIl ≠ 0 ∨
    (!modeValid (sr.val (.spsrEl sr.el) &&& 0x1F)) = true ∨
      sr.el.num < (pstateEl (sr.val (.spsrEl sr.el) &&& 0x1F)).num

/-- every way a return can go -/
inductive ReturnOutcome (r : Regs) (sr : Sysregs) : Option (Regs × Sysregs) → Prop where
  | undefined (h0 : sr.el = .el0) : ReturnOutcome r sr (some (excUndefined r sr eretWord))
  | refused (h2 : sr.el ≠ .el2) (h : ReturnRefused sr) (esr : W32) :
      ReturnOutcome r sr (some (excTake r sr .sync (excRoute sr.el) esr none))
  | aborted (h2 : sr.el = .el2) (h : ReturnRefused sr) : ReturnOutcome r sr none
  | returned (h0 : sr.el ≠ .el0) (h : ¬ ReturnRefused sr) :
      ReturnOutcome r sr (some (excReturn r sr))

theorem returnOutcome_refused {r : Regs} {sr : Sysregs} (h0 : sr.el ≠ .el0)
    (h : ReturnRefused sr) (esr : W32) : ReturnOutcome r sr
      ((excTarget sr.el).map fun target => excTake r sr .sync target esr none) := by
  cases ht : excTarget sr.el with
  | none =>
    rcases excTarget_eq_none.mp ht with h0' | h2
    · exact absurd h0' h0
    · exact .aborted h2 h
  | some target =>
    rw [excTarget_some ht]
    refine .refused (fun h2 => ?_) h esr
    rw [excTarget_eq_none.mpr (.inr h2)] at ht
    cases ht

theorem excEret_outcome (r : Regs) (sr : Sysregs) : ReturnOutcome r sr (excEret r sr) := by
  unfold excEret
  dsimp only
  by_cases h0 : sr.el = .el0
  · rw [if_pos h0]
    exact .undefined h0
  · rw [if_neg h0]
    split
    · rename_i hil
      exact returnOutcome_refused h0 (.inl hil) _
    · rename_i hil
      split
      · rename_i hmode
        exact returnOutcome_refused h0 (.inr hmode) _
      · rename_i hmode
        exact .returned h0 fun h => h.elim hil hmode

/-- **the host stops at a return that is refused at EL2**, and at no other -/
theorem excEret_eq_none {r : Regs} {sr : Sysregs} :
    excEret r sr = none ↔ sr.el = .el2 ∧ ReturnRefused sr := by
  have h := excEret_outcome r sr
  constructor
  · intro hnone
    rw [hnone] at h
    cases h with
    | aborted h2 hr => exact ⟨h2, hr⟩
  · rintro ⟨h2, hr⟩
    generalize ho : excEret r sr = o at h
    cases h with
    | undefined h0 => cases h0.symm.trans h2
    | refused hn => exact absurd h2 hn
    | aborted => rfl
    | returned _ hn => exact absurd hr hn

theorem excEret_returned {r : Regs} {sr : Sysregs} (h0 : sr.el ≠ .el0) (h : ¬ ReturnRefused sr) :
    excEret r sr = some (excReturn r sr) := by
  have ho := excEret_outcome r sr
  generalize excEret r sr = o at ho
  cases ho with
  | undefined h0' => exact absurd h0' h0
  | refused _ hr => exact absurd hr h
  | aborted _ hr => exact absurd hr h
  | returned => rfl

/-! ## what entry and return leave alone -/

section Frame

variable (r : Regs) (sr : Sysregs) (kind : ExcKind) (target : ExcTarget) (esr : W32)
  (far : Option W64)

@[simp] theorem excTake_x : (excTake r sr kind target esr far).1.x = r.x :=
  switchSp_x r sr (entryPstate target)

@[simp] theorem excTake_nzcv : (excTake r sr kind target esr far).1.nzcv = r.nzcv :=
  switchSp_nzcv r sr (entryPstate target)

@[simp] theorem excTake_pc :
    (excTake r sr kind target esr far).1.pc = excVector sr kind target := rfl

theorem excTake_sp :
    (excTake r sr kind target esr far).1.sp = (switchSp r sr (entryPstate target)).1.sp := rfl

@[simp] theorem excTake_taken :
    (excTake r sr kind target esr far).2.taken = sr.taken ++ [⟨kind, target, esr, far⟩] := by
  unfold excTake
  dsimp only
  split <;> split <;> simp only [Sysregs.set_taken, switchSp_taken]

theorem excTake_taken_ne : (excTake r sr kind target esr far).2.taken ≠ sr.taken := by
  rw [excTake_taken]
  simp

theorem excTake_val (f : SysField) :
    (excTake r sr kind target esr far).2.val f =
      if f = .farEl target ∧ far.isSome then far.getD 0
      else if f = .esrEl target ∧ (kind = .sync ∨ kind = .serror) then esr.setWidth 64
      else if f = .elrEl target then r.pc
      else if f = .spsrEl target then savedPstate r sr
      else (switchSp r sr (entryPstate target)).2.val f := by
  unfold excTake
  dsimp only
  by_cases hk : kind = .sync ∨ kind = .serror
  · cases far with
    | none => simp [hk, switchSp_pc]
    | some a => simp [hk, switchSp_pc]
  · cases far with
    | none => simp [hk, switchSp_pc]
    | some a => simp [hk, switchSp_pc]

@[simp] theorem excReturn_x : (excReturn r sr).1.x = r.x := by
  unfold excReturn
  simp

@[simp] theorem excReturn_pc : (excReturn r sr).1.pc = sr.val (.elrEl sr.el) := by
  unfold excReturn
  simp [switchSp_val]

@[simp] theorem excReturn_taken : (excReturn r sr).2.taken = sr.taken := by
  unfold excReturn
  simp

end Frame

/-! ## the stack pointers -/

theorem spOf_excTake (r : Regs) (sr : Sysregs) (kind : ExcKind) (target : ExcTarget) (esr : W32)
    (far : Option W64) (e : El) :
    spOf (excTake r sr kind target esr far).1 (excTake r sr kind target esr far).2 e =
      spOf r sr e := by
  rw [← spOf_switchSp r sr (entryPstate target) e]
  unfold spOf Sysregs.pstate
  rw [excTake_val, excTake_val, excTake_sp]
  simp

theorem spOf_excReturn (r : Regs) (sr : Sysregs) (e : El) :
    spOf (excReturn r sr).1 (excReturn r sr).2 e = spOf r sr e :=
  spOf_switchSp r sr _ e

end Oemu
