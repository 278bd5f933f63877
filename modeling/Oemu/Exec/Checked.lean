import Oemu.Exec.System
import Oemu.Decode.WellFormed

/-!
# The executor with its preconditions

In C a shift at or above the width of its operand is undefined.  This module writes the arms again
with that precondition at every shift whose amount is not a constant of the code; `none` is an
undefined shift.  Register numbers are five bits, widths and vector numbers are types, so the checks
of the register file cannot fail.

* `cDispatchShared_eq`  a well-formed instruction is defined, and does what the plain switch does.
-/

namespace Oemu

/-! ## shifts as C has them -/

/-- `value << amount`, on an operand of `width` bits -/
def cShl (value : W64) (amount width : Nat) : Option W64 :=
  if amount < width then some (value <<< amount) else none

/-- `value >> amount`, on an operand of `width` bits -/
def cShr (value : W64) (amount width : Nat) : Option W64 :=
  if amount < width then some (value >>> amount) else none

theorem cShl_eq {value : W64} {amount width : Nat} (h : amount < width) :
    cShl value amount width = some (value <<< amount) := if_pos h

theorem cShr_eq {value : W64} {amount width : Nat} (h : amount < width) :
    cShr value amount width = some (value >>> amount) := if_pos h

/-! ## the helpers -/

def cRotr (value : W64) (amount : Nat) (width : RegWidth) : Option W64 := do
  let lo ← cShr value amount width.bits
  let hi ← cShl value (width.bits - amount) width.bits
  pure ((lo ||| hi) &&& widthMask width)

/-- a shift by zero has its own results, and shifts nothing -/
def cShiftOperand (value : W64) (type : ShiftType) (amount : Nat) (width : RegWidth) :
    Option ShiftResult :=
  let bits := width.bits
  let mask := widthMask width
  let masked := value &&& mask
  let sign := masked &&& ((1 : W64) <<< (bits - 1)) != 0
  if amount = 0 then some (shiftOperand value type amount width)
  else do
    let shifted ←
      match type with
      | .lsl => (· &&& mask) <$> cShl masked amount bits
      | .lsr => cShr masked amount bits
      | .asr => do
        let fill ← if sign then (· &&& mask) <$> cShl mask (bits - amount) bits else pure 0
        let low ← cShr (masked &&& mask) amount bits
        pure ((low ||| fill) &&& mask)
      | .ror => cRotr masked amount width
    let carry ← cShr masked (if type = .lsl then bits - amount else amount - 1) bits
    pure ⟨shifted, true, carry &&& 1 != 0⟩

def cExtendOperand (indexValue : W64) (type : ExtendType) (shift : Nat) : Option W64 :=
  cShl (extendOperand indexValue type 0) shift 64

def cCrc32 (crcIn : W32) (data : W64) (bytes : Nat) (castagnoli : Bool) : Option W32 :=
  let poly : W32 := if castagnoli then 0x82F63B78 else 0xEDB88320
  (List.range bytes).foldlM
    (fun crc i => do
      let byte ← cShr data (8 * i) 64
      let crc := crc ^^^ (byte &&& 0xFF).setWidth 32
      pure ((List.range 8).foldl (fun crc _ => crcBit poly crc) crc)) crcIn

def cOperand2 (r : Regs) (insn : Insn) : Option (Status × W64 × ShiftResult) :=
  match insn.operandKind with
  | .regShifted => do
    let s ← cShiftOperand (readG r insn.rm false insn.width) insn.shiftType insn.shiftAmount
      insn.width
    pure (.ok, s.value, s)
  | .regExtended => do
    let v ← cExtendOperand (readG r insn.rm false .w64) insn.extendType insn.shiftAmount
    pure (.ok, v, ⟨0, false, false⟩)
  | _ => some (operand2 r insn)

/-! ## the arms -/

def cDoMovk (r : Regs) (insn : Insn) : Option Regs := do
  let old := readG r insn.rd false insn.width
  let mask ← cShl 0xFFFF insn.shiftAmount insn.width.bits
  pure (writeG r insn.rd false insn.width ((old &&& ~~~mask) ||| (insn.uimm &&& mask)))

def cBitfieldExtract (src : W64) (lsb msb : Nat) (width : RegWidth) : Option W64 :=
  if msb < lsb then (· &&& widthMask width) <$> cShl src (width.bits - lsb) width.bits
  else if lsb = 0 then some src
  else do
    let lo ← cShr src lsb width.bits
    let hi ← cShl src (width.bits - lsb) width.bits
    pure ((lo ||| hi) &&& widthMask width)

/-- `len` ones, at most the width of them -/
def cOnes (len : Nat) (width : RegWidth) : Option W64 :=
  if len = width.bits then some (widthMask width) else (· - 1) <$> cShl 1 len width.bits

def cInsertMask (fbits bottom : Nat) (width : RegWidth) : Option W64 :=
  if fbits = width.bits then some (widthMask width)
  else do
    let ones ← cShl 1 fbits width.bits
    cShl (ones - 1) bottom width.bits

def cDoBitfield (r : Regs) (insn : Insn) : Option (Status × Regs) :=
  let bits := insn.width.bits
  let lsb := insn.shiftAmount
  let msb := insn.bitPos
  if lsb ≥ bits ∨ msb ≥ bits then some (.decode, r)
  else do
    let src := readG r insn.rn false insn.width
    let len := if msb < lsb then bits - lsb + msb + 1 else msb - lsb + 1
    let rot ← cBitfieldExtract src lsb msb insn.width
    let mask ← cOnes len insn.width
    let fld := rot &&& mask
    let fld ←
      if insn.op = .bfm then do
        let bottom := if msb < lsb then bits - lsb else 0
        let fbits := len - bottom
        let dm ← cInsertMask fbits bottom insn.width
        let old := readG r insn.rd false insn.width
        pure ((old &&& ~~~dm) ||| (fld &&& dm))
      else if insn.op = .sbfm then do
        let top ← cShr fld (len - 1) bits
        pure (if top &&& 1 ≠ 0 then fld ||| (widthMask insn.width &&& ~~~mask) else fld)
      else pure fld
    pure (.ok, writeG r insn.rd false insn.width fld)

def cDoExtr (r : Regs) (insn : Insn) : Option Regs := do
  let lo := readG r insn.rm false insn.width
  let hi := readG r insn.rn false insn.width
  let bits := insn.width.bits
  let result ←
    if insn.shiftAmount = 0 then some lo
    else do
      let concatLo ← cShr lo insn.shiftAmount bits
      let concatHi ←
        if insn.shiftAmount = bits then some hi else cShl hi (bits - insn.shiftAmount) bits
      pure (concatLo ||| concatHi)
  pure (writeG r insn.rd false insn.width result)

def cDoShiftVariable (r : Regs) (insn : Insn) : Option Regs := do
  let src := readG r insn.rn false insn.width
  let amt := (readG r insn.rm false insn.width).toNat % insn.width.bits
  let value ←
    if amt = 0 then some (src &&& widthMask insn.width)
    else do
      let type : ShiftType :=
        if insn.op = .lslv then .lsl
        else if insn.op = .lsrv then .lsr
        else if insn.op = .asrv then .asr
        else .ror
      let s ← cShiftOperand src type amt insn.width
      pure s.value
  pure (writeG r insn.rd false insn.width value)

def cDoCrc32 (r : Regs) (insn : Insn) : Option Regs := do
  let seed := (readG r insn.rn false .w32).setWidth 32
  let data := readG r insn.rm false .w64
  let crc ← cCrc32 seed data (insn.uimm.toNat % 2 ^ 32) (decide (insn.op = .crc32c))
  pure (writeG r insn.rd false .w32 (crc.setWidth 64))

/-- the arms that touch registers only.  Additions and logic shift in their operand alone, and the
arms not listed shift by constants. -/
def cDataProcessing (r : Regs) (insn : Insn) : Option (Option (Status × Regs)) :=
  match insn.op with
  | .add | .sub | .adds | .subs | .and | .ands | .orr | .eor | .bic | .bics | .orn | .eon =>
    (cOperand2 r insn).map fun _ => dataProcessing r insn
  | .movk => (cDoMovk r insn).map fun r' => some (.ok, r')
  | .sbfm | .bfm | .ubfm => (cDoBitfield r insn).map some
  | .extr => (cDoExtr r insn).map fun r' => some (.ok, r')
  | .lslv | .lsrv | .asrv | .rorv => (cDoShiftVariable r insn).map fun r' => some (.ok, r')
  | .crc32 | .crc32c => (cDoCrc32 r insn).map fun r' => some (.ok, r')
  | _ => some (dataProcessing r insn)

/-- the arms that leave the bus alone; a test branch shifts the tested bit down -/
def cDispatchPure (cpu : Cpu) (insn : Insn) : Option (Status × Cpu) := do
  match ← cDataProcessing cpu.regs insn with
  | some res => pure (fallThrough (res.1, { cpu with regs := res.2 }))
  | none =>
    match insn.op with
    | .tbz | .tbnz => do
      let v ← cShr (readG cpu.regs insn.rd false insn.width) insn.bitPos insn.width.bits
      pure (branchTo cpu (v.getLsbD 0 == decide (insn.op = .tbnz)) insn.imm false)
    | _ => pure (dispatchPure cpu insn)

/-- the address of a load or store; the immediate forms shift nothing -/
def cResolveMemAddr (r : Regs) (insn : Insn) : Option (W64 × W64) := do
  let base := readG r insn.rn true .w64
  let offset ←
    if insn.extendType ≠ .uxtb ∨ insn.extendIsLsl then
      cExtendOperand (readG r insn.rm false .w64) insn.extendType insn.shiftAmount
    else some insn.imm
  pure (if insn.indexMode = .post then base else base + offset, base + offset)

variable {σ ε τ : Type}

/-- the switch; a load or store resolves its address before it asks the bus -/
def cDispatchShared (mem : Memops σ) (cpu : Cpu) (insn : Insn) :
    Option (StateT σ Option (Status × Cpu)) :=
  match insn.op with
  | .ldr | .str | .ldrs | .ldar | .stlr | .ldp | .stp | .ldpsw =>
    (cResolveMemAddr cpu.regs insn).map fun _ => dispatchShared mem cpu insn
  | .ldxr | .stxr => some (dispatchShared mem cpu insn)
  | _ => (cDispatchPure cpu insn).map pure

def cDispatchBus (mem : Memops σ) (env : Option (EnvOps σ ε)) (cpu : Cpu) (insn : Insn) :
    Option (StateT (σ × ε) Option (Status × Cpu)) :=
  if insn.op = .svc then some (dispatchBus mem env cpu insn)
  else (cDispatchShared mem cpu insn).map onBus

/-- the system dispatch: its own arms shift by constants, the others are the switch -/
def cDispatchSystem (mem : Memops (MmuWorld σ)) (phys : Memops σ) (env : Option (EnvOps τ ε))
    (cpu : Cpu) (sr : Sysregs) (insn : Insn) (word : W32) :
    Option (StateT (MmuWorld σ × ε) Option (Status × Cpu × Sysregs)) :=
  match insn.op with
  | .unknown | .svc | .brk | .hlt | .hvc | .smc | .eret | .mrs | .msr | .msrImm | .sys =>
    some (dispatchSystem mem phys env cpu sr insn word)
  | _ => (cDispatchShared mem cpu insn).map fun _ => dispatchSystem mem phys env cpu sr insn word

/-! ## in range, nothing is undefined -/

theorem cRotr_eq {value : W64} {amount : Nat} {width : RegWidth} (h0 : amount ≠ 0)
    (h : amount < width.bits) : cRotr value amount width = some (rotr value amount width) := by
  unfold cRotr
  rw [cShr_eq h, cShl_eq (show width.bits - amount < width.bits by omega)]
  rfl

theorem cShiftOperand_eq (value : W64) (type : ShiftType) {amount : Nat} {width : RegWidth}
    (h : amount < width.bits) :
    cShiftOperand value type amount width = some (shiftOperand value type amount width) := by
  unfold cShiftOperand
  dsimp only
  by_cases h0 : amount = 0
  · rw [if_pos h0]
  · rw [if_neg h0]
    unfold shiftOperand
    dsimp only
    rw [if_neg h0]
    have hl : width.bits - amount < width.bits := by omega
    have hr : amount - 1 < width.bits := by omega
    cases type with
    | lsl =>
      rw [if_pos rfl, cShl_eq h, cShr_eq hl]
      rfl
    | lsr =>
      rw [if_neg (by decide), cShr_eq h, cShr_eq hr]
      rfl
    | asr =>
      simp only [if_neg (show ¬ ShiftType.asr = .lsl by decide), cShr_eq h, cShl_eq hl, cShr_eq hr]
      split <;> rfl
    | ror =>
      rw [if_neg (by decide), cRotr_eq h0 h, cShr_eq hr]
      rfl

theorem extendOperand_shift (value : W64) (type : ExtendType) (shift : Nat) :
    extendOperand value type 0 <<< shift = extendOperand value type shift := by
  unfold extendOperand
  rw [BitVec.shiftLeft_zero]

theorem cExtendOperand_eq (value : W64) (type : ExtendType) {shift : Nat} (h : shift < 64) :
    cExtendOperand value type shift = some (extendOperand value type shift) := by
  unfold cExtendOperand
  rw [cShl_eq h, extendOperand_shift]

theorem foldlM_some {α β : Type} {f : α → β → Option α} {g : α → β → α} (l : List β) (a : α)
    (h : ∀ a, ∀ b ∈ l, f a b = some (g a b)) : l.foldlM f a = some (l.foldl g a) := by
  induction l generalizing a with
  | nil => rfl
  | cons b l ih =>
    rw [List.foldlM_cons, h a b List.mem_cons_self, List.foldl_cons]
    exact ih (g a b) fun a c hc => h a c (List.mem_cons_of_mem _ hc)

theorem cCrc32_eq (crcIn : W32) (data : W64) {bytes : Nat} (h : bytes ≤ 8) (castagnoli : Bool) :
    cCrc32 crcIn data bytes castagnoli = some (crc32 crcIn data bytes castagnoli) := by
  unfold cCrc32 crc32
  refine foldlM_some _ _ ?_
  intro crc i hi
  rw [cShr_eq (show 8 * i < 64 by have := List.mem_range.mp hi; omega)]
  rfl

section

variable {insn : Insn} (hwf : insn.WellFormed)
include hwf

theorem Insn.WellFormed.amount_lt_64 : insn.shiftAmount < 64 :=
  lt_of_lt_of_le hwf.amount (by cases insn.width <;> decide)

theorem cOperand2_eq (r : Regs) : cOperand2 r insn = some (operand2 r insn) := by
  unfold cOperand2 operand2
  cases insn.operandKind with
  | regShifted =>
    dsimp only
    rw [cShiftOperand_eq _ _ hwf.amount]
    rfl
  | regExtended =>
    dsimp only
    rw [cExtendOperand_eq _ _ hwf.amount_lt_64]
    rfl
  | _ => rfl

theorem cDoMovk_eq (r : Regs) : cDoMovk r insn = some (doMovk r insn) := by
  unfold cDoMovk doMovk
  dsimp only
  rw [cShl_eq hwf.amount]
  rfl

theorem cDoExtr_eq (r : Regs) : cDoExtr r insn = some (doExtr r insn) := by
  unfold cDoExtr doExtr
  dsimp only
  have hne : insn.shiftAmount ≠ insn.width.bits := ne_of_lt hwf.amount
  by_cases h0 : insn.shiftAmount = 0
  · rw [if_pos h0, if_pos h0]
    rfl
  · have hlt := hwf.amount
    have hle : insn.width.bits - insn.shiftAmount < insn.width.bits := by omega
    simp only [if_neg h0, if_neg hne, cShr_eq hlt, cShl_eq hle]
    rfl

omit hwf in
theorem cDoShiftVariable_eq (r : Regs) :
    cDoShiftVariable r insn = some (doShiftVariable r insn) := by
  unfold cDoShiftVariable doShiftVariable
  dsimp only
  have hlt : (readG r insn.rm false insn.width).toNat % insn.width.bits < insn.width.bits :=
    Nat.mod_lt _ insn.width.bits_pos
  generalize (readG r insn.rm false insn.width).toNat % insn.width.bits = amt at hlt
  by_cases h0 : amt = 0
  · rw [if_pos h0, if_pos h0]
    rfl
  · rw [if_neg h0, if_neg h0, cShiftOperand_eq _ _ hlt]
    rfl

theorem cDoCrc32_eq (r : Regs) (hop : insn.op = .crc32 ∨ insn.op = .crc32c) :
    cDoCrc32 r insn = some (doCrc32 r insn) := by
  unfold cDoCrc32 doCrc32
  dsimp only
  have hle : insn.uimm.toNat % 2 ^ 32 ≤ 8 := (Nat.mod_le _ _).trans (hwf.bytes hop)
  rw [cCrc32_eq _ _ hle]
  rfl

end

/-! ### bit fields -/

section

variable {lsb msb : Nat} {width : RegWidth}

theorem cBitfieldExtract_eq (src : W64) (hl : lsb < width.bits) :
    cBitfieldExtract src lsb msb width = some (bitfieldExtract src lsb msb width) := by
  unfold cBitfieldExtract bitfieldExtract
  by_cases hlt : msb < lsb
  · rw [if_pos hlt, if_pos hlt, cShl_eq (show width.bits - lsb < width.bits by omega)]
    rfl
  · rw [if_neg hlt, if_neg hlt]
    by_cases h0 : lsb = 0
    · rw [if_pos h0, if_pos h0]
    · rw [if_neg h0, if_neg h0, cShr_eq hl, cShl_eq (show width.bits - lsb < width.bits by omega)]
      rfl

theorem cOnes_eq {len : Nat} (h : len ≤ width.bits) :
    cOnes len width = some (if len = width.bits then widthMask width else ((1 : W64) <<< len) - 1) := by
  unfold cOnes
  by_cases he : len = width.bits
  · rw [if_pos he, if_pos he]
  · rw [if_neg he, if_neg he, cShl_eq (lt_of_le_of_ne h he)]
    rfl

theorem cInsertMask_eq {fbits bottom : Nat} (hf : fbits ≤ width.bits) (hb : bottom < width.bits) :
    cInsertMask fbits bottom width = some (if fbits = width.bits then widthMask width
      else (((1 : W64) <<< fbits) - 1) <<< bottom) := by
  unfold cInsertMask
  by_cases he : fbits = width.bits
  · rw [if_pos he, if_pos he]
  · rw [if_neg he, if_neg he, cShl_eq (lt_of_le_of_ne hf he)]
    exact cShl_eq hb

end

theorem cDoBitfield_eq (r : Regs) (insn : Insn) : cDoBitfield r insn = some (doBitfield r insn) := by
  unfold cDoBitfield doBitfield
  dsimp only
  by_cases hc : insn.shiftAmount ≥ insn.width.bits ∨ insn.bitPos ≥ insn.width.bits
  · rw [if_pos hc, if_pos hc]
  · rw [if_neg hc, if_neg hc]
    rw [not_or, not_le, not_le] at hc
    obtain ⟨hl, hm⟩ := hc
    have hlen : (if insn.bitPos < insn.shiftAmount then
        insn.width.bits - insn.shiftAmount + insn.bitPos + 1
        else insn.bitPos - insn.shiftAmount + 1) ≤ insn.width.bits := by
      split <;> omega
    have hpos : 0 < (if insn.bitPos < insn.shiftAmount then
        insn.width.bits - insn.shiftAmount + insn.bitPos + 1
        else insn.bitPos - insn.shiftAmount + 1) := by
      split <;> omega
    have hbot : (if insn.bitPos < insn.shiftAmount then insn.width.bits - insn.shiftAmount
        else 0) < insn.width.bits := by
      split <;> omega
    generalize (if insn.bitPos < insn.shiftAmount then
        insn.width.bits - insn.shiftAmount + insn.bitPos + 1
        else insn.bitPos - insn.shiftAmount + 1) = len at hlen hpos
    generalize (if insn.bitPos < insn.shiftAmount then insn.width.bits - insn.shiftAmount
        else 0) = bottom at hbot
    have htop : len - 1 < insn.width.bits := by omega
    have hfld : len - bottom ≤ insn.width.bits := by omega
    simp only [cBitfieldExtract_eq _ hl, cOnes_eq hlen, cInsertMask_eq hfld hbot, cShr_eq htop]
    by_cases hb : insn.op = .bfm
    · simp only [if_pos hb]
      rfl
    · simp only [if_neg hb]
      by_cases hs : insn.op = .sbfm
      · simp only [hs, true_and]
        rfl
      · simp only [hs, false_and]
        rfl

/-! ### the switch -/

section

variable {insn : Insn} (hwf : insn.WellFormed)
include hwf

theorem cDataProcessing_eq (r : Regs) :
    cDataProcessing r insn = some (dataProcessing r insn) := by
  unfold cDataProcessing
  cases hop : insn.op <;> dsimp only
  all_goals try rw [cOperand2_eq hwf]
  all_goals try rfl
  all_goals unfold dataProcessing
  all_goals rw [hop]
  case movk =>
    rw [cDoMovk_eq hwf]
    rfl
  case extr =>
    rw [cDoExtr_eq hwf]
    rfl
  case sbfm | bfm | ubfm =>
    rw [cDoBitfield_eq]
    rfl
  case lslv | lsrv | asrv | rorv =>
    rw [cDoShiftVariable_eq]
    rfl
  case crc32 =>
    rw [cDoCrc32_eq hwf _ (.inl hop)]
    rfl
  case crc32c =>
    rw [cDoCrc32_eq hwf _ (.inr hop)]
    rfl

theorem cDispatchPure_eq (cpu : Cpu) : cDispatchPure cpu insn = some (dispatchPure cpu insn) := by
  unfold cDispatchPure
  rw [cDataProcessing_eq hwf]
  dsimp only [Option.bind_eq_bind, Option.bind_some]
  unfold dispatchPure
  cases hd : dataProcessing cpu.regs insn with
  | some res => rfl
  | none =>
    dsimp only
    cases hop : insn.op <;> dsimp only
    all_goals try rfl
    all_goals
      rw [cShr_eq hwf.position]
      dsimp only [Option.bind_eq_bind, Option.bind_some]
      rw [BitVec.getLsbD_ushiftRight, Nat.add_zero]
      rfl

theorem cResolveMemAddr_eq (r : Regs) :
    cResolveMemAddr r insn = some (resolveMemAddr r insn) := by
  unfold cResolveMemAddr resolveMemAddr
  dsimp only
  rw [cExtendOperand_eq _ _ hwf.amount_lt_64]
  split <;> rfl

variable {σ ε τ : Type}

theorem cDispatchShared_eq (mem : Memops σ) (cpu : Cpu) :
    cDispatchShared mem cpu insn = some (dispatchShared mem cpu insn) := by
  unfold cDispatchShared
  rw [cResolveMemAddr_eq hwf, cDispatchPure_eq hwf]
  cases hop : insn.op <;> dsimp only [Option.map_some]
  all_goals
    unfold dispatchShared
    rw [hop]

theorem cDispatchBus_eq (mem : Memops σ) (env : Option (EnvOps σ ε)) (cpu : Cpu) :
    cDispatchBus mem env cpu insn = some (dispatchBus mem env cpu insn) := by
  unfold cDispatchBus
  rw [cDispatchShared_eq hwf]
  by_cases hop : insn.op = .svc
  · rw [if_pos hop]
  · rw [if_neg hop]
    unfold dispatchBus
    rw [if_neg hop]
    rfl

theorem cDispatchSystem_eq (mem : Memops (MmuWorld σ)) (phys : Memops σ)
    (env : Option (EnvOps τ ε)) (cpu : Cpu) (sr : Sysregs) (word : W32) :
    cDispatchSystem mem phys env cpu sr insn word =
      some (dispatchSystem mem phys env cpu sr insn word) := by
  unfold cDispatchSystem
  rw [cDispatchShared_eq hwf]
  cases insn.op <;> rfl

end

end Oemu
