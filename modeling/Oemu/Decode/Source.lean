import Oemu.Decode.Operand

/-!
# Which decode function an opcode comes from

Within data processing every opcode comes from one function of the decode tree, except that an
addition or subtraction comes from three and a logical operation from two.  So the fields of a
record with a given opcode are those of that function.

* `Opcode.group`, `Source`    the functions of the tree, and what each of them produces;
* `decode_source`             an accepted word of data processing comes from its opcode's group.
-/

namespace Oemu

inductive DataGroup where
  | pcRel | addsub | carry | logical | moveWide | bitfield | extract | condCompare | condSelect
  | oneSource | twoSource | threeSource | other
deriving DecidableEq, Repr

def Opcode.group : Opcode → DataGroup
  | .adr | .adrp => .pcRel
  | .add | .adds | .sub | .subs => .addsub
  | .adc | .adcs | .sbc | .sbcs => .carry
  | .and | .ands | .orr | .eor | .bic | .bics | .orn | .eon => .logical
  | .movz | .movn | .movk => .moveWide
  | .sbfm | .bfm | .ubfm => .bitfield
  | .extr => .extract
  | .ccmp | .ccmn => .condCompare
  | .csel | .csinc | .csinv | .csneg => .condSelect
  | .rbit | .rev16 | .rev32 | .rev | .clz | .cls => .oneSource
  | .lslv | .lsrv | .asrv | .rorv | .crc32 | .crc32c | .udiv | .sdiv => .twoSource
  | .madd | .msub | .smaddl | .smsubl | .umaddl | .umsubl | .smulh | .umulh => .threeSource
  | _ => .other

def AddSubShifted (word : W32) : Prop := bits word 24 5 = 0x0B ∧ bit word 21 = 0

def AddSubExtended (word : W32) : Prop := bits word 24 5 = 0x0B ∧ bit word 21 = 1

/-- the functions a record of a group comes from -/
inductive Source (word : W32) (pc : W64) (insn : Insn) : DataGroup → Prop where
  | pcRel (h : decodePcRelAddr word pc = .ok insn) : Source word pc insn .pcRel
  | addsubImm (hc : bits word 24 5 = 0x11) (h : decodeAddsubImm word = .ok insn) :
      Source word pc insn .addsub
  | addsubShifted (hc : AddSubShifted word) (h : decodeAddsubShifted word = .ok insn) :
      Source word pc insn .addsub
  | addsubExtended (hc : AddSubExtended word) (h : decodeAddsubExtended word = .ok insn) :
      Source word pc insn .addsub
  | carry (hc : bits word 24 5 = 0x1A) (h : decodeAddsubCarry word = .ok insn) :
      Source word pc insn .carry
  | logicalImm (hl : LogicalImm word) (h : decodeLogicalImm word = .ok insn) :
      Source word pc insn .logical
  | logicalShifted (hl : ¬ LogicalImm word) (h : decodeLogicalShifted word = .ok insn) :
      Source word pc insn .logical
  | moveWide (h : decodeMoveWide word = .ok insn) : Source word pc insn .moveWide
  | bitfield (h : decodeBitfield word = .ok insn) : Source word pc insn .bitfield
  | extract (h : decodeExtract word = .ok insn) : Source word pc insn .extract
  | condCompare (h : decodeCondCompare word = .ok insn) : Source word pc insn .condCompare
  | condSelect (h : decodeCondSelect word = .ok insn) : Source word pc insn .condSelect
  | oneSource (h : decodeDp1source word = .ok insn) : Source word pc insn .oneSource
  | twoSource (h : decodeDp2source word = .ok insn) : Source word pc insn .twoSource
  | threeSource (h : decodeDp3source word = .ok insn) : Source word pc insn .threeSource

variable {word : W32} {pc : W64} {insn : Insn}

/-! ## the opcodes of each function -/

theorem addsub_group (isSub setsFlags : Bool) :
    (addsubOpcode isSub setsFlags).group = .addsub ∧
      (addsubCarryOpcode isSub setsFlags).group = .carry := by
  cases isSub <;> cases setsFlags <;> exact ⟨rfl, rfl⟩

theorem moveWide_group (opc : Nat) : (moveWideOpcode opc).group = .moveWide := by
  unfold moveWideOpcode
  split <;> rfl

theorem bitfield_group (opc : Nat) : (bitfieldOpcode opc).group = .bitfield := by
  unfold bitfieldOpcode
  split <;> rfl

theorem decodePcRelAddr_group (h : decodePcRelAddr word pc = .ok insn) :
    insn.op.group = .pcRel := by
  unfold decodePcRelAddr at h
  dsimp only at h
  split at h <;> cases h <;> rfl

theorem decodeAddsubImm_group (h : decodeAddsubImm word = .ok insn) :
    insn.op.group = .addsub := by
  unfold decodeAddsubImm at h
  dsimp only at h
  split at h <;> cases h
  exact (addsub_group _ _).1

theorem decodeLogicalImm_group (h : decodeLogicalImm word = .ok insn) :
    insn.op.group = .logical := by
  unfold decodeLogicalImm at h
  dsimp only at h
  split at h <;> cases h
  dsimp only
  split <;> rfl

theorem decodeMoveWide_group (h : decodeMoveWide word = .ok insn) :
    insn.op.group = .moveWide := by
  unfold decodeMoveWide at h
  dsimp only at h
  split at h
  · cases h
  · split at h <;> cases h
    exact moveWide_group _

theorem decodeBitfield_group (h : decodeBitfield word = .ok insn) :
    insn.op.group = .bitfield := by
  unfold decodeBitfield at h
  dsimp only at h
  repeat' split at h
  all_goals cases h
  exact bitfield_group _

theorem decodeExtract_group (h : decodeExtract word = .ok insn) : insn.op.group = .extract := by
  unfold decodeExtract at h
  dsimp only at h
  repeat' split at h
  all_goals cases h
  rfl

theorem decodeLogicalShifted_group (h : decodeLogicalShifted word = .ok insn) :
    insn.op.group = .logical := by
  unfold decodeLogicalShifted at h
  dsimp only at h
  split at h <;> cases h
  dsimp only
  split <;> split <;> rfl

theorem decodeAddsubShifted_group (h : decodeAddsubShifted word = .ok insn) :
    insn.op.group = .addsub := by
  unfold decodeAddsubShifted at h
  dsimp only at h
  split at h
  · cases h
  · split at h <;> cases h
    exact (addsub_group _ _).1

theorem decodeAddsubExtended_group (h : decodeAddsubExtended word = .ok insn) :
    insn.op.group = .addsub := by
  unfold decodeAddsubExtended at h
  dsimp only at h
  repeat' split at h
  all_goals cases h
  exact (addsub_group _ _).1

theorem decodeAddsubCarry_group (h : decodeAddsubCarry word = .ok insn) :
    insn.op.group = .carry := by
  unfold decodeAddsubCarry at h
  dsimp only at h
  split at h <;> cases h
  exact (addsub_group _ _).2

theorem decodeCondCompare_group (h : decodeCondCompare word = .ok insn) :
    insn.op.group = .condCompare := by
  unfold decodeCondCompare at h
  dsimp only at h
  split at h
  · cases h
  · split at h <;> cases h <;> dsimp only <;> split <;> rfl

theorem decodeCondSelect_group (h : decodeCondSelect word = .ok insn) :
    insn.op.group = .condSelect := by
  unfold decodeCondSelect at h
  dsimp only at h
  split at h <;> cases h
  dsimp only
  split <;> split <;> rfl

theorem decodeDp1source_group (h : decodeDp1source word = .ok insn) :
    insn.op.group = .oneSource := by
  unfold decodeDp1source at h
  dsimp only at h
  split at h
  · cases h
  · split at h
    · cases h; rfl
    · cases h; rfl
    · cases h
      dsimp only
      split <;> rfl
    · split at h <;> cases h
      rfl
    · cases h; rfl
    · cases h; rfl
    · cases h

theorem decodeDp2source_group (h : decodeDp2source word = .ok insn) :
    insn.op.group = .twoSource := by
  unfold decodeDp2source at h
  dsimp only at h
  repeat' split at h
  all_goals cases h
  all_goals rfl

theorem decodeDp3source_group (h : decodeDp3source word = .ok insn) :
    insn.op.group = .threeSource := by
  unfold decodeDp3source at h
  dsimp only at h
  repeat' split at h
  all_goals cases h
  all_goals rfl

/-! ## the tree -/

theorem decodeDpImmediate_source (hg : bits word 25 4 = 8 ∨ bits word 25 4 = 9)
    (h : decodeDpImmediate word pc = .ok insn) : Source word pc insn insn.op.group := by
  obtain ⟨hclass, -⟩ := immClass hg
  have h5 : bits word 23 3 = 2 ∨ bits word 23 3 = 3 → bits word 24 5 = 0x11 := by
    intro h3
    have e : bits word 23 6 = bits word 23 1 + 2 * bits word 24 5 := bits_append word 23 1 5
    have hb := bits_lt word 23 1
    omega
  unfold decodeDpImmediate at h
  split at h
  · rw [decodePcRelAddr_group h]
    exact .pcRel h
  · rw [decodePcRelAddr_group h]
    exact .pcRel h
  · case _ hb =>
    rw [decodeAddsubImm_group h]
    exact .addsubImm (h5 (.inl hb)) h
  · case _ hb =>
    rw [decodeAddsubImm_group h]
    exact .addsubImm (h5 (.inr hb)) h
  · case _ hb =>
    rw [decodeLogicalImm_group h]
    exact .logicalImm (by unfold LogicalImm; omega) h
  · rw [decodeMoveWide_group h]
    exact .moveWide h
  · rw [decodeBitfield_group h]
    exact .bitfield h
  · rw [decodeExtract_group h]
    exact .extract h

theorem decodeDpRegister_source (hg : bits word 25 4 = 5 ∨ bits word 25 4 = 13)
    (h : decodeDpRegister word = .ok insn) : Source word pc insn insn.op.group := by
  have h8 : bits word 21 8 = bits word 21 3 + 8 * bits word 24 5 := bits_append word 21 3 5
  have h8' : bits word 21 8 = bits word 21 4 + 16 * bits word 25 4 := bits_append word 21 4 4
  have h4 : bits word 21 4 = bit word 21 + 2 * bits word 22 3 := bits_append word 21 1 3
  have h28 : bits word 25 4 = bits word 25 3 + 8 * bit word 28 := bits_append word 25 3 1
  have hl := bits_lt word 21 3
  have hl4 := bits_lt word 21 4
  have hl3 := bits_lt word 25 3
  unfold decodeDpRegister at h
  dsimp only at h
  split at h
  · case _ hb =>
    split at h
    · rw [decodeLogicalShifted_group h]
      exact .logicalShifted (regClass hg).2.1 h
    · split at h
      · rw [decodeAddsubExtended_group h]
        exact .addsubExtended ⟨by omega, (bit_cases word 21).resolve_left (by omega)⟩ h
      · rw [decodeAddsubShifted_group h]
        exact .addsubShifted ⟨by omega, (bit_cases word 21).resolve_right (by omega)⟩ h
  · split at h
    · rw [decodeAddsubCarry_group h]
      exact .carry (by omega) h
    · rw [decodeCondCompare_group h]
      exact .condCompare h
    · rw [decodeCondSelect_group h]
      exact .condSelect h
    · split at h
      · rw [decodeDp1source_group h]
        exact .oneSource h
      · rw [decodeDp2source_group h]
        exact .twoSource h
    · split at h
      · rw [decodeDp3source_group h]
        exact .threeSource h
      · cases h

/-- **an accepted word of data processing comes from its opcode's group** -/
theorem decode_source (h : decode word pc = .ok insn) (hop : insn.op.family = .data) :
    Source word pc insn insn.op.group := by
  rcases decode_data h hop with ⟨hg, hd⟩ | ⟨hg, hd⟩
  · exact decodeDpImmediate_source hg hd
  · exact decodeDpRegister_source hg hd

end Oemu
