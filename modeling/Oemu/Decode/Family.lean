import Oemu.Decode

/-!
# Which part of the decode tree an opcode comes from

The opcodes of data processing come from the two data-processing groups only, and the two register
moves from the system group only, so what is true of an instruction with such an opcode can be read
off one function of the tree.

* `decode_data`  an instruction of data processing;
* `decode_move`  a register move, with its selector.
-/

namespace Oemu

inductive Family where
  | data | move | other
deriving DecidableEq, Repr

def Opcode.family : Opcode → Family
  | .add | .adds | .sub | .subs | .adc | .adcs | .sbc | .sbcs
  | .and | .ands | .orr | .eor | .bic | .bics | .orn | .eon
  | .movz | .movn | .movk | .adr | .adrp | .sbfm | .bfm | .ubfm | .extr
  | .lslv | .lsrv | .asrv | .rorv | .crc32 | .crc32c
  | .rbit | .rev16 | .rev32 | .rev | .clz | .cls
  | .udiv | .sdiv | .madd | .msub | .smaddl | .smsubl | .umaddl | .umsubl | .smulh | .umulh
  | .csel | .csinc | .csinv | .csneg | .ccmp | .ccmn => .data
  | .mrs | .msr => .move
  | _ => .other

variable {word : W32} {pc : W64} {insn : Insn}

/-! ## branches and system -/

theorem decodeException_family (h : decodeException word = .ok insn) :
    insn.op.family = .other := by
  unfold decodeException at h
  dsimp only at h
  repeat' split at h
  all_goals cases h
  all_goals rfl

theorem decodeHintsAndBarriers_family (h : decodeHintsAndBarriers word = .ok insn) :
    insn.op.family = .other := by
  unfold decodeHintsAndBarriers at h
  dsimp only at h
  repeat' split at h
  all_goals cases h
  all_goals rfl

theorem decodeUncondBranchReg_family (h : decodeUncondBranchReg word = .ok insn) :
    insn.op.family = .other := by
  unfold decodeUncondBranchReg at h
  dsimp only at h
  repeat' split at h
  all_goals cases h
  all_goals rfl

theorem decodeSystem_family (h : decodeSystem word = .ok insn) :
    insn.op.family = .other ∨ insn.op = (if bit word 21 ≠ 0 then .mrs else .msr) ∧
      insn.sysreg = BitVec.ofNat 32 (bits word 5 15) ∧ insn.rd = fieldRd word ∧
      2 ≤ bits word 19 2 := by
  unfold decodeSystem at h
  dsimp only at h
  split at h
  · split at h
    · cases h
    · split at h
      · cases h
      · exact .inl (decodeHintsAndBarriers_family h)
  · split at h
    · cases h
      exact .inl rfl
    · case _ h0 h1 =>
      cases h
      exact .inr ⟨rfl, rfl, rfl, by omega⟩

theorem decodeBranchSystem_family (h : decodeBranchSystem word pc = .ok insn) :
    insn.op.family = .other ∨ decodeSystem word = .ok insn := by
  unfold decodeBranchSystem at h
  have himm : decodeUncondBranchImm word pc = .ok insn → insn.op.family = .other := by
    intro h
    cases h
    dsimp only
    split <;> rfl
  have hcompare : decodeCompareBranch word pc = .ok insn → insn.op.family = .other := by
    intro h
    cases h
    dsimp only
    split <;> rfl
  have htest : decodeTestBranch word pc = .ok insn → insn.op.family = .other := by
    intro h
    cases h
    dsimp only
    split <;> rfl
  split at h
  · exact .inl (himm h)
  · exact .inl (himm h)
  · split at h
    · cases h
    · unfold decodeCondBranchImm at h
      split at h <;> cases h
      exact .inl rfl
  · split at h
    · exact .inl (hcompare h)
    · exact .inl (htest h)
  · split at h
    · exact .inl (hcompare h)
    · exact .inl (htest h)
  · split at h
    · exact .inl (decodeUncondBranchReg_family h)
    · split at h
      · exact .inl (decodeException_family h)
      · exact .inr h
  · cases h

/-! ## loads and stores -/

theorem ldstSingle_family (h : ldstSingle word = .ok insn) : insn.op.family = .other := by
  unfold ldstSingle classifyLoadStore at h
  dsimp only at h
  repeat' split at h
  all_goals cases h
  all_goals rfl

theorem decodeLdstUnsignedImm_family (h : decodeLdstUnsignedImm word = .ok insn) :
    insn.op.family = .other := by
  unfold decodeLdstUnsignedImm at h
  split at h
  · cases h
  · case _ hs =>
    have hf := ldstSingle_family hs
    cases h
    exact hf

theorem decodeLdstImmUnscaled_family (h : decodeLdstImmUnscaled word = .ok insn) :
    insn.op.family = .other := by
  unfold decodeLdstImmUnscaled at h
  split at h
  · cases h
  · case _ hs =>
    have hf := ldstSingle_family hs
    cases h
    exact hf

theorem decodeLdstRegOffset_family (h : decodeLdstRegOffset word = .ok insn) :
    insn.op.family = .other := by
  unfold decodeLdstRegOffset at h
  dsimp only at h
  split at h
  · cases h
  · split at h
    · cases h
    · case _ hs =>
      have hf := ldstSingle_family hs
      cases h
      exact hf

theorem decodeLdstVector_family (h : decodeLdstVector word = .ok insn) :
    insn.op.family = .other := by
  unfold decodeLdstVector at h
  dsimp only at h
  repeat' split at h
  all_goals cases h
  all_goals rfl

theorem decodeLdstPairVector_family (h : decodeLdstPairVector word = .ok insn) :
    insn.op.family = .other := by
  unfold decodeLdstPairVector at h
  dsimp only at h
  split at h <;> cases h
  dsimp only
  split <;> rfl

theorem decodeLdstPair_family (h : decodeLdstPair word = .ok insn) : insn.op.family = .other := by
  unfold decodeLdstPair at h
  dsimp only at h
  split at h
  · cases h
  · split at h
    · split at h <;> cases h
      rfl
    · cases h
      dsimp only
      split <;> rfl

theorem decodeLdstLiteral_family (h : decodeLdstLiteral word pc = .ok insn) :
    insn.op.family = .other := by
  unfold decodeLdstLiteral at h
  dsimp only at h
  split at h
  · cases h
    rfl
  · cases h
    dsimp only
    split <;> rfl

theorem decodeLdstExclusive_family (h : decodeLdstExclusive word = .ok insn) :
    insn.op.family = .other := by
  unfold decodeLdstExclusive at h
  dsimp only at h
  split at h
  · cases h
  · split at h
    · cases h
      dsimp only
      split <;> rfl
    · split at h <;> cases h
      dsimp only
      split <;> rfl

theorem decodeLoadStore_family (h : decodeLoadStore word pc = .ok insn) :
    insn.op.family = .other := by
  unfold decodeLoadStore at h
  dsimp only at h
  split at h
  · split at h
    · exact decodeLdstVector_family h
    · split at h
      · exact decodeLdstPairVector_family h
      · cases h
  · split at h
    · split at h
      · cases h
      · exact decodeLdstExclusive_family h
    · split at h
      · split at h
        · cases h
        · exact decodeLdstLiteral_family h
      · split at h
        · exact decodeLdstPair_family h
        · split at h
          · exact decodeLdstUnsignedImm_family h
          · split at h
            · exact decodeLdstRegOffset_family h
            · exact decodeLdstImmUnscaled_family h

/-! ## data processing -/

theorem addsub_family (isSub setsFlags : Bool) :
    (addsubOpcode isSub setsFlags).family = .data ∧
      (addsubCarryOpcode isSub setsFlags).family = .data := by
  cases isSub <;> cases setsFlags <;> exact ⟨rfl, rfl⟩

theorem decodeDpImmediate_family (h : decodeDpImmediate word pc = .ok insn) :
    insn.op.family = .data := by
  have hwide : ∀ n, (moveWideOpcode n).family = .data := by
    intro n
    unfold moveWideOpcode
    split <;> rfl
  have hbitfield : ∀ n, (bitfieldOpcode n).family = .data := by
    intro n
    unfold bitfieldOpcode
    split <;> rfl
  unfold decodeDpImmediate decodePcRelAddr decodeAddsubImm decodeLogicalImm decodeMoveWide
    decodeBitfield decodeExtract at h
  dsimp only at h
  repeat' split at h
  all_goals cases h
  all_goals first
    | rfl
    | exact (addsub_family _ _).1
    | exact hwide _
    | exact hbitfield _

theorem decodeLogicalShifted_family (h : decodeLogicalShifted word = .ok insn) :
    insn.op.family = .data := by
  unfold decodeLogicalShifted at h
  dsimp only at h
  split at h <;> cases h
  dsimp only
  split <;> split <;> rfl

theorem decodeAddsubShifted_family (h : decodeAddsubShifted word = .ok insn) :
    insn.op.family = .data := by
  unfold decodeAddsubShifted at h
  dsimp only at h
  split at h
  · cases h
  · split at h <;> cases h
    exact (addsub_family _ _).1

theorem decodeAddsubExtended_family (h : decodeAddsubExtended word = .ok insn) :
    insn.op.family = .data := by
  unfold decodeAddsubExtended at h
  dsimp only at h
  split at h
  · cases h
  · split at h <;> cases h
    exact (addsub_family _ _).1

theorem decodeAddsubCarry_family (h : decodeAddsubCarry word = .ok insn) :
    insn.op.family = .data := by
  unfold decodeAddsubCarry at h
  dsimp only at h
  split at h <;> cases h
  exact (addsub_family _ _).2

theorem decodeCondCompare_family (h : decodeCondCompare word = .ok insn) :
    insn.op.family = .data := by
  unfold decodeCondCompare at h
  dsimp only at h
  split at h
  · cases h
  · split at h <;> cases h
    all_goals
      dsimp only
      split <;> rfl

theorem decodeCondSelect_family (h : decodeCondSelect word = .ok insn) :
    insn.op.family = .data := by
  unfold decodeCondSelect at h
  dsimp only at h
  split at h <;> cases h
  dsimp only
  split <;> split <;> rfl

theorem decodeDp1source_family (h : decodeDp1source word = .ok insn) : insn.op.family = .data := by
  unfold decodeDp1source at h
  dsimp only at h
  split at h
  · cases h
  · split at h
    · cases h
      rfl
    · cases h
      rfl
    · cases h
      dsimp only
      split <;> rfl
    · split at h <;> cases h
      rfl
    · cases h
      rfl
    · cases h
      rfl
    · cases h

theorem decodeDp2source_family (h : decodeDp2source word = .ok insn) : insn.op.family = .data := by
  unfold decodeDp2source at h
  dsimp only at h
  repeat' split at h
  all_goals cases h
  all_goals rfl

theorem decodeDp3source_family (h : decodeDp3source word = .ok insn) : insn.op.family = .data := by
  unfold decodeDp3source at h
  dsimp only at h
  repeat' split at h
  all_goals cases h
  all_goals rfl

theorem decodeDpRegister_family (h : decodeDpRegister word = .ok insn) :
    insn.op.family = .data := by
  unfold decodeDpRegister at h
  dsimp only at h
  split at h
  · split at h
    · exact decodeLogicalShifted_family h
    · split at h
      · exact decodeAddsubExtended_family h
      · exact decodeAddsubShifted_family h
  · split at h
    · exact decodeAddsubCarry_family h
    · exact decodeCondCompare_family h
    · exact decodeCondSelect_family h
    · split at h
      · exact decodeDp1source_family h
      · exact decodeDp2source_family h
    · split at h
      · exact decodeDp3source_family h
      · cases h

/-! ## the tree -/

/-- **where an instruction of data processing comes from** -/
theorem decode_data (h : decode word pc = .ok insn) (hop : insn.op.family = .data) :
    (bits word 25 4 = 8 ∨ bits word 25 4 = 9) ∧ decodeDpImmediate word pc = .ok insn ∨
      (bits word 25 4 = 5 ∨ bits word 25 4 = 13) ∧ decodeDpRegister word = .ok insn := by
  have hbranch : decodeBranchSystem word pc ≠ .ok insn := by
    intro hb
    rcases decodeBranchSystem_family hb with hf | hs
    · rw [hop] at hf
      cases hf
    · rcases decodeSystem_family hs with hf | ⟨hf, -⟩
      · rw [hop] at hf
        cases hf
      · rw [hf] at hop
        split at hop <;> cases hop
  have hload : decodeLoadStore word pc ≠ .ok insn := by
    intro hl
    have hf := decodeLoadStore_family hl
    rw [hop] at hf
    cases hf
  have hdup : decodeVecDup word ≠ .ok insn := by
    intro hd
    cases hd
    cases hop
  unfold decode at h
  split at h
  · case _ hb => exact .inl ⟨.inl hb, h⟩
  · case _ hb => exact .inl ⟨.inr hb, h⟩
  · exact absurd h hbranch
  · exact absurd h hbranch
  · exact absurd h hload
  · exact absurd h hload
  · exact absurd h hload
  · exact absurd h hload
  · case _ hb => exact .inr ⟨.inl hb, h⟩
  · case _ hb => exact .inr ⟨.inr hb, h⟩
  · split at h
    · exact absurd h hdup
    · cases h
  · split at h
    · exact absurd h hdup
    · cases h
  · split at h <;> cases h

/-- **where a register move comes from**: its selector is the fifteen bits under the direction -/
theorem decode_move (h : decode word pc = .ok insn) (hop : insn.op.family = .move) :
    insn.op = (if bit word 21 ≠ 0 then .mrs else .msr) ∧
      insn.sysreg = BitVec.ofNat 32 (bits word 5 15) ∧ insn.rd = fieldRd word ∧
      2 ≤ bits word 19 2 := by
  have hbranch : decodeBranchSystem word pc = .ok insn →
      insn.op = (if bit word 21 ≠ 0 then .mrs else .msr) ∧
        insn.sysreg = BitVec.ofNat 32 (bits word 5 15) ∧ insn.rd = fieldRd word ∧
        2 ≤ bits word 19 2 := by
    intro hb
    rcases decodeBranchSystem_family hb with hf | hs
    · rw [hop] at hf
      cases hf
    · rcases decodeSystem_family hs with hf | hm
      · rw [hop] at hf
        cases hf
      · exact hm
  have hother : insn.op.family ≠ .data ∧ insn.op.family ≠ .other := by
    rw [hop]
    exact ⟨Family.noConfusion, Family.noConfusion⟩
  unfold decode at h
  split at h
  · exact absurd (decodeDpImmediate_family h) hother.1
  · exact absurd (decodeDpImmediate_family h) hother.1
  · exact hbranch h
  · exact hbranch h
  · exact absurd (decodeLoadStore_family h) hother.2
  · exact absurd (decodeLoadStore_family h) hother.2
  · exact absurd (decodeLoadStore_family h) hother.2
  · exact absurd (decodeLoadStore_family h) hother.2
  · exact absurd (decodeDpRegister_family h) hother.1
  · exact absurd (decodeDpRegister_family h) hother.1
  · split at h
    · cases h
      cases hop
    · cases h
  · split at h
    · cases h
      cases hop
    · cases h
  · split at h <;> cases h

end Oemu
