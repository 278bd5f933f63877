import Oemu.Decode

/-!
# What the decoder promises the executor

The executor takes the fields of an instruction as they come: a shift amount, a bit position, a count
of bytes, an access size.  `Insn.WellFormed` is the ranges it relies on, and `decode_wellFormed` that
every accepted word keeps them, one lemma a function of the decode tree.
-/

namespace Oemu

/-- the ranges the executor relies on -/
structure Insn.WellFormed (insn : Insn) : Prop where
  known : insn.op ≠ .unknown
  amount : insn.shiftAmount < insn.width.bits
  position : insn.bitPos < insn.width.bits
  bytes : insn.op = .crc32 ∨ insn.op = .crc32c → insn.uimm.toNat ≤ 8
  wide : insn.memSize = .m128 → insn.op = .vecDup ∨ insn.isVector = true ∧
    (insn.op = .ldr ∨ insn.op = .str ∨ insn.op = .ldp ∨ insn.op = .stp)

/-- the opcodes that need no field of their own in range -/
def Opcode.simple : Opcode → Bool
  | .unknown | .crc32 | .crc32c => false
  | _ => true

/-- the sizes of one transfer -/
def MemSize.narrow : MemSize → Bool
  | .m128 => false
  | _ => true

theorem RegWidth.bits_pos (w : RegWidth) : 0 < w.bits := by
  cases w <;> decide

/-! ## fields -/

theorem bits_lt (word : W32) (lsb n : Nat) : bits word lsb n < 2 ^ n :=
  Nat.mod_lt _ (Nat.two_pow_pos n)

theorem bit_cases (word : W32) (pos : Nat) : bit word pos = 0 ∨ bit word pos = 1 := by
  have h : bit word pos < 2 := bits_lt word pos 1
  omega

theorem toMemSize_narrow (n : Nat) : (toMemSize n).narrow = true := by
  unfold toMemSize
  split <;> rfl

theorem addsubOpcode_simple (isSub setsFlags : Bool) :
    (addsubOpcode isSub setsFlags).simple = true := by
  cases isSub <;> cases setsFlags <;> rfl

theorem addsubCarryOpcode_simple (isSub setsFlags : Bool) :
    (addsubCarryOpcode isSub setsFlags).simple = true := by
  cases isSub <;> cases setsFlags <;> rfl

theorem moveWideOpcode_simple (opc : Nat) : (moveWideOpcode opc).simple = true := by
  unfold moveWideOpcode
  split <;> rfl

theorem bitfieldOpcode_simple (opc : Nat) : (bitfieldOpcode opc).simple = true := by
  unfold bitfieldOpcode
  split <;> rfl

theorem amount_lt {word : W32} {n lsb : Nat} (hn : n ≤ 6)
    (h : ¬ (widthFromSf word = .w32 ∧ bits word lsb n ≥ 32)) :
    bits word lsb n < (widthFromSf word).bits := by
  have hlt := bits_lt word lsb n
  have hpow : 2 ^ n ≤ 2 ^ 6 := Nat.pow_le_pow_right (by decide) hn
  cases hw : widthFromSf word with
  | w32 =>
    show _ < 32
    by_contra hge
    exact h ⟨hw, by omega⟩
  | w64 =>
    show _ < 64
    omega

section

variable {insn : Insn}

theorem Insn.WellFormed.of_amount (hop : insn.op.simple = true)
    (ha : insn.shiftAmount < insn.width.bits) (hp : insn.bitPos < insn.width.bits)
    (hm : insn.memSize.narrow = true) : insn.WellFormed where
  known h := by
    rw [h] at hop
    cases hop
  amount := ha
  position := hp
  bytes h := by
    rcases h with h | h <;> rw [h] at hop <;> cases hop
  wide h := by
    rw [h] at hm
    cases hm

theorem Insn.WellFormed.plain (hop : insn.op.simple = true) (ha : insn.shiftAmount = 0)
    (hp : insn.bitPos = 0) (hm : insn.memSize.narrow = true) : insn.WellFormed := by
  refine .of_amount hop ?_ ?_ hm
  · rw [ha]
    exact insn.width.bits_pos
  · rw [hp]
    exact insn.width.bits_pos

theorem Insn.WellFormed.vector (hv : insn.isVector = true)
    (hop : insn.op = .ldr ∨ insn.op = .str ∨ insn.op = .ldp ∨ insn.op = .stp)
    (ha : insn.shiftAmount = 0) (hp : insn.bitPos = 0) : insn.WellFormed where
  known h := by
    rw [h] at hop
    rcases hop with h | h | h | h <;> cases h
  amount := by
    rw [ha]
    exact insn.width.bits_pos
  position := by
    rw [hp]
    exact insn.width.bits_pos
  bytes h := by
    rcases h with h | h <;> rw [h] at hop <;> rcases hop with h | h | h | h <;> cases h
  wide _ := .inr ⟨hv, hop⟩

/-! ## data processing: immediate -/

variable {word : W32} {pc : W64}

theorem decodePcRelAddr_wellFormed (h : decodePcRelAddr word pc = .ok insn) :
    insn.WellFormed := by
  unfold decodePcRelAddr at h
  dsimp only at h
  split at h <;> cases h <;> exact .plain rfl rfl rfl rfl

theorem decodeAddsubImm_wellFormed (h : decodeAddsubImm word = .ok insn) : insn.WellFormed := by
  unfold decodeAddsubImm at h
  dsimp only at h
  split at h
  · cases h
  · cases h
    exact .plain (addsubOpcode_simple _ _) rfl rfl rfl

theorem decodeLogicalImm_wellFormed (h : decodeLogicalImm word = .ok insn) : insn.WellFormed := by
  unfold decodeLogicalImm at h
  dsimp only at h
  split at h
  · cases h
  · cases h
    refine .plain ?_ rfl rfl rfl
    dsimp only
    split <;> rfl

theorem decodeMoveWide_wellFormed (h : decodeMoveWide word = .ok insn) : insn.WellFormed := by
  unfold decodeMoveWide at h
  dsimp only at h
  split at h
  · cases h
  · rename_i hw
    split at h
    · cases h
    · cases h
      refine .of_amount (moveWideOpcode_simple _) ?_ (RegWidth.bits_pos _) rfl
      show bits word 21 2 * 16 < (widthFromSf word).bits
      have hlt : bits word 21 2 < 4 := bits_lt word 21 2
      cases hsf : widthFromSf word with
      | w32 =>
        show _ < 32
        by_contra hge
        exact hw ⟨hsf, by omega⟩
      | w64 =>
        show _ < 64
        omega

theorem decodeBitfield_wellFormed (h : decodeBitfield word = .ok insn) : insn.WellFormed := by
  unfold decodeBitfield at h
  dsimp only at h
  split at h
  · cases h
  · split at h
    · cases h
    · split at h
      · cases h
      · rename_i hlt
        cases h
        rw [not_or, not_le, not_le] at hlt
        exact .of_amount (bitfieldOpcode_simple _) hlt.1 hlt.2 rfl

theorem decodeExtract_wellFormed (h : decodeExtract word = .ok insn) : insn.WellFormed := by
  unfold decodeExtract at h
  dsimp only at h
  split at h
  · cases h
  · split at h
    · cases h
    · split at h
      · cases h
      · rename_i hlt
        cases h
        exact .of_amount rfl (Nat.not_le.mp hlt) (RegWidth.bits_pos _) rfl

theorem decodeDpImmediate_wellFormed (h : decodeDpImmediate word pc = .ok insn) :
    insn.WellFormed := by
  unfold decodeDpImmediate at h
  split at h
  · exact decodePcRelAddr_wellFormed h
  · exact decodePcRelAddr_wellFormed h
  · exact decodeAddsubImm_wellFormed h
  · exact decodeAddsubImm_wellFormed h
  · exact decodeLogicalImm_wellFormed h
  · exact decodeMoveWide_wellFormed h
  · exact decodeBitfield_wellFormed h
  · exact decodeExtract_wellFormed h

/-! ## branches, exceptions and system -/

theorem decodeUncondBranchImm_wellFormed (h : decodeUncondBranchImm word pc = .ok insn) :
    insn.WellFormed := by
  cases h
  refine .plain ?_ rfl rfl rfl
  dsimp only
  split <;> rfl

theorem decodeCondBranchImm_wellFormed (h : decodeCondBranchImm word pc = .ok insn) :
    insn.WellFormed := by
  unfold decodeCondBranchImm at h
  split at h
  · cases h
  · cases h
    exact .plain rfl rfl rfl rfl

theorem decodeCompareBranch_wellFormed (h : decodeCompareBranch word pc = .ok insn) :
    insn.WellFormed := by
  cases h
  refine .plain ?_ rfl rfl rfl
  dsimp only
  split <;> rfl

/-- the tested bit lies in the register: its top bit is the width -/
theorem testBit_lt (word : W32) :
    (bit word 31 <<< 5) ||| bits word 19 5 < (widthFromSf word).bits := by
  have h5 : bits word 19 5 < 2 ^ 5 := bits_lt word 19 5
  unfold widthFromSf
  rcases bit_cases word 31 with h | h
  · rw [h, if_neg (not_not_intro rfl)]
    show 0 <<< 5 ||| bits word 19 5 < 32
    rw [Nat.zero_shiftLeft, Nat.zero_or]
    exact h5
  · rw [h, if_pos Nat.one_ne_zero]
    exact Nat.or_lt_two_pow (n := 6) (by decide) (Nat.lt_trans h5 (by decide))

theorem decodeTestBranch_wellFormed (h : decodeTestBranch word pc = .ok insn) :
    insn.WellFormed := by
  cases h
  refine .of_amount ?_ (RegWidth.bits_pos _) (testBit_lt word) rfl
  dsimp only
  split <;> rfl

theorem decodeException_wellFormed (h : decodeException word = .ok insn) : insn.WellFormed := by
  unfold decodeException at h
  dsimp only at h
  repeat' split at h
  all_goals cases h
  all_goals exact .plain rfl rfl rfl rfl

theorem decodeHintsAndBarriers_wellFormed (h : decodeHintsAndBarriers word = .ok insn) :
    insn.WellFormed := by
  unfold decodeHintsAndBarriers at h
  dsimp only at h
  split at h
  · split at h
    · cases h
      exact .plain rfl rfl rfl rfl
    · split at h
      · cases h
        exact .plain rfl rfl rfl rfl
      · cases h
        refine .plain ?_ rfl rfl rfl
        dsimp only
        split <;> rfl
  · split at h
    · cases h
      exact .plain rfl rfl rfl rfl
    · split at h <;> cases h
      exact .plain rfl rfl rfl rfl

theorem decodeSystem_wellFormed (h : decodeSystem word = .ok insn) : insn.WellFormed := by
  unfold decodeSystem at h
  dsimp only at h
  split at h
  · split at h
    · cases h
    · split at h
      · cases h
      · exact decodeHintsAndBarriers_wellFormed h
  · split at h
    · cases h
      exact .plain rfl rfl rfl rfl
    · cases h
      refine .plain ?_ rfl rfl rfl
      dsimp only
      split <;> rfl

theorem decodeUncondBranchReg_wellFormed (h : decodeUncondBranchReg word = .ok insn) :
    insn.WellFormed := by
  unfold decodeUncondBranchReg at h
  dsimp only at h
  repeat' split at h
  all_goals cases h
  all_goals exact .plain rfl rfl rfl rfl

theorem decodeBranchSystem_wellFormed (h : decodeBranchSystem word pc = .ok insn) :
    insn.WellFormed := by
  unfold decodeBranchSystem at h
  split at h
  · exact decodeUncondBranchImm_wellFormed h
  · exact decodeUncondBranchImm_wellFormed h
  · split at h
    · cases h
    · exact decodeCondBranchImm_wellFormed h
  · split at h
    · exact decodeCompareBranch_wellFormed h
    · exact decodeTestBranch_wellFormed h
  · split at h
    · exact decodeCompareBranch_wellFormed h
    · exact decodeTestBranch_wellFormed h
  · split at h
    · exact decodeUncondBranchReg_wellFormed h
    · split at h
      · exact decodeException_wellFormed h
      · exact decodeSystem_wellFormed h
  · cases h

/-! ## data processing: register -/

theorem decodeLogicalShifted_wellFormed (h : decodeLogicalShifted word = .ok insn) :
    insn.WellFormed := by
  unfold decodeLogicalShifted at h
  dsimp only at h
  split at h
  · cases h
  · rename_i hw
    cases h
    refine .of_amount ?_ (amount_lt (by decide) hw) (RegWidth.bits_pos _) rfl
    dsimp only
    split <;> split <;> rfl

theorem decodeAddsubShifted_wellFormed (h : decodeAddsubShifted word = .ok insn) :
    insn.WellFormed := by
  unfold decodeAddsubShifted at h
  dsimp only at h
  split at h
  · cases h
  · split at h
    · cases h
    · rename_i hw
      cases h
      exact .of_amount (addsubOpcode_simple _ _) (amount_lt (by decide) hw) (RegWidth.bits_pos _) rfl

theorem decodeAddsubExtended_wellFormed (h : decodeAddsubExtended word = .ok insn) :
    insn.WellFormed := by
  unfold decodeAddsubExtended at h
  dsimp only at h
  split at h
  · cases h
  · split at h
    · cases h
    · cases h
      refine .of_amount (addsubOpcode_simple _ _) ?_ (RegWidth.bits_pos _) rfl
      refine amount_lt (by decide) ?_
      rintro ⟨-, hge⟩
      have hlt : bits word 10 3 < 8 := bits_lt word 10 3
      omega

theorem decodeAddsubCarry_wellFormed (h : decodeAddsubCarry word = .ok insn) :
    insn.WellFormed := by
  unfold decodeAddsubCarry at h
  dsimp only at h
  split at h
  · cases h
  · cases h
    exact .plain (addsubCarryOpcode_simple _ _) rfl rfl rfl

theorem decodeCondCompare_wellFormed (h : decodeCondCompare word = .ok insn) :
    insn.WellFormed := by
  unfold decodeCondCompare at h
  dsimp only at h
  split at h
  · cases h
  · split at h <;> cases h
    all_goals
      refine .plain ?_ rfl rfl rfl
      dsimp only
      split <;> rfl

theorem decodeCondSelect_wellFormed (h : decodeCondSelect word = .ok insn) : insn.WellFormed := by
  unfold decodeCondSelect at h
  dsimp only at h
  split at h
  · cases h
  · cases h
    refine .plain ?_ rfl rfl rfl
    dsimp only
    split <;> split <;> rfl

theorem decodeDp1source_wellFormed (h : decodeDp1source word = .ok insn) : insn.WellFormed := by
  unfold decodeDp1source at h
  dsimp only at h
  split at h
  · cases h
  · split at h
    · cases h
      exact .plain rfl rfl rfl rfl
    · cases h
      exact .plain rfl rfl rfl rfl
    · cases h
      refine .plain ?_ rfl rfl rfl
      dsimp only
      split <;> rfl
    · split at h <;> cases h
      exact .plain rfl rfl rfl rfl
    · cases h
      exact .plain rfl rfl rfl rfl
    · cases h
      exact .plain rfl rfl rfl rfl
    · cases h

theorem crcBytes_le (opcode : Nat) : ((1 : W64) <<< (opcode % 4)).toNat ≤ 8 := by
  have h : opcode % 4 < 4 := Nat.mod_lt _ (by decide)
  generalize opcode % 4 = k at h
  interval_cases k <;> decide

theorem decodeDp2source_wellFormed (h : decodeDp2source word = .ok insn) : insn.WellFormed := by
  unfold decodeDp2source at h
  dsimp only at h
  repeat' split at h
  all_goals cases h
  all_goals first
    | exact .plain rfl rfl rfl rfl
    | exact ⟨Opcode.noConfusion, RegWidth.bits_pos _, RegWidth.bits_pos _, fun _ => crcBytes_le _,
        MemSize.noConfusion⟩

theorem decodeDp3source_wellFormed (h : decodeDp3source word = .ok insn) : insn.WellFormed := by
  unfold decodeDp3source at h
  dsimp only at h
  repeat' split at h
  all_goals cases h
  all_goals exact .plain rfl rfl rfl rfl

theorem decodeDpRegister_wellFormed (h : decodeDpRegister word = .ok insn) : insn.WellFormed := by
  unfold decodeDpRegister at h
  dsimp only at h
  split at h
  · split at h
    · exact decodeLogicalShifted_wellFormed h
    · split at h
      · exact decodeAddsubExtended_wellFormed h
      · exact decodeAddsubShifted_wellFormed h
  · split at h
    · exact decodeAddsubCarry_wellFormed h
    · exact decodeCondCompare_wellFormed h
    · exact decodeCondSelect_wellFormed h
    · split at h
      · exact decodeDp1source_wellFormed h
      · exact decodeDp2source_wellFormed h
    · split at h
      · exact decodeDp3source_wellFormed h
      · cases h

/-! ## loads and stores -/

/-- what the single-register forms start from: a narrow size and nothing to shift -/
theorem ldstSingle_spec (h : ldstSingle word = .ok insn) :
    insn.op.simple = true ∧ insn.shiftAmount = 0 ∧ insn.bitPos = 0 ∧
      insn.memSize.narrow = true := by
  have hm := toMemSize_narrow (bits word 30 2)
  unfold ldstSingle classifyLoadStore at h
  dsimp only at h
  repeat' split at h
  all_goals cases h
  all_goals exact ⟨rfl, rfl, rfl, hm⟩

theorem decodeLdstUnsignedImm_wellFormed (h : decodeLdstUnsignedImm word = .ok insn) :
    insn.WellFormed := by
  unfold decodeLdstUnsignedImm at h
  split at h
  · cases h
  · rename_i hs
    obtain ⟨hop, ha, hp, hm⟩ := ldstSingle_spec hs
    cases h
    exact .plain hop ha hp hm

theorem decodeLdstImmUnscaled_wellFormed (h : decodeLdstImmUnscaled word = .ok insn) :
    insn.WellFormed := by
  unfold decodeLdstImmUnscaled at h
  split at h
  · cases h
  · rename_i hs
    obtain ⟨hop, ha, hp, hm⟩ := ldstSingle_spec hs
    cases h
    exact .plain hop ha hp hm

theorem MemSize.log2_lt (s : MemSize) (w : RegWidth) : s.log2 < w.bits := by
  cases s <;> cases w <;> decide

theorem decodeLdstRegOffset_wellFormed (h : decodeLdstRegOffset word = .ok insn) :
    insn.WellFormed := by
  unfold decodeLdstRegOffset at h
  dsimp only at h
  split at h
  · cases h
  · split at h
    · cases h
    · rename_i base hs
      obtain ⟨hop, -, hp, hm⟩ := ldstSingle_spec hs
      cases h
      refine .of_amount hop ?_ ?_ hm
      · dsimp only
        split
        · exact MemSize.log2_lt _ _
        · exact RegWidth.bits_pos _
      · show base.bitPos < base.width.bits
        rw [hp]
        exact RegWidth.bits_pos _

theorem decodeVecDup_wellFormed (h : decodeVecDup word = .ok insn) : insn.WellFormed := by
  cases h
  refine ⟨Opcode.noConfusion, RegWidth.bits_pos _, RegWidth.bits_pos _, ?_, fun _ => .inl rfl⟩
  rintro (h | h) <;> cases h

theorem decodeLdstVector_wellFormed (h : decodeLdstVector word = .ok insn) :
    insn.WellFormed := by
  unfold decodeLdstVector at h
  dsimp only at h
  repeat' split at h
  all_goals cases h
  all_goals first
    | exact .vector rfl (.inl rfl) rfl rfl
    | exact .vector rfl (.inr (.inl rfl)) rfl rfl

theorem decodeLdstPairVector_wellFormed (h : decodeLdstPairVector word = .ok insn) :
    insn.WellFormed := by
  have hop : (if bit word 22 ≠ 0 then Opcode.ldp else .stp) = .ldp ∨
      (if bit word 22 ≠ 0 then Opcode.ldp else .stp) = .stp := by
    split
    · exact .inl rfl
    · exact .inr rfl
  unfold decodeLdstPairVector at h
  dsimp only at h
  split at h
  · cases h
  · cases h
    exact .vector rfl (.inr (.inr hop)) rfl rfl

theorem decodeLdstPair_wellFormed (h : decodeLdstPair word = .ok insn) : insn.WellFormed := by
  unfold decodeLdstPair at h
  dsimp only at h
  split at h
  · cases h
  · split at h
    · split at h <;> cases h
      exact .plain rfl rfl rfl rfl
    · cases h
      refine .plain ?_ rfl rfl ?_
      · dsimp only
        split <;> rfl
      · dsimp only
        split <;> rfl

theorem decodeLdstLiteral_wellFormed (h : decodeLdstLiteral word pc = .ok insn) :
    insn.WellFormed := by
  unfold decodeLdstLiteral at h
  dsimp only at h
  split at h
  · cases h
    exact .plain rfl rfl rfl rfl
  · cases h
    refine .plain ?_ ?_ ?_ ?_ <;> dsimp only <;> split <;> first | rfl | (dsimp only; split <;> rfl)

theorem decodeLdstExclusive_wellFormed (h : decodeLdstExclusive word = .ok insn) :
    insn.WellFormed := by
  have hm := toMemSize_narrow (bits word 30 2)
  unfold decodeLdstExclusive at h
  dsimp only at h
  split at h
  · cases h
  · split at h
    · cases h
      refine .plain ?_ rfl rfl hm
      dsimp only
      split <;> rfl
    · split at h <;> cases h
      refine .plain ?_ rfl rfl hm
      dsimp only
      split <;> rfl

theorem decodeLoadStore_wellFormed (h : decodeLoadStore word pc = .ok insn) :
    insn.WellFormed := by
  unfold decodeLoadStore at h
  dsimp only at h
  split at h
  · split at h
    · exact decodeLdstVector_wellFormed h
    · split at h
      · exact decodeLdstPairVector_wellFormed h
      · cases h
  · split at h
    · split at h
      · cases h
      · exact decodeLdstExclusive_wellFormed h
    · split at h
      · split at h
        · cases h
        · exact decodeLdstLiteral_wellFormed h
      · split at h
        · exact decodeLdstPair_wellFormed h
        · split at h
          · exact decodeLdstUnsignedImm_wellFormed h
          · split at h
            · exact decodeLdstRegOffset_wellFormed h
            · exact decodeLdstImmUnscaled_wellFormed h

/-! ## every accepted word -/

/-- **what the decoder accepts is in range** -/
theorem decode_wellFormed (h : decode word pc = .ok insn) : insn.WellFormed := by
  unfold decode at h
  split at h
  · exact decodeDpImmediate_wellFormed h
  · exact decodeDpImmediate_wellFormed h
  · exact decodeBranchSystem_wellFormed h
  · exact decodeBranchSystem_wellFormed h
  · exact decodeLoadStore_wellFormed h
  · exact decodeLoadStore_wellFormed h
  · exact decodeLoadStore_wellFormed h
  · exact decodeLoadStore_wellFormed h
  · exact decodeDpRegister_wellFormed h
  · exact decodeDpRegister_wellFormed h
  · split at h
    · exact decodeVecDup_wellFormed h
    · cases h
  · split at h
    · exact decodeVecDup_wellFormed h
    · cases h
  · split at h <;> cases h

end

end Oemu
