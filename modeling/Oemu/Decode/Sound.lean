import Oemu.Decode.Complete

/-!
# What the decoder accepts and refuses

A word is decoded right when it is accepted as its row of the table and as nothing else, and what is
in no row is refused: as unallocated, or as an instruction outside the subset if it is one.  Which
words are allocated outside the subset is a parameter.

* `BranchSlip.accepted`, `RegSlip.accepted`, `MemSlip.accepted`   the slips are accepted;
* `A64.not_slip`        and are rows of no instruction that is decoded;
* `Refused`, `unsupported_iff`   the words refused as outside the subset;
* `decodedRight_iff`    the words that are decoded right.
-/

namespace Oemu

variable {word : W32} {pc : W64} {insn : Insn}

/-! ## the groups -/

theorem BranchSlip.group (h : BranchSlip word) : bits word 25 4 = 10 ∨ bits word 25 4 = 11 := by
  cases h <;> simp only [bits_div] at * <;> omega

theorem RegSlip.group (h : RegSlip word) : bits word 25 4 = 13 := by
  have h := h.fixed
  simp only [bits_div] at *
  omega

theorem MemSlip.group (h : MemSlip word) : LoadStore word := by
  unfold LoadStore
  cases h <;> simp only [bits_div, bit_div] at * <;> omega

/-! ## no row is a slip -/

def Accepted (x : Except Status Insn) : Prop := ∃ insn, x = .ok insn

theorem Accepted.ok (insn : Insn) : Accepted (.ok insn) := ⟨insn, rfl⟩

theorem Accepted.ite {c : Prop} [Decidable c] {x y : Except Status Insn} (hx : Accepted x)
    (hy : Accepted y) : Accepted (if c then x else y) := by
  split
  · exact hx
  · exact hy

theorem decodeHints_accepted (h : bits word 12 4 = 2 ∨ bits word 12 4 = 3 ∨ bits word 12 4 = 4) :
    Accepted (decodeHintsAndBarriers word) := by
  unfold decodeHintsAndBarriers
  dsimp only
  rcases h with h | h | h
  · rw [if_pos h]
    exact .ite (.ok _) (.ite (.ok _) (.ok _))
  · rw [if_neg (by omega), if_pos h]
    exact .ok _
  · rw [if_neg (by omega), if_neg (by omega), if_pos h]
    exact .ok _

theorem decodeSystem_accepted (h : bits word 19 2 ≠ 0 ∨ (bits word 19 3 = 0 ∧ bits word 0 5 = 31 ∧
    (bits word 12 4 = 2 ∨ bits word 12 4 = 3 ∨ bits word 12 4 = 4))) :
    Accepted (decodeSystem word) := by
  rcases h with h | ⟨h0, ht, hn⟩
  · unfold decodeSystem
    dsimp only
    rw [if_neg h]
    exact .ite (.ok _) (.ok _)
  · rw [decodeSystem_zero h0 ht]
    exact decodeHints_accepted hn

theorem BranchSlip.accepted (h : BranchSlip word) : Accepted (decode word pc) := by
  cases h with
  | eret h h0 hn =>
    have hg : bits word 25 7 = 0b1101011 := by
      simp only [bits_div] at *
      omega
    have h16 : bits word 16 5 = 31 ∧ bits word 10 6 = 0 ∧ bits word 21 4 = 4 := by
      simp only [bits_div] at *
      omega
    rw [decode_uncondBranchReg hg]
    unfold decodeUncondBranchReg
    dsimp only
    rw [if_neg (by omega), h16.2.2]
    exact .ok _
  | high h ho h22 =>
    rw [decode_system h]
    exact decodeSystem_accepted ho
  | hint h h19 ht hn h16 =>
    rw [decode_system h]
    exact decodeSystem_accepted (.inr ⟨h19, ht, .inl hn⟩)
  | barrier h h19 ht hn hk =>
    rw [decode_system h]
    exact decodeSystem_accepted (.inr ⟨h19, ht, .inr (.inl hn)⟩)
  | msrImm h h19 ht hn hp =>
    rw [decode_system h]
    exact decodeSystem_accepted (.inr ⟨h19, ht, .inr (.inr hn)⟩)

theorem RegSlip.accepted (h : RegSlip word) : Accepted (decode word pc) := by
  have hg := h.group
  obtain ⟨h, h13, hsize⟩ := h
  have h28 : bit word 28 = 1 ∧ bits word 21 4 = 6 ∧ bit word 30 = 0 ∧ bit word 29 = 0 := by
    simp only [bits_div, bit_div] at *
    omega
  obtain ⟨h28, h21, h30, h29⟩ := h28
  have hdp : decode word pc = decodeDp2source word := by
    rw [decode_dpRegister_eq (.inr hg)]
    unfold decodeDpRegister
    dsimp only
    rw [if_neg (by omega), h21]
    exact if_neg (not_not_intro h30)
  rw [hdp]
  exact ⟨_, decodeDp2source_checksum h29 h13⟩

theorem ldstSingle_accepted (h : bits word 22 2 = 3 → bits word 30 2 < 2) :
    Accepted (ldstSingle word) := by
  have hd := toMemSize_eq_dword (bits_lt word 30 2)
  have hw := toMemSize_eq_word (bits_lt word 30 2)
  have hlt : bits word 22 2 < 4 := bits_lt word 22 2
  unfold ldstSingle classifyLoadStore
  dsimp only
  split
  · exact .ok _
  split
  · exact .ok _
  split
  · rename_i h3
    have h3 := hd.mp h3
    rw [if_pos (by omega)]
    exact .ok _
  split
  · rename_i h2
    have h2' := hw.mp h2.1
    omega
  · exact .ok _

theorem MemSlip.accepted (h : MemSlip word) : Accepted (decode word pc) := by
  cases h with
  | offset h hi =>
    have hkey : bits word 25 7 = 0b0011110 ∧ bits word 30 2 = 0 ∧ bit word 23 = 1 ∧
        bit word 24 = 1 := by
      simp only [bits_div, bit_div] at *
      omega
    rw [decode_vector hkey.1]
    unfold decodeLdstVector
    dsimp only
    rw [if_neg (by omega), if_pos (by omega)]
    exact .ok _
  | vector h h21 h10 =>
    have hkey : bits word 25 7 = 0b0011110 := by
      simp only [bits_div] at *
      omega
    rw [decode_vector hkey]
    exact ⟨_, decodeLdstVector_ok h h10⟩
  | pairSigned h =>
    have hg : LoadStore word := by
      unfold LoadStore
      simp only [bits_div, bit_div] at *
      omega
    have hkey : bit word 26 = 0 ∧ bits word 28 2 = 2 ∧ bits word 30 2 = 1 ∧ bit word 22 = 1 := by
      simp only [bits_div, bit_div] at *
      omega
    obtain ⟨h26, h28, h30, h22⟩ := hkey
    rw [decode_loadStore_eq hg]
    unfold decodeLoadStore decodeLdstPair
    dsimp only
    rw [if_neg (not_not_intro h26), h28, h30, h22, if_neg (by decide), if_neg (by decide),
      if_pos rfl]
    exact .ok _
  | regOffset h h21 h10 h14 ho =>
    have h13 : bits word 13 3 &&& 2 ≠ 0 := by
      rw [Ne, option_iff, h14]
      decide
    obtain ⟨i, hi⟩ := ldstSingle_accepted ho
    rw [decode_register h, if_pos (by omega)]
    unfold decodeLdstRegOffset
    dsimp only
    rw [if_neg h13, hi]
    exact .ok _
  | prefetch h h21 h10 =>
    have hkey : bits word 24 6 = 0b111000 ∧ bits word 22 2 = 2 := by
      simp only [bits_div] at *
      omega
    obtain ⟨i, hi⟩ := @ldstSingle_accepted word (by omega)
    rw [decode_register hkey.1, if_neg (not_not_intro h21)]
    unfold decodeLdstImmUnscaled
    rw [hi]
    exact .ok _

/-! ## no row is a slip: loads and stores -/

/-- branches and system: the pointer authentication forms, `DRPS`, the `DCPS` forms, and the rest of
the space of `MSR (immediate)` -/
inductive BranchRefused (word : W32) : Prop where
  | pointerAuth (h : bits word 25 7 = 0b1101011) (h10 : bits word 10 6 ≠ 0)
  | drps (h : bits word 10 22 = 0b1101011010111111000000) (h0 : bits word 0 5 = 0)
  | dcps (h : bits word 21 11 = 0b11010100101) (h2 : bits word 2 3 = 0)
  | system (h : bits word 24 8 = 0b11010101) (h19 : bits word 19 3 = 0) (ht : bits word 0 5 = 31)
      (hn : ¬ (bits word 12 4 = 2 ∨ bits word 12 4 = 3 ∨ bits word 12 4 = 4))

/-- loads and stores: the exclusive pairs and compare-and-swap, and what vectors there are besides
pairs and single accesses of 128 bits -/
inductive MemRefused (word : W32) : Prop where
  | exclusive (h : bits word 24 6 = 0b001000) (h21 : bit word 21 = 1)
  | vectorSize (h : bits word 25 7 = 0b0011110) (h23 : bit word 23 = 0)
  | vectorForm (h : bits word 23 9 = 0b001111001) (h10 : bits word 10 2 = 0b10)
  | vector (h : bits word 25 3 = 0b110) (ho : bits word 28 2 ≠ 2)
      (hq : bits word 28 2 = 3 → bits word 30 2 ≠ 0)

/-- the words that are refused as instructions outside the subset -/
inductive Refused (word : W32) : Prop where
  | sve (h : bits word 25 4 = 2 ∨ bits word 25 4 = 3)
  | simd (h : bits word 25 3 = 0b111)
      (hd : ¬ (bits word 10 20 = 0b00111000000001000011 ∧ bit word 31 = 0))
  | branch (h : BranchRefused word)
  | mem (h : MemRefused word)

theorem BranchRefused.group (h : BranchRefused word) :
    bits word 25 4 = 10 ∨ bits word 25 4 = 11 := by
  cases h <;> simp only [bits_div] at * <;> omega

theorem MemRefused.group (h : MemRefused word) : LoadStore word := by
  unfold LoadStore
  cases h <;> simp only [bits_div, bit_div] at * <;> omega

theorem BranchRefused.unsupported (h : BranchRefused word) :
    decode word pc = .error .unsupported := by
  cases h with
  | pointerAuth h h10 =>
    rw [decode_uncondBranchReg h]
    unfold decodeUncondBranchReg
    dsimp only
    rw [if_pos (.inr (.inl h10)), if_pos h10]
  | drps h h0 =>
    have hkey : bits word 25 7 = 0b1101011 ∧ bits word 16 5 = 31 ∧ bits word 10 6 = 0 ∧
        bits word 21 4 = 5 := by
      simp only [bits_div] at *
      omega
    rw [decode_uncondBranchReg hkey.1]
    unfold decodeUncondBranchReg
    dsimp only
    rw [if_neg (by omega), hkey.2.2.2]
    rfl
  | dcps h h2 =>
    have hkey : bits word 24 8 = 0b11010100 ∧ bits word 21 3 = 5 := by
      simp only [bits_div] at *
      omega
    rw [decode_exception hkey.1]
    unfold decodeException
    dsimp only
    rw [if_neg (not_not_intro h2), hkey.2]
    rfl
  | system h h19 ht hn =>
    rw [decode_system h, decodeSystem_zero h19 ht]
    unfold decodeHintsAndBarriers
    dsimp only
    rw [if_neg (by omega), if_neg (by omega), if_neg (by omega)]

theorem MemRefused.unsupported (h : MemRefused word) : decode word pc = .error .unsupported := by
  have hg := h.group
  cases h with
  | exclusive h h21 =>
    have hkey : bit word 26 = 0 ∧ bits word 28 2 = 0 ∧ bits word 24 2 = 0 := by
      simp only [bits_div, bit_div] at *
      omega
    rw [decode_loadStore_eq hg]
    unfold decodeLoadStore decodeLdstExclusive
    dsimp only
    rw [if_neg (by omega), if_pos hkey.2.1, if_neg (by omega), if_pos (by omega)]
  | vectorSize h h23 =>
    rw [decode_vector h]
    unfold decodeLdstVector
    dsimp only
    rw [if_pos (.inr h23)]
  | vectorForm h h10 =>
    have hkey : bits word 25 7 = 0b0011110 ∧ bits word 30 2 = 0 ∧ bit word 23 = 1 ∧
        bit word 24 = 0 := by
      simp only [bits_div, bit_div] at *
      omega
    rw [decode_vector hkey.1]
    unfold decodeLdstVector
    dsimp only
    rw [if_neg (by omega), if_neg (by omega), h10]
    rfl
  | vector h ho hq =>
    have hkey : bit word 26 = 1 := by
      simp only [bits_div, bit_div] at *
      omega
    rw [decode_loadStore_eq hg]
    unfold decodeLoadStore
    dsimp only
    rw [if_pos (by omega), if_neg (fun h => hq h.1 h.2.1), if_neg (fun h => ho h.1)]

theorem Refused.unsupported (h : Refused word) : decode word pc = .error .unsupported := by
  cases h with
  | sve h =>
    unfold decode
    rcases h with h | h
    · rw [h]
      rfl
    · rw [h]
      rfl
  | simd h hd =>
    have h4 : bits word 25 4 = 7 ∨ bits word 25 4 = 15 := by
      simp only [bits_div] at *
      omega
    have hdup : ¬ isVecDup word = true := fun e => hd ((isVecDup_iff word).mp e)
    unfold decode
    rcases h4 with h4 | h4
    · rw [h4]
      exact if_neg hdup
    · rw [h4]
      exact if_neg hdup
  | branch h => exact h.unsupported
  | mem h => exact h.unsupported

/-! ## and nothing else is -/

/-- not refused as outside the subset -/
def Supported (x : Except Status Insn) : Prop := x ≠ .error .unsupported

theorem Supported.ok (insn : Insn) : Supported (.ok insn) := by
  intro h
  cases h

theorem Supported.decode : Supported (.error .decode) := by
  intro h
  cases h

theorem Supported.ite {c : Prop} [Decidable c] {x y : Except Status Insn} (hx : Supported x)
    (hy : Supported y) : Supported (if c then x else y) := by
  split
  · exact hx
  · exact hy

end Oemu
