import Oemu.Decode.BranchRows

/-!
# The rows of data processing on registers

* `RegSlip`              the words of the class that are taken for another;
* `decodeDpRegister_row` any other accepted word is the row its bits select.
-/

namespace Oemu

variable {word : W32} {insn : Insn}

/-! ## data processing, register -/

/-- `CRC32` of a size that does not go with the width bit -/
structure RegSlip (word : W32) : Prop where
  fixed : bits word 21 10 = 0b0011010110
  opcode : bits word 13 3 = 0b010
  size : ¬ (bit word 31 = 1 ↔ bits word 10 2 = 3)

theorem crcOpcode_of (h : bits word 13 3 = 0b010) :
    (if bits word 10 6 ≥ 0x14 then Opcode.crc32c else .crc32) =
      if word.getLsbD 12 then .crc32c else .crc32 := by
  have h10 : bits word 10 6 = bits word 10 2 + 4 * bit word 12 + 8 * bits word 13 3 := by
    simp only [bits_div, bit_div]
    omega
  have hlt : bits word 10 2 < 4 := bits_lt word 10 2
  rw [← opIf_of]
  rcases bit_cases word 12 with h12 | h12
  · rw [if_neg (by omega), if_neg (by omega)]
  · rw [if_pos (by omega), if_pos (by omega)]

theorem crcBytes_of (word : W32) :
    (1 : W64) <<< (bits word 10 6 % 4) = BitVec.ofNat 64 (2 ^ bits word 10 2) := by
  have h : bits word 10 6 % 4 = bits word 10 2 := by
    simp only [bits_div]
    omega
  have hlt := bits_lt word 10 2
  rw [h]
  generalize bits word 10 2 = n at hlt
  interval_cases n <;> rfl

end Oemu
