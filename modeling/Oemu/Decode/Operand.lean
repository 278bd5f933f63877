import Oemu.Decode.Family
import Oemu.Decode.WellFormed

/-!
# The register fields of data processing

Which encodings give number 31 in `Rn` and in `Rd` the stack pointer is a matter of the word alone;
the decoder says it with one flag for each of the two fields.

* `SpSrc`, `SpDst`   number 31 is the stack pointer, from the word;
* `Routed`           the decoded record names the fields of the word, and its flags agree with them;
* `decode_routed`    every accepted word of data processing is routed.
-/

namespace Oemu

/-! ## the word -/

section Word

variable (word : W32)

def AddSubImm : Prop := bits word 23 6 = 0x22

def AddSubExt : Prop := bits word 21 8 = 0x59

def LogicalImm : Prop := bits word 23 6 = 0x24

/-- number 31 in `Rn` is the stack pointer -/
def SpSrc : Prop := AddSubImm word ∨ AddSubExt word

/-- number 31 in `Rd` is the stack pointer -/
def SpDst : Prop := SpSrc word ∧ bit word 29 = 0 ∨ LogicalImm word ∧ bits word 29 2 ≠ 3

instance : Decidable (AddSubImm word) := inferInstanceAs (Decidable (_ = _))

instance : Decidable (AddSubExt word) := inferInstanceAs (Decidable (_ = _))

instance : Decidable (LogicalImm word) := inferInstanceAs (Decidable (_ = _))

instance : Decidable (SpSrc word) := inferInstanceAs (Decidable (_ ∨ _))

instance : Decidable (SpDst word) := inferInstanceAs (Decidable (_ ∧ _ ∨ _ ∧ _))

/-- the width of the destination: 64 bits for addresses and long products, 32 for checksums, and
what `sf` says for the rest -/
def destWidth : Opcode → RegWidth
  | .adr | .adrp | .smaddl | .smsubl | .umaddl | .umsubl | .smulh | .umulh => .w64
  | .crc32 | .crc32c => .w32
  | _ => widthFromSf word

end Word

/-! ## what an opcode reads -/

def Opcode.isAddSub : Opcode → Bool
  | .add | .adds | .sub | .subs => true
  | _ => false

/-- the opcodes with a destination field -/
def Opcode.hasRd : Opcode → Bool
  | .ccmp | .ccmn => false
  | _ => true

/-- the opcodes with a first source field -/
def Opcode.hasRn : Opcode → Bool
  | .movz | .movn | .movk | .adr | .adrp => false
  | _ => true

/-- the opcodes whose second source is always a register -/
def Opcode.hasRm : Opcode → Bool
  | .adc | .adcs | .sbc | .sbcs | .extr | .lslv | .lsrv | .asrv | .rorv | .crc32 | .crc32c
  | .udiv | .sdiv | .madd | .msub | .smaddl | .smsubl | .umaddl | .umsubl | .smulh | .umulh
  | .csel | .csinc | .csinv | .csneg => true
  | _ => false

/-- the opcodes with an addend -/
def Opcode.hasRa : Opcode → Bool
  | .madd | .msub | .smaddl | .smsubl | .umaddl | .umsubl => true
  | _ => false

/-- the kinds of second operand that are a register -/
def OperandKind.isReg : OperandKind → Bool
  | .reg | .regShifted | .regExtended => true
  | _ => false

/-- the record names the register fields of the word -/
structure Routed (word : W32) (insn : Insn) : Prop where
  rd : insn.op.hasRd = true → insn.rd = fieldRd word
  rn : insn.op.hasRn = true → insn.rn = fieldRn word
  rm : insn.operandKind.isReg = true → insn.rm = fieldRm word
  ra : insn.op.hasRa = true → insn.ra = fieldRa word
  kind : insn.op.hasRm = true → insn.operandKind.isReg = true
  compared : insn.op.hasRd = false → insn.operandKind = .imm ∨ insn.operandKind.isReg = true
  src : insn.rnIsSpForm = decide (SpSrc word)
  dst : insn.rdIsSpForm = decide (SpDst word)
  addsub : SpSrc word → insn.op.isAddSub = true
  width : insn.width = destWidth word insn.op

variable {word : W32} {pc : W64} {insn : Insn}

/-! ## fields of fields -/

theorem bits_append (word : W32) (l n k : Nat) :
    bits word l (n + k) = bits word l n + 2 ^ n * bits word (l + n) k := by
  unfold bits
  rw [Nat.pow_add, Nat.mod_mul, Nat.shiftRight_add, Nat.shiftRight_eq_div_pow _ n]

theorem immClass (hg : bits word 25 4 = 8 ∨ bits word 25 4 = 9) :
    bits word 23 6 = 0x20 + bits word 23 3 ∧ ¬ AddSubExt word := by
  have h6 : bits word 23 6 = bits word 23 2 + 4 * bits word 25 4 := bits_append word 23 2 4
  have h3 : bits word 23 3 = bits word 23 2 + 4 * bits word 25 1 := bits_append word 23 2 1
  have h4 : bits word 25 4 = bits word 25 1 + 2 * bits word 26 3 := bits_append word 25 1 3
  have h8 : bits word 21 8 = bits word 21 4 + 16 * bits word 25 4 := bits_append word 21 4 4
  have hl := bits_lt word 21 4
  have hb := bits_lt word 25 1
  unfold AddSubExt
  omega

theorem regClass (hg : bits word 25 4 = 5 ∨ bits word 25 4 = 13) :
    ¬ AddSubImm word ∧ ¬ LogicalImm word ∧
      (AddSubExt word ↔ bit word 28 = 0 ∧ bits word 21 4 = 9) := by
  have h6 : bits word 23 6 = bits word 23 2 + 4 * bits word 25 4 := bits_append word 23 2 4
  have h4 : bits word 25 4 = bits word 25 3 + 8 * bits word 28 1 := bits_append word 25 3 1
  have h8 : bits word 21 8 = bits word 21 4 + 16 * bits word 25 4 := bits_append word 21 4 4
  have hl := bits_lt word 21 4
  have hc := bits_lt word 23 2
  have hb := bits_lt word 25 3
  unfold AddSubImm LogicalImm AddSubExt bit
  omega

theorem SpSrc.not_logical (hs : SpSrc word) : ¬ LogicalImm word := by
  have h8 : bits word 21 8 = bits word 21 2 + 4 * bits word 23 6 := bits_append word 21 2 6
  have hl := bits_lt word 21 2
  unfold SpSrc AddSubImm AddSubExt at hs
  unfold LogicalImm
  omega

theorem SpSrc.dst (hs : SpSrc word) : (!decide (bit word 29 ≠ 0)) = decide (SpDst word) := by
  by_cases hb : bit word 29 = 0
  · rw [decide_eq_false (not_not.mpr hb), decide_eq_true (show SpDst word from .inl ⟨hs, hb⟩)]
    rfl
  · have hn : ¬ SpDst word := by
      intro hd
      rcases hd with ⟨-, h0⟩ | ⟨hl, -⟩
      · exact hb h0
      · exact hs.not_logical hl
    rw [decide_eq_true hb, decide_eq_false hn]
    rfl

theorem LogicalImm.dst (hl : LogicalImm word) :
    (!decide (bits word 29 2 = 3)) = decide (SpDst word) := by
  by_cases hb : bits word 29 2 = 3
  · have hn : ¬ SpDst word := by
      intro hd
      rcases hd with ⟨hs, -⟩ | ⟨-, h3⟩
      · exact hs.not_logical hl
      · exact h3 hb
    rw [decide_eq_true hb, decide_eq_false hn]
    rfl
  · rw [decide_eq_false hb, decide_eq_true (show SpDst word from .inr ⟨hl, hb⟩)]
    rfl

theorem not_spDst (hs : ¬ SpSrc word) (hl : ¬ LogicalImm word) : ¬ SpDst word := by
  rintro (⟨h, -⟩ | ⟨h, -⟩)
  · exact hs h
  · exact hl h

theorem addsub_isAddSub (isSub setsFlags : Bool) :
    (addsubOpcode isSub setsFlags).isAddSub = true ∧
      destWidth word (addsubOpcode isSub setsFlags) = widthFromSf word := by
  cases isSub <;> cases setsFlags <;> exact ⟨rfl, rfl⟩

/-! ## the forms -/

/-- a record without the stack-pointer flags, of a word that names no stack pointer -/
theorem routed_plain (hs : ¬ SpSrc word) (hl : ¬ LogicalImm word)
    (rd : insn.op.hasRd = true → insn.rd = fieldRd word)
    (rn : insn.op.hasRn = true → insn.rn = fieldRn word)
    (rm : insn.operandKind.isReg = true → insn.rm = fieldRm word)
    (ra : insn.op.hasRa = true → insn.ra = fieldRa word)
    (kind : insn.op.hasRm = true → insn.operandKind.isReg = true)
    (compared : insn.op.hasRd = false → insn.operandKind = .imm ∨ insn.operandKind.isReg = true)
    (hsrc : insn.rnIsSpForm = false) (hdst : insn.rdIsSpForm = false)
    (width : insn.width = destWidth word insn.op) : Routed word insn where
  rd := rd
  rn := rn
  rm := rm
  ra := ra
  kind := kind
  compared := compared
  src := by rw [hsrc, decide_eq_false hs]
  dst := by rw [hdst, decide_eq_false (not_spDst hs hl)]
  addsub := fun h => absurd h hs
  width := width

theorem addsub_plain (isSub setsFlags : Bool) :
    (addsubOpcode isSub setsFlags).hasRa = false ∧ (addsubOpcode isSub setsFlags).hasRm = false := by
  cases isSub <;> cases setsFlags <;> exact ⟨rfl, rfl⟩

theorem decodeAddsubImm_routed (hg : bits word 25 4 = 8 ∨ bits word 25 4 = 9)
    (hc : bits word 23 3 = 2 ∨ bits word 23 3 = 3) (h : decodeAddsubImm word = .ok insn) :
    Routed word insn := by
  unfold decodeAddsubImm at h
  dsimp only at h
  split at h
  · cases h
  · case _ hshift =>
    cases h
    have hsrc : SpSrc word := by
      have h22 : bits word 22 2 = bits word 22 1 + 2 * bits word 23 1 := bits_append word 22 1 1
      have h23 : bits word 23 3 = bits word 23 1 + 2 * bits word 24 2 := bits_append word 23 1 2
      have hclass := (immClass hg).1
      unfold SpSrc AddSubImm
      omega
    exact
      { rd := fun _ => rfl
        rn := fun _ => rfl
        rm := fun hr => absurd hr Bool.noConfusion
        ra := fun hr => absurd hr (Bool.eq_false_iff.mp (addsub_plain _ _).1)
        kind := fun hr => absurd hr (Bool.eq_false_iff.mp (addsub_plain _ _).2)
        compared := fun _ => .inl rfl
        src := (decide_eq_true hsrc).symm
        dst := hsrc.dst
        addsub := fun _ => (@addsub_isAddSub word _ _).1
        width := (addsub_isAddSub _ _).2.symm }

theorem decodeLogicalImm_routed (hl : LogicalImm word) (hs : ¬ SpSrc word)
    (h : decodeLogicalImm word = .ok insn) : Routed word insn := by
  have hdst := hl.dst
  unfold decodeLogicalImm at h
  dsimp only at h
  split at h
  · cases h
  · cases h
    exact
      { rd := fun _ => rfl
        rn := fun _ => rfl
        rm := fun hr => absurd hr Bool.noConfusion
        ra := by
          dsimp only
          split <;> exact fun hr => absurd hr Bool.noConfusion
        kind := by
          dsimp only
          split <;> exact fun hr => absurd hr Bool.noConfusion
        compared := fun _ => .inl rfl
        src := (decide_eq_false hs).symm
        dst := hdst
        addsub := fun h => absurd h hs
        width := by
          dsimp only
          split <;> rfl }

section Plain

variable (hs : ¬ SpSrc word) (hl : ¬ LogicalImm word)
include hs hl

theorem decodePcRelAddr_routed (h : decodePcRelAddr word pc = .ok insn) : Routed word insn := by
  unfold decodePcRelAddr at h
  dsimp only at h
  repeat' split at h
  all_goals cases h
  all_goals refine routed_plain hs hl ?_ ?_ ?_ ?_ ?_ ?_ rfl rfl ?_
  all_goals first
    | exact fun _ => rfl
    | exact fun h => absurd h Bool.noConfusion
    | rfl

theorem decodeMoveWide_routed (h : decodeMoveWide word = .ok insn) : Routed word insn := by
  unfold decodeMoveWide moveWideOpcode at h
  dsimp only at h
  repeat' split at h
  all_goals cases h
  all_goals refine routed_plain hs hl ?_ ?_ ?_ ?_ ?_ ?_ rfl rfl ?_
  all_goals first
    | exact fun _ => rfl
    | exact fun h => absurd h Bool.noConfusion
    | rfl

theorem decodeBitfield_routed (h : decodeBitfield word = .ok insn) : Routed word insn := by
  unfold decodeBitfield bitfieldOpcode at h
  dsimp only at h
  repeat' split at h
  all_goals cases h
  all_goals refine routed_plain hs hl ?_ ?_ ?_ ?_ ?_ ?_ rfl rfl ?_
  all_goals first
    | exact fun _ => rfl
    | exact fun h => absurd h Bool.noConfusion
    | rfl

theorem decodeExtract_routed (h : decodeExtract word = .ok insn) : Routed word insn := by
  unfold decodeExtract at h
  dsimp only at h
  repeat' split at h
  all_goals cases h
  all_goals refine routed_plain hs hl ?_ ?_ ?_ ?_ ?_ ?_ rfl rfl ?_
  all_goals first
    | exact fun _ => rfl
    | exact fun h => absurd h Bool.noConfusion
    | rfl

theorem decodeLogicalShifted_routed (h : decodeLogicalShifted word = .ok insn) : Routed word insn := by
  unfold decodeLogicalShifted at h
  dsimp only at h
  repeat' split at h
  all_goals cases h
  all_goals refine routed_plain hs hl ?_ ?_ ?_ ?_ ?_ ?_ rfl rfl ?_
  all_goals first
    | exact fun _ => rfl
    | exact fun h => absurd h Bool.noConfusion
    | rfl

theorem decodeAddsubShifted_routed (h : decodeAddsubShifted word = .ok insn) : Routed word insn := by
  unfold decodeAddsubShifted addsubOpcode at h
  dsimp only at h
  repeat' split at h
  all_goals cases h
  all_goals refine routed_plain hs hl ?_ ?_ ?_ ?_ ?_ ?_ rfl rfl ?_
  all_goals first
    | exact fun _ => rfl
    | exact fun h => absurd h Bool.noConfusion
    | rfl

theorem decodeAddsubCarry_routed (h : decodeAddsubCarry word = .ok insn) : Routed word insn := by
  unfold decodeAddsubCarry addsubCarryOpcode at h
  dsimp only at h
  repeat' split at h
  all_goals cases h
  all_goals refine routed_plain hs hl ?_ ?_ ?_ ?_ ?_ ?_ rfl rfl ?_
  all_goals first
    | exact fun _ => rfl
    | exact fun h => absurd h Bool.noConfusion
    | rfl

theorem decodeCondCompare_routed (h : decodeCondCompare word = .ok insn) : Routed word insn := by
  unfold decodeCondCompare at h
  dsimp only at h
  repeat' split at h
  all_goals cases h
  all_goals refine routed_plain hs hl ?_ ?_ ?_ ?_ ?_ ?_ rfl rfl ?_
  all_goals first
    | exact fun _ => rfl
    | exact fun h => absurd h Bool.noConfusion
    | rfl
    | exact fun _ => .inl rfl
    | exact fun _ => .inr rfl

theorem decodeCondSelect_routed (h : decodeCondSelect word = .ok insn) : Routed word insn := by
  unfold decodeCondSelect at h
  dsimp only at h
  repeat' split at h
  all_goals cases h
  all_goals refine routed_plain hs hl ?_ ?_ ?_ ?_ ?_ ?_ rfl rfl ?_
  all_goals first
    | exact fun _ => rfl
    | exact fun h => absurd h Bool.noConfusion
    | rfl

theorem decodeDp1source_routed (h : decodeDp1source word = .ok insn) : Routed word insn := by
  unfold decodeDp1source at h
  dsimp only at h
  repeat' split at h
  all_goals cases h
  all_goals refine routed_plain hs hl ?_ ?_ ?_ ?_ ?_ ?_ rfl rfl ?_
  all_goals first
    | exact fun _ => rfl
    | exact fun h => absurd h Bool.noConfusion
    | rfl

theorem decodeDp2source_routed (h : decodeDp2source word = .ok insn) : Routed word insn := by
  unfold decodeDp2source at h
  dsimp only at h
  repeat' split at h
  all_goals cases h
  all_goals refine routed_plain hs hl ?_ ?_ ?_ ?_ ?_ ?_ rfl rfl ?_
  all_goals first
    | exact fun _ => rfl
    | exact fun h => absurd h Bool.noConfusion
    | rfl

theorem decodeDp3source_routed (h : decodeDp3source word = .ok insn) : Routed word insn := by
  unfold decodeDp3source at h
  dsimp only at h
  repeat' split at h
  all_goals cases h
  all_goals refine routed_plain hs hl ?_ ?_ ?_ ?_ ?_ ?_ rfl rfl ?_
  all_goals first
    | exact fun _ => rfl
    | exact fun h => absurd h Bool.noConfusion
    | rfl
    | exact not_not.mp (by assumption)

end Plain

/-! ## the groups -/

theorem decodeAddsubExtended_routed (hg : bits word 25 4 = 5 ∨ bits word 25 4 = 13)
    (h28 : bit word 28 = 0) (h8 : ¬ bits word 21 4 < 8) (hodd : bits word 21 4 % 2 ≠ 0)
    (h : decodeAddsubExtended word = .ok insn) : Routed word insn := by
  unfold decodeAddsubExtended at h
  dsimp only at h
  split at h
  · cases h
  · case _ h22 =>
    split at h
    · cases h
    · cases h
      have hsrc : SpSrc word := by
        have hl := bits_lt word 21 4
        have h21 : bits word 21 4 = bits word 21 1 + 2 * bits word 22 3 := bits_append word 21 1 3
        have h223 : bits word 22 3 = bits word 22 2 + 4 * bits word 24 1 := bits_append word 22 2 1
        have h1 := bits_lt word 21 1
        have hb := bits_lt word 24 1
        refine .inr ((regClass hg).2.2.mpr ⟨h28, ?_⟩)
        omega
      exact
        { rd := fun _ => rfl
          rn := fun _ => rfl
          rm := fun _ => rfl
          ra := fun hr => absurd hr (Bool.eq_false_iff.mp (addsub_plain _ _).1)
          kind := fun _ => rfl
          compared := fun _ => .inr rfl
          src := (decide_eq_true hsrc).symm
          dst := hsrc.dst
          addsub := fun _ => (@addsub_isAddSub word _ _).1
          width := (addsub_isAddSub _ _).2.symm }

theorem decodeDpImmediate_routed (hg : bits word 25 4 = 8 ∨ bits word 25 4 = 9)
    (h : decodeDpImmediate word pc = .ok insn) : Routed word insn := by
  obtain ⟨hclass, hext⟩ := immClass hg
  have hplain : bits word 23 3 ≠ 2 → bits word 23 3 ≠ 4 → ¬ SpSrc word ∧ ¬ LogicalImm word := by
    intro h2 h4
    unfold SpSrc AddSubImm LogicalImm
    rw [hclass]
    constructor
    · rintro (he | he)
      · omega
      · exact hext he
    · omega
  unfold decodeDpImmediate at h
  split at h
  · case _ hb =>
    obtain ⟨hs, hl⟩ := hplain (by omega) (by omega)
    exact decodePcRelAddr_routed hs hl h
  · case _ hb =>
    obtain ⟨hs, hl⟩ := hplain (by omega) (by omega)
    exact decodePcRelAddr_routed hs hl h
  · case _ hb => exact decodeAddsubImm_routed hg (.inl hb) h
  · case _ hb => exact decodeAddsubImm_routed hg (.inr hb) h
  · case _ hb =>
    have hl : LogicalImm word := by
      unfold LogicalImm
      omega
    exact decodeLogicalImm_routed hl (fun hs => hs.not_logical hl) h
  · case _ hb =>
    obtain ⟨hs, hl⟩ := hplain (by omega) (by omega)
    exact decodeMoveWide_routed hs hl h
  · case _ hb =>
    obtain ⟨hs, hl⟩ := hplain (by omega) (by omega)
    exact decodeBitfield_routed hs hl h
  · case _ h2 _ h4 _ _ =>
    obtain ⟨hs, hl⟩ := hplain h2 h4
    exact decodeExtract_routed hs hl h

theorem decodeDpRegister_routed (hg : bits word 25 4 = 5 ∨ bits word 25 4 = 13)
    (h : decodeDpRegister word = .ok insn) : Routed word insn := by
  obtain ⟨himm, hl, hext⟩ := regClass hg
  have hplain : ¬ (bit word 28 = 0 ∧ bits word 21 4 = 9) → ¬ SpSrc word := by
    intro hn hs
    rcases hs with hs | hs
    · exact himm hs
    · exact hn (hext.mp hs)
  unfold decodeDpRegister at h
  dsimp only at h
  split at h
  · case _ h28 =>
    split at h
    · case _ h8 => exact decodeLogicalShifted_routed (hplain (by omega)) hl h
    · case _ h8 =>
      split at h
      · case _ hodd => exact decodeAddsubExtended_routed hg h28 h8 hodd h
      · case _ heven => exact decodeAddsubShifted_routed (hplain (by omega)) hl h
  · case _ h28 =>
    have hs : ¬ SpSrc word := hplain fun hc => h28 hc.1
    split at h
    · exact decodeAddsubCarry_routed hs hl h
    · exact decodeCondCompare_routed hs hl h
    · exact decodeCondSelect_routed hs hl h
    · split at h
      · exact decodeDp1source_routed hs hl h
      · exact decodeDp2source_routed hs hl h
    · split at h
      · exact decodeDp3source_routed hs hl h
      · cases h

/-- **every accepted word of data processing is routed** -/
theorem decode_routed (h : decode word pc = .ok insn) (hop : insn.op.family = .data) :
    Routed word insn := by
  rcases decode_data h hop with ⟨hg, hd⟩ | ⟨hg, hd⟩
  · exact decodeDpImmediate_routed hg hd
  · exact decodeDpRegister_routed hg hd

end Oemu
