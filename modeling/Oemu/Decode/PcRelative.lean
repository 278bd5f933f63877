import Oemu.Decode.Source
import Oemu.Exec.Addressing

/-!
# Where the program counter enters

One word decoded at two addresses gives one record, but for the immediate of the branches, of the
two address forms and of the literal loads, which is resolved against the address.  `relativeOp`
reads off the word which of them it is.

* `PcLaw`            a decode function that depends on the address in that way only;
* `decode_law`       the whole tree is one;
* `decode_relative`  each relative word is decoded to its own opcode;
* `decode_absolute`  and no other word to a relative record;
* `decode_pc_law`    two addresses, one word, with the record that a refusal leaves.
-/

namespace Oemu

/-! ## relative records -/

/-- the records whose immediate is an address: branches, addresses, literal loads -/
def Insn.isRelative (insn : Insn) : Bool :=
  match insn.op with
  | .adr | .adrp | .b | .bl | .bCond | .cbz | .cbnz | .tbz | .tbnz => true
  | .ldr | .ldrs => decide (insn.operandKind = .imm)
  | _ => false

/-- the opcode of a relative word, by its fixed bits: `ADR` and `ADRP`, `B` and `BL`, `B.cond`,
`CBZ` and `CBNZ`, `TBZ` and `TBNZ`, and the literal loads (the fourth of these is a prefetch) -/
def relativeOp (word : W32) : Option Opcode :=
  if word.extractLsb' 24 5 = 0b10000#5 then some (if word.getLsbD 31 then .adrp else .adr)
  else if word.extractLsb' 26 5 = 0b00101#5 then some (if word.getLsbD 31 then .bl else .b)
  else if word.extractLsb' 24 8 = 0b01010100#8 ∧ word.getLsbD 4 = false then some .bCond
  else if word.extractLsb' 25 6 = 0b011010#6 then some (if word.getLsbD 24 then .cbnz else .cbz)
  else if word.extractLsb' 25 6 = 0b011011#6 then some (if word.getLsbD 24 then .tbnz else .tbz)
  else if word.extractLsb' 24 6 = 0b011000#6 ∧ word.extractLsb' 30 2 ≠ 0b11#2 then
    some (if word.extractLsb' 30 2 = 0b10#2 then .ldrs else .ldr)
  else none

/-- what the distance is counted from -/
def relativeBase (op : Opcode) (pc : W64) : W64 :=
  if op = .adrp then pc &&& ~~~(0xFFF : W64) else pc

/-- the signed distance a word holds, in bytes -/
def displacement (word : W32) : Opcode → Int
  | .adr => (word.extractLsb' 5 19 ++ word.extractLsb' 29 2).toInt
  | .adrp => (word.extractLsb' 5 19 ++ word.extractLsb' 29 2).toInt * 4096
  | .b | .bl => (word.extractLsb' 0 26).toInt * 4
  | .tbz | .tbnz => (word.extractLsb' 5 14).toInt * 4
  | _ => (word.extractLsb' 5 19).toInt * 4

/-- what the immediate of a record is counted from -/
def Insn.origin (insn : Insn) (pc : W64) : W64 :=
  if insn.isRelative then relativeBase insn.op pc else 0

/-- a record moved to an address -/
def Insn.placed (insn : Insn) (pc : W64) : Insn := { insn with imm := insn.origin pc + insn.imm }

/-- a decode function that uses the address for the immediate of a relative record -/
structure PcLaw (word : W32) (f : W64 → Except Status Insn) : Prop where
  placed : ∀ pc, f pc = (f 0).map (Insn.placed · pc)
  displaced : ∀ insn, f 0 = .ok insn → insn.isRelative = true →
    insn.imm = BitVec.ofInt 64 (displacement word insn.op)

def Absolute (x : Except Status Insn) : Prop := ∀ insn, x = .ok insn → insn.isRelative = false

section Rules

variable {word : W32} {f g : W64 → Except Status Insn} {x y : Except Status Insn}

theorem Absolute.error (st : Status) : Absolute (.error st) := by
  intro insn h
  cases h

theorem Absolute.ok {insn : Insn} (h : insn.isRelative = false) : Absolute (.ok insn) := by
  intro insn' h'
  cases h'
  exact h

theorem Absolute.ite {c : Prop} [Decidable c] (hx : Absolute x) (hy : Absolute y) :
    Absolute (if c then x else y) := by
  split
  · exact hx
  · exact hy

theorem W64.zero_add (x : W64) : 0 + x = x := BitVec.zero_add x

theorem Insn.placed_absolute {insn : Insn} (h : insn.isRelative = false) (pc : W64) :
    insn.placed pc = insn := by
  have h0 : insn.origin pc = 0 := by
    unfold Insn.origin
    rw [h, if_neg Bool.false_ne_true]
  unfold Insn.placed
  rw [h0, W64.zero_add]

theorem Insn.origin_zero (insn : Insn) : insn.origin 0 = 0 := by
  unfold Insn.origin relativeBase
  split
  · split
    · exact BitVec.zero_and
    · rfl
  · rfl

theorem Absolute.law (h : Absolute x) : PcLaw word fun _ => x where
  placed := by
    intro pc
    cases x with
    | error st => rfl
    | ok insn => exact congrArg Except.ok (Insn.placed_absolute (h insn rfl) pc).symm
  displaced := by
    intro insn hx hr
    rw [h insn hx] at hr
    cases hr

theorem PcLaw.ite {c : Prop} [Decidable c] (hf : PcLaw word f) (hg : PcLaw word g) :
    PcLaw word fun pc => if c then f pc else g pc := by
  by_cases hc : c
  · simp only [if_pos hc]
    exact hf
  · simp only [if_neg hc]
    exact hg

/-- a function that always decodes to one record, at a distance from its origin -/
theorem PcLaw.record {h : W64 → Insn} (hp : ∀ pc, h pc = { h 0 with
      imm := (h 0).origin pc + BitVec.ofInt 64 (displacement word (h 0).op) }) :
    PcLaw word fun pc => .ok (h pc) := by
  have himm : (h 0).imm = BitVec.ofInt 64 (displacement word (h 0).op) := by
    have e : (h 0).imm = (h 0).origin 0 + BitVec.ofInt 64 (displacement word (h 0).op) :=
      congrArg Insn.imm (hp 0)
    rw [e, Insn.origin_zero, W64.zero_add]
  constructor
  · intro pc
    refine congrArg Except.ok ((hp pc).trans ?_)
    rw [← himm]
    rfl
  · intro insn hx _
    cases hx
    exact himm

end Rules

variable (word : W32)

/-! ## the immediates -/

theorem shift_two (v : Int) : BitVec.ofInt 64 v <<< 2 = BitVec.ofInt 64 (v * 4) := by
  rw [BitVec.ofInt_mul, BitVec.shiftLeft_eq_mul_twoPow]
  rfl

theorem shift_page (v : Int) : BitVec.ofInt 64 v <<< 12 = BitVec.ofInt 64 (v * 4096) := by
  rw [BitVec.ofInt_mul, BitVec.shiftLeft_eq_mul_twoPow]
  rfl

theorem branchTarget_eq (pc : W64) (lsb : Nat) {n : Nat} (h0 : 0 < n) (hn : n < 64) :
    branchTarget word pc lsb n = pc + BitVec.ofInt 64 ((word.extractLsb' lsb n).toInt * 4) := by
  unfold branchTarget
  rw [sfield_simm word lsb h0 hn]
  exact congrArg (pc + ·) (shift_two _)

/-- the two fields of an address form are one signed number -/
theorem addressField_eq : decodeSignExtend ((ufield word 5 19 <<< 2) ||| ufield word 29 2) 21 =
    BitVec.ofInt 64 (word.extractLsb' 5 19 ++ word.extractLsb' 29 2).toInt := by
  refine decodeSignExtend_eq (x := word.extractLsb' 5 19 ++ word.extractLsb' 29 2) (by decide)
    (by decide) ?_
  intro i hi
  have hfield : ∀ l n j, (ufield word l n).getLsbD j =
      (decide (j < 64) && (word.extractLsb' l n).getLsbD j) := by
    intro l n j
    rw [ufield_uimm]
    exact BitVec.getLsbD_setWidth _ _ _
  rw [BitVec.getLsbD_or, BitVec.getLsbD_shiftLeft, hfield, hfield, BitVec.getLsbD_append]
  by_cases h2 : i < 2
  · simp [hi, h2]
  · have hge : (word.extractLsb' 29 2).getLsbD i = false :=
      BitVec.getLsbD_of_ge _ _ (Nat.le_of_not_lt h2)
    simp [hi, h2, hge, show i - 2 < 64 by omega]

/-! ## data processing -/

theorem decodePcRelAddr_law : PcLaw word (decodePcRelAddr word) := by
  have h : ∀ pc, decodePcRelAddr word pc = if bit word 31 ≠ 0
      then .ok { Insn.reset word with
        rd := fieldRd word, operandKind := .imm, width := .w64, op := .adrp
        imm := (pc &&& ~~~(0xFFF : W64)) + BitVec.ofInt 64 (displacement word .adrp) }
      else .ok { Insn.reset word with
        rd := fieldRd word, operandKind := .imm, width := .w64, op := .adr
        imm := pc + BitVec.ofInt 64 (displacement word .adr) } := by
    intro pc
    unfold decodePcRelAddr
    dsimp only
    rw [addressField_eq, shift_page]
    rfl
  rw [show decodePcRelAddr word = _ from funext h]
  exact .ite (.record fun _ => rfl) (.record fun _ => rfl)

theorem absolute_data {insn : Insn} (hf : insn.op.family = .data) (hg : insn.op.group ≠ .pcRel) :
    insn.isRelative = false := by
  unfold Insn.isRelative
  cases ho : insn.op <;> rw [ho] at hf hg <;> first | rfl | exact absurd rfl hg | cases hf

theorem absolute_group {x : Except Status Insn} {g : DataGroup} (hp : g ≠ .pcRel) (ho : g ≠ .other)
    (h : ∀ insn, x = .ok insn → insn.op.group = g) : Absolute x := by
  intro insn hx
  have hg := h insn hx
  refine absolute_data ?_ (by rw [hg]; exact hp)
  revert hg ho
  cases insn.op <;> first | (intros; rfl) | (intro ho hg; exact absurd hg.symm ho)

theorem decodeAddsubImm_absolute : Absolute (decodeAddsubImm word) :=
  absolute_group (by decide) (by decide) fun _ h => decodeAddsubImm_group h

theorem decodeLogicalImm_absolute : Absolute (decodeLogicalImm word) :=
  absolute_group (by decide) (by decide) fun _ h => decodeLogicalImm_group h

theorem decodeMoveWide_absolute : Absolute (decodeMoveWide word) :=
  absolute_group (by decide) (by decide) fun _ h => decodeMoveWide_group h

theorem decodeBitfield_absolute : Absolute (decodeBitfield word) :=
  absolute_group (by decide) (by decide) fun _ h => decodeBitfield_group h

theorem decodeExtract_absolute : Absolute (decodeExtract word) :=
  absolute_group (by decide) (by decide) fun _ h => decodeExtract_group h

theorem decodeDpImmediate_law : PcLaw word (decodeDpImmediate word) := by
  have hpc := decodePcRelAddr_law word
  have hn := bits_lt word 23 3
  rw [show decodeDpImmediate word = fun pc => decodeDpImmediate word pc from rfl]
  unfold decodeDpImmediate
  generalize bits word 23 3 = n at hn
  interval_cases n
  · exact hpc
  · exact hpc
  · exact (decodeAddsubImm_absolute word).law
  · exact (decodeAddsubImm_absolute word).law
  · exact (decodeLogicalImm_absolute word).law
  · exact (decodeMoveWide_absolute word).law
  · exact (decodeBitfield_absolute word).law
  · exact (decodeExtract_absolute word).law

theorem decodeDpRegister_absolute : Absolute (decodeDpRegister word) := by
  intro insn h
  refine absolute_data (decodeDpRegister_family h) ?_
  unfold decodeDpRegister at h
  dsimp only at h
  split at h
  · split at h
    · rw [decodeLogicalShifted_group h]
      decide
    · split at h
      · rw [decodeAddsubExtended_group h]
        decide
      · rw [decodeAddsubShifted_group h]
        decide
  · split at h
    · rw [decodeAddsubCarry_group h]
      decide
    · rw [decodeCondCompare_group h]
      decide
    · rw [decodeCondSelect_group h]
      decide
    · split at h
      · rw [decodeDp1source_group h]
        decide
      · rw [decodeDp2source_group h]
        decide
    · split at h
      · rw [decodeDp3source_group h]
        decide
      · cases h

/-! ## branches and system -/

def Opcode.isBranch : Opcode → Bool
  | .b | .bl | .bCond | .cbz | .cbnz | .tbz | .tbnz => true
  | _ => false

theorem isBranch_relative {insn : Insn} (h : insn.op.isBranch = true) :
    insn.isRelative = true ∧ insn.op ≠ .adrp := by
  unfold Insn.isRelative
  cases ho : insn.op <;> rw [ho] at h <;> first | (cases h; done) | exact ⟨rfl, fun e => by cases e⟩

theorem offset_law {f : W64 → Insn} (lsb n : Nat) (h0 : 0 < n) (hn : n < 64)
    (hp : ∀ pc, f pc = { f 0 with imm := branchTarget word pc lsb n })
    (hr : (f 0).isRelative = true ∧ (f 0).op ≠ .adrp)
    (hd : displacement word (f 0).op = (word.extractLsb' lsb n).toInt * 4) :
    PcLaw word fun pc => .ok (f pc) := by
  refine .record fun pc => (hp pc).trans ?_
  unfold Insn.origin relativeBase
  rw [if_pos hr.1, if_neg hr.2, hd, branchTarget_eq word pc lsb h0 hn]

theorem decodeUncondBranchImm_law : PcLaw word (decodeUncondBranchImm word) := by
  refine offset_law word 0 26 (by decide) (by decide) (fun _ => rfl) (isBranch_relative ?_) ?_
  · show Opcode.isBranch (if bit word 31 ≠ 0 then .bl else .b) = true
    split <;> rfl
  · show displacement word (if bit word 31 ≠ 0 then .bl else .b) = _
    split <;> rfl

theorem decodeCondBranchImm_law : PcLaw word (decodeCondBranchImm word) :=
  .ite (Absolute.error _).law
    (offset_law word 5 19 (by decide) (by decide) (fun _ => rfl) (isBranch_relative rfl) rfl)

theorem decodeCompareBranch_law : PcLaw word (decodeCompareBranch word) := by
  refine offset_law word 5 19 (by decide) (by decide) (fun _ => rfl) (isBranch_relative ?_) ?_
  · show Opcode.isBranch (if bit word 24 ≠ 0 then .cbnz else .cbz) = true
    split <;> rfl
  · show displacement word (if bit word 24 ≠ 0 then .cbnz else .cbz) = _
    split <;> rfl

theorem decodeTestBranch_law : PcLaw word (decodeTestBranch word) := by
  refine offset_law word 5 14 (by decide) (by decide) (fun _ => rfl) (isBranch_relative ?_) ?_
  · show Opcode.isBranch (if bit word 24 ≠ 0 then .tbnz else .tbz) = true
    split <;> rfl
  · show displacement word (if bit word 24 ≠ 0 then .tbnz else .tbz) = _
    split <;> rfl

theorem decodeUncondBranchReg_absolute : Absolute (decodeUncondBranchReg word) := by
  intro insn h
  unfold decodeUncondBranchReg at h
  dsimp only at h
  repeat' split at h
  all_goals cases h
  all_goals rfl

theorem decodeException_absolute : Absolute (decodeException word) := by
  intro insn h
  unfold decodeException at h
  dsimp only at h
  repeat' split at h
  all_goals cases h
  all_goals rfl

theorem decodeSystem_absolute : Absolute (decodeSystem word) := by
  intro insn h
  unfold decodeSystem decodeHintsAndBarriers at h
  dsimp only at h
  repeat' split at h
  all_goals cases h
  all_goals rfl

theorem decodeBranchSystem_law : PcLaw word (decodeBranchSystem word) := by
  have hcompare : PcLaw word fun pc =>
      if bit word 25 = 0 then decodeCompareBranch word pc else decodeTestBranch word pc :=
    .ite (decodeCompareBranch_law word) (decodeTestBranch_law word)
  have hsystem : PcLaw word fun _ => if bit word 25 ≠ 0 then decodeUncondBranchReg word
      else if bit word 24 = 0 then decodeException word else decodeSystem word :=
    (Absolute.ite (decodeUncondBranchReg_absolute word)
      (.ite (decodeException_absolute word) (decodeSystem_absolute word))).law
  have hn := bits_lt word 29 3
  rw [show decodeBranchSystem word = fun pc => decodeBranchSystem word pc from rfl]
  unfold decodeBranchSystem
  generalize bits word 29 3 = n at hn
  interval_cases n
  · exact decodeUncondBranchImm_law word
  · exact hcompare
  · exact .ite (Absolute.error _).law (decodeCondBranchImm_law word)
  · exact (Absolute.error _).law
  · exact decodeUncondBranchImm_law word
  · exact hcompare
  · exact hsystem
  · exact (Absolute.error _).law

/-! ## loads and stores -/

theorem absolute_single {insn i : Insn} (h : ldstSingle word = .ok insn) (ho : i.op = insn.op)
    (hk : i.operandKind = .mem) : i.isRelative = false := by
  have hops : i.op = .str ∨ i.op = .ldr ∨ i.op = .hint ∨ i.op = .ldrs := by
    rw [ho]
    unfold ldstSingle classifyLoadStore at h
    dsimp only at h
    repeat' split at h
    all_goals cases h
    all_goals first
      | exact .inl rfl
      | exact .inr (.inl rfl)
      | exact .inr (.inr (.inl rfl))
      | exact .inr (.inr (.inr rfl))
  unfold Insn.isRelative
  rcases hops with ho | ho | ho | ho <;> rw [ho, hk] <;> rfl

theorem decodeLdstUnsignedImm_absolute : Absolute (decodeLdstUnsignedImm word) := by
  intro insn h
  unfold decodeLdstUnsignedImm at h
  split at h
  · cases h
  · case _ hs =>
    cases h
    exact absolute_single word hs rfl rfl

theorem decodeLdstImmUnscaled_absolute : Absolute (decodeLdstImmUnscaled word) := by
  intro insn h
  unfold decodeLdstImmUnscaled at h
  split at h
  · cases h
  · case _ hs =>
    cases h
    exact absolute_single word hs rfl rfl

theorem decodeLdstRegOffset_absolute : Absolute (decodeLdstRegOffset word) := by
  intro insn h
  unfold decodeLdstRegOffset at h
  dsimp only at h
  split at h
  · cases h
  · split at h
    · cases h
    · case _ hs =>
      cases h
      exact absolute_single word hs rfl rfl

theorem decodeLdstVector_absolute : Absolute (decodeLdstVector word) := by
  intro insn h
  unfold decodeLdstVector at h
  dsimp only at h
  repeat' split at h
  all_goals cases h
  all_goals rfl

theorem decodeLdstPairVector_absolute : Absolute (decodeLdstPairVector word) := by
  intro insn h
  unfold decodeLdstPairVector at h
  dsimp only at h
  split at h <;> cases h
  unfold Insn.isRelative
  dsimp only
  by_cases hl : bit word 22 ≠ 0
  · rw [if_pos hl]
  · rw [if_neg hl]

theorem decodeLdstPair_absolute : Absolute (decodeLdstPair word) := by
  intro insn h
  unfold decodeLdstPair at h
  dsimp only at h
  split at h
  · cases h
  · split at h
    · split at h <;> cases h
      rfl
    · cases h
      unfold Insn.isRelative
      dsimp only
      cases decide (bit word 22 ≠ 0) <;> rfl

theorem decodeLdstExclusive_absolute : Absolute (decodeLdstExclusive word) := by
  intro insn h
  unfold decodeLdstExclusive at h
  dsimp only at h
  split at h
  · cases h
  · split at h
    · cases h
      unfold Insn.isRelative
      dsimp only
      by_cases hl : bit word 22 ≠ 0
      · rw [if_pos hl]
      · rw [if_neg hl]
    · split at h <;> cases h
      unfold Insn.isRelative
      dsimp only
      by_cases hl : bit word 22 ≠ 0
      · rw [if_pos hl]
      · rw [if_neg hl]

theorem decodeLdstLiteral_law : PcLaw word (decodeLdstLiteral word) := by
  refine .ite (Absolute.ok rfl).law ?_
  by_cases h2 : bits word 30 2 = 2
  · simp only [if_pos h2]
    exact offset_law word 5 19 (by decide) (by decide) (fun _ => rfl)
      ⟨rfl, fun h => by cases h⟩ rfl
  · simp only [if_neg h2]
    exact offset_law word 5 19 (by decide) (by decide) (fun _ => rfl)
      ⟨rfl, fun h => by cases h⟩ rfl

theorem decodeLoadStore_law : PcLaw word (decodeLoadStore word) :=
  .ite (Absolute.ite (decodeLdstVector_absolute word)
      (.ite (decodeLdstPairVector_absolute word) (.error _))).law
    (.ite (Absolute.ite (.error _) (decodeLdstExclusive_absolute word)).law
      (.ite (.ite (Absolute.error _).law (decodeLdstLiteral_law word))
        (Absolute.ite (decodeLdstPair_absolute word)
          (.ite (decodeLdstUnsignedImm_absolute word)
            (.ite (decodeLdstRegOffset_absolute word)
              (decodeLdstImmUnscaled_absolute word)))).law))

/-! ## the tree -/

/-- **the decoder uses the address for relative immediates only** -/
theorem decode_law : PcLaw word (decode word) := by
  have hvector : PcLaw word fun _ =>
      if isVecDup word then decodeVecDup word else .error .unsupported :=
    (Absolute.ite (.ok rfl) (.error _)).law
  have hn := bits_lt word 25 4
  rw [show decode word = fun pc => decode word pc from rfl]
  unfold decode
  generalize bits word 25 4 = n at hn
  interval_cases n
  · exact (Absolute.ite (.error _) (.error _)).law
  · exact (Absolute.ite (.error _) (.error _)).law
  · exact (Absolute.ite (.error _) (.error _)).law
  · exact (Absolute.ite (.error _) (.error _)).law
  · exact decodeLoadStore_law word
  · exact (decodeDpRegister_absolute word).law
  · exact decodeLoadStore_law word
  · exact hvector
  · exact decodeDpImmediate_law word
  · exact decodeDpImmediate_law word
  · exact decodeBranchSystem_law word
  · exact decodeBranchSystem_law word
  · exact decodeLoadStore_law word
  · exact (decodeDpRegister_absolute word).law
  · exact decodeLoadStore_law word
  · exact hvector

/-! ## which words are relative -/

theorem extract_iff (l : Nat) {n : Nat} (k : BitVec n) :
    word.extractLsb' l n = k ↔ bits word l n = k.toNat := by
  rw [← BitVec.toNat_inj, BitVec.extractLsb'_toNat]
  rfl

theorem getLsbD_bit (i : Nat) : word.getLsbD i = decide (bit word i ≠ 0) := by
  have h := bit_cases word i
  have e : word.getLsbD i = decide (bit word i = 1) := by
    unfold bit bits BitVec.getLsbD
    rw [Nat.testBit_eq_decide_div_mod_eq, Nat.shiftRight_eq_div_pow, Nat.pow_one]
  rw [e]
  rcases h with h | h <;> rw [h] <;> rfl

/-- the decode function a relative word reaches -/
inductive RelativeRoute : Opcode → (W64 → Except Status Insn) → Prop where
  | address (h : bits word 24 5 = 16) :
      RelativeRoute (if bit word 31 ≠ 0 then .adrp else .adr) (decodePcRelAddr word)
  | uncond (h : bits word 26 5 = 5) :
      RelativeRoute (if bit word 31 ≠ 0 then .bl else .b) (decodeUncondBranchImm word)
  | cond (h : bits word 24 8 = 84) (h4 : bit word 4 = 0) :
      RelativeRoute .bCond (decodeCondBranchImm word)
  | compare (h : bits word 25 6 = 26) :
      RelativeRoute (if bit word 24 ≠ 0 then .cbnz else .cbz) (decodeCompareBranch word)
  | test (h : bits word 25 6 = 27) :
      RelativeRoute (if bit word 24 ≠ 0 then .tbnz else .tbz) (decodeTestBranch word)
  | literal (h : bits word 24 6 = 24) (h3 : bits word 30 2 ≠ 3) :
      RelativeRoute (if bits word 30 2 = 2 then .ldrs else .ldr) (decodeLdstLiteral word)

theorem relativeOp_route {op : Opcode} (h : relativeOp word = some op) :
    ∃ f, RelativeRoute word op f := by
  unfold relativeOp at h
  simp only [extract_iff, getLsbD_bit, decide_eq_true_eq, decide_eq_false_iff_not, ne_eq,
    not_not] at h
  split at h
  · rename_i hb
    rw [← Option.some.inj h]
    exact ⟨_, .address hb⟩
  split at h
  · rename_i hb
    rw [← Option.some.inj h]
    exact ⟨_, .uncond hb⟩
  split at h
  · rename_i hb
    rw [← Option.some.inj h]
    exact ⟨_, .cond hb.1 hb.2⟩
  split at h
  · rename_i hb
    rw [← Option.some.inj h]
    exact ⟨_, .compare hb⟩
  split at h
  · rename_i hb
    rw [← Option.some.inj h]
    exact ⟨_, .test hb⟩
  split at h
  · rename_i hb
    rw [← Option.some.inj h]
    exact ⟨_, .literal hb.1 hb.2⟩
  · cases h

theorem relativeOp_none (h : relativeOp word = none) :
    bits word 24 5 ≠ 16 ∧ bits word 26 5 ≠ 5 ∧ (bits word 24 8 = 84 → bit word 4 ≠ 0) ∧
      bits word 25 6 ≠ 26 ∧ bits word 25 6 ≠ 27 ∧ (bits word 24 6 = 24 → bits word 30 2 = 3) := by
  unfold relativeOp at h
  simp only [extract_iff, getLsbD_bit, decide_eq_true_eq, decide_eq_false_iff_not, ne_eq,
    not_not] at h
  split at h
  · cases h
  split at h
  · cases h
  split at h
  · cases h
  split at h
  · cases h
  split at h
  · cases h
  split at h
  · cases h
  · rename_i h1 h2 h3 h4 h5 h6
    refine ⟨h1, h2, fun h h0 => h3 ⟨h, h0⟩, h4, h5, fun h => ?_⟩
    by_contra hn
    exact h6 ⟨h, hn⟩

theorem bits_div (l n : Nat) : bits word l n = word.toNat / 2 ^ l % 2 ^ n := by
  unfold bits
  rw [Nat.shiftRight_eq_div_pow]

theorem bit_div (l : Nat) : bit word l = word.toNat / 2 ^ l % 2 := bits_div word l 1

theorem decode_dpImmediate (h : bits word 25 4 = 8) (pc : W64) :
    decode word pc = decodeDpImmediate word pc := by
  unfold decode
  rw [h]
  rfl

theorem decodeDpImmediate_address (h : bits word 23 3 = 0 ∨ bits word 23 3 = 1) (pc : W64) :
    decodeDpImmediate word pc = decodePcRelAddr word pc := by
  unfold decodeDpImmediate
  rcases h with h | h
  · rw [h]
    rfl
  · rw [h]
    rfl

theorem decode_branchSystem (h : bits word 25 4 = 10 ∨ bits word 25 4 = 11) (pc : W64) :
    decode word pc = decodeBranchSystem word pc := by
  unfold decode
  rcases h with h | h
  · rw [h]
    rfl
  · rw [h]
    rfl

theorem decodeBranchSystem_uncond (h : bits word 29 3 = 0 ∨ bits word 29 3 = 4) (pc : W64) :
    decodeBranchSystem word pc = decodeUncondBranchImm word pc := by
  unfold decodeBranchSystem
  rcases h with h | h
  · rw [h]
    rfl
  · rw [h]
    rfl

theorem decodeBranchSystem_cond (h : bits word 29 3 = 2) (h25 : bit word 25 = 0) (pc : W64) :
    decodeBranchSystem word pc = decodeCondBranchImm word pc := by
  unfold decodeBranchSystem
  rw [h]
  exact if_neg (not_not_intro h25)

theorem decodeBranchSystem_compare (h : bits word 29 3 = 1 ∨ bits word 29 3 = 5) (pc : W64) :
    decodeBranchSystem word pc =
      if bit word 25 = 0 then decodeCompareBranch word pc else decodeTestBranch word pc := by
  unfold decodeBranchSystem
  rcases h with h | h
  · rw [h]
    rfl
  · rw [h]
    rfl

theorem decode_ldst (h : bits word 25 4 = 12) (pc : W64) :
    decode word pc = decodeLoadStore word pc := by
  unfold decode
  rw [h]
  rfl

theorem decodeLoadStore_literal (h26 : bit word 26 = 0) (h28 : bits word 28 2 = 1)
    (h24 : bit word 24 = 0) (pc : W64) : decodeLoadStore word pc = decodeLdstLiteral word pc := by
  unfold decodeLoadStore
  dsimp only
  rw [if_neg (not_not_intro h26), h28, if_neg (by decide), if_pos rfl, if_neg (not_not_intro h24)]

/-- the fields each level of the tree switches on are inside the fixed bits of a relative word -/
theorem route_decode {op : Opcode} {f : W64 → Except Status Insn} (h : RelativeRoute word op f)
    (pc : W64) : decode word pc = f pc := by
  cases h with
  | address h =>
    have hA : bits word 25 4 = 8 := by
      simp only [bits_div] at h ⊢
      omega
    have h2 : bits word 23 3 = 0 ∨ bits word 23 3 = 1 := by
      simp only [bits_div] at h ⊢
      omega
    rw [decode_dpImmediate word hA, decodeDpImmediate_address word h2]
  | uncond h =>
    have hA : bits word 25 4 = 10 ∨ bits word 25 4 = 11 := by
      simp only [bits_div] at h ⊢
      omega
    have h0 : bits word 29 3 = 0 ∨ bits word 29 3 = 4 := by
      simp only [bits_div] at h ⊢
      omega
    rw [decode_branchSystem word hA, decodeBranchSystem_uncond word h0]
  | cond h h4 =>
    have hA : bits word 25 4 = 10 := by
      simp only [bits_div] at h ⊢
      omega
    have h2 : bits word 29 3 = 2 := by
      simp only [bits_div] at h ⊢
      omega
    have h25 : bit word 25 = 0 := by
      simp only [bits_div, bit_div] at h ⊢
      omega
    rw [decode_branchSystem word (.inl hA), decodeBranchSystem_cond word h2 h25]
  | compare h =>
    have hA : bits word 25 4 = 10 := by
      simp only [bits_div] at h ⊢
      omega
    have h1 : bits word 29 3 = 1 ∨ bits word 29 3 = 5 := by
      simp only [bits_div] at h ⊢
      omega
    have h25 : bit word 25 = 0 := by
      simp only [bits_div, bit_div] at h ⊢
      omega
    rw [decode_branchSystem word (.inl hA), decodeBranchSystem_compare word h1, if_pos h25]
  | test h =>
    have hA : bits word 25 4 = 11 := by
      simp only [bits_div] at h ⊢
      omega
    have h1 : bits word 29 3 = 1 ∨ bits word 29 3 = 5 := by
      simp only [bits_div] at h ⊢
      omega
    have h25 : bit word 25 ≠ 0 := by
      simp only [bits_div, bit_div] at h ⊢
      omega
    rw [decode_branchSystem word (.inr hA), decodeBranchSystem_compare word h1, if_neg h25]
  | literal h h3 =>
    have hA : bits word 25 4 = 12 := by
      simp only [bits_div] at h ⊢
      omega
    have h26 : bit word 26 = 0 := by
      simp only [bits_div, bit_div] at h ⊢
      omega
    have h28 : bits word 28 2 = 1 := by
      simp only [bits_div] at h ⊢
      omega
    have h24 : bit word 24 = 0 := by
      simp only [bits_div, bit_div] at h ⊢
      omega
    rw [decode_ldst word hA, decodeLoadStore_literal word h26 h28 h24]

theorem route_ok {op : Opcode} {f : W64 → Except Status Insn} (h : RelativeRoute word op f)
    (pc : W64) : ∃ insn, f pc = .ok insn ∧ insn.op = op ∧ insn.isRelative = true := by
  cases h with
  | address h =>
    unfold decodePcRelAddr
    dsimp only
    split
    · exact ⟨_, rfl, rfl, rfl⟩
    · exact ⟨_, rfl, rfl, rfl⟩
  | uncond h =>
    refine ⟨_, rfl, rfl, ?_⟩
    unfold Insn.isRelative
    dsimp only
    by_cases hb : bit word 31 ≠ 0
    · rw [if_pos hb]
    · rw [if_neg hb]
  | cond h h4 =>
    have h24 : bit word 24 = 0 := by
      simp only [bits_div, bit_div] at h ⊢
      omega
    unfold decodeCondBranchImm
    rw [if_neg (by rw [h24, h4]; simp)]
    exact ⟨_, rfl, rfl, rfl⟩
  | compare h =>
    refine ⟨_, rfl, rfl, ?_⟩
    unfold Insn.isRelative
    dsimp only
    by_cases hb : bit word 24 ≠ 0
    · rw [if_pos hb]
    · rw [if_neg hb]
  | test h =>
    refine ⟨_, rfl, rfl, ?_⟩
    unfold Insn.isRelative
    dsimp only
    by_cases hb : bit word 24 ≠ 0
    · rw [if_pos hb]
    · rw [if_neg hb]
  | literal h h3 =>
    unfold decodeLdstLiteral
    dsimp only
    rw [if_neg h3]
    split
    · exact ⟨_, rfl, rfl, rfl⟩
    · exact ⟨_, rfl, rfl, rfl⟩

/-- **a relative word is decoded to its opcode** -/
theorem decode_relative {op : Opcode} (h : relativeOp word = some op) (pc : W64) :
    ∃ insn, decode word pc = .ok insn ∧ insn.op = op ∧ insn.isRelative = true := by
  obtain ⟨f, hr⟩ := relativeOp_route word h
  rw [route_decode word hr pc]
  exact route_ok word hr pc

theorem decodeDpImmediate_absolute (hg : bits word 25 4 = 8 ∨ bits word 25 4 = 9)
    (h : bits word 24 5 ≠ 16) (pc : W64) : Absolute (decodeDpImmediate word pc) := by
  have hne : bits word 23 3 ≠ 0 ∧ bits word 23 3 ≠ 1 := by
    simp only [bits_div] at hg h ⊢
    omega
  have hn := bits_lt word 23 3
  unfold decodeDpImmediate
  generalize bits word 23 3 = n at hn hne
  interval_cases n
  · exact absurd rfl hne.1
  · exact absurd rfl hne.2
  · exact decodeAddsubImm_absolute word
  · exact decodeAddsubImm_absolute word
  · exact decodeLogicalImm_absolute word
  · exact decodeMoveWide_absolute word
  · exact decodeBitfield_absolute word
  · exact decodeExtract_absolute word

/-- a word in the place of `B.cond` that is none -/
theorem decodeCondBranchImm_absolute (hg : bits word 25 4 = 10 ∨ bits word 25 4 = 11)
    (h2 : bits word 29 3 = 2) (h25 : bit word 25 = 0)
    (h : bits word 24 8 = 84 → bit word 4 ≠ 0) (pc : W64) :
    Absolute (decodeCondBranchImm word pc) := by
  have hlt := word.isLt
  unfold decodeCondBranchImm
  by_cases h24 : bit word 24 = 0
  · have h84 : bits word 24 8 = 84 := by
      unfold bit at h25 h24
      simp only [bits_div] at hg h2 h25 h24 ⊢
      omega
    rw [if_pos (.inr (h h84))]
    exact .error _
  · rw [if_pos (.inl h24)]
    exact .error _

theorem decodeBranchSystem_absolute (hg : bits word 25 4 = 10 ∨ bits word 25 4 = 11)
    (hb : bits word 26 5 ≠ 5) (hcond : bits word 24 8 = 84 → bit word 4 ≠ 0)
    (hcb : bits word 25 6 ≠ 26) (htb : bits word 25 6 ≠ 27) (pc : W64) :
    Absolute (decodeBranchSystem word pc) := by
  have hne : bits word 29 3 ≠ 0 ∧ bits word 29 3 ≠ 4 ∧ bits word 29 3 ≠ 1 ∧ bits word 29 3 ≠ 5 := by
    simp only [bits_div] at hg hb hcb htb ⊢
    omega
  have hcondition := fun h2 h25 => decodeCondBranchImm_absolute word hg h2 h25 hcond pc
  have hn := bits_lt word 29 3
  unfold decodeBranchSystem
  generalize bits word 29 3 = n at hn hne hcondition
  interval_cases n
  · exact absurd rfl hne.1
  · exact absurd rfl hne.2.2.1
  · show Absolute (if bit word 25 ≠ 0 then .error .decode else decodeCondBranchImm word pc)
    split
    · exact .error _
    · rename_i h25
      exact hcondition rfl (not_not.mp h25)
  · exact .error _
  · exact absurd rfl hne.2.1
  · exact absurd rfl hne.2.2.2
  · exact .ite (decodeUncondBranchReg_absolute word)
      (.ite (decodeException_absolute word) (decodeSystem_absolute word))
  · exact .error _

theorem decodeLdstLiteral_absolute (h : bits word 30 2 = 3) (pc : W64) :
    Absolute (decodeLdstLiteral word pc) := by
  unfold decodeLdstLiteral
  dsimp only
  rw [if_pos h]
  exact .ok rfl

theorem decodeLoadStore_absolute (hg : bits word 25 4 % 2 = 0 ∧ bits word 25 4 / 4 % 2 = 1)
    (h : bits word 24 6 = 24 → bits word 30 2 = 3) (pc : W64) :
    Absolute (decodeLoadStore word pc) := by
  unfold decodeLoadStore
  dsimp only
  split
  · exact .ite (decodeLdstVector_absolute word)
      (.ite (decodeLdstPairVector_absolute word) (.error _))
  · rename_i h26
    split
    · exact .ite (.error _) (decodeLdstExclusive_absolute word)
    · split
      · rename_i h28
        split
        · exact .error _
        · rename_i h24
          refine decodeLdstLiteral_absolute word (h ?_) pc
          unfold bit at h26 h24
          simp only [bits_div, ne_eq, not_not] at hg h26 h28 h24 ⊢
          omega
      · exact .ite (decodeLdstPair_absolute word) (.ite (decodeLdstUnsignedImm_absolute word)
          (.ite (decodeLdstRegOffset_absolute word) (decodeLdstImmUnscaled_absolute word)))

/-- **and no other word to a relative record** -/
theorem decode_absolute (h : relativeOp word = none) (pc : W64) : Absolute (decode word pc) := by
  obtain ⟨haddr, hb, hcond, hcb, htb, hlit⟩ := relativeOp_none word h
  have himm := fun hg => decodeDpImmediate_absolute word hg haddr pc
  have hbranch := fun hg => decodeBranchSystem_absolute word hg hb hcond hcb htb pc
  have hmemory := fun hg => decodeLoadStore_absolute word hg hlit pc
  have hvector : Absolute
      (if isVecDup word then decodeVecDup word else .error .unsupported) :=
    .ite (.ok rfl) (.error _)
  have hn := bits_lt word 25 4
  unfold decode
  generalize bits word 25 4 = n at hn himm hbranch hmemory
  interval_cases n
  · exact .ite (.error _) (.error _)
  · exact .ite (.error _) (.error _)
  · exact .ite (.error _) (.error _)
  · exact .ite (.error _) (.error _)
  · exact hmemory (by decide)
  · exact decodeDpRegister_absolute word
  · exact hmemory (by decide)
  · exact hvector
  · exact himm (.inl rfl)
  · exact himm (.inr rfl)
  · exact hbranch (.inl rfl)
  · exact hbranch (.inr rfl)
  · exact hmemory (by decide)
  · exact decodeDpRegister_absolute word
  · exact hmemory (by decide)
  · exact hvector

/-! ## two addresses -/

/-- the status of a decode, and the record it leaves: a refused word leaves a cleared one -/
def decodeOut (pc : W64) : Status × Insn :=
  match decode word pc with
  | .ok insn => (.ok, insn)
  | .error st => (st, Insn.reset word)

/-- what two decodes of one word have in common, and where they differ: a relative word is decoded
at every address, to the opcode and the distance its bits give -/
structure SameButPc (pc pc' : W64) : Prop where
  status : (decodeOut word pc').1 = (decodeOut word pc).1
  fields : (decodeOut word pc').2 =
    { (decodeOut word pc).2 with imm := (decodeOut word pc').2.imm }
  relative : ∀ op, relativeOp word = some op →
    (decodeOut word pc).1 = .ok ∧ (decodeOut word pc).2.op = op ∧
      (decodeOut word pc).2.imm =
        BitVec.ofInt 64 ((relativeBase op pc).toNat + displacement word op)
  moved : ∀ op, relativeOp word = some op →
    (decodeOut word pc').2.imm - (decodeOut word pc).2.imm =
      relativeBase op pc' - relativeBase op pc
  absolute : relativeOp word = none → (decodeOut word pc').2.imm = (decodeOut word pc).2.imm
  refused : (decodeOut word pc).1 ≠ .ok → (decodeOut word pc).2 = Insn.reset word

theorem decodeOut_placed (pc : W64) :
    decodeOut word pc = ((decodeOut word 0).1, (decodeOut word 0).2.placed pc) := by
  have hp := (decode_law word).placed pc
  unfold decodeOut
  rw [hp]
  cases decode word 0 with
  | error st => exact congrArg (st, ·) (Insn.placed_absolute rfl pc).symm
  | ok insn => rfl

theorem decodeOut_relative {op : Opcode} (h : relativeOp word = some op) (pc : W64) :
    (decodeOut word pc).1 = .ok ∧ (decodeOut word pc).2.op = op ∧
      (decodeOut word pc).2.imm =
        relativeBase op pc + BitVec.ofInt 64 (displacement word op) := by
  obtain ⟨insn, hd, rfl, hrel⟩ := decode_relative word h 0
  have h0 : decodeOut word 0 = (.ok, insn) := by
    unfold decodeOut
    rw [hd]
  rw [decodeOut_placed, h0]
  refine ⟨rfl, rfl, ?_⟩
  show insn.origin pc + insn.imm = _
  unfold Insn.origin
  rw [if_pos hrel, (decode_law word).displaced insn hd hrel]

theorem ofInt_base (b : W64) (d : Int) :
    b + BitVec.ofInt 64 d = BitVec.ofInt 64 (b.toNat + d) := by
  rw [BitVec.ofInt_add, BitVec.ofInt_natCast, BitVec.ofNat_toNat, BitVec.setWidth_eq]

/-- **a word at two addresses** -/
theorem decode_pc_law (pc pc' : W64) : SameButPc word pc pc' where
  status := by
    rw [decodeOut_placed word pc', decodeOut_placed word pc]
  fields := by
    rw [decodeOut_placed word pc', decodeOut_placed word pc]
    rfl
  relative := by
    intro op h
    obtain ⟨hst, hop, himm⟩ := decodeOut_relative word h pc
    exact ⟨hst, hop, himm.trans (ofInt_base _ _)⟩
  moved := by
    intro op h
    rw [(decodeOut_relative word h pc').2.2, (decodeOut_relative word h pc).2.2,
      BitVec.add_comm (relativeBase op pc), ← BitVec.sub_sub, BitVec.add_sub_cancel]
  absolute := by
    intro h
    have hrel : (decodeOut word 0).2.isRelative = false := by
      unfold decodeOut
      cases hd : decode word 0 with
      | error st => rfl
      | ok insn => exact decode_absolute word h 0 insn hd
    rw [decodeOut_placed word pc', decodeOut_placed word pc]
    rw [Insn.placed_absolute hrel, Insn.placed_absolute hrel]
  refused := by
    intro hst
    unfold decodeOut at hst ⊢
    cases hd : decode word pc with
    | error st => rfl
    | ok insn =>
      rw [hd] at hst
      exact absurd rfl hst

end Oemu
