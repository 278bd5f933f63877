import Oemu.Exec.LoadStore
import Oemu.Decode.Operand
import Oemu.Exec.Width

/-!
# Load and store addressing

Each decode function of the load and store space against the encoding: the record it makes stands
for the access of the word, field by field, except in four places.

* `unsignedImm_access`, `immUnscaled_access`, `regOffset_access`  one general register;
* `literal_access`, `vector_access`, `vectorPair_access`, `pair_access`, `ordered_access`  the rest;
* `Addressed`          the words outside the four places;
* `ldst_addressing`    they are the ones that access what they should.
-/

namespace Oemu

variable {word : W32} {pc : W64} {insn : Insn}

/-! ## fields -/

theorem ufield_uimm (word : W32) (lsb n : Nat) : ufield word lsb n = uimm word lsb n := by
  apply BitVec.eq_of_toNat_eq
  show _ = ((word.extractLsb' lsb n).setWidth 64).toNat
  rw [BitVec.toNat_setWidth, BitVec.extractLsb'_toNat]
  exact BitVec.toNat_ofNat _ _

theorem decodeSignExtend_eq {n : Nat} (h0 : 0 < n) (hn : n < 64) {v : W64} {x : BitVec n}
    (hv : ∀ i < 64, v.getLsbD i = x.getLsbD i) : decodeSignExtend v n = x.signExtend 64 := by
  have hmsb : x.msb = x.getLsbD (n - 1) := BitVec.msb_eq_getLsbD_last _
  have hsign : (v &&& (((1 : W64) <<< n) - 1)) &&& ((1 : W64) <<< (n - 1)) ≠ 0 ↔
      x.getLsbD (n - 1) = true := by
    rw [and_bit_ne (by omega), BitVec.getLsbD_and, mask_bit hn, hv _ (by omega)]
    simp [show n - 1 < n by omega]
  apply BitVec.eq_of_getLsbD_eq
  intro i hi
  unfold decodeSignExtend
  rw [if_neg (by omega)]
  dsimp only
  rw [BitVec.getLsbD_signExtend, hmsb]
  by_cases hs : x.getLsbD (n - 1) = true
  · rw [if_pos (hsign.mpr hs), BitVec.getLsbD_or, BitVec.getLsbD_not, BitVec.getLsbD_and,
      mask_bit hn, hv i hi, hs]
    by_cases hin : i < n
    · simp [hi, hin]
    · simp [hi, hin]
  · rw [if_neg (fun h => hs (hsign.mp h)), BitVec.getLsbD_and, mask_bit hn, hv i hi]
    by_cases hin : i < n
    · simp [hi, hin]
    · simp [hi, hin, Bool.eq_false_iff.mpr hs]

theorem sfield_simm (word : W32) (lsb : Nat) {n : Nat} (h0 : 0 < n) (hn : n < 64) :
    sfield word lsb n = simm word lsb n := by
  refine decodeSignExtend_eq h0 hn ?_
  intro i hi
  rw [ufield_uimm]
  exact (BitVec.getLsbD_setWidth _ _ _).trans (by rw [decide_eq_true hi, Bool.true_and])

theorem bits_two (word : W32) (l : Nat) :
    bits word l 2 = 0 ∨ bits word l 2 = 1 ∨ bits word l 2 = 2 ∨ bits word l 2 = 3 := by
  have hlt := bits_lt word l 2
  omega

theorem toMemSize_log2 {n : Nat} (h : n < 4) : (toMemSize n).log2 = n := by
  have h4 : n = 0 ∨ n = 1 ∨ n = 2 ∨ n = 3 := by omega
  rcases h4 with rfl | rfl | rfl | rfl <;> rfl

theorem toMemSize_eq_dword {n : Nat} (h : n < 4) : toMemSize n = .dword ↔ n = 3 := by
  have h4 : n = 0 ∨ n = 1 ∨ n = 2 ∨ n = 3 := by omega
  rcases h4 with rfl | rfl | rfl | rfl <;> decide

theorem toMemSize_eq_word {n : Nat} (h : n < 4) : toMemSize n = .word ↔ n = 2 := by
  have h4 : n = 0 ∨ n = 1 ∨ n = 2 ∨ n = 3 := by omega
  rcases h4 with rfl | rfl | rfl | rfl <;> decide

theorem toMemSize_ne_m128 (n : Nat) : toMemSize n ≠ .m128 := by
  unfold toMemSize
  split <;> decide

/-! ## addresses -/

theorem readG_base (hrn : insn.rn = field word 5) (r : Regs) :
    readG r insn.rn true .w64 = archBaseReg word r := by
  rw [readG_arch, hrn]
  rfl

theorem resolve_imm (he : insn.extendType = .uxtb) (hl : insn.extendIsLsl = false)
    (hrn : insn.rn = field word 5) (r : Regs) :
    ((resolveMemAddr r insn).1, insn.back r) =
      archIndexed (archBaseReg word r) insn.imm insn.indexMode := by
  unfold Insn.back resolveMemAddr
  have hno : ¬ (ExtendType.uxtb ≠ .uxtb ∨ false = true) := by decide
  dsimp only
  rw [readG_base hrn, he, hl, if_neg hno]
  cases insn.indexMode <;> rfl

theorem and_low32 (m : W64) : m &&& 0xFFFFFFFF = (m.setWidth 32).setWidth 64 := by
  have hmask : (0xFFFFFFFF : W64) = ((1 : W64) <<< 32) - 1 := by decide
  apply BitVec.eq_of_getLsbD_eq
  intro i hi
  rw [hmask, BitVec.getLsbD_and, mask_bit (by decide), BitVec.getLsbD_setWidth,
    BitVec.getLsbD_setWidth]
  simp [hi, Bool.and_comm]

theorem extendOperand_offset (word : W32) (r : Regs) (shift : Nat)
    (ho : bits word 13 3 &&& 2 ≠ 0) :
    extendOperand (readG r (field word 16) false .w64) (toExtendType (bits word 13 3)) shift =
      archOffset word r <<< shift := by
  have hm : readG r (field word 16) false .w64 = archReg r (field word 16) false := by
    rw [readG_arch]
    rfl
  have h8 : bits word 13 3 < 8 := bits_lt word 13 3
  have h4 : bits word 13 3 = 2 ∨ bits word 13 3 = 3 ∨ bits word 13 3 = 6 ∨ bits word 13 3 = 7 := by
    generalize bits word 13 3 = o at h8 ho
    interval_cases o <;> first | omega | exact absurd rfl ho
  rw [hm]
  unfold archOffset extendOperand
  rcases h4 with h | h | h | h <;> rw [h]
  · show (archReg r (field word 16) false &&& 0xFFFFFFFF) <<< shift = _
    rw [and_low32]
    rfl
  · rfl
  · rfl
  · rfl

theorem resolve_reg (he : insn.extendType ≠ .uxtb) (hi : insn.indexMode = .none)
    (hrn : insn.rn = field word 5) (r : Regs) :
    ((resolveMemAddr r insn).1, insn.back r) = archIndexed (archBaseReg word r)
      (extendOperand (readG r insn.rm false .w64) insn.extendType insn.shiftAmount) .none := by
  have hyes : insn.extendType ≠ .uxtb ∨ insn.extendIsLsl = true := .inl he
  unfold Insn.back resolveMemAddr
  dsimp only
  rw [readG_base hrn, hi, if_pos hyes]
  rfl

/-! ## one general register -/

/-- a record with the operation, the sign and the width of `size:opc` -/
structure Classified (word : W32) (insn : Insn) : Prop where
  vector : insn.isVector = false
  memSize : insn.memSize = toMemSize (bits word 30 2)
  opc : (insn.op = .hint ∧ archOpc (bits word 30 2) (bits word 22 2) = none) ∨
    (insn.op = .str ∧ archOpc (bits word 30 2) (bits word 22 2) =
      some (true, insn.width, insn.isSignedLoad)) ∨
    ((insn.op = .ldr ∨ insn.op = .ldrs) ∧ archOpc (bits word 30 2) (bits word 22 2) =
      some (false, insn.width, insn.isSignedLoad))

theorem Classified.fielded (hc : Classified word insn) (hk : insn.operandKind = .mem)
    (hrd : insn.rd = field word 0) (hrn : insn.rn = field word 5) : insn.Fielded word := by
  have hops : insn.op = .hint ∨ insn.op = .str ∨ insn.op = .ldr ∨ insn.op = .ldrs := by
    rcases hc.opc with ⟨h, -⟩ | ⟨h, -⟩ | ⟨h | h, -⟩
    · exact .inl h
    · exact .inr (.inl h)
    · exact .inr (.inr (.inl h))
    · exact .inr (.inr (.inr h))
  refine ⟨hrd, fun _ => hrn, fun h => ?_, fun h => ?_, fun h => ?_, fun _ => ?_, fun h => ?_⟩
  · rw [hk] at h
    cases h
  · rw [h] at hops
    exact absurd hops (by decide)
  · rcases h with h | h | h <;> rw [h] at hops <;> exact absurd hops (by decide)
  · rw [hc.memSize]
    exact toMemSize_ne_m128 _
  · rw [hc.vector] at h
    cases h

theorem Classified.access (hc : Classified word insn) (hk : insn.operandKind = .mem) (r : Regs) :
    insn.access r = archSingle word ((resolveMemAddr r insn).1, insn.back r) := by
  have hsingle : ∀ store, insn.single r store = ⟨.general, store, toMemSize (bits word 30 2),
      insn.width, insn.isSignedLoad, (resolveMemAddr r insn).1, insn.back r⟩ := by
    intro store
    have hi : ¬ insn.operandKind = .imm := by
      rw [hk]
      decide
    unfold Insn.single singleAddr
    rw [if_neg hi, if_neg hi, hc.memSize]
  have hv : ¬ insn.isVector = true := by
    rw [hc.vector]
    decide
  unfold archSingle Insn.access
  rcases hc.opc with ⟨h, ho⟩ | ⟨h, ho⟩ | ⟨h | h, ho⟩ <;> rw [h, ho]
  · rfl
  · dsimp only
    rw [if_neg hv, hsingle]
    rfl
  · dsimp only
    rw [if_neg hv, hsingle]
    rfl
  · dsimp only
    rw [hsingle]
    rfl

theorem ldstSingle_classified (h : ldstSingle word = .ok insn) :
    Classified word insn ∧ insn.extendType = .uxtb ∧ insn.extendIsLsl = false := by
  have h4 : bits word 30 2 < 4 := bits_lt word 30 2
  have ho4 : bits word 22 2 < 4 := bits_lt word 22 2
  have hd := toMemSize_eq_dword h4
  have hw := toMemSize_eq_word h4
  unfold ldstSingle classifyLoadStore at h
  dsimp only at h
  by_cases h0 : bits word 22 2 = 0
  · rw [if_pos h0] at h
    cases h
    refine ⟨⟨rfl, rfl, .inr (.inl ⟨rfl, ?_⟩)⟩, rfl, rfl⟩
    simp only [archOpc, h0, hd]
    rfl
  · rw [if_neg h0] at h
    by_cases h1 : bits word 22 2 = 1
    · rw [if_pos h1] at h
      cases h
      refine ⟨⟨rfl, rfl, .inr (.inr ⟨.inl rfl, ?_⟩)⟩, rfl, rfl⟩
      simp only [archOpc, h1, hd]
      rfl
    · rw [if_neg h1] at h
      by_cases h3 : bits word 30 2 = 3
      · rw [if_pos (hd.mpr h3)] at h
        by_cases h2 : bits word 22 2 = 2
        · rw [if_pos h2] at h
          cases h
          refine ⟨⟨rfl, rfl, .inl ⟨rfl, ?_⟩⟩, rfl, rfl⟩
          simp only [archOpc, h2, h3]
          rfl
        · rw [if_neg h2] at h
          cases h
      · rw [if_neg (fun h => h3 (hd.mp h))] at h
        by_cases h2 : bits word 22 2 = 2
        · rw [if_neg (fun h => absurd (h.2.symm.trans h2) (by decide))] at h
          cases h
          refine ⟨⟨rfl, rfl, .inr (.inr ⟨.inr rfl, ?_⟩)⟩, rfl, rfl⟩
          simp only [archOpc, h2, if_neg h3]
          rfl
        · have h3' : bits word 22 2 = 3 := by omega
          by_cases hword : bits word 30 2 = 2
          · rw [if_pos ⟨hw.mpr hword, h3'⟩] at h
            cases h
          · rw [if_neg (fun h => hword (hw.mp h.1))] at h
            cases h
            have h01 : bits word 30 2 = 0 ∨ bits word 30 2 = 1 := by omega
            refine ⟨⟨rfl, rfl, .inr (.inr ⟨.inr rfl, ?_⟩)⟩, rfl, rfl⟩
            simp only [archOpc, h3', if_pos h01]
            rfl

/-- of the classified words only a prefetch accesses nothing -/
theorem ldstSingle_prefetch (h : ldstSingle word = .ok insn) :
    archOpc (bits word 30 2) (bits word 22 2) = none ↔ bits word 30 2 = 3 ∧ bits word 22 2 = 2 := by
  have h4 : bits word 30 2 < 4 := bits_lt word 30 2
  have ho4 : bits word 22 2 < 4 := bits_lt word 22 2
  constructor
  · intro hn
    unfold archOpc at hn
    unfold ldstSingle classifyLoadStore at h
    dsimp only at h
    split at hn
    · cases hn
    · rename_i h0
      split at hn
      · cases hn
      · rename_i h1
        split at hn
        · rename_i h2
          split at hn
          · rename_i h3
            exact ⟨h3, h2⟩
          · cases hn
        · rename_i h2
          split at hn
          · cases hn
          · rename_i h01
            have h23 : bits word 30 2 = 2 ∨ bits word 30 2 = 3 := by omega
            have hopc : bits word 22 2 = 3 := by omega
            rw [hopc] at h
            rcases h23 with hs | hs <;> rw [hs] at h <;> cases h
  · rintro ⟨h3, h2⟩
    rw [h3, h2]
    rfl

theorem Classified.immediate (hc : Classified word insn) (he : insn.extendType = .uxtb)
    (hl : insn.extendIsLsl = false) (hk : insn.operandKind = .mem) (hrd : insn.rd = field word 0)
    (hrn : insn.rn = field word 5) :
    insn.Fielded word ∧ ∀ r, insn.access r =
      archSingle word (archIndexed (archBaseReg word r) insn.imm insn.indexMode) := by
  refine ⟨hc.fielded hk hrd hrn, fun r => ?_⟩
  rw [hc.access hk r, resolve_imm he hl hrn]

theorem Classified.offset (hc : Classified word insn) (he : insn.extendType ≠ .uxtb)
    (hi : insn.indexMode = .none) (hk : insn.operandKind = .mem) (hrd : insn.rd = field word 0)
    (hrn : insn.rn = field word 5) {P : Prop} (hP : P) :
    insn.Fielded word ∧ P ∧ ∀ r, insn.access r = archSingle word
      (archIndexed (archBaseReg word r)
        (extendOperand (readG r insn.rm false .w64) insn.extendType insn.shiftAmount) .none) := by
  refine ⟨hc.fielded hk hrd hrn, hP, fun r => ?_⟩
  rw [hc.access hk r, resolve_reg he hi hrn]

theorem unsignedImm_access (h : decodeLdstUnsignedImm word = .ok insn) :
    insn.Fielded word ∧ ∀ r, insn.access r = archSingle word
      (archIndexed (archBaseReg word r) (uimm word 10 12 <<< bits word 30 2) .none) := by
  unfold decodeLdstUnsignedImm at h
  cases hs : ldstSingle word with
  | error st =>
    rw [hs] at h
    cases h
  | ok base =>
    rw [hs] at h
    cases h
    obtain ⟨hc, he, hl⟩ := ldstSingle_classified hs
    have hlog : base.memSize.log2 = bits word 30 2 := by
      rw [hc.memSize]
      exact toMemSize_log2 (bits_lt word 30 2)
    rw [← ufield_uimm, ← hlog]
    exact Classified.immediate ⟨hc.vector, hc.memSize, hc.opc⟩ he hl rfl rfl rfl

theorem indexBits_form {n : Nat} (h : n < 4) :
    (match n with
      | 0 => IndexMode.none
      | 1 => .post
      | 3 => .pre
      | _ => .none) = indexBits n := by
  have h4 : n = 0 ∨ n = 1 ∨ n = 2 ∨ n = 3 := by omega
  rcases h4 with rfl | rfl | rfl | rfl <;> rfl

theorem immUnscaled_access (h : decodeLdstImmUnscaled word = .ok insn) :
    insn.Fielded word ∧ ∀ r, insn.access r = archSingle word
      (archIndexed (archBaseReg word r) (simm word 12 9) (indexBits (bits word 10 2))) := by
  unfold decodeLdstImmUnscaled at h
  cases hs : ldstSingle word with
  | error st =>
    rw [hs] at h
    cases h
  | ok base =>
    rw [hs] at h
    cases h
    obtain ⟨hc, he, hl⟩ := ldstSingle_classified hs
    rw [← sfield_simm word 12 (by decide) (by decide)]
    have h4 := bits_two word 10
    rcases h4 with h0 | h0 | h0 | h0 <;> rw [h0] <;>
      exact Classified.immediate ⟨hc.vector, hc.memSize, hc.opc⟩ he hl rfl rfl rfl

theorem regOffset_access (h : decodeLdstRegOffset word = .ok insn) :
    insn.Fielded word ∧
      (archOpc (bits word 30 2) (bits word 22 2) = none ↔
        bits word 30 2 = 3 ∧ bits word 22 2 = 2) ∧
      ∀ r, insn.access r = archSingle word (archIndexed (archBaseReg word r)
        (archOffset word r <<< (if bit word 12 = 1 then bits word 30 2 else 0)) .none) := by
  unfold decodeLdstRegOffset at h
  dsimp only at h
  by_cases ho : bits word 13 3 &&& 2 = 0
  · rw [if_pos ho] at h
    cases h
  · rw [if_neg ho] at h
    cases hs : ldstSingle word with
    | error st =>
      rw [hs] at h
      cases h
    | ok base =>
      rw [hs] at h
      cases h
      obtain ⟨hc, -, -⟩ := ldstSingle_classified hs
      have hlog : base.memSize.log2 = bits word 30 2 := by
        rw [hc.memSize]
        exact toMemSize_log2 (bits_lt word 30 2)
      have hext : toExtendType (bits word 13 3) ≠ .uxtb := by
        intro h
        apply ho
        unfold toExtendType at h
        split at h <;> first | (cases h; done) | skip
        rename_i hb
        rw [hb]
        rfl
      have hshift : (if bit word 12 ≠ 0 then base.memSize.log2 else 0) =
          if bit word 12 = 1 then bits word 30 2 else 0 := by
        rw [hlog]
        rcases bit_cases word 12 with h | h <;> rw [h] <;> rfl
      simp only [← hshift, ← extendOperand_offset word _ _ ho]
      refine Classified.offset ?_ hext rfl rfl rfl rfl (ldstSingle_prefetch hs)
      exact ⟨hc.vector, hc.memSize, hc.opc⟩

/-! ## the other forms -/

theorem literal_access (h : decodeLdstLiteral word pc = .ok insn) :
    (insn.op ≠ .hint → insn.Fielded word) ∧ ∀ r, insn.access r = archLiteral word pc := by
  have h4 := bits_two word 30
  have himm : branchTarget word pc 5 19 = pc + simm word 5 19 <<< 2 := by
    unfold branchTarget
    rw [sfield_simm word 5 (by decide) (by decide)]
  have hfield : ∀ i : Insn, i.op = .ldr ∨ i.op = .ldrs → i.rd = field word 0 →
      i.operandKind = .imm → i.isVector = false → i.memSize = .word ∨ i.memSize = .dword →
      i.Fielded word := by
    intro i hop hrd hk hv hm
    refine ⟨hrd, fun h => absurd hk h, fun _ => ⟨hv, hop⟩, fun h => ?_, fun h => ?_, fun _ h => ?_,
      fun h => ?_⟩
    · rw [h] at hop
      exact absurd hop (by decide)
    · rcases h with h | h | h <;> rw [h] at hop <;> exact absurd hop (by decide)
    · rw [h] at hm
      exact absurd hm (by decide)
    · rw [hv] at h
      cases h
  unfold decodeLdstLiteral at h
  unfold archLiteral
  rw [← himm]
  rcases h4 with h0 | h0 | h0 | h0 <;> rw [h0] at h ⊢ <;> cases h
  · exact ⟨fun _ => hfield _ (.inl rfl) rfl rfl rfl (.inl rfl), fun r => rfl⟩
  · exact ⟨fun _ => hfield _ (.inl rfl) rfl rfl rfl (.inr rfl), fun r => rfl⟩
  · exact ⟨fun _ => hfield _ (.inr rfl) rfl rfl rfl (.inl rfl), fun r => rfl⟩
  · exact ⟨fun h => absurd rfl h, fun r => rfl⟩

/-- the address and the writeback of a form, in an access -/
def MemAccess.at (kind : AccessKind) (store : Bool) (size : MemSize) (width : RegWidth)
    (signed : Bool) (p : W64 × Option W64) : MemAccess :=
  ⟨kind, store, size, width, signed, p.1, p.2⟩

/-- the fields of a record with a base and an immediate offset -/
structure Based (word : W32) (insn : Insn) : Prop where
  kind : insn.operandKind = .mem
  extend : insn.extendType = .uxtb
  lsl : insn.extendIsLsl = false
  rd : insn.rd = field word 0
  rn : insn.rn = field word 5

theorem Based.fielded (hb : Based word insn) (hrm : insn.op = .stxr → insn.rm = field word 16)
    (hrt2 : insn.op = .ldp ∨ insn.op = .stp ∨ insn.op = .ldpsw → insn.rt2 = field word 10)
    (hm : insn.isVector = false → insn.memSize ≠ .m128)
    (hv : insn.isVector = true →
      insn.op = .ldr ∨ insn.op = .str ∨ insn.op = .ldp ∨ insn.op = .stp) : insn.Fielded word := by
  refine ⟨hb.rd, fun _ => hb.rn, fun h => ?_, hrm, hrt2, hm, hv⟩
  rw [hb.kind] at h
  cases h

theorem Based.vector (hb : Based word insn) (kind : AccessKind) (store : Bool) (size : MemSize)
    (r : Regs) : insn.vector r kind store size = .at kind store size .w64 false
      (archIndexed (archBaseReg word r) insn.imm insn.indexMode) := by
  rw [← resolve_imm hb.extend hb.lsl hb.rn r]
  rfl

theorem Based.pair (hb : Based word insn) (store : Bool) (r : Regs) :
    insn.pair r store = .at .generalPair store insn.memSize insn.width insn.isSignedLoad
      (archIndexed (archBaseReg word r) insn.imm insn.indexMode) := by
  rw [← resolve_imm hb.extend hb.lsl hb.rn r]
  rfl

/-- the access of a vector word, as the decoder reads its offset -/
theorem vector_access (h : decodeLdstVector word = .ok insn) :
    insn.Fielded word ∧ (bit word 24 = 0 → bits word 10 2 ≠ 2) ∧
      ∀ r, insn.access r = some (.at .vector (bit word 22 = 0) .m128 .w64 false
        (if bit word 24 = 1 then archIndexed (archBaseReg word r) (uimm word 12 10 <<< 4) .none
        else archIndexed (archBaseReg word r) (simm word 12 9) (indexBits (bits word 10 2)))) := by
  have hrec : ∀ i : Insn, Based word i → i.isVector = true →
      i.op = (if bit word 22 ≠ 0 then .ldr else .str) → ∀ {P : Prop}, P →
      i.Fielded word ∧ P ∧ ∀ r, i.access r = some (.at .vector (bit word 22 = 0) .m128 .w64 false
        (archIndexed (archBaseReg word r) i.imm i.indexMode)) := by
    intro i hb hv hop P hP
    have hops : i.op = .ldr ∨ i.op = .str := by
      rw [hop]
      split
      · exact .inl rfl
      · exact .inr rfl
    refine ⟨hb.fielded (fun h => ?_) (fun h => ?_) (fun h => ?_) (fun _ => ?_), hP, fun r => ?_⟩
    · rw [h] at hops
      exact absurd hops (by decide)
    · rcases h with h | h | h <;> rw [h] at hops <;> exact absurd hops (by decide)
    · rw [hv] at h
      cases h
    · exact hops.elim .inl fun h => .inr (.inl h)
    · unfold Insn.access
      rcases bit_cases word 22 with h0 | h0
      · rw [h0, if_neg (by decide)] at hop
        rw [h0, hop]
        dsimp only
        rw [if_pos hv, hb.vector]
        rfl
      · rw [h0, if_pos (by decide)] at hop
        rw [h0, hop]
        dsimp only
        rw [if_pos hv, hb.vector]
        rfl
  unfold decodeLdstVector at h
  by_cases hq : bits word 30 2 ≠ 0 ∨ bit word 23 = 0
  · rw [if_pos hq] at h
    cases h
  · rw [if_neg hq] at h
    dsimp only at h
    rcases bit_cases word 24 with h24 | h24
    · rw [h24, if_neg (by decide)] at h
      have h4 := bits_two word 10
      rw [h24, ← sfield_simm word 12 (by decide) (by decide)]
      rcases h4 with h0 | h0 | h0 | h0 <;> rw [h0] at h ⊢
      · cases h
        exact hrec _ ⟨rfl, rfl, rfl, rfl, rfl⟩ rfl rfl fun _ => by decide
      · cases h
        exact hrec _ ⟨rfl, rfl, rfl, rfl, rfl⟩ rfl rfl fun _ => by decide
      · cases h
      · cases h
        exact hrec _ ⟨rfl, rfl, rfl, rfl, rfl⟩ rfl rfl fun _ => by decide
    · rw [h24, if_pos (by decide)] at h
      rw [h24, ← ufield_uimm]
      cases h
      exact hrec _ ⟨rfl, rfl, rfl, rfl, rfl⟩ rfl rfl fun h => absurd h (by decide)

theorem mul_one_shl (x : W64) (n : Nat) : x * ((1 : W64) <<< n) = x <<< n := by
  rw [BitVec.shiftLeft_eq_mul_twoPow x n, BitVec.twoPow_eq]
  rfl

theorem pairIndexMode_bits (n : Nat) : pairIndexMode n = indexBits n := by
  unfold pairIndexMode indexBits
  split
  · rfl
  · rfl
  · rfl
  · rename_i h1 _ h3
    rw [if_neg h1, if_neg h3]

/-- the immediate of a pair, scaled by the size of one register -/
theorem pair_imm (word : W32) (size : MemSize) :
    sfield word 15 7 * ((1 : W64) <<< size.log2) = simm word 15 7 <<< size.log2 := by
  rw [mul_one_shl, sfield_simm word 15 (by decide) (by decide)]

theorem pairAddr_eq (word : W32) (r : Regs) (size : MemSize) :
    archPairAddr word r size = archIndexed (archBaseReg word r)
      (sfield word 15 7 * ((1 : W64) <<< size.log2)) (pairIndexMode (bits word 23 2)) := by
  rw [pair_imm, pairIndexMode_bits]
  rfl

theorem vectorPair_access (h : decodeLdstPairVector word = .ok insn) :
    insn.Fielded word ∧ ∀ r, insn.access r = archVectorPair word r := by
  have hrec : ∀ (i : Insn) (size : MemSize), Based word i → i.isVector = true →
      i.op = (if bit word 22 ≠ 0 then .ldp else .stp) → i.rt2 = field word 10 → i.memSize = size →
      i.imm = sfield word 15 7 * ((1 : W64) <<< size.log2) →
      i.indexMode = pairIndexMode (bits word 23 2) →
      i.Fielded word ∧ ∀ r, i.access r =
        some (.at .vectorPair (bit word 22 = 0) size .w64 false (archPairAddr word r size)) := by
    intro i size hb hv hop hrt2 hm himm hmode
    have hops : i.op = .ldp ∨ i.op = .stp := by
      rw [hop]
      split
      · exact .inl rfl
      · exact .inr rfl
    refine ⟨hb.fielded (fun h => ?_) (fun _ => hrt2) (fun h => ?_) (fun _ => ?_), fun r => ?_⟩
    · rw [h] at hops
      exact absurd hops (by decide)
    · rw [hv] at h
      cases h
    · exact .inr (.inr hops)
    · unfold Insn.access
      rcases bit_cases word 22 with h0 | h0
      · rw [h0, if_neg (by decide)] at hop
        rw [h0, hop]
        dsimp only
        rw [if_pos hv, hb.vector, hm, himm, hmode, ← pairAddr_eq]
        rfl
      · rw [h0, if_pos (by decide)] at hop
        rw [h0, hop]
        dsimp only
        rw [if_pos hv, hb.vector, hm, himm, hmode, ← pairAddr_eq]
        rfl
  have h4 := bits_two word 30
  unfold decodeLdstPairVector at h
  unfold archVectorPair
  rcases h4 with h0 | h0 | h0 | h0 <;> rw [h0] at h ⊢ <;> cases h
  · exact hrec _ .word ⟨rfl, rfl, rfl, rfl, rfl⟩ rfl rfl rfl rfl rfl rfl
  · exact hrec _ .dword ⟨rfl, rfl, rfl, rfl, rfl⟩ rfl rfl rfl rfl rfl rfl
  · exact hrec _ .m128 ⟨rfl, rfl, rfl, rfl, rfl⟩ rfl rfl rfl rfl rfl rfl

/-- a non-temporal pair of signed words, which the architecture has not -/
def SignedNonTemporal (word : W32) : Prop := bits word 30 2 = 1 ∧ bits word 23 2 = 0

instance (word : W32) : Decidable (SignedNonTemporal word) := inferInstanceAs (Decidable (_ ∧ _))

theorem pair_access (h : decodeLdstPair word = .ok insn) :
    insn.Fielded word ∧
      ((SignedNonTemporal word ∧ ∀ r, archPair word r = none ∧ (insn.access r).isSome = true) ∨
        (¬ SignedNonTemporal word ∧ ∀ r, insn.access r = archPair word r)) := by
  have hrec : ∀ (i : Insn) (store : Bool) (size : MemSize) (width : RegWidth) (signed : Bool),
      Based word i → i.isVector = false →
      (store = true ∧ i.op = .stp ∨ store = false ∧ (i.op = .ldp ∨ i.op = .ldpsw)) →
      i.rt2 = field word 10 → i.memSize = size → i.width = width → i.isSignedLoad = signed →
      size ≠ .m128 → i.imm = sfield word 15 7 * ((1 : W64) <<< size.log2) →
      i.indexMode = pairIndexMode (bits word 23 2) →
      (SignedNonTemporal word ∧ (∀ r, archPair word r = none) ∨
        ¬ SignedNonTemporal word ∧ ∀ r, archPair word r =
          some (.at .generalPair store size width signed (archPairAddr word r size))) →
      i.Fielded word ∧
        ((SignedNonTemporal word ∧ ∀ r, archPair word r = none ∧ (i.access r).isSome = true) ∨
          (¬ SignedNonTemporal word ∧ ∀ r, i.access r = archPair word r)) := by
    intro i store size width signed hb hv hop hrt2 hm hw hs hn himm hmode harch
    have hvt : ¬ i.isVector = true := by
      rw [hv]
      decide
    have hacc : ∀ r, i.access r =
        some (.at .generalPair store size width signed (archPairAddr word r size)) := by
      intro r
      unfold Insn.access
      rcases hop with ⟨rfl, h⟩ | ⟨rfl, h | h⟩ <;> rw [h] <;> dsimp only
      · rw [if_neg hvt, hb.pair, hm, hw, hs, himm, hmode, ← pairAddr_eq]
      · rw [if_neg hvt, hb.pair, hm, hw, hs, himm, hmode, ← pairAddr_eq]
      · rw [hb.pair, hm, hw, hs, himm, hmode, ← pairAddr_eq]
    refine ⟨hb.fielded (fun h => ?_) (fun _ => hrt2) (fun _ => ?_) (fun h => ?_), ?_⟩
    · rw [h] at hop
      rcases hop with ⟨-, h⟩ | ⟨-, h | h⟩ <;> cases h
    · rw [hm]
      exact hn
    · exact absurd h hvt
    · rcases harch with ⟨hsn, ha⟩ | ⟨hsn, ha⟩
      · refine .inl ⟨hsn, fun r => ⟨ha r, ?_⟩⟩
        rw [hacc r]
        rfl
      · exact .inr ⟨hsn, fun r => (hacc r).trans (ha r).symm⟩
  have h4 := bits_two word 30
  have hnot : bits word 30 2 ≠ 1 → ¬ SignedNonTemporal word := fun h1 h => h1 h.1
  unfold decodeLdstPair at h
  rcases h4 with h0 | h0 | h0 | h0
  · have hn := hnot (by rw [h0]; decide)
    rcases bit_cases word 22 with h22 | h22
    · have ha : ∀ r, archPair word r =
          some (.at .generalPair true .word .w32 false (archPairAddr word r .word)) := by
        intro r
        unfold archPair
        rw [h0, h22]
        rfl
      rw [h0, h22] at h
      cases h
      exact hrec _ true .word .w32 false ⟨rfl, rfl, rfl, rfl, rfl⟩ rfl (.inl ⟨rfl, rfl⟩) rfl rfl rfl
        rfl (by decide) rfl rfl (.inr ⟨hn, ha⟩)
    · have ha : ∀ r, archPair word r =
          some (.at .generalPair false .word .w32 false (archPairAddr word r .word)) := by
        intro r
        unfold archPair
        rw [h0, h22]
        rfl
      rw [h0, h22] at h
      cases h
      exact hrec _ false .word .w32 false ⟨rfl, rfl, rfl, rfl, rfl⟩ rfl (.inr ⟨rfl, .inl rfl⟩) rfl
        rfl rfl rfl (by decide) rfl rfl (.inr ⟨hn, ha⟩)
  · rcases bit_cases word 22 with h22 | h22
    · rw [h0, h22] at h
      cases h
    · have ha : SignedNonTemporal word ∧ (∀ r, archPair word r = none) ∨
          ¬ SignedNonTemporal word ∧ ∀ r, archPair word r =
            some (.at .generalPair false .word .w64 true (archPairAddr word r .word)) := by
        by_cases hm : bits word 23 2 = 0
        · refine .inl ⟨⟨h0, hm⟩, fun r => ?_⟩
          unfold archPair
          rw [h0, h22, hm]
          rfl
        · refine .inr ⟨fun h => hm h.2, fun r => ?_⟩
          unfold archPair
          rw [h0, h22, if_neg (by decide), if_pos rfl, if_pos ⟨rfl, hm⟩]
          rfl
      rw [h0, h22] at h
      cases h
      exact hrec _ false .word .w64 true ⟨rfl, rfl, rfl, rfl, rfl⟩ rfl (.inr ⟨rfl, .inr rfl⟩) rfl
        rfl rfl rfl (by decide) rfl rfl ha
  · have hn := hnot (by rw [h0]; decide)
    rcases bit_cases word 22 with h22 | h22
    · have ha : ∀ r, archPair word r =
          some (.at .generalPair true .dword .w64 false (archPairAddr word r .dword)) := by
        intro r
        unfold archPair
        rw [h0, h22]
        rfl
      rw [h0, h22] at h
      cases h
      exact hrec _ true .dword .w64 false ⟨rfl, rfl, rfl, rfl, rfl⟩ rfl (.inl ⟨rfl, rfl⟩) rfl rfl
        rfl rfl (by decide) rfl rfl (.inr ⟨hn, ha⟩)
    · have ha : ∀ r, archPair word r =
          some (.at .generalPair false .dword .w64 false (archPairAddr word r .dword)) := by
        intro r
        unfold archPair
        rw [h0, h22]
        rfl
      rw [h0, h22] at h
      cases h
      exact hrec _ false .dword .w64 false ⟨rfl, rfl, rfl, rfl, rfl⟩ rfl (.inr ⟨rfl, .inl rfl⟩) rfl
        rfl rfl rfl (by decide) rfl rfl (.inr ⟨hn, ha⟩)
  · rw [h0] at h
    cases h

theorem ordered_access (h : decodeLdstExclusive word = .ok insn) :
    insn.Fielded word ∧ ∀ r, insn.access r = archOrdered word r := by
  have hwidth : (if toMemSize (bits word 30 2) = MemSize.dword then RegWidth.w64 else .w32) =
      if bits word 30 2 = 3 then .w64 else .w32 := by
    simp only [toMemSize_eq_dword (bits_lt word 30 2)]
  have hrec : ∀ (i : Insn), Based word i → i.isVector = false → i.indexMode = .none → i.imm = 0 →
      i.memSize = toMemSize (bits word 30 2) →
      i.width = (if toMemSize (bits word 30 2) = MemSize.dword then RegWidth.w64 else .w32) →
      i.isSignedLoad = false → i.rm = field word 16 → bit word 21 = 0 →
      (bit word 23 = 0 ∧ i.op = (if bit word 22 ≠ 0 then .ldxr else .stxr) ∨
        bit word 23 = 1 ∧ bit word 15 = 1 ∧ i.op = (if bit word 22 ≠ 0 then .ldar else .stlr)) →
      i.Fielded word ∧ ∀ r, i.access r = archOrdered word r := by
    intro i hb hv hmode himm hm hw hs hrm h21 hop
    have hvt : ¬ i.isVector = true := by
      rw [hv]
      decide
    have hki : ¬ i.operandKind = .imm := by
      rw [hb.kind]
      decide
    have hops : i.op = .ldxr ∨ i.op = .stxr ∨ i.op = .ldar ∨ i.op = .stlr := by
      rcases hop with ⟨-, h⟩ | ⟨-, -, h⟩
      · split at h
        · exact .inl h
        · exact .inr (.inl h)
      · split at h
        · exact .inr (.inr (.inl h))
        · exact .inr (.inr (.inr h))
    have hbase : ∀ r, (resolveMemAddr r i).1 = archBaseReg word r ∧ i.back r = none := by
      intro r
      have h := resolve_imm hb.extend hb.lsl hb.rn r
      have h0 : archBaseReg word r + 0 = archBaseReg word r := BitVec.add_zero _
      rw [hmode, himm] at h
      exact ⟨(congrArg Prod.fst h).trans h0, congrArg Prod.snd h⟩
    have hexcl : ∀ r store, i.exclusive r store = ⟨.exclusive, store, toMemSize (bits word 30 2),
        if bits word 30 2 = 3 then .w64 else .w32, false, archBaseReg word r, none⟩ := by
      intro r store
      unfold Insn.exclusive
      rw [hm, hw, hwidth, readG_base hb.rn]
    have hsing : ∀ r store, i.single r store = ⟨.general, store, toMemSize (bits word 30 2),
        if bits word 30 2 = 3 then .w64 else .w32, false, archBaseReg word r, none⟩ := by
      intro r store
      unfold Insn.single singleAddr
      rw [if_neg hki, if_neg hki, hm, hw, hwidth, hs, (hbase r).1, (hbase r).2]
    refine ⟨hb.fielded (fun _ => hrm) (fun h => ?_) (fun _ => ?_) (fun h => absurd h hvt),
      fun r => ?_⟩
    · rcases h with h | h | h <;> rw [h] at hops <;> exact absurd hops (by decide)
    · rw [hm]
      exact toMemSize_ne_m128 _
    · unfold Insn.access archOrdered
      rcases hop with ⟨h23, h⟩ | ⟨h23, h15, h⟩ <;> rcases bit_cases word 22 with h22 | h22
      · rw [h22, if_neg (by decide)] at h
        rw [h, h21, h23, h22, hexcl r true]
        rfl
      · rw [h22, if_pos (by decide)] at h
        rw [h, h21, h23, h22, hexcl r false]
        rfl
      · rw [h22, if_neg (by decide)] at h
        rw [h, h21, h23, h15, h22, hsing r true]
        rfl
      · rw [h22, if_pos (by decide)] at h
        rw [h, h21, h23, h15, h22, hsing r false]
        rfl
  unfold decodeLdstExclusive at h
  dsimp only at h
  rcases bit_cases word 21 with h21 | h21
  · rw [h21, if_neg (by decide)] at h
    rcases bit_cases word 23 with h23 | h23
    · rw [h23, if_pos rfl] at h
      cases h
      exact hrec _ ⟨rfl, rfl, rfl, rfl, rfl⟩ rfl rfl rfl rfl rfl rfl rfl h21 (.inl ⟨h23, rfl⟩)
    · rw [h23, if_neg (by decide)] at h
      rcases bit_cases word 15 with h15 | h15
      · rw [h15, if_pos rfl] at h
        cases h
      · rw [h15, if_neg (by decide)] at h
        cases h
        exact hrec _ ⟨rfl, rfl, rfl, rfl, rfl⟩ rfl rfl rfl rfl rfl rfl rfl h21
          (.inr ⟨h23, h15, rfl⟩)
  · rw [h21, if_pos (by decide)] at h
    cases h

/-! ## which words -/

/-- the loads and stores: bit 27 set, bit 25 clear -/
def LoadStore (word : W32) : Prop := bit word 27 = 1 ∧ bit word 25 = 0

/-- the words whose access the decoder reads off as the architecture does.  It takes the offset of a
128-bit vector access from bits 21:12 instead of 21:10, and it accepts three kinds of word the
architecture leaves unallocated. -/
structure Addressed (word : W32) : Prop where
  offset : bit word 26 = 1 → bits word 28 2 = 3 → bit word 24 = 1 → bits word 10 12 = 0
  unscaled : bit word 26 = 1 → bits word 28 2 = 3 → bit word 24 = 0 → bit word 21 = 0
  pair : bit word 26 = 0 → bits word 28 2 = 2 → ¬ SignedNonTemporal word
  register : bit word 26 = 0 → bits word 28 2 = 3 → bit word 24 = 0 → bit word 21 = 1 →
    bits word 10 2 = 2 ∨ (bits word 30 2 = 3 ∧ bits word 22 2 = 2)

variable {cpu : Cpu} {a : Option MemAccess}

theorem accesses_of_eq (hf : insn.op ≠ .hint → insn.Fielded word) (he : insn.access cpu.regs = a) :
    Accesses word cpu insn a := by
  rw [← he]
  exact access_performs hf

theorem not_accesses_none (hf : insn.op ≠ .hint → insn.Fielded word)
    (hs : (insn.access cpu.regs).isSome = true) : ¬ Accesses word cpu insn none := by
  intro hnone
  have hacc : Accesses word cpu insn (insn.access cpu.regs) := access_performs hf
  obtain ⟨b, hb⟩ := Option.isSome_iff_exists.mp hs
  rw [hb] at hacc
  obtain ⟨t, ht, -⟩ := hacc
  have hn : memPlan cpu insn = none := hnone
  rw [hn] at ht
  cases ht

theorem accesses_addr {b : MemAccess} (hf : insn.op ≠ .hint → insn.Fielded word)
    (he : insn.access cpu.regs = some b) {b' : MemAccess}
    (h : Accesses word cpu insn (some b')) : b.addr = b'.addr := by
  have hacc : Accesses word cpu insn (insn.access cpu.regs) := access_performs hf
  rw [he] at hacc
  obtain ⟨t, ht, hp⟩ := hacc
  obtain ⟨t', ht', hp'⟩ := h
  rw [ht] at ht'
  cases ht'
  exact hp.addr hp'

theorem uimm_toNat (word : W32) (lsb : Nat) {n : Nat} (hn : n ≤ 32) :
    (uimm word lsb n).toNat = bits word lsb n := by
  have hlt := bits_lt word lsb n
  have hpow : 2 ^ n ≤ 2 ^ 32 := Nat.pow_le_pow_right (by decide) hn
  rw [← ufield_uimm]
  show (BitVec.ofNat 64 (bits word lsb n)).toNat = _
  rw [BitVec.toNat_ofNat]
  omega

/-- the two readings of the offset agree on zero only -/
theorem vectorOffset_iff (word : W32) (base : W64) :
    base + uimm word 12 10 <<< 4 = base + uimm word 10 12 <<< 4 ↔ bits word 10 12 = 0 := by
  have h10 := uimm_toNat word 12 (n := 10) (by decide)
  have h12 := uimm_toNat word 10 (n := 12) (by decide)
  have hl10 := bits_lt word 12 10
  have hl12 := bits_lt word 10 12
  have hfour : bits word 12 10 = bits word 10 12 / 4 := by
    unfold bits
    simp only [Nat.shiftRight_eq_div_pow]
    omega
  have hshift : ∀ x : W64, x.toNat < 4096 → (x <<< 4).toNat = x.toNat * 16 := by
    intro x hx
    rw [BitVec.toNat_shiftLeft, Nat.shiftLeft_eq]
    omega
  constructor
  · intro h
    have he := congrArg BitVec.toNat ((BitVec.add_right_inj base).mp h)
    rw [hshift _ (by omega), hshift _ (by omega)] at he
    omega
  · intro h
    have he : uimm word 12 10 = uimm word 10 12 := BitVec.eq_of_toNat_eq (by omega)
    rw [he]

theorem vector_addressed (hv : bit word 26 = 1) (h28 : bits word 28 2 = 3)
    (h : decodeLdstVector word = .ok insn) :
    Accesses word cpu insn (archVector word cpu.regs) ↔ Addressed word := by
  obtain ⟨hf, hform, hacc⟩ := vector_access h
  have hv0 : bit word 26 ≠ 0 := by
    rw [hv]
    decide
  rcases bit_cases word 24 with h24 | h24
  · have hcode := hacc cpu.regs
    rw [h24, if_neg (by decide)] at hcode
    rcases bit_cases word 21 with h21 | h21
    · have ha : archVector word cpu.regs = insn.access cpu.regs := by
        unfold archVector
        rw [hcode, h24, h21, if_neg (by decide), if_pos ⟨rfl, hform h24⟩]
        rfl
      refine ⟨fun _ => ⟨fun _ _ h1 => ?_, fun _ _ _ => h21, fun h0 => absurd h0 hv0,
        fun h0 => absurd h0 hv0⟩, fun _ => accesses_of_eq (fun _ => hf) ha.symm⟩
      rw [h24] at h1
      cases h1
    · have ha : archVector word cpu.regs = none := by
        unfold archVector
        rw [h24, h21, if_neg (by decide), if_neg (fun h => absurd h.1 (by decide))]
      rw [ha]
      constructor
      · intro hn
        refine absurd hn (not_accesses_none (fun _ => hf) ?_)
        rw [hcode]
        rfl
      · intro had
        have h0 := had.unscaled hv h28 h24
        rw [h21] at h0
        cases h0
  · have hcode := hacc cpu.regs
    rw [h24, if_pos rfl] at hcode
    have ha : archVector word cpu.regs = some (.at .vector (bit word 22 = 0) .m128 .w64 false
        (archIndexed (archBaseReg word cpu.regs) (uimm word 10 12 <<< 4) .none)) := by
      unfold archVector
      rw [h24]
      rfl
    constructor
    · intro hp
      rw [ha] at hp
      have haddr := accesses_addr (fun _ => hf) hcode hp
      have hzero : bits word 10 12 = 0 :=
        (vectorOffset_iff word (archBaseReg word cpu.regs)).mp haddr
      refine ⟨fun _ _ _ => hzero, fun _ _ h0 => ?_, fun h0 => absurd h0 hv0,
        fun h0 => absurd h0 hv0⟩
      rw [h24] at h0
      cases h0
    · intro had
      have hoff := (vectorOffset_iff word (archBaseReg word cpu.regs)).mpr (had.offset hv h28 h24)
      refine accesses_of_eq (fun _ => hf) ?_
      rw [ha, hcode]
      show some (MemAccess.mk _ _ _ _ _ (_ + _) none) = some (MemAccess.mk _ _ _ _ _ (_ + _) none)
      rw [hoff]

theorem register_addressed (hv : bit word 26 = 0) (h28 : bits word 28 2 = 3)
    (h : (if bit word 24 ≠ 0 then decodeLdstUnsignedImm word
      else if bit word 21 ≠ 0 then decodeLdstRegOffset word
      else decodeLdstImmUnscaled word) = .ok insn) :
    Accesses word cpu insn (archRegister word cpu.regs) ↔ Addressed word := by
  have hno : ∀ {P : Prop}, bit word 26 = 1 → P := by
    intro P h1
    rw [hv] at h1
    cases h1
  have hno2 : bits word 28 2 = 2 → ¬ SignedNonTemporal word := by
    intro h2
    rw [h28] at h2
    cases h2
  rcases bit_cases word 24 with h24 | h24
  · rw [h24, if_neg (by decide)] at h
    rcases bit_cases word 21 with h21 | h21
    · rw [h21, if_neg (by decide)] at h
      obtain ⟨hf, hacc⟩ := immUnscaled_access h
      have ha : archRegister word cpu.regs = insn.access cpu.regs := by
        unfold archRegister
        rw [hacc, h24, h21, if_neg (by decide), if_pos rfl]
      refine ⟨fun _ => ⟨hno, hno, fun _ => hno2, fun _ _ _ h1 => ?_⟩,
        fun _ => accesses_of_eq (fun _ => hf) ha.symm⟩
      rw [h21] at h1
      cases h1
    · rw [h21, if_pos (by decide)] at h
      obtain ⟨hf, hpre, hacc⟩ := regOffset_access h
      by_cases h10 : bits word 10 2 = 2
      · have ha : archRegister word cpu.regs = insn.access cpu.regs := by
          unfold archRegister
          rw [hacc, h24, h21, if_neg (by decide), if_neg (by decide), if_pos h10]
        exact ⟨fun _ => ⟨hno, hno, fun _ => hno2, fun _ _ _ _ => .inl h10⟩,
          fun _ => accesses_of_eq (fun _ => hf) ha.symm⟩
      · have ha : archRegister word cpu.regs = none := by
          unfold archRegister
          rw [h24, h21, if_neg (by decide), if_neg (by decide), if_neg h10]
        have hcode := hacc cpu.regs
        unfold archSingle at hcode
        rw [ha]
        cases ho : archOpc (bits word 30 2) (bits word 22 2) with
        | none =>
          rw [ho] at hcode
          exact ⟨fun _ => ⟨hno, hno, fun _ => hno2, fun _ _ _ _ => .inr (hpre.mp ho)⟩,
            fun _ => accesses_of_eq (fun _ => hf) hcode⟩
        | some o =>
          rw [ho] at hcode
          constructor
          · intro hn
            refine absurd hn (not_accesses_none (fun _ => hf) ?_)
            rw [hcode]
            rfl
          · intro had
            have hor := (had.register hv h28 h24 h21).resolve_left h10
            rw [hpre.mpr hor] at ho
            cases ho
  · rw [h24, if_pos (by decide)] at h
    obtain ⟨hf, hacc⟩ := unsignedImm_access h
    have ha : archRegister word cpu.regs = insn.access cpu.regs := by
      unfold archRegister
      rw [hacc, h24, if_pos rfl]
    refine ⟨fun _ => ⟨hno, hno, fun _ => hno2, fun _ _ h0 => ?_⟩,
      fun _ => accesses_of_eq (fun _ => hf) ha.symm⟩
    rw [h24] at h0
    cases h0

theorem decodeLoadStore_addressed (h : decodeLoadStore word pc = .ok insn) :
    Accesses word cpu insn (archAccess word pc cpu.regs) ↔ Addressed word := by
  have h4 := bits_two word 28
  unfold decodeLoadStore at h
  unfold archAccess
  dsimp only at h
  rcases bit_cases word 26 with hv | hv
  · rw [hv, if_neg (by decide)] at h
    rw [if_neg (by rw [hv]; decide)]
    have hno : ∀ {P : Prop}, bit word 26 = 1 → P := by
      intro P h1
      rw [hv] at h1
      cases h1
    rcases h4 with h28 | h28 | h28 | h28
    · have had : Addressed word := ⟨hno, hno, fun _ h2 => (by rw [h28] at h2; cases h2),
        fun _ h3 => (by rw [h28] at h3; cases h3)⟩
      rw [h28, if_pos rfl] at h ⊢
      split at h
      · cases h
      · obtain ⟨hf, hacc⟩ := ordered_access h
        exact ⟨fun _ => had, fun _ => accesses_of_eq (fun _ => hf) (hacc _)⟩
    · have had : Addressed word := ⟨hno, hno, fun _ h2 => (by rw [h28] at h2; cases h2),
        fun _ h3 => (by rw [h28] at h3; cases h3)⟩
      rw [h28, if_neg (by decide), if_pos rfl] at h ⊢
      split at h
      · cases h
      · obtain ⟨hf, hacc⟩ := literal_access h
        exact ⟨fun _ => had, fun _ => accesses_of_eq hf (hacc _)⟩
    · have hno3 : ∀ {P : Prop}, bits word 28 2 = 3 → P := by
        intro P h3
        rw [h28] at h3
        cases h3
      rw [if_neg (by rw [h28]; decide), if_neg (by rw [h28]; decide), if_pos h28] at h ⊢
      obtain ⟨hf, ⟨hsn, hacc⟩ | ⟨hsn, hacc⟩⟩ := pair_access h
      · rw [(hacc cpu.regs).1]
        exact ⟨fun hn => absurd hn (not_accesses_none (fun _ => hf) (hacc cpu.regs).2),
          fun had => absurd hsn (had.pair hv h28)⟩
      · exact ⟨fun _ => ⟨hno, hno, fun _ _ => hsn, fun _ => hno3⟩,
          fun _ => accesses_of_eq (fun _ => hf) (hacc _)⟩
    · rw [if_neg (by rw [h28]; decide), if_neg (by rw [h28]; decide),
        if_neg (by rw [h28]; decide)] at h ⊢
      exact register_addressed hv h28 h
  · rw [hv, if_pos (by decide)] at h
    rw [if_pos hv]
    have hno : ∀ {P : Prop}, bit word 26 = 0 → P := by
      intro P h1
      rw [hv] at h1
      cases h1
    by_cases h3 : bits word 28 2 = 3 ∧ bits word 30 2 = 0 ∧ bit word 25 = 0
    · rw [if_pos h3] at h
      rw [if_neg (by rw [h3.1]; decide), if_pos h3.1]
      exact vector_addressed hv h3.1 h
    · rw [if_neg h3] at h
      by_cases h2 : bits word 28 2 = 2 ∧ bit word 25 = 0
      · have hno3 : ∀ {P : Prop}, bits word 28 2 = 3 → P := by
          intro P h0
          rw [h2.1] at h0
          cases h0
        rw [if_pos h2] at h
        rw [if_pos h2.1]
        obtain ⟨hf, hacc⟩ := vectorPair_access h
        exact ⟨fun _ => ⟨fun _ => hno3, fun _ => hno3, hno, hno⟩,
          fun _ => accesses_of_eq (fun _ => hf) (hacc _)⟩
      · rw [if_neg h2] at h
        cases h

theorem decode_loadStore (hls : LoadStore word) (h : decode word pc = .ok insn) :
    decodeLoadStore word pc = .ok insn := by
  have hg : bits word 25 4 = 4 ∨ bits word 25 4 = 6 ∨ bits word 25 4 = 12 ∨
      bits word 25 4 = 14 := by
    obtain ⟨h27, h25⟩ := hls
    unfold bit bits at *
    simp only [Nat.shiftRight_eq_div_pow] at *
    omega
  unfold decode at h
  rcases hg with hg | hg | hg | hg <;> rw [hg] at h <;> exact h

/-- **load and store addressing**: the executor runs the transaction of the record, and that is the
access the word asks for, in address, size, width, sign and writeback, exactly for the words the
decoder reads as the architecture does: not for a 128-bit access at a non-zero scaled offset, and
not for the unallocated words it accepts. -/
theorem ldst_addressing (h : decode word pc = .ok insn) (hls : LoadStore word) (cpu : Cpu) :
    (Accesses word cpu insn (archAccess word pc cpu.regs) ↔ Addressed word) ∧
      ∀ {σ : Type} (mem : Memops σ), dispatchShared mem cpu insn =
        (memPlan cpu insn).elim (pure (dispatchPure cpu insn)) (armOf mem cpu) := by
  refine ⟨decodeLoadStore_addressed (decode_loadStore hls h), fun mem => ?_⟩
  rw [dispatchShared_eq]
  cases memPlan cpu insn <;> rfl

/-- `ldr x0, [x1, #8]` -/
theorem ldst_addressing_ldr : ∃ insn, decode 0xF9400420 0 = .ok insn ∧
    Accesses 0xF9400420 (Cpu.init 0 0) insn (archAccess 0xF9400420 0 (Cpu.init 0 0).regs) := by
  have hdec : decode 0xF9400420 0 = .ok _ := rfl
  have hls : LoadStore 0xF9400420 := ⟨by decide, by decide⟩
  refine ⟨_, hdec, (ldst_addressing hdec hls (Cpu.init 0 0)).1.mpr ⟨?_, ?_, ?_, ?_⟩⟩
    <;> decide

/-- `str q0, [x0, #16]` stores at `x0`, its two halves there and 8 bytes on -/
theorem str_q0_offset :
    ∃ insn t, decode 0x3D800400 0 = .ok insn ∧ memPlan (Cpu.init 0 0) insn = some t ∧
      (archAccess 0x3D800400 0 (Cpu.init 0 0).regs).map MemAccess.addr = some 16 ∧
      t.checks.map Check.addr = [0, 8] ∧
      ¬ Accesses 0x3D800400 (Cpu.init 0 0) insn (archAccess 0x3D800400 0 (Cpu.init 0 0).regs) := by
  have hdec : decode 0x3D800400 0 = .ok _ := rfl
  refine ⟨_, _, hdec, rfl, by decide +kernel, by decide +kernel, ?_⟩
  rintro ⟨t, ht, hp⟩
  have hc := hp.checks
  cases ht
  revert hc
  decide +kernel

end Oemu
