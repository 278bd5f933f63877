import Oemu.Decode.Source
import Oemu.Exec.Operand
import Oemu.Exec.Width

/-!
# Bitfield moves

`SBFM`, `BFM` and `UBFM` bit by bit.  The field is taken down to bit 0 when it does not wrap and put
up to bit `width - immr` when it does; around it stands the sign, the old destination or zero.

* `bitfieldBit`       a bit of the architectural result;
* `bitfieldValue_bit` the executor's masks and shifts compute it;
* `bitfield_arch`     what a bitfield move writes, and what its aliases make of it.
-/

namespace Oemu

/-! ## the architecture -/

/-- bit `i` of the result of a bitfield move -/
def bitfieldBit (op : Opcode) (w : RegWidth) (immr imms : Nat) (src dst : W64) (i : Nat) : Bool :=
  if immr ≤ imms then
    if i ≤ imms - immr then src.getLsbD (i + immr)
    else
      match op with
      | .sbfm => src.getLsbD imms
      | .bfm => dst.getLsbD i
      | _ => false
  else
    if w.bits - immr ≤ i ∧ i ≤ w.bits - immr + imms then src.getLsbD (i - (w.bits - immr))
    else
      match op with
      | .sbfm => decide (w.bits - immr ≤ i) && src.getLsbD imms
      | .bfm => dst.getLsbD i
      | _ => false

/-- a value is the result of a bitfield move: its bits are, up to the width -/
def IsBitfield (op : Opcode) (w : RegWidth) (immr imms : Nat) (src dst v : W64) : Prop :=
  ∀ i, v.getLsbD i = (decide (i < w.bits) && bitfieldBit op w immr imms src dst i)

/-! ## masks -/

/-- the mask of a field at the bottom of a register -/
def fieldMask (w : RegWidth) (n : Nat) : W64 :=
  if n = w.bits then widthMask w else ((1 : W64) <<< n) - 1

theorem fieldMask_bit {w : RegWidth} {n : Nat} (hn : n ≤ w.bits) (i : Nat) :
    (fieldMask w n).getLsbD i = decide (i < n) := by
  unfold fieldMask
  by_cases h : n = w.bits
  · rw [if_pos h, widthMask_bit, h]
  · rw [if_neg h]
    exact mask_bit (by have := w.bits_le; omega) i

/-! ## the field -/

/-- the length of a field, with what stands below it -/
def fieldLen (w : RegWidth) (lsb msb : Nat) : Nat :=
  if msb < lsb then w.bits - lsb + msb + 1 else msb - lsb + 1

theorem fieldLen_le {w : RegWidth} {lsb msb : Nat} (hl : lsb < w.bits) (hm : msb < w.bits) :
    1 ≤ fieldLen w lsb msb ∧ fieldLen w lsb msb ≤ w.bits := by
  unfold fieldLen
  split <;> omega

section

variable {w : RegWidth} {lsb msb : Nat} (hl : lsb < w.bits) (hm : msb < w.bits) (src : W64)
include hl hm

/-- the field of a range that does not wrap is at the bottom -/
theorem extract_bit (h : lsb ≤ msb) (i : Nat) :
    (bitfieldExtract src lsb msb w &&& fieldMask w (fieldLen w lsb msb)).getLsbD i =
      (decide (i ≤ msb - lsb) && src.getLsbD (i + lsb)) := by
  have hb := w.bits_le
  have hlen : fieldLen w lsb msb = msb - lsb + 1 := if_neg (Nat.not_lt.mpr h)
  rw [BitVec.getLsbD_and, fieldMask_bit (fieldLen_le hl hm).2, hlen]
  by_cases hi : i ≤ msb - lsb
  · have hi' : i < msb - lsb + 1 := by omega
    rw [decide_eq_true hi, decide_eq_true hi', Bool.and_true, Bool.true_and]
    unfold bitfieldExtract
    rw [if_neg (Nat.not_lt.mpr h)]
    by_cases h0 : lsb = 0
    · rw [if_pos h0, h0, Nat.add_zero]
    · have hlow : i < w.bits - lsb := by omega
      rw [if_neg h0, BitVec.getLsbD_and, widthMask_bit, BitVec.getLsbD_or,
        BitVec.getLsbD_ushiftRight, BitVec.getLsbD_shiftLeft]
      simp [hlow, show i < w.bits by omega, Nat.add_comm]
  · have hi' : ¬ i < msb - lsb + 1 := by omega
    rw [decide_eq_false hi, decide_eq_false hi', Bool.and_false, Bool.false_and]

/-- the field of a range that wraps is at the top, with zeros below -/
theorem extract_wrapped_bit (h : msb < lsb) (i : Nat) :
    (bitfieldExtract src lsb msb w &&& fieldMask w (fieldLen w lsb msb)).getLsbD i =
      (decide (w.bits - lsb ≤ i ∧ i ≤ w.bits - lsb + msb) && src.getLsbD (i - (w.bits - lsb))) := by
  have hb := w.bits_le
  have hlen : fieldLen w lsb msb = w.bits - lsb + msb + 1 := if_pos h
  rw [BitVec.getLsbD_and, fieldMask_bit (fieldLen_le hl hm).2, hlen]
  unfold bitfieldExtract
  rw [if_pos h, BitVec.getLsbD_and, widthMask_bit, BitVec.getLsbD_shiftLeft]
  by_cases hi : w.bits - lsb ≤ i ∧ i ≤ w.bits - lsb + msb
  · simp [hi, show i < 64 by omega, show i < w.bits by omega,
      show i < w.bits - lsb + msb + 1 by omega]
  · rw [decide_eq_false hi, Bool.false_and]
    by_cases hlo : i < w.bits - lsb
    · simp [hlo]
    · simp [show ¬ i < w.bits - lsb + msb + 1 by omega]

/-- where the field stands: at the bottom, or from `width - immr` up -/
def InField (w : RegWidth) (lsb msb i : Nat) : Prop :=
  if msb < lsb then w.bits - lsb ≤ i ∧ i ≤ w.bits - lsb + msb else i ≤ msb - lsb

instance (w : RegWidth) (lsb msb i : Nat) : Decidable (InField w lsb msb i) :=
  inferInstanceAs (Decidable
    (if msb < lsb then w.bits - lsb ≤ i ∧ i ≤ w.bits - lsb + msb else i ≤ msb - lsb))

/-- where a bit of the field comes from -/
def fieldSource (w : RegWidth) (lsb msb i : Nat) : Nat :=
  if msb < lsb then i - (w.bits - lsb) else i + lsb

theorem field_bit (i : Nat) :
    (bitfieldExtract src lsb msb w &&& fieldMask w (fieldLen w lsb msb)).getLsbD i =
      (decide (InField w lsb msb i) && src.getLsbD (fieldSource w lsb msb i)) := by
  unfold InField fieldSource
  by_cases h : msb < lsb
  · rw [extract_wrapped_bit hl hm src h]
    simp only [if_pos h]
  · rw [extract_bit hl hm src (Nat.not_lt.mp h)]
    simp only [if_neg h]

/-- the top bit of the field is bit `imms` of the source -/
theorem field_top :
    (bitfieldExtract src lsb msb w &&& fieldMask w (fieldLen w lsb msb)).getLsbD
      (fieldLen w lsb msb - 1) = src.getLsbD msb := by
  rw [field_bit hl hm]
  unfold InField fieldSource fieldLen
  by_cases h : msb < lsb
  · simp only [if_pos h]
    have e : w.bits - lsb + msb + 1 - 1 - (w.bits - lsb) = msb := by omega
    have hin : w.bits - lsb ≤ w.bits - lsb + msb + 1 - 1 ∧
        w.bits - lsb + msb + 1 - 1 ≤ w.bits - lsb + msb := by omega
    rw [e, decide_eq_true hin, Bool.true_and]
  · simp only [if_neg h]
    have e : msb - lsb + 1 - 1 + lsb = msb := by omega
    have hin : msb - lsb + 1 - 1 ≤ msb - lsb := by omega
    rw [e, decide_eq_true hin, Bool.true_and]

theorem mergeMask_bit (i : Nat) :
    (if fieldLen w lsb msb - (if msb < lsb then w.bits - lsb else 0) = w.bits then widthMask w
      else (((1 : W64) <<< (fieldLen w lsb msb - (if msb < lsb then w.bits - lsb else 0))) - 1) <<<
        (if msb < lsb then w.bits - lsb else 0)).getLsbD i = decide (InField w lsb msb i) := by
  have hb := w.bits_le
  unfold InField fieldLen
  by_cases h : msb < lsb
  · simp only [if_pos h]
    have e : w.bits - lsb + msb + 1 - (w.bits - lsb) = msb + 1 := by omega
    rw [e, if_neg (by omega), BitVec.getLsbD_shiftLeft, mask_bit (by omega)]
    by_cases hi : w.bits - lsb ≤ i ∧ i ≤ w.bits - lsb + msb
    · simp [hi, show i < 64 by omega, show i - (w.bits - lsb) < msb + 1 by omega]
    · rw [decide_eq_false hi]
      by_cases hlo : i < w.bits - lsb
      · simp [hlo]
      · simp [show ¬ i - (w.bits - lsb) < msb + 1 by omega]
  · simp only [if_neg h, Nat.sub_zero, BitVec.shiftLeft_zero]
    have hm := fieldMask_bit (w := w) (n := msb - lsb + 1) (by omega) i
    unfold fieldMask at hm
    rw [hm]
    exact decide_eq_decide.mpr (by omega)

/-- what the sign fills: everything above the field -/
theorem signFill_bit (i : Nat) :
    (widthMask w &&& ~~~fieldMask w (fieldLen w lsb msb)).getLsbD i =
      (decide (i < w.bits) && decide (fieldLen w lsb msb ≤ i)) := by
  have hb := w.bits_le
  rw [BitVec.getLsbD_and, widthMask_bit, BitVec.getLsbD_not, fieldMask_bit (fieldLen_le hl hm).2]
  by_cases hi : i < w.bits
  · have e : decide (fieldLen w lsb msb ≤ i) = !decide (i < fieldLen w lsb msb) := by
      rw [← decide_not]
      exact decide_eq_decide.mpr Nat.not_lt.symm
    simp [hi, e, show i < 64 by omega]
  · simp [hi]

end

/-- the architectural result, by where a bit stands -/
theorem bitfieldBit_eq (op : Opcode) (w : RegWidth) (lsb msb : Nat) (src dst : W64) (i : Nat) :
    bitfieldBit op w lsb msb src dst i =
      if InField w lsb msb i then src.getLsbD (fieldSource w lsb msb i)
      else
        match op with
        | .sbfm => decide (fieldLen w lsb msb ≤ i) && src.getLsbD msb
        | .bfm => dst.getLsbD i
        | _ => false := by
  unfold bitfieldBit InField fieldSource fieldLen
  by_cases h : msb < lsb
  · simp only [if_pos h, if_neg (Nat.not_le.mpr h)]
    by_cases hi : w.bits - lsb ≤ i ∧ i ≤ w.bits - lsb + msb
    · rw [if_pos hi, if_pos hi]
    · rw [if_neg hi, if_neg hi]
      have e : w.bits - lsb ≤ i ↔ w.bits - lsb + msb + 1 ≤ i := by omega
      rw [decide_eq_decide.mpr e]
  · simp only [if_neg h, if_pos (Nat.not_lt.mp h)]
    by_cases hi : i ≤ msb - lsb
    · rw [if_pos hi, if_pos hi]
    · rw [if_neg hi, if_neg hi]
      have e : msb - lsb + 1 ≤ i := by omega
      rw [decide_eq_true e, Bool.true_and]

/-- a field, what is kept of the old destination, and the sign fill -/
theorem merge_bit (old fill : W64) {f dm : W64} {i : Nat} {inside top : Bool} (hi : i < 64)
    (hdm : dm.getLsbD i = inside) (hf : f.getLsbD i = (inside && top)) :
    ((old &&& ~~~dm) ||| (f &&& dm)).getLsbD i = (if inside then top else old.getLsbD i) ∧
      (f ||| fill).getLsbD i = (if inside then top || fill.getLsbD i else fill.getLsbD i) := by
  constructor
  · rw [BitVec.getLsbD_or, BitVec.getLsbD_and, BitVec.getLsbD_and, BitVec.getLsbD_not, hdm, hf]
    cases inside <;> simp [hi]
  · rw [BitVec.getLsbD_or, hf]
    cases inside <;> simp

/-- **the masks and shifts of the executor** compute the architectural result -/
theorem bitfieldResult_bit {insn : Insn} {o : Operands} (hl : insn.shiftAmount < insn.width.bits)
    (hm : insn.bitPos < insn.width.bits) {i : Nat} (hi : i < insn.width.bits) :
    (bitfieldResult insn o).getLsbD i =
      bitfieldBit insn.op insn.width insn.shiftAmount insn.bitPos (truncate o.n insn.width)
        (truncate o.d insn.width) i := by
  have hfield := field_bit hl hm (truncate o.n insn.width) i
  have htop := field_top hl hm (truncate o.n insn.width)
  have hmerge := mergeMask_bit hl hm i
  have hfill := signFill_bit hl hm i
  have hb := insn.width.bits_le
  have h64 : i < 64 := by omega
  have hin : InField insn.width insn.shiftAmount insn.bitPos i →
      i < fieldLen insn.width insn.shiftAmount insn.bitPos := by
    unfold InField fieldLen
    split <;> omega
  rw [bitfieldBit_eq]
  rw [decide_eq_true hi, Bool.true_and] at hfill
  by_cases hop : insn.op = .bfm
  · have e := (merge_bit (truncate o.d insn.width) 0 h64 hmerge hfield).1
    rw [hop]
    unfold bitfieldResult
    dsimp only
    rw [if_pos hop]
    refine e.trans ?_
    simp only [decide_eq_true_iff]
  · have hplain : (bitfieldExtract (truncate o.n insn.width) insn.shiftAmount insn.bitPos insn.width &&&
        fieldMask insn.width (fieldLen insn.width insn.shiftAmount insn.bitPos)).getLsbD i =
          if InField insn.width insn.shiftAmount insn.bitPos i then
            (truncate o.n insn.width).getLsbD
              (fieldSource insn.width insn.shiftAmount insn.bitPos i)
          else false := by
      rw [hfield]
      by_cases h : InField insn.width insn.shiftAmount insn.bitPos i
      · rw [decide_eq_true h, if_pos h, Bool.true_and]
      · rw [decide_eq_false h, if_neg h, Bool.false_and]
    unfold bitfieldResult
    dsimp only
    rw [if_neg hop]
    by_cases hs : insn.op = .sbfm
    · rw [hs]
      by_cases ht : (truncate o.n insn.width).getLsbD insn.bitPos = true
      · rw [if_pos ⟨rfl, (shift_and_one _ _).mpr (htop.trans ht)⟩]
        refine (BitVec.getLsbD_or).trans ?_
        refine (congrArg₂ _ hplain hfill).trans ?_
        by_cases h : InField insn.width insn.shiftAmount insn.bitPos i
        · rw [if_pos h, if_pos h, decide_eq_false (Nat.not_le.mpr (hin h)), Bool.or_false]
        · rw [if_neg h, if_neg h, ht, Bool.false_or, Bool.and_true]
      · rw [if_neg fun hc => ht (htop.symm.trans ((shift_and_one _ _).mp hc.2))]
        refine hplain.trans ?_
        rw [Bool.not_eq_true] at ht
        simp only [ht, Bool.and_false]
    · rw [if_neg fun hc => hs hc.1]
      refine hplain.trans ?_
      cases ho : insn.op <;> first | rfl | exact absurd ho hop | exact absurd ho hs

/-! ## the instruction -/

variable {word : W32} {pc : W64} {insn : Insn}

/-- the move that `opc`, bits 30:29, names -/
structure OpcNames (word : W32) (op : Opcode) : Prop where
  sbfm : op = .sbfm ↔ bits word 29 2 = 0
  bfm : op = .bfm ↔ bits word 29 2 = 1
  ubfm : op = .ubfm ↔ bits word 29 2 = 2

theorem bitfieldOpcode_names (h3 : bits word 29 2 ≠ 3) :
    OpcNames word (bitfieldOpcode (bits word 29 2)) := by
  have hlt : bits word 29 2 < 4 := bits_lt word 29 2
  constructor <;>
    generalize bits word 29 2 = opc at h3 hlt <;> interval_cases opc <;>
      first
      | exact absurd rfl h3
      | decide

theorem decodeBitfield_fields (h : decodeBitfield word = .ok insn) :
    OpcNames word insn.op ∧ insn.width = widthFromSf word ∧
      insn.rd = fieldRd word ∧ insn.rn = fieldRn word ∧
      insn.shiftAmount = bits word 16 6 ∧ insn.bitPos = bits word 10 6 ∧
      bits word 16 6 < (widthFromSf word).bits ∧ bits word 10 6 < (widthFromSf word).bits := by
  unfold decodeBitfield at h
  dsimp only at h
  split at h
  · cases h
  · rename_i h3
    split at h
    · cases h
    · split at h
      · cases h
      · rename_i hlt
        rw [not_or, not_le, not_le] at hlt
        cases h
        exact ⟨bitfieldOpcode_names h3, rfl, rfl, rfl, rfl, rfl, hlt.1, hlt.2⟩

theorem doBitfield_value (hd : decodeBitfield word = .ok insn) (r : Regs) :
    ∃ v, doBitfield r insn = (.ok, r.write (fieldRd word) (widthFromSf word) v) ∧
      IsBitfield insn.op (widthFromSf word) (bits word 16 6) (bits word 10 6)
        (r.read (fieldRn word) (widthFromSf word)) (r.read (fieldRd word) (widthFromSf word)) v := by
  obtain ⟨-, hw, hrd, hrn, hlsb, hmsb, hl, hm⟩ := decodeBitfield_fields hd
  refine ⟨truncate (bitfieldResult insn ⟨r.read (fieldRn word) (widthFromSf word), 0, 0,
    r.read (fieldRd word) (widthFromSf word), 0⟩) (widthFromSf word), ?_, ?_⟩
  · unfold doBitfield bitfieldResult
    dsimp only
    rw [hw, hlsb, hmsb, if_neg (by omega), hrn, hrd, truncate_read, truncate_read, write_truncate]
    rfl
  · intro i
    rw [truncate_bit]
    by_cases hi : i < (widthFromSf word).bits
    · rw [bitfieldResult_bit (by rw [hlsb, hw]; exact hl) (by rw [hmsb, hw]; exact hm)
        (by rw [hw]; exact hi), hw, hlsb, hmsb, truncate_read, truncate_read]
    · rw [decide_eq_false hi, Bool.false_and, Bool.false_and]

/-! ## aliases -/

section Alias

variable {op : Opcode} {w : RegWidth} {lsb k : Nat} (hk : 0 < k)
include hk

theorem bitfieldBit_down (src dst : W64) (i : Nat) :
    bitfieldBit op w lsb (lsb + k - 1) src dst i =
      if i < k then src.getLsbD (i + lsb)
      else
        match op with
        | .sbfm => src.getLsbD (lsb + k - 1)
        | .bfm => dst.getLsbD i
        | _ => false := by
  unfold bitfieldBit
  rw [if_pos (by omega)]
  by_cases h : i < k
  · rw [if_pos h, if_pos (by omega)]
  · rw [if_neg h, if_neg (by omega)]

variable (hfit : lsb + k ≤ w.bits)
include hfit

theorem bitfieldBit_up (src dst : W64) (i : Nat) :
    bitfieldBit op w ((w.bits - lsb) % w.bits) (k - 1) src dst i =
      if lsb ≤ i ∧ i < lsb + k then src.getLsbD (i - lsb)
      else
        match op with
        | .sbfm => decide (lsb ≤ i) && src.getLsbD (k - 1)
        | .bfm => dst.getLsbD i
        | _ => false := by
  unfold bitfieldBit
  by_cases h0 : lsb = 0
  · subst h0
    rw [Nat.sub_zero, Nat.mod_self, if_pos (Nat.zero_le _)]
    by_cases h : i < k
    · rw [if_pos (by omega), if_pos (by omega)]
      rfl
    · rw [if_neg (by omega), if_neg (by omega)]
      cases op <;> simp
  · have e : (w.bits - lsb) % w.bits = w.bits - lsb := Nat.mod_eq_of_lt (by omega)
    have e' : w.bits - (w.bits - lsb) = lsb := by omega
    rw [e, if_neg (by omega), e']
    by_cases h : lsb ≤ i ∧ i < lsb + k
    · rw [if_pos h, if_pos (by omega)]
    · rw [if_neg h, if_neg (by omega)]

end Alias

/-- the definitions of the aliases, for a field of `k` bits at `lsb` and for a shift by `n` -/
structure BitfieldAliases (op : Opcode) (w : RegWidth) (immr imms : Nat) (src dst v : W64) :
    Prop where
  ubfx : ∀ lsb k, 0 < k → lsb + k ≤ w.bits → immr = lsb → imms = lsb + k - 1 → op = .ubfm →
    v = (src.extractLsb' lsb k).setWidth 64
  sbfx : ∀ lsb k, 0 < k → lsb + k ≤ w.bits → immr = lsb → imms = lsb + k - 1 → op = .sbfm →
    v = truncate ((src.extractLsb' lsb k).signExtend 64) w
  bfxil : ∀ lsb k, 0 < k → lsb + k ≤ w.bits → immr = lsb → imms = lsb + k - 1 → op = .bfm →
    ∀ i, i < w.bits → v.getLsbD i = if i < k then src.getLsbD (i + lsb) else dst.getLsbD i
  ubfiz : ∀ lsb k, 0 < k → lsb + k ≤ w.bits → immr = (w.bits - lsb) % w.bits → imms = k - 1 →
    op = .ubfm → v = ((src.setWidth k).setWidth 64) <<< lsb
  sbfiz : ∀ lsb k, 0 < k → lsb + k ≤ w.bits → immr = (w.bits - lsb) % w.bits → imms = k - 1 →
    op = .sbfm → v = truncate (((src.setWidth k).signExtend 64) <<< lsb) w
  bfi : ∀ lsb k, 0 < k → lsb + k ≤ w.bits → immr = (w.bits - lsb) % w.bits → imms = k - 1 →
    op = .bfm → ∀ i, i < w.bits →
      v.getLsbD i = if lsb ≤ i ∧ i < lsb + k then src.getLsbD (i - lsb) else dst.getLsbD i
  lsl : ∀ n, n < w.bits → immr = (w.bits - n) % w.bits → imms = w.bits - 1 - n → op = .ubfm →
    v = truncate (src <<< n) w
  lsr : ∀ n, n < w.bits → immr = n → imms = w.bits - 1 → op = .ubfm → v = src >>> n
  asr : ∀ n, n < w.bits → immr = n → imms = w.bits - 1 → op = .sbfm →
    v = truncate (((src.setWidth w.bits).signExtend 64).sshiftRight n) w
  uxt : ∀ k, 0 < k → k ≤ w.bits → immr = 0 → imms = k - 1 → op = .ubfm →
    v = (src.setWidth k).setWidth 64
  sxt : ∀ k, 0 < k → k ≤ w.bits → immr = 0 → imms = k - 1 → op = .sbfm →
    v = truncate ((src.setWidth k).signExtend 64) w

theorem signExtend_field (x : W64) {lsb k : Nat} (hk : 0 < k) {i : Nat} (hi : i < 64) :
    ((x.extractLsb' lsb k).signExtend 64).getLsbD i =
      if i < k then x.getLsbD (lsb + i) else x.getLsbD (lsb + k - 1) := by
  rw [BitVec.getLsbD_signExtend, decide_eq_true hi, Bool.true_and, BitVec.msb_eq_getLsbD_last,
    BitVec.getLsbD_extractLsb', BitVec.getLsbD_extractLsb']
  have e : lsb + (k - 1) = lsb + k - 1 := by omega
  by_cases h : i < k
  · rw [if_pos h, if_pos h, decide_eq_true h, Bool.true_and]
  · rw [if_neg h, if_neg h, e, decide_eq_true (by omega : k - 1 < k), Bool.true_and]

theorem setWidth_eq_extract (x : W64) (k : Nat) : x.setWidth k = x.extractLsb' 0 k := by
  apply BitVec.eq_of_getLsbD_eq
  intro i hi
  rw [BitVec.getLsbD_setWidth, BitVec.getLsbD_extractLsb', Nat.zero_add]

theorem IsBitfield.ubfx {w : RegWidth} {src dst v : W64} {lsb k : Nat}
    (h : IsBitfield .ubfm w lsb (lsb + k - 1) src dst v) (hk : 0 < k) (hfit : lsb + k ≤ w.bits) :
    v = (src.extractLsb' lsb k).setWidth 64 := by
  apply BitVec.eq_of_getLsbD_eq
  intro i hi
  rw [h i, bitfieldBit_down hk, BitVec.getLsbD_setWidth, BitVec.getLsbD_extractLsb']
  by_cases hik : i < k
  · simp [hik, hi, show i < w.bits by omega, Nat.add_comm]
  · simp [hik]

theorem IsBitfield.sbfx {w : RegWidth} {src dst v : W64} {lsb k : Nat}
    (h : IsBitfield .sbfm w lsb (lsb + k - 1) src dst v) (hk : 0 < k) :
    v = truncate ((src.extractLsb' lsb k).signExtend 64) w := by
  apply BitVec.eq_of_getLsbD_eq
  intro i hi
  rw [h i, bitfieldBit_down hk, truncate_bit, signExtend_field src hk hi, Nat.add_comm i]

theorem sshiftRight_field (src : W64) {w : RegWidth} {n : Nat} (hn : n < w.bits) :
    truncate (((src.setWidth w.bits).signExtend 64).sshiftRight n) w =
      truncate ((src.extractLsb' n (w.bits - n)).signExtend 64) w := by
  have hb := w.bits_le
  apply BitVec.eq_of_getLsbD_eq
  intro i hi
  have hmsb : ((src.extractLsb' 0 w.bits).signExtend 64).msb = src.getLsbD (w.bits - 1) := by
    rw [BitVec.msb_eq_getLsbD_last, signExtend_field src (by omega) (by decide), Nat.zero_add,
      Nat.zero_add]
    by_cases h : 64 - 1 < w.bits
    · rw [if_pos h]
      congr 1
      omega
    · rw [if_neg h]
  rw [truncate_bit, truncate_bit, setWidth_eq_extract, BitVec.getLsbD_sshiftRight, hmsb,
    signExtend_field src (by omega) hi, decide_eq_false (Nat.not_le.mpr hi), Bool.not_false,
    Bool.true_and]
  by_cases hlt : n + i < w.bits
  · rw [if_pos (by omega : n + i < 64), signExtend_field src (by omega) (by omega), if_pos hlt,
      if_pos (by omega : i < w.bits - n), Nat.zero_add]
  · rw [if_neg (by omega : ¬ i < w.bits - n)]
    have e : n + (w.bits - n) - 1 = w.bits - 1 := by omega
    rw [e]
    by_cases h64 : n + i < 64
    · rw [if_pos h64, signExtend_field src (by omega) h64, if_neg hlt, Nat.zero_add]
    · rw [if_neg h64]

theorem IsBitfield.ubfiz {w : RegWidth} {src dst v : W64} {lsb k : Nat}
    (h : IsBitfield .ubfm w ((w.bits - lsb) % w.bits) (k - 1) src dst v) (hk : 0 < k)
    (hfit : lsb + k ≤ w.bits) : v = ((src.setWidth k).setWidth 64) <<< lsb := by
  have hb := w.bits_le
  apply BitVec.eq_of_getLsbD_eq
  intro i hi
  rw [h i, bitfieldBit_up hk hfit, BitVec.getLsbD_shiftLeft, BitVec.getLsbD_setWidth,
    BitVec.getLsbD_setWidth]
  by_cases hin : lsb ≤ i ∧ i < lsb + k
  · simp [hin, hi, show i < w.bits by omega, show i - lsb < 64 by omega,
      show i - lsb < k by omega]
  · by_cases hlo : i < lsb
    · simp [hlo, Nat.not_le.mpr hlo]
    · simp [hin, show ¬ i - lsb < k by omega]

theorem IsBitfield.sbfiz {w : RegWidth} {src dst v : W64} {lsb k : Nat}
    (h : IsBitfield .sbfm w ((w.bits - lsb) % w.bits) (k - 1) src dst v) (hk : 0 < k)
    (hfit : lsb + k ≤ w.bits) : v = truncate (((src.setWidth k).signExtend 64) <<< lsb) w := by
  have hb := w.bits_le
  apply BitVec.eq_of_getLsbD_eq
  intro i hi
  rw [h i, bitfieldBit_up hk hfit, truncate_bit, BitVec.getLsbD_shiftLeft, setWidth_eq_extract,
    signExtend_field src hk (by omega : i - lsb < 64), Nat.zero_add, Nat.zero_add]
  by_cases hlo : i < lsb
  · simp [hlo, Nat.not_le.mpr hlo]
  · by_cases hin : i < lsb + k
    · simp [hin, hi, hlo, Nat.not_lt.mp hlo, show i - lsb < k by omega]
    · simp [hin, hi, hlo, Nat.not_lt.mp hlo, show ¬ i - lsb < k by omega]

theorem IsBitfield.lsl {w : RegWidth} {src dst v : W64} {n : Nat}
    (h : IsBitfield .ubfm w ((w.bits - n) % w.bits) (w.bits - 1 - n) src dst v)
    (hn : n < w.bits) : v = truncate (src <<< n) w := by
  have hb := w.bits_le
  apply BitVec.eq_of_getLsbD_eq
  intro i hi
  have e : w.bits - 1 - n = (w.bits - n) - 1 := by omega
  rw [h i, e, bitfieldBit_up (by omega) (by omega), truncate_bit, BitVec.getLsbD_shiftLeft]
  by_cases hlt : i < w.bits
  · by_cases hlo : i < n
    · simp [hlo, Nat.not_le.mpr hlo]
    · simp [hlo, hlt, hi, Nat.not_lt.mp hlo, show i < n + (w.bits - n) by omega]
  · simp [hlt]

theorem IsBitfield.lsr {w : RegWidth} {src dst v : W64} {n : Nat}
    (h : IsBitfield .ubfm w n (w.bits - 1) src dst v) (hn : n < w.bits)
    (hsrc : truncate src w = src) : v = src >>> n := by
  apply BitVec.eq_of_getLsbD_eq
  intro i hi
  have e : w.bits - 1 = n + (w.bits - n) - 1 := by omega
  have hhigh : src.getLsbD (n + i) = (decide (n + i < w.bits) && src.getLsbD (n + i)) := by
    rw [← truncate_bit, hsrc]
  rw [h i, e, bitfieldBit_down (by omega), BitVec.getLsbD_ushiftRight, hhigh]
  by_cases hlt : i < w.bits - n
  · simp [hlt, show i < w.bits by omega, show n + i < w.bits by omega, Nat.add_comm]
  · simp [hlt, show ¬ n + i < w.bits by omega]

/-- **the architectural result gives the aliases their definitions** -/
theorem IsBitfield.aliases {op : Opcode} {w : RegWidth} {immr imms : Nat} {src dst v : W64}
    (h : IsBitfield op w immr imms src dst v) (hsrc : truncate src w = src) :
    BitfieldAliases op w immr imms src dst v where
  ubfx := by
    intro lsb k hk hfit hr hs hop
    subst hr hs hop
    exact h.ubfx hk hfit
  sbfx := by
    intro lsb k hk hfit hr hs hop
    subst hr hs hop
    exact h.sbfx hk
  bfxil := by
    intro lsb k hk hfit hr hs hop i hi
    subst hr hs hop
    rw [h i, bitfieldBit_down hk, decide_eq_true hi, Bool.true_and]
  ubfiz := by
    intro lsb k hk hfit hr hs hop
    subst hr hs hop
    exact h.ubfiz hk hfit
  sbfiz := by
    intro lsb k hk hfit hr hs hop
    subst hr hs hop
    exact h.sbfiz hk hfit
  bfi := by
    intro lsb k hk hfit hr hs hop i hi
    subst hr hs hop
    rw [h i, bitfieldBit_up hk hfit, decide_eq_true hi, Bool.true_and]
  lsl := by
    intro n hn hr hs hop
    subst hr hs hop
    exact h.lsl hn
  lsr := by
    intro n hn hr hs hop
    subst hr hs hop
    exact h.lsr hn hsrc
  asr := by
    intro n hn hr hs hop
    have e : imms = n + (w.bits - n) - 1 := by omega
    subst hr hop
    rw [e] at h
    rw [sshiftRight_field src hn]
    exact h.sbfx (by omega)
  uxt := by
    intro k hk hfit hr hs hop
    have e : imms = 0 + k - 1 := by omega
    subst hr hop
    rw [e] at h
    rw [setWidth_eq_extract]
    exact h.ubfx hk (by omega)
  sxt := by
    intro k hk hfit hr hs hop
    have e : imms = 0 + k - 1 := by omega
    subst hr hop
    rw [e] at h
    rw [setWidth_eq_extract]
    exact h.sbfx hk

/-- **bitfield moves**: an accepted `SBFM`, `BFM` or `UBFM` writes the architectural result of its
fields to its destination, moves on and changes nothing else; so each alias computes its
definition -/
theorem bitfield_arch {σ ε : Type} (h : decode word pc = .ok insn)
    (hop : insn.op = .sbfm ∨ insn.op = .bfm ∨ insn.op = .ubfm) (mem : Memops σ)
    (env : Option (EnvOps σ ε)) (cpu : Cpu) (s : σ × ε) :
    OpcNames word insn.op ∧
      bits word 16 6 < (widthFromSf word).bits ∧ bits word 10 6 < (widthFromSf word).bits ∧
      ∃ v, dispatchBus mem env cpu insn s =
          some ((.ok, { cpu with
            regs := (cpu.regs.write (fieldRd word) (widthFromSf word) v).advancePc }), s) ∧
        IsBitfield insn.op (widthFromSf word) (bits word 16 6) (bits word 10 6)
          (cpu.regs.read (fieldRn word) (widthFromSf word))
          (cpu.regs.read (fieldRd word) (widthFromSf word)) v ∧
        BitfieldAliases insn.op (widthFromSf word) (bits word 16 6) (bits word 10 6)
          (cpu.regs.read (fieldRn word) (widthFromSf word))
          (cpu.regs.read (fieldRd word) (widthFromSf word)) v := by
  have hdata : insn.op.family = .data := by
    rcases hop with ho | ho | ho <;> rw [ho] <;> rfl
  have hgroup : insn.op.group = .bitfield := by
    rcases hop with ho | ho | ho <;> rw [ho] <;> rfl
  have hsrc := decode_source h hdata
  rw [hgroup] at hsrc
  cases hsrc with
  | bitfield hd =>
    obtain ⟨hopc, -, -, -, -, -, hl, hm⟩ := decodeBitfield_fields hd
    obtain ⟨v, hrun, hv⟩ := doBitfield_value hd cpu.regs
    have hdp : dataProcessing cpu.regs insn =
        some (.ok, cpu.regs.write (fieldRd word) (widthFromSf word) v) := by
      rw [← hrun]
      unfold dataProcessing
      rcases hop with ho | ho | ho <;> rw [ho]
    exact ⟨hopc, hl, hm, v, dispatchBus_data mem env cpu s hdata hdp, hv,
      hv.aliases (truncate_read _ _ _)⟩

/-- `BFI X2, X0, #32, #32` puts the low word of the source over the high word -/
theorem bitfield_arch_bfi : ∃ insn, decode 0xB3607C02 0 = .ok insn ∧ insn.op = .bfm ∧
    ∀ cpu, ∃ v, dispatchBus Memory.memops (none : Option (EnvOps Memory Unit)) cpu insn
        (codeMemory 0xB3607C02, ()) =
          some ((.ok, { cpu with regs := (cpu.regs.write 2 .w64 v).advancePc }),
            (codeMemory 0xB3607C02, ())) ∧
      ∀ i, i < 64 → v.getLsbD i =
        if 32 ≤ i then (cpu.regs.read 0 .w64).getLsbD (i - 32)
        else (cpu.regs.read 2 .w64).getLsbD i := by
  refine ⟨_, rfl, rfl, fun cpu => ?_⟩
  obtain ⟨-, -, -, v, hrun, -, hal⟩ := @bitfield_arch 0xB3607C02 0 _ Memory Unit rfl
    (.inr (.inl rfl)) Memory.memops none cpu (codeMemory 0xB3607C02, ())
  refine ⟨v, hrun, fun i hi => ?_⟩
  refine (hal.bfi 32 32 (by decide) (by decide) (by decide) (by decide) rfl i hi).trans ?_
  by_cases h : 32 ≤ i
  · rw [if_pos ⟨h, hi⟩, if_pos h]
    rfl
  · rw [if_neg (fun hc => h hc.1), if_neg h]
    rfl

end Oemu
