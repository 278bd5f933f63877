import Oemu.Exec.Shifter
import Oemu.Lib.BitCount

/-!
# Counting and reversing bits

The loops of the executor against the counts of a word of the operand width.

* `clz_eq`, `rbit_eq`   the leading zeros and the reversed word;
* `cls_eq`              the signs, for a word that is neither zero nor all ones: for those two the
                        executor has nothing to report;
* `bit_counts`          the instructions.
-/

namespace Oemu

open BitCount

/-! ## leading zeros -/

/-- the loop stops at the highest set bit -/
theorem clzLoop_spec {v : W64} : ∀ b, (∃ i ≤ b, v.getLsbD i = true) →
    clzLoop v b ≤ b ∧ v.getLsbD (b - clzLoop v b) = true ∧
      ∀ j < clzLoop v b, v.getLsbD (b - j) = false := by
  intro b
  induction b with
  | zero =>
    rintro ⟨i, hi, hset⟩
    obtain rfl : i = 0 := by omega
    exact ⟨le_refl _, hset, fun j hj => absurd hj (Nat.not_lt_zero j)⟩
  | succ b ih =>
    rintro ⟨i, hi, hset⟩
    unfold clzLoop
    by_cases hb : v.getLsbD (b + 1) = true
    · rw [if_pos hb]
      exact ⟨Nat.zero_le _, hb, fun j hj => absurd hj (Nat.not_lt_zero j)⟩
    · have hlow : i ≤ b := by
        by_contra hgt
        obtain rfl : i = b + 1 := by omega
        exact hb hset
      obtain ⟨hle, hat, hall⟩ := ih ⟨i, hlow, hset⟩
      rw [if_neg hb]
      refine ⟨by omega, ?_, ?_⟩
      · rw [Nat.add_sub_add_right]
        exact hat
      · intro j hj
        cases j with
        | zero => exact Bool.not_eq_true _ ▸ hb
        | succ j =>
          rw [Nat.add_sub_add_right]
          exact hall j (by omega)

theorem exists_bit {n : Nat} {v : BitVec n} (h : v ≠ 0#n) : ∃ i < n, v.getLsbD i = true := by
  by_contra hno
  apply h
  apply BitVec.eq_of_getLsbD_eq
  intro i hi
  rw [BitVec.getLsbD_zero, ← Bool.not_eq_true]
  exact fun hset => hno ⟨i, hi, hset⟩

theorem clz64Ref_eq (v : W64) : clz64Ref v = BitVec.ofNat 64 (leadingZeros v) := by
  unfold clz64Ref
  by_cases h0 : v = 0
  · have e : leadingZeros v = 64 := by
      rw [h0]
      exact leadingZeros_zero
    exact (if_pos h0).trans (congrArg (BitVec.ofNat 64) e).symm
  · obtain ⟨i, hi, hset⟩ := exists_bit h0
    obtain ⟨hle, hat, hall⟩ := clzLoop_spec 63 ⟨i, by omega, hset⟩
    rw [if_neg h0, leadingZeros_of_bit (by omega) hat hall]

/-- a word of thirty-two bits, moved to the top of one of sixty-four -/
theorem leadingZeros_moved {v : W64} (h0 : low .w32 v ≠ 0#32) :
    leadingZeros ((v &&& 0xFFFFFFFF) <<< 32) = leadingZeros (low .w32 v) := by
  obtain ⟨hend, hall⟩ := leadingZeros_eq_iff.mp (rfl : leadingZeros (low .w32 v) = _)
  have hne : leadingZeros (low .w32 v) ≠ RegWidth.w32.bits := by
    intro he
    obtain ⟨i, hi, hset⟩ := exists_bit h0
    have hi : i < 32 := hi
    refine hall (31 - i) (by rw [he]; show 31 - i < 32; omega) (.inr ?_)
    show (low .w32 v).getLsbD (32 - 1 - (31 - i)) = true
    rw [show 32 - 1 - (31 - i) = i by omega]
    exact hset
  have hle : leadingZeros (low .w32 v) < 32 :=
    lt_of_le_of_ne (Nat.find_min' _ (.inl rfl)) hne
  have hat := hend.resolve_left hne
  generalize leadingZeros (low .w32 v) = k at hall hle hat
  have hbit : ∀ j < 32, (((v &&& 0xFFFFFFFF) <<< 32 : W64)).getLsbD (64 - 1 - j) =
      (low .w32 v).getLsbD (32 - 1 - j) := by
    intro j hj
    have htr := truncate_bit v .w32 (64 - 1 - j - 32)
    change (v &&& 0xFFFFFFFF).getLsbD _ = _ at htr
    rw [BitVec.getLsbD_shiftLeft, htr, low_bit, decide_eq_true (by omega : 64 - 1 - j < 64),
      decide_eq_false (by omega : ¬ 64 - 1 - j < 32), show 64 - 1 - j - 32 = 32 - 1 - j by omega]
    rfl
  refine leadingZeros_of_bit (by omega) ?_ ?_
  · rw [hbit k hle]
    exact hat
  · intro j hj
    rw [hbit j (by omega), ← Bool.not_eq_true]
    exact fun h => hall j hj (.inr h)

/-- **the count of leading zeros** at the operand width -/
theorem clz_eq (v : W64) (w : RegWidth) : clz v w = BitVec.ofNat 64 (leadingZeros (low w v)) := by
  cases w with
  | w64 =>
    show clz64Ref v = _
    rw [clz64Ref_eq, show low .w64 v = v from BitVec.setWidth_eq v]
    rfl
  | w32 =>
    have hz : v &&& 0xFFFFFFFF = 0 ↔ low .w32 v = 0#32 := by
      have ht := truncate_low .w32 v
      change v &&& 0xFFFFFFFF = _ at ht
      constructor
      · intro h
        rw [← low_truncate]
        show low .w32 (v &&& 0xFFFFFFFF) = 0#32
        rw [h]
        rfl
      · intro h
        rw [ht, h]
        rfl
    show (if v &&& 0xFFFFFFFF = 0 then 32 else clz64Ref ((v &&& 0xFFFFFFFF) <<< 32)) = _
    by_cases h0 : low .w32 v = 0#32
    · rw [if_pos (hz.mpr h0), h0]
      show _ = BitVec.ofNat 64 (leadingZeros 0#32)
      rw [leadingZeros_zero]
      rfl
    · rw [if_neg (mt hz.mp h0), clz64Ref_eq, leadingZeros_moved h0]

/-! ## signs -/

theorem and_widthMask (w : RegWidth) (v : W64) : v &&& widthMask w = truncate v w := by
  apply BitVec.eq_of_getLsbD_eq
  intro i _
  rw [BitVec.getLsbD_and, widthMask_bit, Bool.and_comm, ← truncate_bit]

theorem low_widthMask (w : RegWidth) : low w (widthMask w) = BitVec.allOnes w.bits := by
  cases w <;> rfl

/-- the executor's special case: a word with no bits to report -/
def AllSame (w : RegWidth) (v : W64) : Prop :=
  low w v = 0#w.bits ∨ low w v = BitVec.allOnes w.bits

theorem truncate_eq_iff (w : RegWidth) (v x : W64) (hx : truncate x w = x) :
    truncate v w = x ↔ low w v = low w x := by
  constructor
  · intro h
    rw [← h, low_truncate]
  · intro h
    rw [← hx, truncate_low, truncate_low, h]

/-- **the count of signs** -/
theorem cls_eq (v : W64) (w : RegWidth) :
    (AllSame w v → cls v w = 0) ∧
      (¬ AllSame w v → cls v w = BitVec.ofNat 64 (leadingSigns (low w v))) := by
  have hpos := w.bits_pos
  have hb := w.bits_le
  have hzero : truncate v w = 0 ↔ low w v = 0#w.bits := by
    have h := truncate_eq_iff w v 0 (by cases w <;> rfl)
    have e : low w (0 : W64) = 0#w.bits := by cases w <;> rfl
    rw [e] at h
    exact h
  have hones : truncate v w = widthMask w ↔ low w v = BitVec.allOnes w.bits := by
    have h := truncate_eq_iff w v (widthMask w) (by cases w <;> rfl)
    rw [low_widthMask] at h
    exact h
  have hguard : (truncate v w = 0 ∨ truncate v w = widthMask w) ↔ AllSame w v :=
    or_congr hzero hones
  unfold cls
  dsimp only
  rw [and_widthMask]
  constructor
  · intro h
    exact if_pos (hguard.mpr h)
  · intro h
    rw [if_neg (mt hguard.mp h), clz_eq]
    have hsign : (truncate v w >>> (w.bits - 1) ≠ 0) ↔ (low w v).getLsbD (w.bits - 1) = true := by
      rw [low_bit, decide_eq_true (by omega), Bool.true_and]
      constructor
      · intro hne
        obtain ⟨i, hi, hset⟩ := exists_bit hne
        rw [BitVec.getLsbD_ushiftRight, truncate_bit] at hset
        have hlt : w.bits - 1 + i < w.bits := by
          by_contra hge
          rw [decide_eq_false hge, Bool.false_and] at hset
          cases hset
        obtain rfl : i = 0 := by omega
        rw [decide_eq_true hlt, Bool.true_and] at hset
        exact hset
      · intro hset hz
        have hbit : (truncate v w >>> (w.bits - 1)).getLsbD 0 = (0 : W64).getLsbD 0 := by
          rw [hz]
        rw [BitVec.getLsbD_ushiftRight, truncate_bit, decide_eq_true (by omega), Bool.true_and,
          Nat.add_zero, hset] at hbit
        exact absurd hbit (by decide)
    have hlow : low w (truncate v w ^^^ if truncate v w >>> (w.bits - 1) ≠ 0 then widthMask w else 0) =
        unsigned (low w v) := by
      unfold unsigned
      rw [low_xor, low_truncate]
      by_cases hs : (low w v).getLsbD (w.bits - 1) = true
      · rw [if_pos (hsign.mpr hs), if_pos hs, low_widthMask, BitVec.xor_allOnes]
      · rw [if_neg (mt hsign.mp hs), if_neg hs]
        have e : low w (0 : W64) = 0#w.bits := by cases w <;> rfl
        rw [e, BitVec.xor_zero]
    rw [hlow, leadingZeros_signs (fun h0 => h (.inl h0)) (fun h1 => h (.inr h1))]
    show BitVec.ofNat 64 (leadingSigns (low w v) + 1) - 1 = _
    rw [BitVec.ofNat_add]
    exact BitVec.add_sub_cancel _ _

/-! ## reversal -/

theorem rbit_bit (v : W64) (w : RegWidth) {j : Nat} (hj : j < w.bits) :
    (rbit v w).getLsbD j = v.getLsbD (w.bits - 1 - j) := by
  have hb := w.bits_le
  have hstep : (fun (out : W64) (i : Nat) =>
      if v.getLsbD i then out ||| ((1 : W64) <<< (w.bits - 1 - i)) else out) =
      fun out i => out ||| if v.getLsbD i then (1 : W64) <<< (w.bits - 1 - i) else 0 := by
    funext out i
    by_cases hv : v.getLsbD i = true
    · rw [if_pos hv, if_pos hv]
    · rw [if_neg hv, if_neg hv]
      exact BitVec.or_zero.symm
  have hone : ∀ i < w.bits, (if v.getLsbD i then (1 : W64) <<< (w.bits - 1 - i) else 0).getLsbD j =
      (decide (i = w.bits - 1 - j) && v.getLsbD i) := by
    intro i hi
    by_cases hv : v.getLsbD i = true
    · rw [if_pos hv, hv, Bool.and_true, show (1 : W64) = BitVec.twoPow 64 0 by decide,
        BitVec.getLsbD_shiftLeft, BitVec.getLsbD_twoPow, decide_eq_true (by omega : j < 64)]
      by_cases he : i = w.bits - 1 - j
      · simp [he, show ¬ j < w.bits - 1 - (w.bits - 1 - j) by omega,
          show j - (w.bits - 1 - (w.bits - 1 - j)) = 0 by omega]
      · by_cases hlt : j < w.bits - 1 - i
        · simp [he, hlt]
        · simp [he, hlt, show ¬ 0 = j - (w.bits - 1 - i) by omega]
    · have hf : v.getLsbD i = false := by
        rw [← Bool.not_eq_true]
        exact hv
      rw [if_neg hv, hf, Bool.and_false]
      exact BitVec.getLsbD_zero
  unfold rbit
  rw [hstep, BitVec.getLsbD_and, widthMask_bit, decide_eq_true hj, Bool.and_true, foldl_or_bit]
  have hz : (0 : W64).getLsbD j = false := BitVec.getLsbD_zero
  rw [hz, Bool.false_or, Bool.eq_iff_iff, List.any_eq_true]
  constructor
  · rintro ⟨i, hi, hset⟩
    rw [hone i (List.mem_range.mp hi), Bool.and_eq_true, decide_eq_true_iff] at hset
    rw [← hset.1]
    exact hset.2
  · intro hset
    refine ⟨w.bits - 1 - j, List.mem_range.mpr (by omega), ?_⟩
    rw [hone _ (by omega), decide_eq_true rfl, Bool.true_and]
    exact hset

/-- **the reversed word** of the operand width -/
theorem rbit_eq (v : W64) (w : RegWidth) : rbit v w = ((low w v).reverse).setWidth 64 := by
  apply BitVec.eq_of_getLsbD_eq
  intro j hj64
  rw [BitVec.getLsbD_setWidth, decide_eq_true hj64, Bool.true_and]
  by_cases hj : j < w.bits
  · rw [rbit_bit v w hj, BitVec.getLsbD_reverse, BitVec.getMsbD_eq_getLsbD, decide_eq_true hj,
      Bool.true_and, low_bit, decide_eq_true (by omega), Bool.true_and]
  · rw [BitVec.getLsbD_of_ge _ _ (Nat.not_lt.mp hj)]
    unfold rbit
    rw [BitVec.getLsbD_and, widthMask_bit, decide_eq_false hj, Bool.and_false]

theorem rbit_rbit (v : W64) (w : RegWidth) : rbit (rbit v w) w = truncate v w := by
  rw [rbit_eq, rbit_eq, low_setWidth, BitVec.reverse_reverse_eq, truncate_low]

/-- the leading zeros of the reversed word are the trailing zeros -/
theorem clz_rbit (v : W64) (w : RegWidth) :
    clz (rbit v w) w = BitVec.ofNat 64 (trailingZeros (low w v)) := by
  rw [clz_eq, rbit_eq, low_setWidth, leadingZeros_reverse]

/-! ## the instructions -/

def oneSource (op : Opcode) (w : RegWidth) (v : W64) : W64 :=
  match op with
  | .rbit => rbit v w
  | .clz => clz v w
  | .cls => cls v w
  | .rev => rev v w
  | .rev16 => rev16 v w
  | _ => rev32 v

/-- **the instructions with one source** -/
theorem oneSource_result {word : W32} {pc : W64} {insn : Insn} (h : decode word pc = .ok insn)
    (hop : insn.op.group = .oneSource) (r : Regs) :
    dataProcessing r insn =
      some (.ok, r.write (fieldRd word) (widthFromSf word)
        (oneSource insn.op (widthFromSf word) (r.read (fieldRn word) (widthFromSf word)))) := by
  have hops : insn.op = .rbit ∨ insn.op = .clz ∨ insn.op = .cls ∨ insn.op = .rev ∨
      insn.op = .rev16 ∨ insn.op = .rev32 := by
    revert hop
    cases insn.op <;> decide
  have hdata : insn.op.family = .data := by
    rcases hops with ho | ho | ho | ho | ho | ho <;> rw [ho] <;> rfl
  have hrouted := decode_routed h hdata
  have hrd : insn.rd = fieldRd word := hrouted.rd (by
    rcases hops with ho | ho | ho | ho | ho | ho <;> rw [ho] <;> rfl)
  have hrn : insn.rn = fieldRn word := hrouted.rn (by
    rcases hops with ho | ho | ho | ho | ho | ho <;> rw [ho] <;> rfl)
  have hw : insn.width = widthFromSf word := by
    rw [hrouted.width]
    rcases hops with ho | ho | ho | ho | ho | ho <;> rw [ho] <;> rfl
  have hone : ∀ f, doOneSource r insn f =
      r.write (fieldRd word) (widthFromSf word) (f (r.read (fieldRn word) (widthFromSf word))) := by
    intro f
    unfold doOneSource
    rw [hrd, hrn, hw]
    rfl
  unfold dataProcessing
  rw [← hw]
  rcases hops with ho | ho | ho | ho | ho | ho
  · rw [ho]
    exact congrArg (fun x => some (Status.ok, x)) ((hone _).trans (by rw [hw]; rfl))
  · rw [ho]
    exact congrArg (fun x => some (Status.ok, x)) ((hone _).trans (by rw [hw]; rfl))
  · rw [ho]
    exact congrArg (fun x => some (Status.ok, x)) ((hone _).trans (by rw [hw]; rfl))
  · rw [ho]
    exact congrArg (fun x => some (Status.ok, x)) ((hone _).trans (by rw [hw]; rfl))
  · rw [ho]
    exact congrArg (fun x => some (Status.ok, x)) ((hone _).trans (by rw [hw]; rfl))
  · rw [ho]
    exact congrArg (fun x => some (Status.ok, x)) ((hone _).trans (by rw [hw]; rfl))

/-- what the counting and reversing instructions make of a value -/
structure BitCounts (w : RegWidth) (v : W64) : Prop where
  clz : oneSource .clz w v = BitVec.ofNat 64 (leadingZeros (low w v))
  clz_zero : low w v = 0#w.bits → oneSource .clz w v = BitVec.ofNat 64 w.bits
  cls : ¬ AllSame w v → oneSource .cls w v = BitVec.ofNat 64 (leadingSigns (low w v))
  cls_same : AllSame w v → oneSource .cls w v = 0
  signs : leadingSigns (low w v) = leadingZeros (edges (low w v))
  rbit : ∀ i < w.bits, (oneSource .rbit w v).getLsbD i = v.getLsbD (w.bits - 1 - i)
  rbit_rbit : oneSource .rbit w (oneSource .rbit w v) = truncate v w
  ctz : oneSource .clz w (oneSource .rbit w v) = BitVec.ofNat 64 (trailingZeros (low w v))

/-- **counting and reversing**: the instructions leave the leading zeros, the signs and the reversed
word of their source, except that there are no signs in zero and in all ones -/
theorem bit_counts {σ ε : Type} (mem : Memops σ) (env : Option (EnvOps σ ε)) :
    (∀ (w : RegWidth) (v : W64), BitCounts w v) ∧
      ∀ (word : W32) (pc : W64) (insn : Insn) (cpu : Cpu) (s : σ × ε), decode word pc = .ok insn →
        insn.op = .clz ∨ insn.op = .cls ∨ insn.op = .rbit →
        dispatchBus mem env cpu insn s = some ((.ok, { cpu with
          regs := (cpu.regs.write (fieldRd word) (widthFromSf word)
            (oneSource insn.op (widthFromSf word)
              (cpu.regs.read (fieldRn word) (widthFromSf word)))).advancePc }), s) := by
  constructor
  · intro w v
    refine ⟨clz_eq v w, ?_, (cls_eq v w).2, (cls_eq v w).1, leadingSigns_eq_xor w.bits_pos _,
      fun i hi => rbit_bit v w hi, rbit_rbit v w, clz_rbit v w⟩
    intro h0
    refine (clz_eq v w).trans ?_
    rw [h0, leadingZeros_zero]
  · intro word pc insn cpu s h hop
    have hdata : insn.op.family = .data := by
      rcases hop with ho | ho | ho <;> rw [ho] <;> rfl
    have hgroup : insn.op.group = .oneSource := by
      rcases hop with ho | ho | ho <;> rw [ho] <;> rfl
    exact dispatchBus_data mem env cpu s hdata (oneSource_result h hgroup cpu.regs)

/-- every bit of zero equals its sign -/
theorem cls_zero : cls 0 .w64 = 0 ∧ leadingZeros (edges (low .w64 0)) = 63 ∧
    cls 0 .w64 ≠ BitVec.ofNat 64 (leadingZeros (edges (low .w64 0))) := by
  have e : leadingZeros (edges (low .w64 0)) = 63 := leadingZeros_zero
  refine ⟨by decide, e, ?_⟩
  rw [e]
  decide

end Oemu
