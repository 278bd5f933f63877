import Oemu.Exec.BitCount

/-!
# Byte reversal

Byte `i` of a reversed word is a byte of the source.  `REV` and `REV16` take the byte the
architecture says.  For `REV32` the executor swaps the two halves instead of reversing the bytes in
each, which is the same only for a source that reads the same backwards.

* `rev_byte`, `rev16_byte`, `rev32_byte`   which byte comes from where;
* `byte_reversal`                          when an instruction reverses as it should.
-/

namespace Oemu

/-! ## bytes -/

def byteAt (v : W64) (i : Nat) : BitVec 8 := v.extractLsb' (8 * i) 8

theorem byteAt_bit (v : W64) (i : Nat) {b : Nat} (hb : b < 8) :
    (byteAt v i).getLsbD b = v.getLsbD (8 * i + b) := by
  unfold byteAt
  rw [BitVec.getLsbD_extractLsb', decide_eq_true hb, Bool.true_and]

theorem eq_of_byteAt {v v' : W64} (h : ∀ i < 8, byteAt v i = byteAt v' i) : v = v' := by
  apply BitVec.eq_of_getLsbD_eq
  intro j hj
  have e : (byteAt v (j / 8)).getLsbD (j % 8) = (byteAt v' (j / 8)).getLsbD (j % 8) := by
    rw [h (j / 8) (by omega)]
  rw [byteAt_bit _ _ (Nat.mod_lt _ (by decide)), byteAt_bit _ _ (Nat.mod_lt _ (by decide)),
    Nat.div_add_mod] at e
  exact e

theorem byteAt_truncate (v : W64) (w : RegWidth) (i : Nat) :
    byteAt (truncate v w) i = if i < w.bits / 8 then byteAt v i else 0 := by
  have h8 : 8 * (w.bits / 8) = w.bits := by cases w <;> rfl
  apply BitVec.eq_of_getLsbD_eq
  intro b hb
  rw [byteAt_bit _ _ hb, truncate_bit]
  by_cases hi : i < w.bits / 8
  · rw [if_pos hi, byteAt_bit _ _ hb, decide_eq_true (by omega), Bool.true_and]
  · rw [if_neg hi, decide_eq_false (by omega), Bool.false_and]
    exact BitVec.getLsbD_zero.symm

/-! ## the three permutations -/

/-- the byte the architecture puts at `i` -/
def permuted (op : Opcode) (w : RegWidth) (i : Nat) : Nat :=
  match op with
  | .rev => w.bits / 8 - 1 - i
  | .rev16 => 2 * (i / 2) + (1 - i % 2)
  | _ => 4 * (i / 4) + (3 - i % 4)

/-- only one of the values placed side by side reaches a bit -/
theorem any_range_one {n k : Nat} (hk : k < n) {p : Nat → Bool} {b : Bool}
    (h : ∀ i < n, p i = (decide (i = k) && b)) : (List.range n).any p = b := by
  rw [Bool.eq_iff_iff, List.any_eq_true]
  constructor
  · rintro ⟨i, hi, hset⟩
    rw [h i (List.mem_range.mp hi), Bool.and_eq_true] at hset
    exact hset.2
  · intro hb
    refine ⟨k, List.mem_range.mpr hk, ?_⟩
    rw [h k hk, decide_eq_true rfl, Bool.true_and, hb]

theorem low_mask_bit {n : Nat} (m : W64) (hm : ∀ i < 64, m.getLsbD i = decide (i < n)) (v : W64)
    (i : Nat) : (v &&& m).getLsbD i = (decide (i < n) && v.getLsbD i) := by
  rw [BitVec.getLsbD_and]
  by_cases hi : i < 64
  · rw [hm i hi, Bool.and_comm]
  · rw [BitVec.getLsbD_of_ge v i (by omega), Bool.false_and, Bool.and_false]

theorem rev_byte (v : W64) (w : RegWidth) {i : Nat} (hi : i < w.bits / 8) :
    byteAt (rev v w) i = byteAt v (w.bits / 8 - 1 - i) := by
  have h8 : w.bits / 8 ≤ 8 := by cases w <;> decide
  apply BitVec.eq_of_getLsbD_eq
  intro b hb
  rw [byteAt_bit _ _ hb, byteAt_bit _ _ hb]
  unfold rev
  rw [foldl_or_bit]
  have hz : (0 : W64).getLsbD (8 * i + b) = false := BitVec.getLsbD_zero
  rw [hz, Bool.false_or]
  refine any_range_one (k := w.bits / 8 - 1 - i) (by omega) ?_
  intro k hk
  rw [BitVec.getLsbD_shiftLeft, low_mask_bit (n := 8) 0xFF (by decide) _ _,
    BitVec.getLsbD_ushiftRight, decide_eq_true (by omega : 8 * i + b < 64), Bool.true_and]
  by_cases he : k = w.bits / 8 - 1 - i
  · rw [he, decide_eq_true rfl, Bool.true_and,
      show 8 * (w.bits / 8 - 1 - (w.bits / 8 - 1 - i)) = 8 * i by omega,
      decide_eq_false (by omega : ¬ 8 * i + b < 8 * i),
      decide_eq_true (by omega : 8 * i + b - 8 * i < 8), Nat.add_sub_cancel_left]
    rfl
  · rw [decide_eq_false he, Bool.false_and]
    by_cases hlt : 8 * i + b < 8 * (w.bits / 8 - 1 - k)
    · rw [decide_eq_true hlt]
      rfl
    · rw [decide_eq_false (by omega : ¬ 8 * i + b - 8 * (w.bits / 8 - 1 - k) < 8), Bool.false_and,
        Bool.and_false]

theorem rev16_byte (v : W64) (w : RegWidth) {i : Nat} (hi : i < w.bits / 8) :
    byteAt (rev16 v w) i = byteAt v (2 * (i / 2) + (1 - i % 2)) := by
  have h8 : w.bits / 8 ≤ 8 ∧ w.bits / 8 = 2 * (w.bits / 16) := by cases w <;> decide
  apply BitVec.eq_of_getLsbD_eq
  intro b hb
  rw [byteAt_bit _ _ hb, byteAt_bit _ _ hb]
  unfold rev16
  rw [foldl_or_bit]
  have hz : (0 : W64).getLsbD (8 * i + b) = false := BitVec.getLsbD_zero
  rw [hz, Bool.false_or]
  refine any_range_one (k := i / 2) (by omega) ?_
  intro k hk
  have hh : ∀ j, ((v >>> (16 * k)) &&& 0xFFFF).getLsbD j =
      (decide (j < 16) && v.getLsbD (16 * k + j)) := by
    intro j
    rw [low_mask_bit (n := 16) 0xFFFF (by decide) _ _, BitVec.getLsbD_ushiftRight]
  rw [BitVec.getLsbD_shiftLeft, BitVec.getLsbD_or, BitVec.getLsbD_shiftLeft,
    low_mask_bit (n := 8) 0xFF (by decide) _ _, BitVec.getLsbD_ushiftRight, hh, hh,
    decide_eq_true (by omega : 8 * i + b < 64), Bool.true_and]
  by_cases he : k = i / 2
  · rw [he, decide_eq_true rfl, Bool.true_and,
      decide_eq_false (by omega : ¬ 8 * i + b < 16 * (i / 2)), Bool.not_false, Bool.true_and,
      decide_eq_true (by omega : 8 * i + b - 16 * (i / 2) < 64), Bool.true_and]
    rcases Nat.mod_two_eq_zero_or_one i with h2 | h2
    · rw [decide_eq_true (by omega : 8 * i + b - 16 * (i / 2) < 8),
        decide_eq_true (by omega : 8 + (8 * i + b - 16 * (i / 2)) < 16), Bool.not_true,
        Bool.false_and, Bool.false_or, Bool.true_and]
      congr 1
      omega
    · rw [decide_eq_false (by omega : ¬ 8 * i + b - 16 * (i / 2) < 8),
        decide_eq_true (by omega : 8 * i + b - 16 * (i / 2) - 8 < 8),
        decide_eq_true (by omega : 8 * i + b - 16 * (i / 2) - 8 < 16),
        decide_eq_false (by omega : ¬ 8 + (8 * i + b - 16 * (i / 2)) < 16), Bool.false_and,
        Bool.or_false, Bool.not_false, Bool.true_and, Bool.true_and, Bool.true_and]
      congr 1
      omega
  · rw [decide_eq_false he, Bool.false_and]
    by_cases hlt : 8 * i + b < 16 * k
    · rw [decide_eq_true hlt]
      rfl
    · rw [decide_eq_false (by omega : ¬ 8 + (8 * i + b - 16 * k) < 16),
        decide_eq_false (by omega : ¬ 8 * i + b - 16 * k - 8 < 8), Bool.false_and, Bool.false_and,
        Bool.and_false, Bool.or_false, Bool.and_false]

/-- the executor swaps the halves -/
theorem rev32_byte (v : W64) {i : Nat} (hi : i < 8) :
    byteAt (rev32 v) i = byteAt v (if i < 4 then i + 4 else i - 4) := by
  apply BitVec.eq_of_getLsbD_eq
  intro b hb
  rw [byteAt_bit _ _ hb, byteAt_bit _ _ hb]
  unfold rev32
  rw [BitVec.getLsbD_or, BitVec.getLsbD_shiftLeft, BitVec.getLsbD_ushiftRight,
    low_mask_bit (n := 32) 0xFFFFFFFF (by decide) _ _,
    decide_eq_true (by omega : 8 * i + b < 64), Bool.true_and]
  by_cases h4 : i < 4
  · rw [if_pos h4, decide_eq_true (by omega : 8 * i + b < 32), Bool.not_true, Bool.false_and,
      Bool.false_or]
    congr 1
    omega
  · rw [if_neg h4, decide_eq_false (by omega : ¬ 8 * i + b < 32), Bool.not_false, Bool.true_and,
      decide_eq_true (by omega : 8 * i + b - 32 < 32), Bool.true_and,
      BitVec.getLsbD_of_ge v (32 + (8 * i + b)) (by omega), Bool.or_false]
    congr 1
    omega

theorem rev_high (v : W64) (w : RegWidth) {i : Nat} (hi : w.bits / 8 ≤ i) :
    byteAt (rev v w) i = 0 := by
  apply BitVec.eq_of_getLsbD_eq
  intro b hb
  rw [byteAt_bit _ _ hb]
  unfold rev
  rw [foldl_or_bit]
  have hz : (0 : W64).getLsbD (8 * i + b) = false := BitVec.getLsbD_zero
  rw [hz, Bool.false_or]
  refine Eq.trans (List.any_eq_false.mpr ?_) BitVec.getLsbD_zero.symm
  intro k hk
  have hk := List.mem_range.mp hk
  rw [BitVec.getLsbD_shiftLeft, low_mask_bit (n := 8) 0xFF (by decide),
    decide_eq_false (by omega : ¬ 8 * i + b - 8 * (w.bits / 8 - 1 - k) < 8), Bool.false_and,
    Bool.and_false]
  exact Bool.false_ne_true

theorem rev16_high (v : W64) (w : RegWidth) {i : Nat} (hi : w.bits / 8 ≤ i) :
    byteAt (rev16 v w) i = 0 := by
  have h8 : w.bits / 8 = 2 * (w.bits / 16) := by cases w <;> rfl
  apply BitVec.eq_of_getLsbD_eq
  intro b hb
  rw [byteAt_bit _ _ hb]
  unfold rev16
  rw [foldl_or_bit]
  have hz : (0 : W64).getLsbD (8 * i + b) = false := BitVec.getLsbD_zero
  rw [hz, Bool.false_or]
  refine Eq.trans (List.any_eq_false.mpr ?_) BitVec.getLsbD_zero.symm
  intro k hk
  have hk := List.mem_range.mp hk
  rw [BitVec.getLsbD_shiftLeft, BitVec.getLsbD_or, BitVec.getLsbD_shiftLeft,
    low_mask_bit (n := 8) 0xFF (by decide), BitVec.getLsbD_ushiftRight,
    low_mask_bit (n := 16) 0xFFFF (by decide),
    low_mask_bit (n := 16) 0xFFFF (by decide),
    decide_eq_false (by omega : ¬ 8 * i + b - 16 * k - 8 < 8),
    decide_eq_false (by omega : ¬ 8 + (8 * i + b - 16 * k) < 16), Bool.false_and, Bool.false_and,
    Bool.and_false, Bool.or_false, Bool.and_false]
  exact Bool.false_ne_true

/-! ## what follows from the bytes -/

theorem permuted_permuted (op : Opcode) (w : RegWidth) {i : Nat} (hi : i < w.bits / 8) :
    permuted op w i < w.bits / 8 ∧ permuted op w (permuted op w i) = i := by
  have h8 : w.bits / 8 = 4 * (w.bits / 32) := by cases w <;> rfl
  cases op with
  | rev =>
    show w.bits / 8 - 1 - i < _ ∧ w.bits / 8 - 1 - (w.bits / 8 - 1 - i) = i
    omega
  | rev16 =>
    show 2 * (i / 2) + (1 - i % 2) < _ ∧
      2 * ((2 * (i / 2) + (1 - i % 2)) / 2) + (1 - (2 * (i / 2) + (1 - i % 2)) % 2) = i
    omega
  | _ =>
    show 4 * (i / 4) + (3 - i % 4) < _ ∧
      4 * ((4 * (i / 4) + (3 - i % 4)) / 4) + (3 - (4 * (i / 4) + (3 - i % 4)) % 4) = i
    omega

theorem reversed_twice {op : Opcode} {w : RegWidth}
    (hlow : ∀ v i, i < w.bits / 8 → byteAt (oneSource op w v) i = byteAt v (permuted op w i))
    (hhigh : ∀ v i, w.bits / 8 ≤ i → byteAt (oneSource op w v) i = 0) (v : W64) :
    oneSource op w (oneSource op w v) = truncate v w := by
  apply eq_of_byteAt
  intro i _
  rw [byteAt_truncate]
  by_cases hi : i < w.bits / 8
  · obtain ⟨hlt, htwice⟩ := permuted_permuted op w hi
    rw [if_pos hi, hlow _ _ hi, hlow _ _ hlt, htwice]
  · rw [if_neg hi, hhigh _ _ (Nat.le_of_not_lt hi)]

/-- the two words of a register, exchanged -/
def swapWords (v : W64) : W64 := (v <<< 32) ||| (v >>> 32)

theorem swapWords_rev32 (v : W64) : swapWords (rev32 v) = v := by
  apply BitVec.eq_of_getLsbD_eq
  intro j hj
  unfold swapWords rev32
  simp only [BitVec.getLsbD_or, BitVec.getLsbD_shiftLeft, BitVec.getLsbD_ushiftRight,
    low_mask_bit (n := 32) 0xFFFFFFFF (by decide)]
  by_cases h : j < 32
  · have hz := BitVec.getLsbD_of_ge v (32 + (32 + j)) (by omega)
    simp [h, hj, hz, show 32 + j < 64 by omega]
  · simp [h, hj, show j - 32 < 32 by omega, show 32 + (j - 32) = j by omega,
      show ¬ 32 + j < 32 by omega, BitVec.getLsbD_of_ge v (32 + (32 + j)) (by omega)]

theorem rev32_rev32 (v : W64) : rev32 (rev32 v) = v := by
  apply eq_of_byteAt
  intro i hi
  by_cases h4 : i < 4
  · rw [rev32_byte _ hi, if_pos h4, rev32_byte _ (by omega), if_neg (by omega), Nat.add_sub_cancel]
  · rw [rev32_byte _ hi, if_neg h4, rev32_byte _ (by omega), if_pos (by omega),
      Nat.sub_add_cancel (by omega)]

/-! ## the instructions -/

structure ByteReversal (op : Opcode) (w : RegWidth) (v : W64) : Prop where
  bytes : ∀ i < 8, byteAt (oneSource op w v) i =
    if i < w.bits / 8 then byteAt v (permuted op w i) else 0
  twice : oneSource op w (oneSource op w v) = truncate v w
  words : op = .rev32 → oneSource .rev w v = swapWords (oneSource op w v)

/-- the bytes of a word read the same from both ends -/
def Palindrome (v : W64) : Prop := ∀ i < 8, byteAt v i = byteAt v (7 - i)

theorem rev_reversal (v : W64) (w : RegWidth) : ByteReversal .rev w v := by
  refine ⟨?_, @reversed_twice .rev w (fun v i hi => rev_byte v w hi)
    (fun v i hi => rev_high v w hi) v, ?_⟩
  · intro i _
    by_cases hi : i < w.bits / 8
    · rw [if_pos hi]
      exact rev_byte v w hi
    · rw [if_neg hi]
      exact rev_high v w (Nat.le_of_not_lt hi)
  · intro h
    cases h

theorem rev16_reversal (v : W64) (w : RegWidth) : ByteReversal .rev16 w v := by
  refine ⟨?_, @reversed_twice .rev16 w (fun v i hi => rev16_byte v w hi)
    (fun v i hi => rev16_high v w hi) v, ?_⟩
  · intro i _
    by_cases hi : i < w.bits / 8
    · rw [if_pos hi]
      exact rev16_byte v w hi
    · rw [if_neg hi]
      exact rev16_high v w (Nat.le_of_not_lt hi)
  · intro h
    cases h

/-- swapping the words is reversing the bytes in each only for a palindrome -/
theorem rev32_reversal (v : W64) : ByteReversal .rev32 .w64 v ↔ Palindrome v := by
  have hperm : ∀ i, permuted .rev32 .w64 i = 4 * (i / 4) + (3 - i % 4) := fun _ => rfl
  have hfrom : ∀ i < 8, byteAt (oneSource .rev32 .w64 v) i =
      byteAt v (7 - permuted .rev32 .w64 i) := by
    intro i hi
    refine (rev32_byte v hi).trans (congrArg (byteAt v) ?_)
    rw [hperm]
    by_cases h4 : i < 4
    · rw [if_pos h4]
      omega
    · rw [if_neg h4]
      omega
  constructor
  · intro h i hi
    obtain ⟨hlt, htwice⟩ := permuted_permuted .rev32 .w64 (show i < 8 from hi)
    have e := h.bytes _ hlt
    rw [if_pos hlt, hfrom _ hlt, htwice] at e
    exact e.symm
  · intro h
    refine ⟨?_, rev32_rev32 v, ?_⟩
    · intro i hi
      obtain ⟨hlt, _⟩ := permuted_permuted .rev32 .w64 (show i < 8 from hi)
      rw [if_pos (show i < RegWidth.w64.bits / 8 from hi), hfrom i hi]
      exact (h _ hlt).symm
    · intro _
      refine Eq.trans ?_ (swapWords_rev32 v).symm
      apply eq_of_byteAt
      intro i hi
      exact (rev_byte v .w64 (show i < 8 from hi)).trans (h i hi).symm

/-- which reversal an encoding is: the one of four bytes is `REV` at 32 bits -/
def Reverser (word : W32) (op : Opcode) : Prop :=
  (bits word 10 6 = 1 ∧ op = .rev16) ∨
    (bits word 10 6 = 2 ∧ widthFromSf word = .w32 ∧ op = .rev) ∨
    (bits word 10 6 = 2 ∧ widthFromSf word = .w64 ∧ op = .rev32) ∨
    (bits word 10 6 = 3 ∧ widthFromSf word = .w64 ∧ op = .rev)

theorem decodeDp1source_reverser {word : W32} {insn : Insn} (h : decodeDp1source word = .ok insn)
    (hop : insn.op = .rev ∨ insn.op = .rev16 ∨ insn.op = .rev32) : Reverser word insn.op := by
  have hw : widthFromSf word = .w32 ∨ widthFromSf word = .w64 := by
    cases widthFromSf word
    · exact .inl rfl
    · exact .inr rfl
  unfold decodeDp1source at h
  dsimp only at h
  split at h
  · cases h
  · split at h
    · cases h
      rcases hop with ho | ho | ho <;> cases ho
    · rename_i h1
      cases h
      exact .inl ⟨h1, rfl⟩
    · rename_i h2
      cases h
      rcases hw with hw | hw
      · exact .inr (.inl ⟨h2, hw, if_pos hw⟩)
      · exact .inr (.inr (.inl ⟨h2, hw, if_neg (by rw [hw]; decide)⟩))
    · rename_i h3
      rcases hw with hw | hw
      · rw [if_pos hw] at h
        cases h
      · rw [if_neg (by rw [hw]; decide)] at h
        cases h
        exact .inr (.inr (.inr ⟨h3, hw, rfl⟩))
    · cases h
      rcases hop with ho | ho | ho <;> cases ho
    · cases h
      rcases hop with ho | ho | ho <;> cases ho
    · cases h

/-- **reversing bytes**: an instruction leaves the reversed bytes of its source, `REV32` only those
of a source that reads the same from both ends -/
theorem byte_reversal {σ ε : Type} (mem : Memops σ) (env : Option (EnvOps σ ε)) (word : W32)
    (pc : W64) (insn : Insn) (h : decode word pc = .ok insn)
    (hop : insn.op = .rev ∨ insn.op = .rev16 ∨ insn.op = .rev32) :
    Reverser word insn.op ∧
      (∀ v, ByteReversal insn.op (widthFromSf word) v ↔ (insn.op = .rev32 → Palindrome v)) ∧
      ∀ (cpu : Cpu) (s : σ × ε),
        dispatchBus mem env cpu insn s = some ((.ok, { cpu with
          regs := (cpu.regs.write (fieldRd word) (widthFromSf word)
            (oneSource insn.op (widthFromSf word)
              (cpu.regs.read (fieldRn word) (widthFromSf word)))).advancePc }), s) := by
  have hdata : insn.op.family = .data := by
    rcases hop with ho | ho | ho <;> rw [ho] <;> rfl
  have hgroup : insn.op.group = .oneSource := by
    rcases hop with ho | ho | ho <;> rw [ho] <;> rfl
  have hrev : Reverser word insn.op := by
    have hs := decode_source h hdata
    rw [hgroup] at hs
    cases hs with
    | oneSource hs => exact decodeDp1source_reverser hs hop
  refine ⟨hrev, ?_, ?_⟩
  · intro v
    rcases hop with ho | ho | ho
    · rw [ho]
      exact ⟨fun _ hne => absurd hne (by decide), fun _ => rev_reversal v _⟩
    · rw [ho]
      exact ⟨fun _ hne => absurd hne (by decide), fun _ => rev16_reversal v _⟩
    · have hw : widthFromSf word = .w64 := by
        rw [ho] at hrev
        rcases hrev with ⟨_, hf⟩ | ⟨_, _, hf⟩ | ⟨_, hw, _⟩ | ⟨_, _, hf⟩
        · cases hf
        · cases hf
        · exact hw
        · cases hf
      rw [ho, hw, rev32_reversal]
      exact ⟨fun hp _ => hp, fun hp => hp rfl⟩
  · intro cpu s
    exact dispatchBus_data mem env cpu s hdata (oneSource_result h hgroup cpu.regs)

/-- `rev32 x0, x1` of a palindrome -/
theorem byte_reversal_rev32 : ∃ insn, decode 0xDAC00820 0 = .ok insn ∧ insn.op = .rev32 ∧
    ByteReversal insn.op (widthFromSf 0xDAC00820) 0x1122334444332211 := by
  refine ⟨_, rfl, rfl, ?_⟩
  have hb := (byte_reversal Memory.memops (none : Option (EnvOps Memory Unit)) 0xDAC00820 0 _ rfl
    (.inr (.inr rfl))).2.1 0x1122334444332211
  exact hb.mpr fun _ => by unfold Palindrome; decide

/-- `rev32` of a word that is no palindrome -/
theorem rev32_swaps : oneSource .rev32 .w64 0x0102030405060708 = 0x0506070801020304 ∧
    ¬ ByteReversal .rev32 .w64 0x0102030405060708 := by
  refine ⟨by decide, ?_⟩
  intro h
  exact absurd (h.bytes 0 (by decide)) (by decide)

end Oemu
