import Mathlib.Tactic

/-!
# Counting bits from an end

How many bits of a word, from its top or from its bottom, are clear, and how many bits after the top
one equal it.

* `leadingZeros_reverse`   the count from the top of the reversed word is the count from the bottom;
* `leadingSigns_eq_xor`    the signs are the zeros of the word against its shift;
* `leadingZeros_signs`     and, but for the sign itself, those of the word against its sign.
-/

namespace BitCount

variable {n : Nat}

/-- the bits above the highest set one -/
def leadingZeros (x : BitVec n) : Nat :=
  Nat.find (p := fun k => k = n ∨ x.getLsbD (n - 1 - k) = true) ⟨n, .inl rfl⟩

/-- the bits below the lowest set one -/
def trailingZeros (x : BitVec n) : Nat :=
  Nat.find (p := fun k => k = n ∨ x.getLsbD k = true) ⟨n, .inl rfl⟩

/-- the bits after the top one that equal it -/
def leadingSigns (x : BitVec n) : Nat :=
  Nat.find (p := fun k => k = n - 1 ∨ x.getLsbD (n - 2 - k) ≠ x.getLsbD (n - 1)) ⟨n - 1, .inl rfl⟩

theorem leadingZeros_eq_iff {x : BitVec n} {k : Nat} :
    leadingZeros x = k ↔ (k = n ∨ x.getLsbD (n - 1 - k) = true) ∧
      ∀ j < k, ¬ (j = n ∨ x.getLsbD (n - 1 - j) = true) := Nat.find_eq_iff _

theorem trailingZeros_eq_iff {x : BitVec n} {k : Nat} :
    trailingZeros x = k ↔ (k = n ∨ x.getLsbD k = true) ∧
      ∀ j < k, ¬ (j = n ∨ x.getLsbD j = true) := Nat.find_eq_iff _

theorem leadingSigns_eq_iff {x : BitVec n} {k : Nat} :
    leadingSigns x = k ↔ (k = n - 1 ∨ x.getLsbD (n - 2 - k) ≠ x.getLsbD (n - 1)) ∧
      ∀ j < k, ¬ (j = n - 1 ∨ x.getLsbD (n - 2 - j) ≠ x.getLsbD (n - 1)) := Nat.find_eq_iff _

theorem leadingZeros_zero : leadingZeros (0#n) = n := by
  rw [leadingZeros_eq_iff]
  refine ⟨.inl rfl, ?_⟩
  rintro j hj (rfl | h)
  · exact lt_irrefl _ hj
  · rw [BitVec.getLsbD_zero] at h
    cases h

theorem leadingZeros_of_bit {x : BitVec n} {k : Nat} (hk : k < n)
    (hset : x.getLsbD (n - 1 - k) = true) (hclear : ∀ j < k, x.getLsbD (n - 1 - j) = false) :
    leadingZeros x = k := by
  rw [leadingZeros_eq_iff]
  refine ⟨.inr hset, ?_⟩
  rintro j hj (rfl | h)
  · omega
  · rw [hclear j hj] at h
    cases h

/-- **a word and its reverse** are counted from the two ends -/
theorem leadingZeros_reverse (x : BitVec n) : leadingZeros x.reverse = trailingZeros x := by
  obtain ⟨hend, hall⟩ := trailingZeros_eq_iff.mp (rfl : trailingZeros x = trailingZeros x)
  have hle : trailingZeros x ≤ n := Nat.find_min' _ (.inl rfl)
  generalize trailingZeros x = k at hend hall hle
  have hbit : ∀ j, j < n → x.reverse.getLsbD (n - 1 - j) = x.getLsbD j := by
    intro j hj
    rw [BitVec.getLsbD_reverse, BitVec.getMsbD_eq_getLsbD, decide_eq_true (by omega), Bool.true_and]
    congr 1
    omega
  rw [leadingZeros_eq_iff]
  constructor
  · by_cases hk : k = n
    · exact .inl hk
    · rw [hbit k (by omega)]
      exact hend
  · intro j hj
    rw [hbit j (by omega)]
    exact hall j hj

/-- the word against its shift, as a word of one bit less -/
def edges (x : BitVec n) : BitVec (n - 1) := x.extractLsb' 1 (n - 1) ^^^ x.extractLsb' 0 (n - 1)

theorem edges_bit (x : BitVec n) {i : Nat} (hi : i < n - 1) :
    (edges x).getLsbD i = (x.getLsbD (i + 1) ^^ x.getLsbD i) := by
  unfold edges
  rw [BitVec.getLsbD_xor, BitVec.getLsbD_extractLsb', BitVec.getLsbD_extractLsb',
    decide_eq_true hi, Bool.true_and, Bool.true_and, Nat.add_comm 1 i, Nat.zero_add]

/-- the bits after the sign that equal it, up to the first that does not -/
theorem sign_run {x : BitVec n} {k : Nat}
    (h : ∀ j < k, x.getLsbD (n - 2 - j) = x.getLsbD (n - 1)) :
    ∀ j ≤ k, x.getLsbD (n - 1 - j) = x.getLsbD (n - 1) := by
  intro j hj
  cases j with
  | zero => rfl
  | succ j =>
    rw [← h j (by omega)]
    congr 1
    omega

/-- **the signs are the leading zeros of the edges** -/
theorem leadingSigns_eq_xor (hn : 0 < n) (x : BitVec n) :
    leadingSigns x = leadingZeros (edges x) := by
  symm
  obtain ⟨hend, hall⟩ := leadingSigns_eq_iff.mp (rfl : leadingSigns x = leadingSigns x)
  have hle : leadingSigns x ≤ n - 1 := Nat.find_min' _ (.inl rfl)
  generalize leadingSigns x = k at hend hall hle
  have hsame : ∀ j < k, x.getLsbD (n - 2 - j) = x.getLsbD (n - 1) := by
    intro j hj
    by_contra hne
    exact hall j hj (.inr hne)
  have hrun := sign_run hsame
  rw [leadingZeros_eq_iff]
  constructor
  · by_cases hk : k = n - 1
    · exact .inl hk
    · refine .inr ?_
      have hne := hend.resolve_left hk
      rw [edges_bit x (by omega), show n - 1 - 1 - k + 1 = n - 1 - k by omega, hrun k (le_refl k),
        show n - 1 - 1 - k = n - 2 - k by omega]
      cases h1 : x.getLsbD (n - 1) <;> cases h2 : x.getLsbD (n - 2 - k) <;> simp_all
  · rintro j hj (rfl | h)
    · omega
    · rw [edges_bit x (by omega), show n - 1 - 1 - j + 1 = n - 1 - j by omega,
        hrun j (by omega), show n - 1 - 1 - j = n - 2 - j by omega, hsame j hj, Bool.xor_self] at h
      cases h

/-- the word against its sign -/
def unsigned (x : BitVec n) : BitVec n := if x.getLsbD (n - 1) then ~~~x else x

theorem unsigned_bit (x : BitVec n) {i : Nat} (hi : i < n) :
    (unsigned x).getLsbD i = (x.getLsbD i ^^ x.getLsbD (n - 1)) := by
  unfold unsigned
  cases h : x.getLsbD (n - 1) with
  | true =>
    rw [if_pos rfl, BitVec.getLsbD_not, decide_eq_true hi, Bool.true_and, Bool.xor_true]
  | false => rw [if_neg Bool.false_ne_true, Bool.xor_false]

/-- **the leading zeros of the word against its sign** are the sign and the bits that equal it,
unless every bit does -/
theorem leadingZeros_signs {x : BitVec n} (h0 : x ≠ 0) (h1 : x ≠ BitVec.allOnes n) :
    leadingZeros (unsigned x) = leadingSigns x + 1 := by
  have hn : 0 < n := by
    refine Nat.pos_of_ne_zero ?_
    rintro rfl
    exact h0 (BitVec.eq_of_getLsbD_eq fun i hi => absurd hi (Nat.not_lt_zero i))
  obtain ⟨hend, hall⟩ := leadingSigns_eq_iff.mp (rfl : leadingSigns x = leadingSigns x)
  have hle : leadingSigns x ≤ n - 1 := Nat.find_min' _ (.inl rfl)
  generalize leadingSigns x = k at hend hall hle
  have hsame : ∀ j < k, x.getLsbD (n - 2 - j) = x.getLsbD (n - 1) := by
    intro j hj
    by_contra hne
    exact hall j hj (.inr hne)
  have hrun := sign_run hsame
  have hlt : k < n - 1 := by
    refine lt_of_le_of_ne hle ?_
    rintro rfl
    have hconst : ∀ i < n, x.getLsbD i = x.getLsbD (n - 1) := by
      intro i hi
      rw [← hrun (n - 1 - i) (by omega)]
      congr 1
      omega
    cases hs : x.getLsbD (n - 1) with
    | false =>
      apply h0
      apply BitVec.eq_of_getLsbD_eq
      intro i hi
      rw [hconst i hi, hs]
      exact BitVec.getLsbD_zero.symm
    | true =>
      apply h1
      apply BitVec.eq_of_getLsbD_eq
      intro i hi
      rw [hconst i hi, hs, BitVec.getLsbD_allOnes, decide_eq_true hi]
  have hne := hend.resolve_left (Nat.ne_of_lt hlt)
  refine leadingZeros_of_bit (by omega) ?_ ?_
  · rw [unsigned_bit x (by omega), show n - 1 - (k + 1) = n - 2 - k by omega]
    cases h1 : x.getLsbD (n - 1) <;> cases h2 : x.getLsbD (n - 2 - k) <;> simp_all
  · intro j hj
    rw [unsigned_bit x (by omega), hrun j (by omega), Bool.xor_self]

end BitCount
