import Mathlib.Tactic
import Mathlib.Data.Nat.Digits.Lemmas

/-!
# Numbers of several limbs

An addition column by column, least significant first: two digits and a carry make a digit and the
next carry.  `Columns w c cols d z` is such a run in base `2 ^ w`, from the carry `c` to the carry
`d`; the top column added as signed digits is `z`.

* `sum`, `digit_eq`     the digits and the last carry are those of the sum of the two numbers;
* `overflow_iff`        the top column leaves the signed range when the whole sum does.
-/

namespace Limbs

/-! ## signed numbers -/

/-- a number of `n` bits read as a signed one -/
def twos (n x : Nat) : Int := if x < 2 ^ (n - 1) then x else (x : Int) - 2 ^ n

theorem pow_pred {w : Nat} (hw : 0 < w) : 2 ^ w = 2 * 2 ^ (w - 1) := by
  obtain ⟨v, rfl⟩ : ∃ v, w = v + 1 := ⟨w - 1, by omega⟩
  rw [Nat.add_sub_cancel, Nat.pow_succ, Nat.mul_comm]

theorem twos_cases (n x : Nat) :
    x < 2 ^ (n - 1) ∧ twos n x = x ∨ 2 ^ (n - 1) ≤ x ∧ twos n x = (x : Int) - 2 ^ n := by
  unfold twos
  by_cases h : x < 2 ^ (n - 1)
  · rw [if_pos h]
    exact .inl ⟨h, rfl⟩
  · rw [if_neg h]
    exact .inr ⟨Nat.le_of_not_lt h, rfl⟩

theorem half_succ {w m : Nat} (hm : 0 < m) : 2 ^ (w + m - 1) = 2 ^ w * 2 ^ (m - 1) := by
  rw [← Nat.pow_add]
  congr 1
  omega

theorem twos_cons {w m d x : Nat} (hm : 0 < m) (hd : d < 2 ^ w) :
    twos (w + m) (d + 2 ^ w * x) = d + 2 ^ w * twos m x := by
  have hlt : d + 2 ^ w * x < 2 ^ (w + m - 1) ↔ x < 2 ^ (m - 1) := by
    rw [half_succ hm]
    constructor
    · intro h
      by_contra hge
      have : 2 ^ w * 2 ^ (m - 1) ≤ 2 ^ w * x := Nat.mul_le_mul_left _ (Nat.le_of_not_lt hge)
      omega
    · intro h
      have : 2 ^ w * (x + 1) ≤ 2 ^ w * 2 ^ (m - 1) := Nat.mul_le_mul_left _ h
      rw [Nat.mul_succ] at this
      omega
  unfold twos
  by_cases h : x < 2 ^ (m - 1)
  · rw [if_pos h, if_pos (hlt.mpr h)]
    push_cast
    rfl
  · rw [if_neg h, if_neg (mt hlt.mp h), pow_add]
    push_cast
    ring

/-- the complement of a number is `-1` minus it -/
theorem twos_complement {n x : Nat} (hn : 0 < n) (hx : x < 2 ^ n) :
    twos n (2 ^ n - 1 - x) = -1 - twos n x := by
  have hp := pow_pred hn
  have hc := twos_cases n x
  have hc' := twos_cases n (2 ^ n - 1 - x)
  have hz : ((2 : Int) ^ n) = 2 * 2 ^ (n - 1) := by exact_mod_cast hp
  have hz' : ((2 ^ (n - 1) : Nat) : Int) = 2 ^ (n - 1) := by push_cast; rfl
  generalize (2 : Int) ^ (n - 1) = H at *
  generalize 2 ^ (n - 1) = h at *
  omega

/-! ## columns -/

/-- two digits and the digit of their sum -/
structure Column where
  x : Nat
  y : Nat
  r : Nat

/-- a digit and its carry out of two digits and a carry -/
def Column.Carries (w : Nat) (c : Nat) (col : Column) (d : Nat) : Prop :=
  col.x + col.y + c = col.r + 2 ^ w * d ∧ col.r < 2 ^ w

inductive Columns (w : Nat) : Nat → List Column → Nat → Int → Prop where
  | last {c d : Nat} {col : Column} (h : col.Carries w c d) :
      Columns w c [col] d (twos w col.x + twos w col.y + c)
  | cons {c c' d : Nat} {z : Int} {col : Column} {cols : List Column} (h : col.Carries w c c')
      (hx : col.x < 2 ^ w) (hy : col.y < 2 ^ w) (hs : Columns w c' cols d z) :
      Columns w c (col :: cols) d z

def number (w : Nat) (ds : List Nat) : Nat := Nat.ofDigits (2 ^ w) ds

@[simp] theorem number_cons (w d : Nat) (ds : List Nat) :
    number w (d :: ds) = d + 2 ^ w * number w ds := Nat.ofDigits_cons

@[simp] theorem number_nil (w : Nat) : number w [] = 0 := rfl

theorem number_lt {w : Nat} (hw : 0 < w) {ds : List Nat} (h : ∀ d ∈ ds, d < 2 ^ w) :
    number w ds < 2 ^ (w * ds.length) := by
  rw [pow_mul]
  exact Nat.ofDigits_lt_base_pow_length (Nat.one_lt_two_pow hw.ne') h

theorem number_complement {w : Nat} (hw : 0 < w) {ds : List Nat} (h : ∀ d ∈ ds, d < 2 ^ w) :
    number w (ds.map fun d => 2 ^ w - 1 - d) = 2 ^ (w * ds.length) - 1 - number w ds := by
  induction ds with
  | nil => simp
  | cons d ds ih =>
    have hd := h d List.mem_cons_self
    have ht := number_lt hw fun e he => h e (List.mem_cons_of_mem _ he)
    rw [List.map_cons, number_cons, number_cons, ih fun e he => h e (List.mem_cons_of_mem _ he),
      List.length_cons, Nat.mul_succ, Nat.add_comm (w * _), pow_add]
    generalize 2 ^ (w * ds.length) = P at *
    generalize number w ds = n at *
    obtain ⟨k, rfl⟩ : ∃ k, P = n + 1 + k := ⟨P - (n + 1), by omega⟩
    rw [show n + 1 + k - 1 - n = k by omega, Nat.mul_add, Nat.mul_add, Nat.mul_one]
    omega

variable {w c d : Nat} {z : Int} {cols : List Column}

def xs (cols : List Column) : List Nat := cols.map Column.x
def ys (cols : List Column) : List Nat := cols.map Column.y
def rs (cols : List Column) : List Nat := cols.map Column.r

/-- **the sum of the columns is the sum of the numbers** -/
theorem Columns.sum (h : Columns w c cols d z) :
    number w (xs cols) + number w (ys cols) + c =
      number w (rs cols) + 2 ^ (w * cols.length) * d := by
  induction h with
  | last h =>
    simp only [xs, ys, rs, List.map_cons, List.map_nil, number_cons, number_nil, Nat.mul_zero,
      Nat.add_zero, List.length_cons, List.length_nil, Nat.zero_add, Nat.mul_one]
    exact h.1
  | @cons c c' d z col cols h hx hy hs ih =>
    obtain ⟨h, -⟩ := h
    simp only [xs, ys, rs, List.map_cons, number_cons, List.length_cons, Nat.mul_succ,
      Nat.add_comm (w * _), pow_add] at ih ⊢
    calc col.x + 2 ^ w * number w (cols.map Column.x) +
          (col.y + 2 ^ w * number w (cols.map Column.y)) + c
        = col.x + col.y + c + 2 ^ w * (number w (cols.map Column.x) +
            number w (cols.map Column.y)) := by ring
      _ = col.r + 2 ^ w * (number w (cols.map Column.x) + number w (cols.map Column.y) + c') := by
          rw [h]; ring
      _ = _ := by rw [ih]; ring

theorem Columns.digits_lt (h : Columns w c cols d z) : ∀ r ∈ rs cols, r < 2 ^ w := by
  induction h with
  | last h =>
    intro r hr
    rw [List.mem_singleton.mp hr]
    exact h.2
  | cons h _ _ _ ih =>
    intro r hr
    rcases List.mem_cons.mp hr with rfl | hr
    · exact h.2
    · exact ih r hr

/-- the digits are those of the sum, and the carry is what it leaves -/
theorem Columns.digits (hw : 0 < w) (h : Columns w c cols d z) :
    number w (rs cols) =
      (number w (xs cols) + number w (ys cols) + c) % 2 ^ (w * cols.length) := by
  have hlt := number_lt hw h.digits_lt
  rw [rs, List.length_map] at hlt
  rw [h.sum, Nat.add_mul_mod_self_left]
  exact (Nat.mod_eq_of_lt hlt).symm

theorem Columns.carry_iff (hw : 0 < w) (h : Columns w c cols d z) :
    0 < d ↔ 2 ^ (w * cols.length) ≤ number w (xs cols) + number w (ys cols) + c := by
  have hlt := number_lt hw h.digits_lt
  rw [rs, List.length_map] at hlt
  rw [h.sum]
  constructor
  · intro hd
    exact (Nat.le_mul_of_pos_right _ hd).trans (Nat.le_add_left _ _)
  · intro hle
    refine Nat.pos_of_ne_zero fun h0 => ?_
    rw [h0, Nat.mul_zero, Nat.add_zero] at hle
    exact absurd hlt (Nat.not_lt.mpr hle)

/-- the sum of the signed numbers is the digits below the top and the signed top column -/
theorem Columns.signed (hw : 0 < w) (h : Columns w c cols d z) :
    ∃ low : Nat, low < 2 ^ (w * (cols.length - 1)) ∧
      twos (w * cols.length) (number w (xs cols)) + twos (w * cols.length) (number w (ys cols)) + c =
        low + 2 ^ (w * (cols.length - 1)) * z := by
  induction h with
  | last h =>
    refine ⟨0, Nat.two_pow_pos _, ?_⟩
    simp [xs, ys]
  | @cons c c' d z col cols h hx hy hs ih =>
    obtain ⟨low, hlow, hsum⟩ := ih
    obtain ⟨k, hk⟩ : ∃ k, cols.length = k + 1 := by
      cases hs with
      | last => exact ⟨0, rfl⟩
      | cons => exact ⟨_, rfl⟩
    rw [hk, Nat.add_sub_cancel] at hlow
    rw [hk] at hsum
    simp only [xs, ys, List.map_cons, number_cons, List.length_cons] at hsum ⊢
    rw [hk, Nat.add_sub_cancel, Nat.mul_succ w (k + 1), Nat.add_comm (w * (k + 1)),
      twos_cons (Nat.mul_pos hw k.succ_pos) hx, twos_cons (Nat.mul_pos hw k.succ_pos) hy]
    refine ⟨col.r + 2 ^ w * low, ?_, ?_⟩
    · have hr := h.2
      rw [Nat.mul_succ, Nat.add_comm (w * k), pow_add]
      calc col.r + 2 ^ w * low < 2 ^ w * (low + 1) := by rw [Nat.mul_succ]; omega
        _ ≤ 2 ^ w * 2 ^ (w * k) := Nat.mul_le_mul_left _ hlow
    · have hcol : (col.x : Int) + col.y + c = col.r + 2 ^ w * c' := by exact_mod_cast h.1
      have hp : (2 : Int) ^ (w * (k + 1)) = 2 ^ w * 2 ^ (w * k) := by
        rw [Nat.mul_succ, Nat.add_comm (w * k), pow_add]
      rw [Nat.add_sub_cancel] at hsum
      rw [hp]
      push_cast
      linear_combination hcol + 2 ^ w * hsum

/-- **the sum of the signed numbers leaves its range when the top column leaves its own** -/
theorem Columns.overflow_iff (hw : 0 < w) (h : Columns w c cols d z) :
    (-2 ^ (w - 1) ≤ z ∧ z < 2 ^ (w - 1)) ↔
      -2 ^ (w * cols.length - 1) ≤ twos (w * cols.length) (number w (xs cols)) +
          twos (w * cols.length) (number w (ys cols)) + c ∧
        twos (w * cols.length) (number w (xs cols)) +
          twos (w * cols.length) (number w (ys cols)) + c < 2 ^ (w * cols.length - 1) := by
  obtain ⟨low, hlow, hsum⟩ := h.signed hw
  obtain ⟨k, hk⟩ : ∃ k, cols.length = k + 1 := by
    cases h with
    | last => exact ⟨0, rfl⟩
    | cons => exact ⟨_, rfl⟩
  rw [hsum, hk, Nat.add_sub_cancel]
  rw [hk, Nat.add_sub_cancel] at hlow
  have hpow : (2 : Int) ^ (w * (k + 1) - 1) = 2 ^ (w * k) * 2 ^ (w - 1) := by
    rw [← pow_add]
    congr 1
    rw [Nat.mul_succ]
    omega
  have hlow' : (low : Int) < 2 ^ (w * k) := by exact_mod_cast hlow
  have h0 : (0 : Int) ≤ low := Int.natCast_nonneg low
  have hpos : (0 : Int) < 2 ^ (w * k) := by positivity
  rw [hpow]
  generalize (2 : Int) ^ (w * k) = P at *
  generalize (2 : Int) ^ (w - 1) = H at *
  constructor
  · rintro ⟨hl, hu⟩
    constructor
    · nlinarith
    · nlinarith [mul_le_mul_of_nonneg_left (Int.add_one_le_of_lt hu) hpos.le]
  · rintro ⟨hl, hu⟩
    constructor
    · by_contra hlt
      nlinarith [mul_le_mul_of_nonneg_left (Int.add_one_le_of_lt (Int.not_le.mp hlt)) hpos.le]
    · by_contra hge
      nlinarith [mul_le_mul_of_nonneg_left (Int.not_lt.mp hge) hpos.le]

end Limbs
