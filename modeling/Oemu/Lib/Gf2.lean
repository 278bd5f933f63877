import Mathlib.Tactic
import Mathlib.Data.ZMod.Basic
import Mathlib.RingTheory.AdjoinRoot

/-!
# Words as polynomials over two elements

The bits of a word are the coefficients of a polynomial; the exclusive or of two words is the sum.
A reflected shift register holds the polynomial with its top coefficient in the lowest bit, so that
a shift to the right is a multiplication by `X`, reduced when a bit drops off.

* `poly_xor`, `poly_inj`      the word and its polynomial;
* `shift_poly`, `mk_step`     one turn of the register;
* `run_eq`                    the register after a message is a remainder;
* `run_append`, `run_xor`     a message in pieces; the sum of two messages.
-/

namespace Gf2

open Polynomial

variable {n m : Nat}

/-! ## words and polynomials -/

noncomputable def poly (v : BitVec n) : (ZMod 2)[X] :=
  ∑ i ∈ Finset.range n, if v.getLsbD i then X ^ i else 0

noncomputable def word (n : Nat) (p : (ZMod 2)[X]) : BitVec n :=
  (BitVec.ofBoolListLE ((List.range n).map fun i => decide (p.coeff i = 1))).setWidth n

theorem coeff_poly (v : BitVec n) (i : Nat) :
    (poly v).coeff i = if v.getLsbD i then 1 else 0 := by
  have hterm : ∀ k, (if v.getLsbD k then (X : (ZMod 2)[X]) ^ k else 0).coeff i =
      if i = k then (if v.getLsbD i then 1 else 0) else 0 := by
    intro k
    by_cases hv : v.getLsbD k = true
    · rw [if_pos hv, coeff_X_pow]
      by_cases hk : i = k
      · rw [if_pos hk, if_pos hk, hk, if_pos hv]
      · rw [if_neg hk, if_neg hk]
    · rw [if_neg hv, coeff_zero]
      by_cases hk : i = k
      · rw [if_pos hk, hk, if_neg hv]
      · rw [if_neg hk]
  unfold poly
  rw [finsetSum_coeff]
  simp only [hterm, Finset.sum_ite_eq, Finset.mem_range]
  by_cases hi : i < n
  · rw [if_pos hi]
  · rw [if_neg hi, BitVec.getLsbD_of_ge v i (Nat.le_of_not_lt hi)]
    simp

theorem degree_poly (v : BitVec n) : (poly v).degree < n := by
  rw [degree_lt_iff_coeff_zero]
  intro i hi
  rw [coeff_poly, BitVec.getLsbD_of_ge v i hi]
  simp

theorem word_poly (v : BitVec n) : word n (poly v) = v := by
  apply BitVec.eq_of_getLsbD_eq
  intro i hi
  unfold word
  rw [BitVec.getLsbD_setWidth, BitVec.getLsbD_ofBoolListLE, decide_eq_true hi, Bool.true_and,
    List.getD_eq_getElem?_getD, List.getElem?_map, List.getElem?_range hi]
  show decide ((poly v).coeff i = 1) = _
  rw [coeff_poly]
  cases v.getLsbD i <;> simp

theorem poly_inj {v w : BitVec n} (h : poly v = poly w) : v = w := by
  rw [← word_poly v, h, word_poly]

theorem poly_zero : poly (0#n) = 0 := by
  ext i
  rw [coeff_poly, BitVec.getLsbD_zero, coeff_zero]
  simp

theorem poly_xor (v w : BitVec n) : poly (v ^^^ w) = poly v + poly w := by
  ext i
  rw [coeff_add, coeff_poly, coeff_poly, coeff_poly, BitVec.getLsbD_xor]
  cases v.getLsbD i <;> cases w.getLsbD i <;> rfl

theorem add_self (p : (ZMod 2)[X]) : p + p = 0 := by
  ext i
  rw [coeff_add, coeff_zero]
  exact CharTwo.add_self_eq_zero _

theorem poly_one_append (g : BitVec n) : poly (1#1 ++ g) = X ^ n + poly g := by
  ext i
  rw [coeff_add, coeff_X_pow, coeff_poly, coeff_poly, BitVec.getLsbD_append]
  by_cases hi : i < n
  · rw [if_neg (Nat.ne_of_lt hi), zero_add]
    simp [hi]
  · rw [BitVec.getLsbD_of_ge g i (Nat.le_of_not_lt hi)]
    by_cases he : i = n
    · simp [he]
    · have hne : ¬ i - n = 0 := by omega
      simp [he, hi, hne]

/-! ## reflected words -/

/-- the polynomial with its top coefficient in bit zero -/
noncomputable def reflected (v : BitVec n) : (ZMod 2)[X] := poly v.reverse

theorem coeff_reflected (v : BitVec n) (i : Nat) :
    (reflected v).coeff i = if i < n ∧ v.getLsbD (n - 1 - i) then 1 else 0 := by
  unfold reflected
  rw [coeff_poly, BitVec.getLsbD_reverse, BitVec.getMsbD_eq_getLsbD]
  by_cases hi : i < n
  · simp [hi]
  · simp [hi]

theorem reflected_xor (v w : BitVec n) : reflected (v ^^^ w) = reflected v + reflected w := by
  ext i
  rw [coeff_add, coeff_reflected, coeff_reflected, coeff_reflected, BitVec.getLsbD_xor]
  by_cases hi : i < n
  · cases v.getLsbD (n - 1 - i) <;> cases w.getLsbD (n - 1 - i) <;> simp [hi]
    decide
  · simp [hi]

theorem reflected_inj {v w : BitVec n} (h : reflected v = reflected w) : v = w := by
  have hr : v.reverse = w.reverse := poly_inj h
  rw [← BitVec.reverse_reverse_eq (x := v), hr, BitVec.reverse_reverse_eq]

theorem reflected_setWidth (hm : m ≤ n) (b : BitVec m) :
    reflected (b.setWidth n) = X ^ (n - m) * reflected b := by
  ext i
  rw [coeff_X_pow_mul', coeff_reflected, coeff_reflected, BitVec.getLsbD_setWidth]
  by_cases hi : n - m ≤ i
  · rw [if_pos hi]
    by_cases hn : i < n
    · have e : m - 1 - (i - (n - m)) = n - 1 - i := by omega
      have hlt : n - 1 - i < n := by omega
      have hm' : i - (n - m) < m := by omega
      simp [hn, e, hlt, hm']
    · have hm' : ¬ i - (n - m) < m := by omega
      simp [hn, hm']
  · rw [if_neg hi]
    have hge := BitVec.getLsbD_of_ge b (n - 1 - i) (by omega)
    simp [hge]

/-! ## the register -/

/-- one turn: shift right, and fold the generator in when a one drops off -/
def step (g c : BitVec n) : BitVec n :=
  if c.getLsbD 0 then (c >>> 1) ^^^ g.reverse else c >>> 1

noncomputable def generator (g : BitVec n) : (ZMod 2)[X] := X ^ n + poly g

theorem generator_monic (g : BitVec n) : (generator g).Monic := monic_X_pow_add (degree_poly g)

theorem degree_generator (g : BitVec n) : (generator g).degree = n := by
  unfold generator
  rw [degree_add_eq_left_of_degree_lt]
  · exact degree_X_pow n
  · rw [degree_X_pow]
    exact degree_poly g

theorem shift_poly (c : BitVec n) :
    X * reflected c = reflected (c >>> 1) + if c.getLsbD 0 then X ^ n else 0 := by
  ext i
  have hlast : (if c.getLsbD 0 then (X : (ZMod 2)[X]) ^ n else 0).coeff i =
      if i = n ∧ c.getLsbD 0 then 1 else 0 := by
    by_cases hc : c.getLsbD 0 = true
    · rw [if_pos hc, coeff_X_pow]
      simp [hc]
    · rw [if_neg hc, coeff_zero]
      simp [hc]
  rw [coeff_add, hlast, coeff_reflected, BitVec.getLsbD_ushiftRight]
  cases i with
  | zero =>
    rw [coeff_X_mul_zero]
    by_cases h0 : 0 < n
    · have hge := BitVec.getLsbD_of_ge c (1 + (n - 1)) (by omega)
      have hne : ¬ 0 = n := by omega
      simp [hge, hne]
    · have hge := BitVec.getLsbD_of_ge c 0 (by omega)
      simp [h0, hge]
  | succ i =>
    rw [coeff_X_mul, coeff_reflected]
    by_cases hi : i + 1 < n
    · have e : 1 + (n - 1 - (i + 1)) = n - 1 - i := by omega
      have hlt : i < n := by omega
      have hne : ¬ i + 1 = n := by omega
      simp [hi, e, hlt, hne]
    · by_cases he : i + 1 = n
      · have e : n - 1 - i = 0 := by omega
        have hlt : i < n := by omega
        simp [he, e, hlt]
      · have hlt : ¬ i < n := by omega
        simp [hi, he, hlt]

theorem shift_step (g c : BitVec n) :
    X * reflected c = reflected (step g c) + if c.getLsbD 0 then generator g else 0 := by
  rw [shift_poly]
  unfold step
  by_cases hc : c.getLsbD 0 = true
  · rw [if_pos hc, if_pos hc, if_pos hc, reflected_xor]
    have hg : reflected g.reverse = poly g := by
      unfold reflected
      rw [BitVec.reverse_reverse_eq]
    unfold generator
    rw [hg]
    calc reflected (c >>> 1) + X ^ n
        = reflected (c >>> 1) + X ^ n + (poly g + poly g) := by rw [add_self, add_zero]
      _ = reflected (c >>> 1) + poly g + (X ^ n + poly g) := by ring
  · rw [if_neg hc, if_neg hc, if_neg hc]

section Quotient

variable (g : BitVec n)

/-- modulo the generator, a turn multiplies by `X` -/
theorem mk_step (c : BitVec n) : AdjoinRoot.mk (generator g) (reflected (step g c)) =
    AdjoinRoot.mk (generator g) (X * reflected c) := by
  rw [shift_step g c, map_add]
  by_cases hc : c.getLsbD 0 = true
  · rw [if_pos hc, AdjoinRoot.mk_self, add_zero]
  · rw [if_neg hc, map_zero, add_zero]

theorem mk_steps (k : Nat) (c : BitVec n) :
    AdjoinRoot.mk (generator g) (reflected ((step g)^[k] c)) =
      AdjoinRoot.mk (generator g) (X ^ k * reflected c) := by
  induction k with
  | zero => rw [pow_zero, one_mul, Function.iterate_zero, id]
  | succ k ih =>
    rw [Function.iterate_succ_apply', mk_step, map_mul, ih, ← map_mul, pow_succ', mul_assoc]

/-- take a digit of the message in: it goes to the low end, and leaves it in as many turns -/
def absorb (b : BitVec m) (c : BitVec n) : BitVec n := (step g)^[m] (c ^^^ b.setWidth n)

theorem mk_absorb (hm : m ≤ n) (b : BitVec m) (c : BitVec n) :
    AdjoinRoot.mk (generator g) (reflected (absorb g b c)) =
      AdjoinRoot.mk (generator g) (reflected c * X ^ m + reflected b * X ^ n) := by
  unfold absorb
  rw [mk_steps, reflected_xor, reflected_setWidth hm]
  congr 1
  calc X ^ m * (reflected c + X ^ (n - m) * reflected b)
      = reflected c * X ^ m + reflected b * (X ^ m * X ^ (n - m)) := by ring
    _ = reflected c * X ^ m + reflected b * X ^ n := by rw [← pow_add, Nat.add_sub_cancel' hm]

/-! ## messages -/

/-- the register after a message, first digit first -/
def run (bs : List (BitVec m)) (c : BitVec n) : BitVec n := bs.foldl (fun c b => absorb g b c) c

/-- the message polynomial: the first digit is the highest -/
noncomputable def message : List (BitVec m) → (ZMod 2)[X]
  | [] => 0
  | b :: bs => reflected b * X ^ (m * bs.length) + message bs

theorem run_cons (b : BitVec m) (bs : List (BitVec m)) (c : BitVec n) :
    run g (b :: bs) c = run g bs (absorb g b c) := rfl

theorem run_append (bs bs' : List (BitVec m)) (c : BitVec n) :
    run g (bs ++ bs') c = run g bs' (run g bs c) := List.foldl_append

theorem mk_run (hm : m ≤ n) (bs : List (BitVec m)) (c : BitVec n) :
    AdjoinRoot.mk (generator g) (reflected (run g bs c)) =
      AdjoinRoot.mk (generator g) (reflected c * X ^ (m * bs.length) + message bs * X ^ n) := by
  induction bs generalizing c with
  | nil =>
    show AdjoinRoot.mk (generator g) (reflected c) =
      AdjoinRoot.mk (generator g) (reflected c * X ^ (m * 0) + 0 * X ^ n)
    rw [Nat.mul_zero, pow_zero, mul_one, zero_mul, add_zero]
  | cons b bs ih =>
    rw [run_cons, ih, map_add, map_mul, mk_absorb g hm, ← map_mul, ← map_add, List.length_cons,
      Nat.mul_succ]
    congr 1
    show (reflected c * X ^ m + reflected b * X ^ n) * X ^ (m * bs.length) + message bs * X ^ n =
      reflected c * X ^ (m * bs.length + m) +
        (reflected b * X ^ (m * bs.length) + message bs) * X ^ n
    rw [pow_add]
    ring

/-- **the register after a message** holds the remainder -/
theorem reflected_run (hm : m ≤ n) (bs : List (BitVec m)) (c : BitVec n) :
    reflected (run g bs c) =
      (reflected c * X ^ (m * bs.length) + message bs * X ^ n) %ₘ generator g := by
  have hmod := modByMonic_eq_of_dvd_sub (generator_monic g)
    (AdjoinRoot.mk_eq_mk.mp (mk_run g hm bs c))
  rw [← hmod, eq_comm, modByMonic_eq_self_iff (generator_monic g), degree_generator]
  exact degree_poly _

theorem run_eq (hm : m ≤ n) (bs : List (BitVec m)) (c : BitVec n) :
    run g bs c = (word n ((poly c.reverse * X ^ (m * bs.length) + message bs * X ^ n) %ₘ
      generator g)).reverse := by
  have h := congrArg (fun p => (word n p).reverse) (reflected_run g hm bs c)
  refine Eq.trans ?_ h
  show run g bs c = (word n (poly (run g bs c).reverse)).reverse
  rw [word_poly, BitVec.reverse_reverse_eq]

/-! ## sums -/

theorem step_xor (c c' : BitVec n) : step g (c ^^^ c') = step g c ^^^ step g c' := by
  apply BitVec.eq_of_getLsbD_eq
  intro i _
  unfold step
  rw [show (c ^^^ c').getLsbD 0 = (c.getLsbD 0 ^^ c'.getLsbD 0) from BitVec.getLsbD_xor]
  cases c.getLsbD 0 <;> cases c'.getLsbD 0 <;>
    simp [Bool.xor_comm, Bool.xor_left_comm]

theorem steps_xor (k : Nat) (c c' : BitVec n) :
    (step g)^[k] (c ^^^ c') = (step g)^[k] c ^^^ (step g)^[k] c' := by
  induction k generalizing c c' with
  | zero => rfl
  | succ k ih =>
    rw [Function.iterate_succ_apply, Function.iterate_succ_apply, Function.iterate_succ_apply,
      step_xor, ih]

theorem absorb_xor (b b' : BitVec m) (c c' : BitVec n) :
    absorb g (b ^^^ b') (c ^^^ c') = absorb g b c ^^^ absorb g b' c' := by
  unfold absorb
  rw [← steps_xor]
  congr 1
  apply BitVec.eq_of_getLsbD_eq
  intro i hi
  simp only [BitVec.getLsbD_xor, BitVec.getLsbD_setWidth]
  simp only [hi, decide_true, Bool.true_and]
  cases c.getLsbD i <;> cases c'.getLsbD i <;> cases b.getLsbD i <;> cases b'.getLsbD i <;> rfl

/-- **the register is linear** in its start and its message -/
theorem run_xor {bs bs' : List (BitVec m)} (h : bs.length = bs'.length) (c c' : BitVec n) :
    run g (List.zipWith (· ^^^ ·) bs bs') (c ^^^ c') = run g bs c ^^^ run g bs' c' := by
  induction bs generalizing bs' c c' with
  | nil =>
    obtain rfl : bs' = [] := List.length_eq_zero_iff.mp h.symm
    rfl
  | cons b bs ih =>
    cases bs' with
    | nil => cases h
    | cons b' bs' =>
      rw [List.zipWith_cons_cons, run_cons, run_cons, run_cons, absorb_xor]
      exact ih (Nat.succ.inj h) _ _

end Quotient

end Gf2
