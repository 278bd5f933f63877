import Mathlib.Tactic
import Mathlib.Logic.Relation

/-!
# Loops that consume their input

A loop whose every turn returns or makes a measure smaller needs no more turns than the measure says.
`loop` runs it with that many, and obeys the equations of the unbounded loop.

* `loop_return`  a turn that returns ends the loop;
* `loop_next`    a turn that goes on leaves the loop at the state it made;
* `loop_result`  what every return satisfies, the loop does;
* `loop_ends`    the loop ends with the return of a state it visits.
-/

namespace Consume

variable {σ ρ : Type} (step : σ → ρ ⊕ σ) (stop : ρ)

/-- at most so many turns -/
def turns : Nat → σ → ρ
  | 0, _ => stop
  | n + 1, s =>
    match step s with
    | .inl r => r
    | .inr s' => turns n s'

theorem turns_succ (n : Nat) (s : σ) :
    turns step stop (n + 1) s =
      match step s with
      | .inl r => r
      | .inr s' => turns step stop n s' := rfl

/-- every turn that goes on makes the measure smaller -/
def Shrinks (μ : σ → Nat) : Prop := ∀ s s', step s = .inr s' → μ s' < μ s

theorem Shrinks.wf {step : σ → ρ ⊕ σ} {μ : σ → Nat} (h : Shrinks step μ) :
    WellFounded fun s' s => step s = .inr s' := by
  refine Subrelation.wf ?_ (measure μ).wf
  intro s' s ht
  exact h s s' ht

/-- the loop, with as many turns as it can need -/
def loop (μ : σ → Nat) (s : σ) : ρ := turns step stop (μ s + 1) s

variable {step stop} {μ : σ → Nat}

/-- more turns than the measure change nothing -/
theorem turns_enough (h : Shrinks step μ) :
    ∀ (n m : Nat) (s : σ), μ s < n → μ s < m → turns step stop n s = turns step stop m s := by
  intro n
  induction n with
  | zero =>
    intro m s hn
    exact absurd hn (Nat.not_lt_zero _)
  | succ n ih =>
    intro m s hn hm
    cases m with
    | zero => exact absurd hm (Nat.not_lt_zero _)
    | succ m =>
      rw [turns_succ, turns_succ]
      cases hs : step s with
      | inl r => rfl
      | inr s' =>
        have hlt := h s s' hs
        exact ih m s' (by omega) (by omega)

theorem loop_return {s : σ} {r : ρ} (hs : step s = .inl r) : loop step stop μ s = r := by
  unfold loop
  rw [turns_succ, hs]

/-- **a turn that goes on leaves the loop at the state it made** -/
theorem loop_next (h : Shrinks step μ) {s s' : σ} (hs : step s = .inr s') :
    loop step stop μ s = loop step stop μ s' := by
  have hlt := h s s' hs
  show turns step stop (μ s + 1) s = turns step stop (μ s' + 1) s'
  rw [turns_succ, hs]
  exact turns_enough h _ _ s' hlt (Nat.lt_succ_self _)

theorem loop_result {P : ρ → Prop} (hstop : P stop) (hret : ∀ s r, step s = .inl r → P r) (s : σ) :
    P (loop step stop μ s) := by
  have hturns : ∀ (n : Nat) (s : σ), P (turns step stop n s) := by
    intro n
    induction n with
    | zero => exact fun _ => hstop
    | succ n ih =>
      intro s
      rw [turns_succ]
      cases hs : step s with
      | inl r => exact hret s r hs
      | inr s' => exact ih s'
  exact hturns _ s

/-! ## the states it visits -/

/-- one state leads to the next -/
def Turn (step : σ → ρ ⊕ σ) (s s' : σ) : Prop := step s = .inr s'

/-- the states of the loop from `s` on -/
def Visits (step : σ → ρ ⊕ σ) : σ → σ → Prop := Relation.ReflTransGen (Turn step)

theorem loop_visits (h : Shrinks step μ) {s s' : σ} (hv : Visits step s s') :
    loop step stop μ s = loop step stop μ s' := by
  induction hv with
  | refl => rfl
  | tail _ ht ih => rw [ih, loop_next h ht]

/-- **the loop ends** with the return of a state it visits -/
theorem loop_ends (h : Shrinks step μ) (s : σ) :
    ∃ s' r, Visits step s s' ∧ step s' = .inl r ∧ loop step stop μ s = r := by
  induction hn : μ s using Nat.strong_induction_on generalizing s with
  | _ n ih =>
    cases hs : step s with
    | inl r => exact ⟨s, r, .refl, hs, loop_return hs⟩
    | inr s₁ =>
      obtain ⟨s', r, hv, hr, hl⟩ := ih (μ s₁) (hn ▸ h s s₁ hs) s₁ rfl
      exact ⟨s', r, .head hs hv, hr, (loop_next h hs).trans hl⟩

/-- a state the loop visits leads to where it ends -/
theorem visits_end {s a b : σ} {r : ρ} (ha : Visits step s a) (hr : step a = .inl r)
    (hb : Visits step s b) : Visits step b a := by
  induction hb with
  | refl => exact ha
  | tail _ ht ih =>
    cases Relation.ReflTransGen.cases_head ih with
    | inl heq =>
      have hstop : step a = .inr _ := heq ▸ ht
      rw [hr] at hstop
      cases hstop
    | inr h =>
      obtain ⟨c, hc, hrest⟩ := h
      have hsame := hc.symm.trans ht
      cases hsame
      exact hrest

theorem visits_end_unique {s a b : σ} {r r' : ρ} (ha : Visits step s a) (hr : step a = .inl r)
    (hb : Visits step s b) (hr' : step b = .inl r') : b = a := by
  cases Relation.ReflTransGen.cases_head (visits_end ha hr hb) with
  | inl heq => exact heq
  | inr h =>
    obtain ⟨c, hc, -⟩ := h
    have hstop : step b = .inr c := hc
    rw [hr'] at hstop
    cases hstop

/-! ## turns that may fail -/

variable {turn : σ → Option (ρ ⊕ σ)}

/-- a turn that fails ends the loop with no answer -/
def guarded (turn : σ → Option (ρ ⊕ σ)) (s : σ) : Option ρ ⊕ σ :=
  match turn s with
  | none => .inl none
  | some (.inl r) => .inl (some r)
  | some (.inr s') => .inr s'

theorem guarded_none {s : σ} : guarded turn s = .inl none ↔ turn s = none := by
  unfold guarded
  rcases turn s with _ | r | s' <;> simp

theorem guarded_some {s : σ} {r : ρ} :
    guarded turn s = .inl (some r) ↔ turn s = some (.inl r) := by
  unfold guarded
  rcases turn s with _ | r' | s' <;> simp

theorem guarded_next {s s' : σ} : guarded turn s = .inr s' ↔ turn s = some (.inr s') := by
  unfold guarded
  rcases turn s with _ | r | s₁ <;> simp

/-- **the loop answers exactly when no turn of a state it visits fails** -/
theorem guarded_safe {stop : Option ρ} (h : Shrinks (guarded turn) μ) (s : σ) :
    loop (guarded turn) stop μ s ≠ none ↔ ∀ s', Visits (guarded turn) s s' → turn s' ≠ none := by
  constructor
  · intro hne s' hv hnone
    refine hne ?_
    rw [loop_visits h hv]
    exact loop_return (guarded_none.mpr hnone)
  · intro hall hnone
    obtain ⟨s', r, hv, hr, hl⟩ := @loop_ends _ _ _ stop _ h s
    rw [hl.symm.trans hnone] at hr
    exact hall s' hv (guarded_none.mp hr)

theorem guarded_answer {stop : Option ρ} (h : Shrinks (guarded turn) μ) {s : σ} {r : ρ}
    (hl : loop (guarded turn) stop μ s = some r) :
    ∃ s', Visits (guarded turn) s s' ∧ turn s' = some (.inl r) := by
  obtain ⟨s', r', hv, hr, hl'⟩ := @loop_ends _ _ _ stop _ h s
  rw [hl'.symm.trans hl] at hr
  exact ⟨s', hv, guarded_some.mp hr⟩

end Consume
