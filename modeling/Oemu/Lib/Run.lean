import Mathlib.Tactic
import Mathlib.Logic.Relation

/-!
# Runs of a labelled transition system

`Run step s l s'`: from `s` the labels of `l`, in order, lead to `s'`.  `Run.invariant` is the rule
every safety proof of this development goes through: what one step keeps, a run keeps.
`Run.history` is the same rule for what ties a state to the labels that led to it.

`Since P Q h` is the past operator of temporal logic over such a history.
-/

namespace Lts

variable {σ ι : Type}

/-- the runs of a labelled step relation -/
inductive Run (step : σ → ι → σ → Prop) : σ → List ι → σ → Prop where
  | nil (s : σ) : Run step s [] s
  | cons {s s' s'' : σ} {i : ι} {l : List ι} :
      step s i s' → Run step s' l s'' → Run step s (i :: l) s''

variable {step : σ → ι → σ → Prop} {s s' s'' : σ}

theorem Run.append {l l' : List ι} (h : Run step s l s') (h' : Run step s' l' s'') :
    Run step s (l ++ l') s'' := by
  induction h with
  | nil s => exact h'
  | cons hs _ ih => exact .cons hs (ih h')

theorem Run.split {l l' : List ι} (h : Run step s (l ++ l') s'') :
    ∃ s', Run step s l s' ∧ Run step s' l' s'' := by
  induction l generalizing s with
  | nil => exact ⟨s, .nil s, h⟩
  | cons i l ih =>
    cases h with
    | cons hs hr =>
      obtain ⟨u, hl, hl'⟩ := ih hr
      exact ⟨u, .cons hs hl, hl'⟩

theorem Run.snoc {l : List ι} {i : ι} (h : Run step s l s') (h' : step s' i s'') :
    Run step s (l ++ [i]) s'' :=
  h.append (.cons h' (.nil _))

/-- an invariant of each step whose label is admitted holds along a run of such labels -/
theorem Run.invariant {I : σ → Prop} {A : ι → Prop}
    (hstep : ∀ s i s', I s → A i → step s i s' → I s')
    {l : List ι} (h : Run step s l s') (hl : ∀ i ∈ l, A i) (h0 : I s) : I s' := by
  induction h with
  | nil s => exact h0
  | cons hs _ ih =>
    refine ih (fun i hi => hl i (List.mem_cons_of_mem _ hi)) ?_
    exact hstep _ _ _ h0 (hl _ List.mem_cons_self) hs

/-- what ties a state to the history that led to it, kept by each step, holds along a run -/
theorem Run.history {I : List ι → σ → Prop}
    (hstep : ∀ h s i s', I h s → step s i s' → I (h ++ [i]) s')
    {l h : List ι} (hrun : Run step s l s') (h0 : I h s) : I (h ++ l) s' := by
  induction hrun generalizing h with
  | nil s =>
    rw [List.append_nil]
    exact h0
  | cons hs _ ih =>
    rename_i i l _
    have := ih (hstep _ _ _ _ h0 hs)
    rwa [List.append_assoc, List.singleton_append] at this

theorem Run.simulate {τ : Type} {step' : τ → ι → τ → Prop} {R : σ → τ → Prop}
    (hstep : ∀ s t i s', R s t → step s i s' → ∃ t', step' t i t' ∧ R s' t') {l : List ι} {t : τ}
    (h : Run step s l s') (h0 : R s t) : ∃ t', Run step' t l t' ∧ R s' t' := by
  induction h generalizing t with
  | nil s => exact ⟨t, .nil t, h0⟩
  | cons hs _ ih =>
    obtain ⟨t', ht, hR⟩ := hstep _ _ _ _ h0 hs
    obtain ⟨t'', hrun, hR'⟩ := ih hR
    exact ⟨t'', .cons ht hrun, hR'⟩

/-- a run that loses `I` has a step that loses it -/
theorem Run.crossing {I : σ → Prop} {l : List ι} (h : Run step s l s') (h0 : I s)
    (h1 : ¬ I s') :
    ∃ l₁ i l₂ u u', l = l₁ ++ i :: l₂ ∧ Run step s l₁ u ∧ step u i u' ∧ Run step u' l₂ s' ∧
      I u ∧ ¬ I u' := by
  induction h with
  | nil s => exact absurd h0 h1
  | cons hs hr ih =>
    rename_i s s' s'' i l
    by_cases hI : I s'
    · obtain ⟨l₁, j, l₂, u, u', rfl, hl, hu, hr', hiu, hiu'⟩ := ih hI h1
      exact ⟨i :: l₁, j, l₂, u, u', rfl, .cons hs hl, hu, hr', hiu, hiu'⟩
    · exact ⟨[], i, l, s, s', rfl, .nil s, hs, hr, h0, hI⟩

/-- some label satisfies `P`, and every later one satisfies `Q` -/
def Since (P Q : ι → Prop) (h : List ι) : Prop :=
  ∃ pre i post, h = pre ++ i :: post ∧ P i ∧ ∀ j ∈ post, Q j

variable {P Q : ι → Prop}

theorem not_since_nil : ¬ Since P Q [] := by
  rintro ⟨pre, i, post, h, -⟩
  cases pre <;> cases h

theorem since_snoc {h : List ι} {i : ι} : Since P Q (h ++ [i]) ↔ P i ∨ Since P Q h ∧ Q i := by
  constructor
  · rintro ⟨pre, j, post, he, hj, hpost⟩
    rcases List.eq_nil_or_concat post with rfl | ⟨post', k, rfl⟩
    · obtain ⟨-, he'⟩ := List.append_inj' he rfl
      cases he'
      exact .inl hj
    · rw [List.concat_eq_append, ← List.cons_append, ← List.append_assoc] at he
      obtain ⟨he₁, he₂⟩ := List.append_inj' he rfl
      cases he₂
      refine .inr ⟨⟨pre, j, post', he₁, hj, fun m hm => hpost m ?_⟩, hpost _ ?_⟩
      · simp [hm]
      · simp
  · rintro (hi | ⟨⟨pre, j, post, rfl, hj, hpost⟩, hi⟩)
    · exact ⟨h, i, [], rfl, hi, fun _ hm => absurd hm List.not_mem_nil⟩
    · refine ⟨pre, j, post ++ [i], by simp, hj, ?_⟩
      intro m hm
      rcases List.mem_append.mp hm with hm | hm
      · exact hpost m hm
      · rw [List.mem_singleton.mp hm]
        exact hi

end Lts
