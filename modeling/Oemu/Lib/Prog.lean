import Mathlib.Tactic

/-!
# Programs that may abort

A program over a state `σ` that may stop for good is a `StateT σ Option`.  `wp ab m Q s` is its
weakest precondition from `s`, with `ab` the verdict on an abort: `True` makes it partial
correctness, `False` adds that the program does not abort.  The rules below compute it through the
structure of a program:

* `wp_pure`, `wp_bind`, `wp_ite`, `wp_abort`: one rule for each way a program is built;
* `wp_mono`: weakening of the postcondition;
* `wp_forM`: the rule of an indexed loop, by an invariant.
-/

namespace Prog

variable {σ α β : Type}

/-- stop the whole run -/
def abort : StateT σ Option α := fun _ => none

def act (f : σ → α × σ) : StateT σ Option α := fun s => some (f s)

/-- a value, or the abort of the whole run -/
def require (o : Option α) : StateT σ Option α := fun s => o.map fun a => (a, s)

theorem bind_apply (m : StateT σ Option β) (f : β → StateT σ Option α) (s : σ) :
    (m >>= f) s = (m s).bind fun p => f p.1 p.2 := rfl

theorem require_bind_apply (o : Option β) (f : β → StateT σ Option α) (s : σ) :
    (require o >>= f) s = o.bind fun b => f b s := by
  rw [bind_apply]
  cases o <;> rfl

def wp (ab : Prop) (m : StateT σ Option α) (Q : α → σ → Prop) (s : σ) : Prop :=
  match m s with
  | none => ab
  | some (a, s') => Q a s'

variable {ab : Prop} {Q Q' : α → σ → Prop} {s : σ}

@[simp] theorem wp_pure (a : α) : wp ab (pure a) Q s ↔ Q a s := Iff.rfl

@[simp] theorem wp_abort : wp ab (abort : StateT σ Option α) Q s ↔ ab := Iff.rfl

@[simp] theorem wp_act (f : σ → α × σ) : wp ab (act f) Q s ↔ Q (f s).1 (f s).2 := Iff.rfl

@[simp] theorem wp_bind (m : StateT σ Option β) (f : β → StateT σ Option α) :
    wp ab (m >>= f) Q s ↔ wp ab m (fun b s' => wp ab (f b) Q s') s := by
  have e : (m >>= f) s = (m s).bind fun p => f p.1 p.2 := rfl
  unfold wp
  rw [e]
  cases m s with
  | none => rfl
  | some p => rfl

@[simp] theorem wp_map (m : StateT σ Option β) (f : β → α) :
    wp ab (f <$> m) Q s ↔ wp ab m (fun b s' => Q (f b) s') s := by
  have e : (f <$> m) s = (m s).bind fun p => some (f p.1, p.2) := rfl
  unfold wp
  rw [e]
  cases m s with
  | none => rfl
  | some p => rfl

@[simp] theorem wp_ite (c : Prop) [Decidable c] (m n : StateT σ Option α) :
    wp ab (if c then m else n) Q s ↔ (c → wp ab m Q s) ∧ (¬ c → wp ab n Q s) := by
  by_cases h : c <;> simp [h]

theorem wp_mono {m : StateT σ Option α} (h : ∀ a s', Q a s' → Q' a s') (hm : wp ab m Q s) :
    wp ab m Q' s := by
  unfold wp at hm ⊢
  cases e : m s with
  | none => simpa [e] using hm
  | some p =>
    rw [e] at hm
    exact h _ _ hm

theorem wp_and {m : StateT σ Option α} (h : wp ab m Q s) (h' : wp ab m Q' s) :
    wp ab m (fun a s' => Q a s' ∧ Q' a s') s := by
  unfold wp at h h' ⊢
  cases e : m s with
  | none => simpa [e] using h
  | some p =>
    rw [e] at h h'
    exact ⟨h, h'⟩

/-- what a partial-correctness statement says of a run -/
theorem wp_true_iff {m : StateT σ Option α} :
    wp True m Q s ↔ ∀ a s', m s = some (a, s') → Q a s' := by
  unfold wp
  cases e : m s with
  | none => simp
  | some p =>
    constructor
    · rintro h a s' he
      cases he
      exact h
    · intro h
      exact h _ _ rfl

/-- what a total-correctness statement says of a run -/
theorem wp_false_iff {m : StateT σ Option α} :
    wp False m Q s ↔ ∃ a s', m s = some (a, s') ∧ Q a s' := by
  unfold wp
  cases e : m s with
  | none => simp
  | some p =>
    constructor
    · intro h
      exact ⟨p.1, p.2, rfl, h⟩
    · rintro ⟨a, s', he, hq⟩
      cases he
      exact hq

/-- the rule of a loop over a list: an invariant on what remains -/
theorem wp_forM {ι : Type} (I : List ι → σ → Prop) (body : ι → StateT σ Option PUnit)
    (step : ∀ i l s, I (i :: l) s → wp ab (body i) (fun _ s' => I l s') s) :
    ∀ (l : List ι) (s : σ), I l s → wp ab (l.forM body) (fun _ s' => I [] s') s := by
  intro l
  induction l with
  | nil =>
    intro s h
    exact h
  | cons i l ih =>
    intro s h
    have e : (i :: l).forM body = (body i >>= fun _ => l.forM body) := rfl
    rw [e, wp_bind]
    exact wp_mono (fun _ s' h' => ih s' h') (step i l s h)

end Prog
