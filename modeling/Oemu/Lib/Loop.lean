import Mathlib.Tactic
import Mathlib.Logic.Relation

/-!
# Loops without a budget

`for (;;) body`: one turn of the loop goes on with a new state, returns a value from a last state,
or stops the whole program.  `run` takes some turns of it and says how far they came.

* `Reached`              the states turns start in;
* `reached_invariant`    what a turn keeps holds in all of them;
* `exited_from`          a loop that returned did so in a turn from one of them;
* `ends_of_measure`      a loop whose turns lower a measure ends;
* `aborted_from`         one that stopped the program did so in a turn from one of them;
* `never_returns`        a loop that goes round for ever.
-/

namespace Loop

variable {S E : Type} (turn : S → Option (S × Option E))

/-- how far a loop came -/
inductive Progress (S E : Type) where
  | running (s : S)
  | exited (e : E) (s : S)
  | aborted

def run : Nat → S → Progress S E
  | 0, s => .running s
  | n + 1, s => (turn s).elim .aborted fun p => p.2.elim (run n p.1) fun e => .exited e p.1

/-- the loop goes on from one state to the other -/
def Next (s s' : S) : Prop := turn s = some (s', none)

/-- turns of the loop start in it -/
def Reached (s s' : S) : Prop := Relation.ReflTransGen (Next turn) s s'

variable {turn} {s s' : S}

theorem run_succ (n : Nat) (s : S) :
    run turn (n + 1) s =
      (turn s).elim .aborted fun p => p.2.elim (run turn n p.1) fun e => .exited e p.1 :=
  rfl

theorem run_next (h : Next turn s s') (n : Nat) : run turn (n + 1) s = run turn n s' := by
  rw [run_succ, show turn s = some (s', none) from h]
  rfl

theorem run_exit {e : E} (h : turn s = some (s', some e)) (n : Nat) :
    run turn (n + 1) s = .exited e s' := by
  rw [run_succ, h]
  rfl

theorem run_abort (h : turn s = none) (n : Nat) : run turn (n + 1) s = .aborted := by
  rw [run_succ, h]
  rfl

theorem turn_cases (turn : S → Option (S × Option E)) (s : S) :
    turn s = none ∨ (∃ s', Next turn s s') ∨ ∃ s' e, turn s = some (s', some e) := by
  rcases h : turn s with _ | ⟨s', _ | e⟩
  · exact .inl rfl
  · exact .inr (.inl ⟨s', h⟩)
  · exact .inr (.inr ⟨s', e, rfl⟩)

theorem reached_invariant {I : S → Prop} (hstep : ∀ s s', I s → Next turn s s' → I s')
    (h : Reached turn s s') (h0 : I s) : I s' := by
  induction h with
  | refl => exact h0
  | tail _ hs ih => exact hstep _ _ ih hs

theorem exited_from {n : Nat} {e : E} (h : run turn n s = .exited e s') :
    ∃ u, Reached turn s u ∧ turn u = some (s', some e) := by
  induction n generalizing s with
  | zero => cases h
  | succ n ih =>
    rcases turn_cases turn s with ht | ⟨u, hu⟩ | ⟨u, e', hu⟩
    · rw [run_abort ht] at h
      cases h
    · rw [run_next hu] at h
      obtain ⟨w, hw, he⟩ := ih h
      exact ⟨w, .head hu hw, he⟩
    · rw [run_exit hu] at h
      cases h
      exact ⟨s, .refl, hu⟩

theorem aborted_from {n : Nat} (h : run turn n s = .aborted) :
    ∃ u, Reached turn s u ∧ turn u = none := by
  induction n generalizing s with
  | zero => cases h
  | succ n ih =>
    rcases turn_cases turn s with ht | ⟨u, hu⟩ | ⟨u, e', hu⟩
    · exact ⟨s, .refl, ht⟩
    · rw [run_next hu] at h
      obtain ⟨w, hw, he⟩ := ih h
      exact ⟨w, .head hu hw, he⟩
    · rw [run_exit hu] at h
      cases h

/-- **a loop whose turns lower a measure ends** -/
theorem ends_of_measure {m : S → Nat}
    (hturn : ∀ u, Reached turn s u → ∀ u', Next turn u u' → m u' < m u) :
    ∃ n, run turn n s = .aborted ∨ ∃ e s', run turn n s = .exited e s' := by
  obtain ⟨k, hk⟩ : ∃ k, m s = k := ⟨_, rfl⟩
  induction k using Nat.strong_induction_on generalizing s with
  | _ k ih =>
    rcases turn_cases turn s with ht | ⟨u, hu⟩ | ⟨u, e, hu⟩
    · exact ⟨1, .inl (run_abort ht 0)⟩
    · have hlt : m u < k := hk ▸ hturn s .refl u hu
      have hrest : ∀ w, Reached turn u w → ∀ w', Next turn w w' → m w' < m w :=
        fun w hw => hturn w (.head hu hw)
      obtain ⟨n, hn⟩ := ih (m u) hlt hrest rfl
      refine ⟨n + 1, ?_⟩
      rw [run_next hu]
      exact hn
    · exact ⟨1, .inr ⟨e, u, run_exit hu 0⟩⟩

/-- a loop that goes round inside a set of states never returns -/
theorem never_returns {I : S → Prop} (hturn : ∀ u, I u → ∃ u', Next turn u u' ∧ I u') (h0 : I s)
    (n : Nat) : ∃ s', run turn n s = .running s' ∧ I s' := by
  induction n generalizing s with
  | zero => exact ⟨s, rfl, h0⟩
  | succ n ih =>
    obtain ⟨u, hu, hI⟩ := hturn s h0
    rw [run_next hu]
    exact ih hI

end Loop
