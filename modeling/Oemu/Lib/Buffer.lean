import Mathlib.Tactic

/-!
# A buffer written piece by piece

A buffer is a function from indices.  `poke` lays a list over it, `readout` reads a range back.

* `readout_poke`       what was written is read;
* `readout_poke_off`   a range the writing does not meet keeps its values;
* `poke_poke`          two pieces one after the other are their concatenation.
-/

namespace Buffer

variable {α : Type}

def poke (m : Nat → α) (a : Nat) (l : List α) : Nat → α := fun i =>
  if h : a ≤ i ∧ i < a + l.length then l.get ⟨i - a, by omega⟩ else m i

def readout (m : Nat → α) (a n : Nat) : List α := (List.range n).map fun i => m (a + i)

@[simp] theorem readout_length (m : Nat → α) (a n : Nat) : (readout m a n).length = n := by
  simp [readout]

theorem poke_nil (m : Nat → α) (a : Nat) : poke m a [] = m := by
  funext i
  unfold poke
  rw [dif_neg (by simp)]

theorem poke_at (m : Nat → α) (a : Nat) {l : List α} {i : Nat} (hi : i < l.length) :
    poke m a l (a + i) = l.get ⟨i, hi⟩ := by
  unfold poke
  rw [dif_pos (by omega)]
  congr 1
  exact Fin.ext (Nat.add_sub_cancel_left a i)

theorem poke_off (m : Nat → α) {a i : Nat} {l : List α} (h : i < a ∨ a + l.length ≤ i) :
    poke m a l i = m i := by
  unfold poke
  rw [dif_neg (by omega)]

theorem readout_poke (m : Nat → α) (a : Nat) (l : List α) : readout (poke m a l) a l.length = l := by
  apply List.ext_getElem
  · exact readout_length _ _ _
  · intro i h1 h2
    simp only [readout, List.getElem_map, List.getElem_range, poke_at m a h2]
    rfl

theorem readout_poke_off (m : Nat → α) {a b n : Nat} {l : List α}
    (h : b + n ≤ a ∨ a + l.length ≤ b) : readout (poke m a l) b n = readout m b n := by
  unfold readout
  apply List.map_congr_left
  intro i hi
  have hi := List.mem_range.mp hi
  exact poke_off m (by omega)

theorem readout_add (m : Nat → α) (a n k : Nat) :
    readout m a (n + k) = readout m a n ++ readout m (a + n) k := by
  unfold readout
  rw [List.range_add, List.map_append, List.map_map]
  congr 1
  apply List.map_congr_left
  intro i _
  show m (a + (n + i)) = m (a + n + i)
  rw [Nat.add_assoc]

theorem poke_poke (m : Nat → α) (a : Nat) (l l' : List α) :
    poke (poke m a l) (a + l.length) l' = poke m a (l ++ l') := by
  funext i
  by_cases h' : a + l.length ≤ i ∧ i < a + l.length + l'.length
  · obtain ⟨j, rfl⟩ := Nat.exists_eq_add_of_le h'.1
    rw [poke_at _ _ (by omega), Nat.add_assoc, poke_at m a (by rw [List.length_append]; omega)]
    simp
  · rw [poke_off _ (by omega)]
    by_cases h : a ≤ i ∧ i < a + l.length
    · obtain ⟨j, rfl⟩ := Nat.exists_eq_add_of_le h.1
      have hj : j < l.length := by omega
      rw [poke_at m a hj, poke_at m a (by rw [List.length_append]; omega)]
      simp [hj]
    · rw [poke_off _ (by omega), poke_off _ (by rw [List.length_append]; omega)]

theorem readout_getD (l : List α) (d : α) : readout (fun i => l.getD i d) 0 l.length = l := by
  apply List.ext_getElem
  · exact readout_length _ _ _
  · intro i h1 h2
    simp [readout, h2]

theorem readout_poke_end (m : Nat → α) (a n : Nat) (l : List α) :
    readout (poke m (a + n) l) a (n + l.length) = readout m a n ++ l := by
  rw [readout_add, readout_poke, readout_poke_off m (.inl (Nat.le_refl _))]

end Buffer
