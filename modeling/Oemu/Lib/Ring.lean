import Mathlib.Data.List.Basic
import Mathlib.Tactic

/-!
# Queues kept in a ring

A ring of `n` cells holds a queue: `count` cells from `head` on, wrapped.  `contents` is the queue,
oldest first, and what the updates of a ring do to it is stated here once:

* `contents_push`   a store behind the last cell appends;
* `contents_cons`   the cell at the head is the oldest, and moving the head drops it.

`Account` is the bookkeeping of a queue that may lose its oldest: what came in, what went out, what
is queued, and how many were lost.
-/

namespace Ring

variable {α : Type}

/-- the cell `i` places after `head` -/
def slot (n head i : Nat) : Nat := (head + i) % n

/-- the queue of `count` cells from `head` on -/
def contents (n : Nat) (cells : Nat → α) (head count : Nat) : List α :=
  (List.range count).map fun i => cells (slot n head i)

variable {n : Nat} {cells : Nat → α} {head count : Nat}

theorem slot_lt (hn : 0 < n) (head i : Nat) : slot n head i < n := Nat.mod_lt _ hn

theorem slot_zero (h : head < n) : slot n head 0 = head := Nat.mod_eq_of_lt h

theorem slot_slot (i j : Nat) : slot n (slot n head i) j = slot n head (i + j) := by
  unfold slot
  rw [Nat.mod_add_mod, Nat.add_assoc]

/-- cells less than a turn apart are different -/
theorem slot_ne {i j : Nat} (hij : i < j) (hj : j < i + n) : slot n head i ≠ slot n head j := by
  intro h
  have hd : n ∣ (head + j) - (head + i) := (Nat.modEq_iff_dvd' (by omega)).mp h
  have hle := Nat.le_of_dvd (by omega) hd
  omega

@[simp] theorem contents_zero : contents n cells head 0 = [] := rfl

@[simp] theorem contents_length : (contents n cells head count).length = count := by
  simp [contents]

theorem contents_succ :
    contents n cells head (count + 1) =
      contents n cells head count ++ [cells (slot n head count)] := by
  simp [contents, List.range_succ]

theorem contents_cons (h : head < n) :
    contents n cells head (count + 1) = cells head :: contents n cells (slot n head 1) count := by
  induction count with
  | zero => rw [contents_succ, slot_zero h]; rfl
  | succ m ih =>
    rw [contents_succ, ih, contents_succ, slot_slot, Nat.add_comm 1 m]
    rfl

theorem contents_update {i : Nat} (hi : count ≤ i) (hn : i < n) (b : α) :
    contents n (Function.update cells (slot n head i) b) head count =
      contents n cells head count := by
  apply List.map_congr_left
  intro j hj
  have hlt := List.mem_range.mp hj
  exact Function.update_of_ne (slot_ne (lt_of_lt_of_le hlt hi) (by omega)) _ _

/-- **a store behind the last cell of a queue with room appends** -/
theorem contents_push (hn : count < n) (b : α) :
    contents n (Function.update cells (slot n head count) b) head (count + 1) =
      contents n cells head count ++ [b] := by
  rw [contents_succ, contents_update (Nat.le_refl _) hn, Function.update_self]

end Ring

/-! ## a queue that may lose its oldest -/

namespace Queue

variable {α : Type}

/-- what came in is what went out, what is queued and what was lost -/
structure Account (came out queue : List α) (lost : Nat) : Prop where
  members : (out ++ queue).Subperm came
  size : came.length = out.length + queue.length + lost

variable {came out queue : List α} {lost : Nat} {a : α}

theorem Account.start : Account ([] : List α) [] [] 0 := ⟨List.Subperm.refl _, rfl⟩

theorem Account.push (h : Account came out queue lost) (b : α) :
    Account (came ++ [b]) out (queue ++ [b]) lost where
  members := by
    rw [← List.append_assoc]
    exact (List.subperm_append_right [b]).mpr h.members
  size := by
    have hs := h.size
    simp only [List.length_append, List.length_singleton]
    omega

theorem Account.lose (h : Account came out (a :: queue) lost) :
    Account came out queue (lost + 1) where
  members := by
    refine List.Subperm.trans (List.Sublist.subperm ?_) h.members
    exact (List.Sublist.refl out).append (List.sublist_cons_self a queue)
  size := by
    have hs := h.size
    rw [List.length_cons] at hs
    omega

theorem Account.pop (h : Account came out (a :: queue) lost) :
    Account came (out ++ [a]) queue lost where
  members := by
    rw [List.append_assoc]
    exact h.members
  size := by
    have hs := h.size
    simp only [List.length_append, List.length_cons, List.length_nil] at hs ⊢
    omega

theorem Account.pass (h : Account came out queue lost) (b : α) :
    Account (came ++ [b]) (out ++ [b]) queue lost where
  members := by
    have hp : (out ++ [b] ++ queue).Perm (out ++ queue ++ [b]) := by
      rw [List.append_assoc, List.append_assoc]
      exact List.Perm.append_left out List.perm_append_comm
    exact hp.subperm.trans ((List.subperm_append_right [b]).mpr h.members)
  size := by
    have hs := h.size
    simp only [List.length_append, List.length_singleton]
    omega

theorem Account.refuse (h : Account came out queue lost) (b : α) :
    Account (came ++ [b]) out queue (lost + 1) where
  members := h.members.trans (List.sublist_append_left came [b]).subperm
  size := by
    have hs := h.size
    rw [List.length_append, List.length_singleton]
    omega

theorem Account.move {l : List α} (h : Account came out (l ++ queue) lost) :
    Account came (out ++ l) queue lost where
  members := by
    rw [List.append_assoc]
    exact h.members
  size := by
    have hs := h.size
    simp only [List.length_append] at hs ⊢
    omega

theorem order_lose (h : (out ++ a :: queue).Sublist came) : (out ++ queue).Sublist came :=
  ((List.Sublist.refl out).append (List.sublist_cons_self a queue)).trans h

theorem order_push (h : (out ++ queue).Sublist came) (b : α) :
    (out ++ (queue ++ [b])).Sublist (came ++ [b]) := by
  rw [← List.append_assoc]
  exact h.append (List.Sublist.refl [b])

end Queue
