import Mathlib.Tactic
import Mathlib.Logic.Function.Basic

/-!
# Direct-mapped memo tables

A table with one slot for each set, holding a key with the value memoised for it.  `Memo f t` says
that the table only holds answers of `f`; it is established by `Memo.empty` and kept by
`Memo.fill`.  What a fill does to the other keys is `lookup_fill_of_ne`, `lookup_fill_of_set_ne`.
-/

namespace Memo

variable {ι κ ν : Type} [DecidableEq ι] [DecidableEq κ]

abbrev Table (ι κ ν : Type) := ι → Option (κ × ν)

def lookup (set : κ → ι) (t : Table ι κ ν) (k : κ) : Option ν :=
  match t (set k) with
  | some (k', v) => if k' = k then some v else none
  | none => none

def fill (set : κ → ι) (t : Table ι κ ν) (k : κ) (v : ν) : Table ι κ ν :=
  Function.update t (set k) (some (k, v))

/-- every answer of the table is an answer of the function -/
def Memo (set : κ → ι) (f : κ → Option ν) (t : Table ι κ ν) : Prop :=
  ∀ k v, lookup set t k = some v → f k = some v

variable {set : κ → ι} {t : Table ι κ ν} {f : κ → Option ν} {k k' : κ} {v : ν}

@[simp] theorem lookup_fill_self : lookup set (fill set t k v) k = some v := by
  simp [lookup, fill]

theorem lookup_fill_of_set_ne (h : set k' ≠ set k) :
    lookup set (fill set t k v) k' = lookup set t k' := by
  simp [lookup, fill, h]

theorem lookup_fill_of_ne (h : k ≠ k') (hs : set k' = set k) :
    lookup set (fill set t k v) k' = none := by
  simp [lookup, fill, hs, h]

omit [DecidableEq ι] in
theorem memo_empty (h : ∀ i, t i = none) : Memo set f t := by
  intro k v hk
  simp [lookup, h] at hk

theorem memo_fill (ht : Memo set f t) (hk : f k = some v) : Memo set f (fill set t k v) := by
  intro k' v' h
  by_cases hs : set k' = set k
  · by_cases he : k = k'
    · subst he
      rw [lookup_fill_self] at h
      rw [hk, h]
    · rw [lookup_fill_of_ne he hs] at h
      cases h
  · rw [lookup_fill_of_set_ne hs] at h
    exact ht k' v' h

end Memo
