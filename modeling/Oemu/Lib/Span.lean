import Mathlib.Tactic

/-!
# Tables of address ranges

A `Span` is a half-open range of addresses.  `Table` is a list of entries whose spans lie below a top
address, are not empty and do not meet; in such a table a nonempty range lies in one entry at most,
so that "first match" and "the match" are the same: `Table.find`.
-/

structure Span where
  base : Nat
  size : Nat

namespace Span

/-- the range `[a, a + n)` lies in the span -/
def Covers (s : Span) (a n : Nat) : Prop := s.base ≤ a ∧ a + n ≤ s.base + s.size

/-- the spans do not meet -/
def Apart (s t : Span) : Prop := s.base + s.size ≤ t.base ∨ t.base + t.size ≤ s.base

theorem Apart.symm {s t : Span} (h : Apart s t) : Apart t s := Or.symm h

theorem Covers.not_apart {s t : Span} {a n : Nat} (hs : s.Covers a n) (ht : t.Covers a n)
    (hn : 0 < n) : ¬ Apart s t := by
  unfold Covers at hs ht
  unfold Apart
  omega

theorem Covers.sub {s : Span} {a n b m : Nat} (h : s.Covers a n) (hb : a ≤ b)
    (hm : b + m ≤ a + n) : s.Covers b m := by
  unfold Covers at *
  omega

end Span

/-! ## lists with one match at most -/

theorem List.find?_eq_some_iff_of_unique {ρ : Type} {p : ρ → Bool} {l : List ρ}
    (hu : ∀ r ∈ l, ∀ s ∈ l, p r = true → p s = true → r = s) {r : ρ} :
    l.find? p = some r ↔ r ∈ l ∧ p r = true := by
  constructor
  · intro h
    exact ⟨List.mem_of_find?_eq_some h, List.find?_some h⟩
  · rintro ⟨hr, hp⟩
    cases hf : l.find? p with
    | none => exact absurd hp (List.find?_eq_none.mp hf r hr)
    | some s =>
      rw [hu s (List.mem_of_find?_eq_some hf) r hr (List.find?_some hf) hp]

/-! ## tables -/

section

variable {ρ : Type} {span : ρ → Span} {P : ρ → Prop} {top cap : Nat} {l : List ρ}

/-- entries of a kind, with room for `cap` of them -/
structure Span.Table (span : ρ → Span) (P : ρ → Prop) (top cap : Nat) (l : List ρ) : Prop where
  room : l.length ≤ cap
  entry : ∀ r ∈ l, P r
  nonempty : ∀ r ∈ l, 0 < (span r).size
  below : ∀ r ∈ l, (span r).base + (span r).size ≤ top
  apart : l.Pairwise fun r s => (span r).Apart (span s)

namespace Span.Table

theorem nil (cap : Nat) : Table span P top cap [] where
  room := Nat.zero_le _
  entry _ h := absurd h List.not_mem_nil
  nonempty _ h := absurd h List.not_mem_nil
  below _ h := absurd h List.not_mem_nil
  apart := .nil

theorem snoc (h : Table span P top cap l) {r : ρ} (hroom : l.length < cap) (hr : P r)
    (hne : 0 < (span r).size) (hb : (span r).base + (span r).size ≤ top)
    (ha : ∀ s ∈ l, (span r).Apart (span s)) : Table span P top cap (l ++ [r]) where
  room := by
    rw [List.length_append]
    exact hroom
  entry s hs := by
    rcases List.mem_append.mp hs with hs | hs
    · exact h.entry s hs
    · rw [List.mem_singleton.mp hs]
      exact hr
  nonempty s hs := by
    rcases List.mem_append.mp hs with hs | hs
    · exact h.nonempty s hs
    · rw [List.mem_singleton.mp hs]
      exact hne
  below s hs := by
    rcases List.mem_append.mp hs with hs | hs
    · exact h.below s hs
    · rw [List.mem_singleton.mp hs]
      exact hb
  apart := by
    refine List.pairwise_append.mpr ⟨h.apart, List.pairwise_singleton _ _, ?_⟩
    intro s hs t ht
    rw [List.mem_singleton.mp ht]
    exact (ha s hs).symm

theorem single {r : ρ} (hroom : 0 < cap) (hr : P r) (hne : 0 < (span r).size)
    (hb : (span r).base + (span r).size ≤ top) : Table span P top cap [r] :=
  snoc (.nil cap) hroom hr hne hb nofun

theorem unique (h : Table span P top cap l) {a n : Nat} (hn : 0 < n) {r s : ρ} (hr : r ∈ l)
    (hs : s ∈ l) (hcr : (span r).Covers a n) (hcs : (span s).Covers a n) : r = s := by
  by_contra hne
  have hsymm : Std.Symm fun r s => (span r).Apart (span s) := ⟨fun _ _ h => h.symm⟩
  exact hcr.not_apart hcs hn (h.apart.forall hr hs hne)

/-- the first match of a table is its only one -/
theorem find (h : Table span P top cap l) {p : ρ → Bool} {Q : ρ → Prop} {a n : Nat} (hn : 0 < n)
    (hp : ∀ r ∈ l, p r = true ↔ Q r ∧ (span r).Covers a n) (r : ρ) :
    l.find? p = some r ↔ r ∈ l ∧ Q r ∧ (span r).Covers a n := by
  rw [List.find?_eq_some_iff_of_unique]
  · constructor
    · rintro ⟨hr, hpr⟩
      exact ⟨hr, (hp r hr).mp hpr⟩
    · rintro ⟨hr, hq⟩
      exact ⟨hr, (hp r hr).mpr hq⟩
  · intro r hr s hs hpr hps
    exact h.unique hn hr hs ((hp r hr).mp hpr).2 ((hp s hs).mp hps).2

end Span.Table

end
