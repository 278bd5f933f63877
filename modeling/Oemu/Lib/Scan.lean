import Mathlib.Tactic
import Mathlib.Data.List.Induction
import Mathlib.Order.Basic

/-!
# Priority scans

A scan walks a list once and keeps the best candidate seen so far: an entry that passes the test `p`
and whose key lies strictly below the best key so far replaces it.  The walk starts at a floor.

* `low`, `lt_low_iff`  the least key met, or the floor: what lies below it lies below the floor and
                       below every key met;
* `best`, `best_none`, `best_some`  the entry kept: the one of least key, the earliest of these.

The key of the entry kept is `low` (`best_snd`), so a scan for a value and a scan for an entry agree.
-/

namespace Scan

variable {ι κ : Type} [LinearOrder κ] (p : ι → Prop) [DecidablePred p] (f : ι → κ)

/-- the least key met below the floor `b` -/
def low (b : κ) (l : List ι) : κ :=
  l.foldl (fun b i => if p i ∧ f i < b then f i else b) b

/-- one step of the walk -/
def pick (s : Option ι × κ) (i : ι) : Option ι × κ :=
  if p i ∧ f i < s.2 then (some i, f i) else s

/-- the walk: the entry kept, and its key -/
def best (b : κ) (l : List ι) : Option ι × κ := l.foldl (pick p f) (none, b)

theorem low_concat (b : κ) (l : List ι) (i : ι) :
    low p f b (l ++ [i]) = if p i ∧ f i < low p f b l then f i else low p f b l :=
  List.foldl_concat ..

theorem best_concat (b : κ) (l : List ι) (i : ι) :
    best p f b (l ++ [i]) = pick p f (best p f b l) i :=
  List.foldl_concat ..

theorem best_snd (b : κ) (l : List ι) : (best p f b l).2 = low p f b l := by
  induction l using List.reverseRecOn with
  | nil => rfl
  | append_singleton l i ih =>
    rw [best_concat, low_concat, pick, ih]
    split <;> simp [ih]

theorem lt_low_iff {b x : κ} {l : List ι} :
    x < low p f b l ↔ x < b ∧ ∀ i ∈ l, p i → x < f i := by
  induction l using List.reverseRecOn with
  | nil => simp [low]
  | append_singleton l i ih =>
    have hmem : (∀ j ∈ l ++ [i], p j → x < f j) ↔ (∀ j ∈ l, p j → x < f j) ∧ (p i → x < f i) := by
      constructor
      · intro h
        exact ⟨fun j hj => h j (by simp [hj]), h i (by simp)⟩
      · intro h j hj
        rcases List.mem_append.mp hj with hj | hj
        · exact h.1 j hj
        · rw [List.mem_singleton.mp hj]
          exact h.2
    rw [low_concat, hmem, ← and_assoc, ← ih]
    split
    · case _ h =>
      constructor
      · intro hx
        exact ⟨hx.trans h.2, fun _ => hx⟩
      · intro hx
        exact hx.2 h.1
    · case _ h =>
      constructor
      · intro hx
        refine ⟨hx, fun hp => ?_⟩
        have := not_lt.mp fun hlt => h ⟨hp, hlt⟩
        exact hx.trans_le this
      · intro hx
        exact hx.1

/-- what the walk has established about the entry it holds -/
def Best [LE ι] (b : κ) (l : List ι) (s : Option ι × κ) : Prop :=
  (∀ m, s.1 = some m → m ∈ l ∧ p m ∧ f m < b ∧ s.2 = f m ∧
    ∀ i ∈ l, p i → f i < b → f m < f i ∨ f m = f i ∧ m ≤ i) ∧
  (s.1 = none → s.2 = b ∧ ∀ i ∈ l, p i → b ≤ f i)

variable {p f}

theorem Best.pick [LinearOrder ι] {b : κ} {l : List ι} {s : Option ι × κ} (h : Best p f b l s)
    {i : ι} (hi : ∀ j ∈ l, j < i) : Best p f b (l ++ [i]) (Scan.pick p f s i) := by
  obtain ⟨hsome, hnone⟩ := h
  have hle : s.2 ≤ b := by
    cases hs : s.1 with
    | none => exact (hnone hs).1.le
    | some m =>
      obtain ⟨-, -, hb, hk, -⟩ := hsome m hs
      rw [hk]
      exact hb.le
  have hmin : ∀ j ∈ l, p j → f j < b → s.2 ≤ f j := by
    intro j hj hp hb
    cases hs : s.1 with
    | none => exact absurd hb (not_lt.mpr ((hnone hs).2 j hj hp))
    | some m =>
      obtain ⟨-, -, -, hk, hall⟩ := hsome m hs
      rw [hk]
      rcases hall j hj hp hb with h | h
      · exact h.le
      · exact h.1.le
  unfold Scan.pick
  split
  · case _ hc =>
    refine ⟨?_, fun h => by cases h⟩
    intro m hm
    cases hm
    refine ⟨by simp, hc.1, hc.2.trans_le hle, rfl, ?_⟩
    intro j hj hp hb
    rcases List.mem_append.mp hj with hj | hj
    · exact .inl (hc.2.trans_le (hmin j hj hp hb))
    · rw [List.mem_singleton.mp hj]
      exact .inr ⟨rfl, le_rfl⟩
  · case _ hc =>
    have hge : p i → s.2 ≤ f i := fun hp => not_lt.mp fun hlt => hc ⟨hp, hlt⟩
    refine ⟨?_, ?_⟩
    · intro m hm
      obtain ⟨hml, hpm, hb, hk, hall⟩ := hsome m hm
      refine ⟨by simp [hml], hpm, hb, hk, ?_⟩
      intro j hj hp hfj
      rcases List.mem_append.mp hj with hj | hj
      · exact hall j hj hp hfj
      · rw [List.mem_singleton.mp hj] at hp ⊢
        have := hge hp
        rw [hk] at this
        rcases this.lt_or_eq with h | h
        · exact .inl h
        · exact .inr ⟨h, (hi m hml).le⟩
    · intro hs
      obtain ⟨hk, hall⟩ := hnone hs
      refine ⟨hk, ?_⟩
      intro j hj hp
      rcases List.mem_append.mp hj with hj | hj
      · exact hall j hj hp
      · rw [List.mem_singleton.mp hj] at hp ⊢
        rw [← hk]
        exact hge hp

/-- **the walk over an ascending list keeps the entry of least key, the least of these** -/
theorem best_spec [LinearOrder ι] {b : κ} {l : List ι} (h : l.Pairwise (· < ·)) :
    Best p f b l (best p f b l) := by
  induction l using List.reverseRecOn with
  | nil =>
    refine ⟨?_, fun _ => ⟨rfl, fun i hi => absurd hi List.not_mem_nil⟩⟩
    intro m hm
    cases hm
  | append_singleton l i ih =>
    rw [List.pairwise_append] at h
    rw [best_concat]
    exact (ih h.1).pick fun j hj => h.2.2 j hj i List.mem_cons_self

theorem best_none [LinearOrder ι] {b : κ} {l : List ι} (h : l.Pairwise (· < ·)) :
    (best p f b l).1 = none ↔ ∀ i ∈ l, p i → b ≤ f i := by
  refine ⟨fun hn => ((best_spec h).2 hn).2, ?_⟩
  intro hall
  cases hs : (best p f b l).1 with
  | none => rfl
  | some m =>
    obtain ⟨hm, hp, hb, -⟩ := (best_spec h).1 m hs
    exact absurd hb (not_lt.mpr (hall m hm hp))

theorem best_some [LinearOrder ι] {b : κ} {l : List ι} (h : l.Pairwise (· < ·)) {m : ι} :
    (best p f b l).1 = some m ↔ m ∈ l ∧ p m ∧ f m < b ∧
      ∀ i ∈ l, p i → f i < b → f m < f i ∨ f m = f i ∧ m ≤ i := by
  constructor
  · intro hs
    obtain ⟨hm, hp, hb, -, hall⟩ := (best_spec h).1 m hs
    exact ⟨hm, hp, hb, hall⟩
  · rintro ⟨hm, hp, hb, hall⟩
    cases hs : (best p f b l).1 with
    | none => exact absurd hb (not_lt.mpr ((best_none h).mp hs m hm hp))
    | some n =>
      obtain ⟨hn, hpn, hbn, -, halln⟩ := (best_spec h).1 n hs
      have h₁ := hall n hn hpn hbn
      have h₂ := halln m hm hp hb
      have : n = m := by
        rcases h₁ with h₁ | h₁ <;> rcases h₂ with h₂ | h₂
        · exact absurd h₁ h₂.asymm
        · rw [h₂.1] at h₁
          exact absurd h₁ (lt_irrefl _)
        · rw [h₁.1] at h₂
          exact absurd h₂ (lt_irrefl _)
        · exact le_antisymm h₂.2 h₁.2
      rw [this]

end Scan
