import Mathlib.Tactic

/-!
# Check everything, then act, then commit

A transaction is a list of checks, a list of acts and a result computed from what the acts answered.
It runs its checks up to the first refusal, which ends it without an act; an act that is refused
aborts the whole run.

* `run_cases`    the two ways a run can end;
* `run_rel`      a preorder the operations stay in contains every run;
* `run_refused`  a refused run made checks only;
* `run_eq_none_iff`  where checks grant what the acts need, a run aborts at a bad act only;
* `run_sim`      operations that answer alike, in related states, make runs that do.
-/

namespace Txn

variable {σ κ ι β γ : Type}

structure Ops (σ κ ι β : Type) where
  check : κ → σ → Bool × σ
  act : ι → σ → Option (β × σ)

structure Plan (κ ι β γ : Type) where
  checks : List κ
  acts : List ι
  commit : List β → γ

variable (ops : Ops σ κ ι β)

/-- the checks in order, up to the first refusal -/
def checkAll : List κ → σ → Bool × σ
  | [], s => (true, s)
  | c :: l, s =>
    match ops.check c s with
    | (true, s) => checkAll l s
    | (false, s) => (false, s)

/-- the acts in order, with their answers -/
def actAll : List ι → σ → Option (List β × σ)
  | [], s => some ([], s)
  | i :: l, s =>
    match ops.act i s with
    | some (b, s) => (actAll l s).map fun p => (b :: p.1, p.2)
    | none => none

def run (refused : γ) (t : Plan κ ι β γ) : StateT σ Option γ := fun s =>
  match checkAll ops t.checks s with
  | (true, s) => (actAll ops t.acts s).map fun p => (t.commit p.1, p.2)
  | (false, s) => some (refused, s)

theorem checkAll_nil (s : σ) : checkAll ops [] s = (true, s) := rfl

theorem actAll_nil (s : σ) : actAll ops [] s = some ([], s) := rfl

theorem actAll_cons (i : ι) (l : List ι) (s : σ) :
    actAll ops (i :: l) s =
      (ops.act i s).bind fun p => (actAll ops l p.2).map fun q => (p.1 :: q.1, q.2) := by
  conv_lhs => unfold actAll
  cases ops.act i s <;> rfl

theorem actAll_append (l l' : List ι) (s : σ) :
    actAll ops (l ++ l') s =
      (actAll ops l s).bind fun p => (actAll ops l' p.2).map fun q => (p.1 ++ q.1, q.2) := by
  induction l generalizing s with
  | nil =>
    rw [List.nil_append, actAll_nil, Option.bind_some]
    cases actAll ops l' s <;> rfl
  | cons i l ih =>
    rw [List.cons_append, actAll_cons, actAll_cons]
    cases ops.act i s with
    | none => rfl
    | some p =>
      simp only [Option.bind_some, ih]
      cases actAll ops l p.2 with
      | none => rfl
      | some q =>
        simp only [Option.bind_some, Option.map_some]
        cases actAll ops l' q.2 <;> rfl

theorem run_apply (refused : γ) (t : Plan κ ι β γ) (s : σ) :
    run ops refused t s =
      if (checkAll ops t.checks s).1 then
        (actAll ops t.acts (checkAll ops t.checks s).2).map fun p => (t.commit p.1, p.2)
      else some (refused, (checkAll ops t.checks s).2) := by
  unfold run
  rcases checkAll ops t.checks s with ⟨b, s'⟩
  cases b <;> rfl

variable {ops}

theorem actAll_length {l : List ι} {s s' : σ} {vs : List β}
    (h : actAll ops l s = some (vs, s')) : vs.length = l.length := by
  induction l generalizing s vs with
  | nil =>
    cases h
    rfl
  | cons i l ih =>
    rw [actAll_cons] at h
    cases he : ops.act i s with
    | none =>
      rw [he] at h
      cases h
    | some p =>
      rw [he, Option.bind_some] at h
      cases hl : actAll ops l p.2 with
      | none =>
        rw [hl] at h
        cases h
      | some q =>
        rw [hl] at h
        cases h
        rw [List.length_cons, ih hl, List.length_cons]

theorem run_cases {refused g : γ} {t : Plan κ ι β γ} {s s' : σ}
    (h : run ops refused t s = some (g, s')) :
    (g = refused ∧ checkAll ops t.checks s = (false, s')) ∨
      ∃ s₁ vs, checkAll ops t.checks s = (true, s₁) ∧ actAll ops t.acts s₁ = some (vs, s') ∧
        g = t.commit vs := by
  unfold run at h
  rcases hc : checkAll ops t.checks s with ⟨b, s₁⟩
  rw [hc] at h
  cases b with
  | false =>
    cases h
    exact .inl ⟨rfl, rfl⟩
  | true =>
    dsimp only at h
    cases ha : actAll ops t.acts s₁ with
    | none =>
      rw [ha] at h
      cases h
    | some p =>
      rw [ha] at h
      cases h
      exact .inr ⟨s₁, p.1, rfl, ha, rfl⟩

section Rel

variable {R : σ → σ → Prop} (hrefl : ∀ s, R s s) (htrans : ∀ a b c, R a b → R b c → R a c)
include hrefl htrans

theorem checkAll_rel (ops : Ops σ κ ι β) {l : List κ}
    (hc : ∀ c ∈ l, ∀ s, R s (ops.check c s).2) (s : σ) :
    R s (checkAll ops l s).2 := by
  induction l generalizing s with
  | nil => exact hrefl s
  | cons c l ih =>
    have h1 := hc c List.mem_cons_self s
    unfold checkAll
    rcases he : ops.check c s with ⟨b, s₁⟩
    rw [he] at h1
    cases b with
    | false => exact h1
    | true => exact htrans _ _ _ h1 (ih (fun c hm => hc c (List.mem_cons_of_mem _ hm)) s₁)

theorem actAll_rel (ops : Ops σ κ ι β) {l : List ι}
    (ha : ∀ i ∈ l, ∀ s b s', ops.act i s = some (b, s') → R s s')
    {s s' : σ} {vs : List β} (h : actAll ops l s = some (vs, s')) : R s s' := by
  induction l generalizing s vs with
  | nil =>
    cases h
    exact hrefl _
  | cons i l ih =>
    unfold actAll at h
    cases he : ops.act i s with
    | none =>
      rw [he] at h
      cases h
    | some p =>
      rw [he] at h
      dsimp only at h
      cases hl : actAll ops l p.2 with
      | none =>
        rw [hl] at h
        cases h
      | some q =>
        rw [hl] at h
        cases h
        exact htrans _ _ _ (ha i List.mem_cons_self s p.1 p.2 he)
          (ih (fun i hm => ha i (List.mem_cons_of_mem _ hm)) hl)

/-- a relation that the checks and acts of a transaction stay in contains its run -/
theorem run_rel {refused g : γ} {t : Plan κ ι β γ} {s s' : σ}
    (hc : ∀ c ∈ t.checks, ∀ s, R s (ops.check c s).2)
    (ha : ∀ i ∈ t.acts, ∀ s b s', ops.act i s = some (b, s') → R s s')
    (h : run ops refused t s = some (g, s')) : R s s' := by
  have hck := checkAll_rel hrefl htrans ops hc s
  rcases run_cases h with ⟨-, he⟩ | ⟨s₁, vs, he, hact, -⟩
  · rwa [he] at hck
  · rw [he] at hck
    exact htrans _ _ _ hck (actAll_rel hrefl htrans ops ha hact)

theorem run_refused {refused g : γ} {t : Plan κ ι β γ} {s s' : σ}
    (hc : ∀ c ∈ t.checks, ∀ s, R s (ops.check c s).2)
    (h : run ops refused t s = some (g, s')) (hg : ∀ vs, g ≠ t.commit vs) :
    g = refused ∧ R s s' := by
  have hck := checkAll_rel hrefl htrans ops hc s
  rcases run_cases h with ⟨hr, he⟩ | ⟨s₁, vs, -, -, hcommit⟩
  · rw [he] at hck
    exact ⟨hr, hck⟩
  · exact absurd hcommit (hg vs)

end Rel

section Grant

variable {I : σ → Prop} {G : κ → σ → Prop}

theorem checkAll_grants {l : List κ} {s s' : σ} (hI : ∀ c ∈ l, ∀ s, I s → I (ops.check c s).2)
    (hgrant : ∀ c ∈ l, ∀ s s', I s → ops.check c s = (true, s') → G c s')
    (hkeep : ∀ c ∈ l, ∀ c' s, I s → G c' s → G c' (ops.check c s).2)
    (hs : I s) (h : checkAll ops l s = (true, s')) :
    I s' ∧ (∀ c ∈ l, G c s') ∧ ∀ c', G c' s → G c' s' := by
  induction l generalizing s with
  | nil =>
    cases h
    exact ⟨hs, fun c hc => absurd hc List.not_mem_nil, fun c' hc => hc⟩
  | cons c l ih =>
    unfold checkAll at h
    rcases he : ops.check c s with ⟨b, s₁⟩
    rw [he] at h
    cases b with
    | false => cases h
    | true =>
      have hI1 := hI c List.mem_cons_self s hs
      rw [he] at hI1
      obtain ⟨h1, h2, h3⟩ := ih (fun c hm => hI c (List.mem_cons_of_mem _ hm))
        (fun c hm => hgrant c (List.mem_cons_of_mem _ hm))
        (fun c hm => hkeep c (List.mem_cons_of_mem _ hm)) hI1 h
      refine ⟨h1, ?_, ?_⟩
      · intro c' hc'
        rcases List.mem_cons.mp hc' with rfl | hm
        · exact h3 _ (hgrant _ List.mem_cons_self s s₁ hs he)
        · exact h2 _ hm
      · intro c' hc'
        have hk := hkeep c List.mem_cons_self c' s hs hc'
        rw [he] at hk
        exact h3 _ hk

/-- acts that granted checks cover abort at a bad one only -/
theorem actAll_eq_none_iff {Bad : ι → Prop} {cs : List κ} {l : List ι} {s : σ}
    (hgood : ∀ i ∈ l, ¬ Bad i → ∀ s, I s → (∀ c ∈ cs, G c s) →
      ∃ b s', ops.act i s = some (b, s') ∧ I s' ∧ ∀ c ∈ cs, G c s')
    (hbad : ∀ i ∈ l, Bad i → ∀ s, I s → ops.act i s = none)
    (hs : I s) (hG : ∀ c ∈ cs, G c s) : actAll ops l s = none ↔ ∃ i ∈ l, Bad i := by
  induction l generalizing s with
  | nil =>
    constructor
    · intro h
      cases h
    · rintro ⟨i, hi, -⟩
      exact absurd hi List.not_mem_nil
  | cons i l ih =>
    rw [actAll_cons]
    by_cases hb : Bad i
    · rw [hbad i List.mem_cons_self hb s hs]
      exact ⟨fun _ => ⟨i, List.mem_cons_self, hb⟩, fun _ => rfl⟩
    · obtain ⟨b, s₁, he, hI1, hG1⟩ := hgood i List.mem_cons_self hb s hs hG
      have hl := ih (fun i hm => hgood i (List.mem_cons_of_mem _ hm))
        (fun i hm => hbad i (List.mem_cons_of_mem _ hm)) hI1 hG1
      rw [he, Option.bind_some, Option.map_eq_none_iff, hl]
      constructor
      · rintro ⟨j, hj, hbj⟩
        exact ⟨j, List.mem_cons_of_mem _ hj, hbj⟩
      · rintro ⟨j, hj, hbj⟩
        rcases List.mem_cons.mp hj with rfl | hj
        · exact absurd hbj hb
        · exact ⟨j, hj, hbj⟩

/-- a transaction whose checks cover its acts aborts at a bad act only -/
theorem run_eq_none_iff {Bad : ι → Prop} {refused : γ} {t : Plan κ ι β γ} {s : σ}
    (hI : ∀ c ∈ t.checks, ∀ s, I s → I (ops.check c s).2)
    (hgrant : ∀ c ∈ t.checks, ∀ s s', I s → ops.check c s = (true, s') → G c s')
    (hkeep : ∀ c ∈ t.checks, ∀ c' s, I s → G c' s → G c' (ops.check c s).2)
    (hgood : ∀ i ∈ t.acts, ¬ Bad i → ∀ s, I s → (∀ c ∈ t.checks, G c s) →
      ∃ b s', ops.act i s = some (b, s') ∧ I s' ∧ ∀ c ∈ t.checks, G c s')
    (hbad : ∀ i ∈ t.acts, Bad i → ∀ s, I s → ops.act i s = none) (hs : I s) :
    run ops refused t s = none ↔
      (checkAll ops t.checks s).1 = true ∧ ∃ i ∈ t.acts, Bad i := by
  rw [run_apply]
  rcases hc : checkAll ops t.checks s with ⟨b, s₁⟩
  cases b with
  | false => simp
  | true =>
    obtain ⟨hI1, hG, -⟩ := checkAll_grants hI hgrant hkeep hs hc
    rw [if_pos rfl, Option.map_eq_none_iff, actAll_eq_none_iff hgood hbad hI1 hG]
    exact ⟨fun h => ⟨rfl, h⟩, fun h => h.2⟩

end Grant

section Sim

variable {σ' : Type} {S : σ → σ' → Prop} {ops : Ops σ κ ι β} {ops' : Ops σ' κ ι β}

/-- one answer, in related states -/
def Alike {α : Type} (S : σ → σ' → Prop) (p : α × σ) (q : α × σ') : Prop := p.1 = q.1 ∧ S p.2 q.2

theorem Alike.cases {α : Type} {p : α × σ} {q : α × σ'} (h : Alike S p q) :
    ∃ a s s', p = (a, s) ∧ q = (a, s') ∧ S s s' :=
  ⟨p.1, p.2, q.2, rfl, Prod.ext h.1.symm rfl, h.2⟩

theorem checkAll_sim {l : List κ}
    (hc : ∀ c ∈ l, ∀ s s', S s s' → Alike S (ops.check c s) (ops'.check c s')) {s : σ} {s' : σ'}
    (h : S s s') : Alike S (checkAll ops l s) (checkAll ops' l s') := by
  induction l generalizing s s' with
  | nil => exact ⟨rfl, h⟩
  | cons c l ih =>
    have hcs := hc c List.mem_cons_self s s' h
    unfold checkAll
    generalize ops.check c s = p at hcs ⊢
    generalize ops'.check c s' = q at hcs ⊢
    obtain ⟨b, s₁⟩ := p
    obtain ⟨b', s₁'⟩ := q
    obtain ⟨hb, hs⟩ := hcs
    cases hb
    cases b with
    | false => exact ⟨rfl, hs⟩
    | true => exact ih (fun c hm => hc c (List.mem_cons_of_mem _ hm)) hs

theorem actAll_sim {l : List ι}
    (ha : ∀ i ∈ l, ∀ s s', S s s' → Option.Rel (Alike S) (ops.act i s) (ops'.act i s')) {s : σ}
    {s' : σ'} (h : S s s') : Option.Rel (Alike S) (actAll ops l s) (actAll ops' l s') := by
  induction l generalizing s s' with
  | nil => exact .some ⟨rfl, h⟩
  | cons i l ih =>
    have hi := ha i List.mem_cons_self s s' h
    rw [actAll_cons, actAll_cons]
    generalize ops.act i s = x at hi ⊢
    generalize ops'.act i s' = y at hi ⊢
    cases hi with
    | none => exact .none
    | @some p q hp =>
      have hl := ih (fun i hm => ha i (List.mem_cons_of_mem _ hm)) hp.2
      rw [Option.bind_some, Option.bind_some]
      generalize actAll ops l p.2 = x at hl ⊢
      generalize actAll ops' l q.2 = y at hl ⊢
      cases hl with
      | none => exact .none
      | some hq => exact .some ⟨congrArg₂ List.cons hp.1 hq.1, hq.2⟩

/-- operations that answer alike make runs that do -/
theorem run_sim {refused : γ} {t : Plan κ ι β γ}
    (hc : ∀ c ∈ t.checks, ∀ s s', S s s' → Alike S (ops.check c s) (ops'.check c s'))
    (ha : ∀ i ∈ t.acts, ∀ s s', S s s' → Option.Rel (Alike S) (ops.act i s) (ops'.act i s'))
    {s : σ} {s' : σ'} (h : S s s') :
    Option.Rel (Alike S) (run ops refused t s) (run ops' refused t s') := by
  obtain ⟨hb, hs⟩ := checkAll_sim hc h
  rw [run_apply, run_apply, hb]
  split
  · have hact := actAll_sim ha hs
    generalize actAll ops t.acts _ = x at hact ⊢
    generalize actAll ops' t.acts _ = y at hact ⊢
    cases hact with
    | none => exact .none
    | some hp => exact .some ⟨congrArg t.commit hp.1, hp.2⟩
  · exact .some ⟨rfl, hs⟩

/-! ### programs over two states -/

theorem bind_sim {α α' : Type} {m : StateT σ Option α} {m' : StateT σ' Option α}
    {f : α → StateT σ Option α'} {f' : α → StateT σ' Option α'} {s : σ} {s' : σ'}
    (h : Option.Rel (Alike S) (m s) (m' s'))
    (hf : ∀ a u u', S u u' → Option.Rel (Alike S) (f a u) (f' a u')) :
    Option.Rel (Alike S) ((m >>= f) s) ((m' >>= f') s') := by
  show Option.Rel _ ((m s).bind fun p => f p.1 p.2) ((m' s').bind fun p => f' p.1 p.2)
  generalize m s = x at h ⊢
  generalize m' s' = y at h ⊢
  cases h with
  | none => exact .none
  | @some p q hp =>
    obtain ⟨a, u⟩ := p
    obtain ⟨a', u'⟩ := q
    obtain ⟨ha, hu⟩ := hp
    dsimp only at ha hu
    subst ha
    exact hf a u u' hu

theorem map_sim {α α' : Type} {m : StateT σ Option α} {m' : StateT σ' Option α} (f : α → α')
    {s : σ} {s' : σ'} (h : Option.Rel (Alike S) (m s) (m' s')) :
    Option.Rel (Alike S) ((f <$> m) s) ((f <$> m') s') := by
  show Option.Rel _ ((m s).bind fun p => some (f p.1, p.2)) ((m' s').bind fun p => some (f p.1, p.2))
  generalize m s = x at h ⊢
  generalize m' s' = y at h ⊢
  cases h with
  | none => exact .none
  | some hp => exact .some ⟨congrArg f hp.1, hp.2⟩

end Sim

end Txn
