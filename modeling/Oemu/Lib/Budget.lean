import Mathlib.Tactic

/-!
# Loops with a budget

A loop takes at most `n` steps of a machine, stops at the first status other than `ok`, and stops
when the machine reports that it has halted.  What it answers on its own is `ok` for a machine that
has halted and `spent` otherwise, with the number of steps that succeeded.

* `before`  tests for the halt before each step;
* `after`   tests for it after each step only.

A loop *splits* at `n` and `m` when a run of `n` followed by a run of `m` is a run of `n + m`.
`before_splits` is the law of the first loop.  The second steps a halted machine again, so
`after_splits_iff` is the law of the second: it splits where the second run finds the machine
running, or has no budget.  `after_iff` says how the second loop ends, step by step.
-/

namespace Budget

variable {S R : Type} [DecidableEq R] (step : S → Option (R × S)) (halted : S → Bool) (ok spent : R)

/-- the answer of a loop that stops on its own -/
def finish (done : Nat) (s : S) : R × Nat × S := (if halted s then ok else spent, done, s)

/-- `while (done < max) { if (halted) break; step; if (status != ok) return status; done++ }` -/
def before : Nat → Nat → S → Option (R × Nat × S)
  | 0, done, s => some (finish halted ok spent done s)
  | n + 1, done, s =>
    if halted s then some (finish halted ok spent done s)
    else
      (step s).bind fun p =>
        if p.1 = ok then before n (done + 1) p.2 else some (p.1, done, p.2)

/-- `while (done < max) { step; if (status != ok) return status; done++; if (halted) break }` -/
def after : Nat → Nat → S → Option (R × Nat × S)
  | 0, done, s => some (finish halted ok spent done s)
  | n + 1, done, s =>
    (step s).bind fun p =>
      if p.1 = ok then
        if halted p.2 then some (finish halted ok spent (done + 1) p.2)
        else after n (done + 1) p.2
      else some (p.1, done, p.2)

/-- a run of `n` and a run of `m` make a run of `n + m`, and a halted machine takes no further
step -/
def Splits (run : Nat → S → Option (R × Nat × S)) (n m : Nat) (s : S) : Prop :=
  ∀ r done s', run n s = some (r, done, s') → r = ok ∨ r = spent →
    run (n + m) s = (run m s').map (fun q => (q.1, done + q.2.1, q.2.2)) ∧
    (halted s' = true → run m s' = some (ok, 0, s'))

variable {step halted ok spent}

theorem before_succ (n done : Nat) (s : S) :
    before step halted ok spent (n + 1) done s =
      if halted s then some (finish halted ok spent done s)
      else (step s).bind fun p =>
        if p.1 = ok then before step halted ok spent n (done + 1) p.2 else some (p.1, done, p.2) :=
  rfl

theorem after_succ (n done : Nat) (s : S) :
    after step halted ok spent (n + 1) done s =
      (step s).bind fun p =>
        if p.1 = ok then
          if halted p.2 then some (finish halted ok spent (done + 1) p.2)
          else after step halted ok spent n (done + 1) p.2
        else some (p.1, done, p.2) :=
  rfl

/-! ## the count -/

theorem before_shift (n done : Nat) (s : S) :
    before step halted ok spent n done s =
      (before step halted ok spent n 0 s).map fun q => (q.1, done + q.2.1, q.2.2) := by
  have h : ∀ c, before step halted ok spent n (done + c) s =
      (before step halted ok spent n c s).map fun q => (q.1, done + q.2.1, q.2.2) := by
    induction n generalizing s with
    | zero => exact fun c => rfl
    | succ n ih =>
      intro c
      rw [before_succ, before_succ]
      by_cases hh : halted s = true
      · rw [if_pos hh, if_pos hh]
        rfl
      · rw [if_neg hh, if_neg hh]
        cases step s with
        | none => rfl
        | some p =>
          simp only [Option.bind_some]
          by_cases hr : p.1 = ok
          · rw [if_pos hr, if_pos hr, Nat.add_assoc]
            exact ih p.2 (c + 1)
          · rw [if_neg hr, if_neg hr]
            rfl
  exact h 0

theorem after_shift (n done : Nat) (s : S) :
    after step halted ok spent n done s =
      (after step halted ok spent n 0 s).map fun q => (q.1, done + q.2.1, q.2.2) := by
  have h : ∀ c, after step halted ok spent n (done + c) s =
      (after step halted ok spent n c s).map fun q => (q.1, done + q.2.1, q.2.2) := by
    induction n generalizing s with
    | zero => exact fun c => rfl
    | succ n ih =>
      intro c
      rw [after_succ, after_succ]
      cases step s with
      | none => rfl
      | some p =>
        simp only [Option.bind_some]
        by_cases hr : p.1 = ok
        · rw [if_pos hr, if_pos hr]
          by_cases hh : halted p.2 = true
          · rw [if_pos hh, if_pos hh]
            rfl
          · rw [if_neg hh, if_neg hh, Nat.add_assoc]
            exact ih p.2 (c + 1)
        · rw [if_neg hr, if_neg hr]
          rfl
  exact h 0

theorem after_count {n done : Nat} {s s' : S} {r : R} {done' : Nat}
    (h : after step halted ok spent n done s = some (r, done', s')) : done ≤ done' := by
  rw [after_shift, Option.map_eq_some_iff] at h
  obtain ⟨q, -, hq⟩ := h
  have : done + q.2.1 = done' := congrArg (fun x => x.2.1) hq
  omega

theorem after_progress {n done : Nat} {s s' : S} {done' : Nat}
    (h : after step halted ok spent (n + 1) done s = some (ok, done', s')) : done < done' := by
  rw [after_succ] at h
  cases hs : step s with
  | none =>
    rw [hs] at h
    cases h
  | some p =>
    rw [hs, Option.bind_some] at h
    by_cases hr : p.1 = ok
    · rw [if_pos hr] at h
      by_cases hh : halted p.2 = true
      · rw [if_pos hh] at h
        have : done + 1 = done' := congrArg (fun x => x.2.1) (Option.some.inj h)
        omega
      · rw [if_neg hh] at h
        have := after_count h
        omega
    · rw [if_neg hr] at h
      exact absurd (congrArg Prod.fst (Option.some.inj h)) hr

theorem after_total {I : S → Prop} (hI : ∀ s, I s → ∃ p, step s = some p ∧ I p.2) (n : Nat) :
    ∀ (done : Nat) (s : S), I s → ∃ q, after step halted ok spent n done s = some q := by
  induction n with
  | zero => exact fun _ _ _ => ⟨_, rfl⟩
  | succ n ih =>
    intro done s hs
    obtain ⟨p, hp, hIp⟩ := hI s hs
    rw [after_succ, hp, Option.bind_some]
    split
    · split
      · exact ⟨_, rfl⟩
      · exact ih (done + 1) p.2 hIp
    · exact ⟨_, rfl⟩

/-! ## the laws -/

theorem before_halted {n done : Nat} {s : S} (h : halted s = true) :
    before step halted ok spent n done s = some (ok, done, s) := by
  have hf : finish halted ok spent done s = (ok, done, s) := by
    unfold finish
    rw [if_pos h]
  cases n with
  | zero =>
    unfold before
    rw [hf]
  | succ n => rw [before_succ, if_pos h, hf]

/-- the first loop continues where it stopped; `I k` says that `k` steps cannot answer `spent` -/
theorem before_add {I : Nat → S → Prop}
    (hI : ∀ k s r s', I (k + 1) s → step s = some (r, s') → r ≠ spent ∧ (r = ok → I k s'))
    (n m : Nat) {done : Nat} {s : S} (h : I (n + m) s) :
    before step halted ok spent (n + m) done s =
      (before step halted ok spent n done s).bind fun q =>
        if q.1 = ok ∨ q.1 = spent then before step halted ok spent m q.2.1 q.2.2 else some q := by
  induction n generalizing done s with
  | zero =>
    rw [Nat.zero_add]
    show _ = if (if halted s then ok else spent) = ok ∨ (if halted s then ok else spent) = spent
      then before step halted ok spent m done s else _
    rw [if_pos]
    by_cases hh : halted s = true
    · rw [if_pos hh]
      exact .inl rfl
    · rw [if_neg hh]
      exact .inr rfl
  | succ n ih =>
    by_cases hh : halted s = true
    · rw [before_halted hh, before_halted hh, Option.bind_some, if_pos (.inl rfl)]
      exact (before_halted hh).symm
    · rw [Nat.succ_add] at h ⊢
      rw [before_succ, before_succ, if_neg hh, if_neg hh]
      cases hs : step s with
      | none => rfl
      | some p =>
        obtain ⟨hne, hkeep⟩ := hI _ _ p.1 p.2 h hs
        simp only [Option.bind_some]
        by_cases hr : p.1 = ok
        · rw [if_pos hr, if_pos hr]
          exact ih (hkeep hr)
        · rw [if_neg hr, if_neg hr, Option.bind_some, if_neg (not_or.mpr ⟨hr, hne⟩)]

/-- **the first loop splits wherever no step of it can answer `spent`** -/
theorem before_splits {I : Nat → S → Prop}
    (hI : ∀ k s r s', I (k + 1) s → step s = some (r, s') → r ≠ spent ∧ (r = ok → I k s'))
    (n m : Nat) {s : S} (h : I (n + m) s) :
    Splits halted ok spent (fun k => before step halted ok spent k 0) n m s := by
  intro r done s' hrun hr
  refine ⟨?_, fun hh => before_halted hh⟩
  show before step halted ok spent (n + m) 0 s = _
  have hrun' : before step halted ok spent n 0 s = some (r, done, s') := hrun
  rw [before_add hI n m h, hrun', Option.bind_some, if_pos hr]
  exact before_shift m done s'

/-- the second loop continues where it stopped, if the machine runs -/
theorem after_add (hspent : ∀ s r s', step s = some (r, s') → r ≠ spent) (n m : Nat)
    {done done' : Nat} {s s' : S} {r : R}
    (hrun : after step halted ok spent n done s = some (r, done', s')) (hr : r = ok ∨ r = spent)
    (hh : halted s' = false) :
    after step halted ok spent (n + m) done s = after step halted ok spent m done' s' := by
  induction n generalizing done s with
  | zero =>
    rw [Nat.zero_add]
    have h : (done, s) = (done', s') := congrArg Prod.snd (Option.some.inj hrun)
    rw [(Prod.mk.inj h).1, (Prod.mk.inj h).2]
  | succ n ih =>
    rw [Nat.succ_add]
    rw [after_succ] at hrun ⊢
    cases hs : step s with
    | none =>
      rw [hs] at hrun
      cases hrun
    | some p =>
      rw [hs, Option.bind_some] at hrun
      rw [Option.bind_some]
      by_cases hp : p.1 = ok
      · rw [if_pos hp] at hrun ⊢
        by_cases hhp : halted p.2 = true
        · rw [if_pos hhp] at hrun
          have h : p.2 = s' := congrArg (fun x => x.2.2) (Option.some.inj hrun)
          rw [h, hh] at hhp
          cases hhp
        · rw [if_neg hhp] at hrun ⊢
          exact ih hrun
      · rw [if_neg hp] at hrun
        have h : p.1 = r := congrArg Prod.fst (Option.some.inj hrun)
        rw [← h] at hr
        rcases hr with hr | hr
        · exact absurd hr hp
        · exact absurd hr (hspent s p.1 p.2 hs)

/-- what a loop that was not cut short answers says whether the machine has halted -/
theorem after_status (hspent : ∀ s r s', step s = some (r, s') → r ≠ spent) {n done done' : Nat}
    {s s' : S} {r : R} (hrun : after step halted ok spent n done s = some (r, done', s'))
    (hr : r = ok ∨ r = spent) : (r, done', s') = finish halted ok spent done' s' := by
  induction n generalizing done s with
  | zero =>
    have h := Option.some.inj hrun
    have hs : s = s' := congrArg (fun x => x.2.2) h
    have hd : done = done' := congrArg (fun x => x.2.1) h
    rw [← h, hs, hd]
  | succ n ih =>
    rw [after_succ] at hrun
    cases hs : step s with
    | none =>
      rw [hs] at hrun
      cases hrun
    | some p =>
      rw [hs, Option.bind_some] at hrun
      by_cases hp : p.1 = ok
      · rw [if_pos hp] at hrun
        by_cases hhp : halted p.2 = true
        · rw [if_pos hhp] at hrun
          have h := Option.some.inj hrun
          have hs : p.2 = s' := congrArg (fun x => x.2.2) h
          have hd : done + 1 = done' := congrArg (fun x => x.2.1) h
          rw [← h, hs, hd]
        · rw [if_neg hhp] at hrun
          exact ih hrun
      · rw [if_neg hp] at hrun
        have h : p.1 = r := congrArg Prod.fst (Option.some.inj hrun)
        rw [← h] at hr
        rcases hr with hr | hr
        · exact absurd hr hp
        · exact absurd hr (hspent s p.1 p.2 hs)

/-- **the second loop splits exactly where its second run finds the machine running, or has no
budget** -/
theorem after_splits_iff (hspent : ∀ s r s', step s = some (r, s') → r ≠ spent) (n m : Nat) (s : S) :
    Splits halted ok spent (fun k => after step halted ok spent k 0) n m s ↔
      ∀ r done s', after step halted ok spent n 0 s = some (r, done, s') → r = ok ∨ r = spent →
        m = 0 ∨ halted s' = false := by
  constructor
  · intro h r done s' hrun hr
    by_contra hne
    rw [not_or, Bool.not_eq_false] at hne
    obtain ⟨k, rfl⟩ := Nat.exists_eq_succ_of_ne_zero hne.1
    have hstuck := (h r done s' hrun hr).2 hne.2
    exact absurd (after_progress hstuck) (lt_irrefl 0)
  · intro h r done s' hrun hr
    have hrun' : after step halted ok spent n 0 s = some (r, done, s') := hrun
    rcases h r done s' hrun hr with rfl | hh
    · have hst := after_status hspent hrun' hr
      refine ⟨hrun'.trans (congrArg some hst), fun hh => ?_⟩
      show some (finish halted ok spent 0 s') = _
      unfold finish
      rw [if_pos hh]
    · refine ⟨?_, fun hh' => absurd hh' (by rw [hh]; exact Bool.false_ne_true)⟩
      show after step halted ok spent (n + m) 0 s = _
      rw [after_add hspent n m hrun' hr hh]
      exact after_shift m done s'

/-! ## the ends of the first loop -/

theorem before_count {n done : Nat} {s s' : S} {r : R} {done' : Nat}
    (h : before step halted ok spent n done s = some (r, done', s')) :
    done ≤ done' ∧ done' ≤ done + n := by
  induction n generalizing done s with
  | zero =>
    have : done = done' := congrArg (fun x => x.2.1) (Option.some.inj h)
    omega
  | succ n ih =>
    rw [before_succ] at h
    by_cases hh : halted s = true
    · rw [if_pos hh] at h
      have : done = done' := congrArg (fun x => x.2.1) (Option.some.inj h)
      omega
    · rw [if_neg hh, Option.bind_eq_some_iff] at h
      obtain ⟨p, -, hp⟩ := h
      by_cases hr : p.1 = ok
      · rw [if_pos hr] at hp
        have := ih hp
        omega
      · rw [if_neg hr] at hp
        have : done = done' := congrArg (fun x => x.2.1) (Option.some.inj hp)
        omega

/-- the loop stops on a machine that has halted, on a spent budget, or on a step that answers for
itself; `I` is any fact the steps that succeed keep -/
theorem before_ends {I : S → Prop}
    (hI : ∀ s s', I s → halted s = false → step s = some (ok, s') → I s')
    {n done : Nat} {s s' : S} {r : R} {done' : Nat} (h0 : I s)
    (h : before step halted ok spent n done s = some (r, done', s')) :
    (r = ok ∧ halted s' = true ∧ I s') ∨ (r = spent ∧ halted s' = false ∧ I s') ∨
      ∃ u, I u ∧ halted u = false ∧ step u = some (r, s') ∧ r ≠ ok := by
  have hfin : ∀ {done : Nat} {s : S}, I s → finish halted ok spent done s = (r, done', s') →
      (r = ok ∧ halted s' = true ∧ I s') ∨ (r = spent ∧ halted s' = false ∧ I s') := by
    intro done s hs he
    have hss : s = s' := congrArg (fun x => x.2.2) he
    have hr : (if halted s then ok else spent) = r := congrArg Prod.fst he
    subst hss
    by_cases hh : halted s = true
    · rw [if_pos hh] at hr
      exact .inl ⟨hr.symm, hh, hs⟩
    · rw [if_neg hh] at hr
      exact .inr ⟨hr.symm, Bool.eq_false_of_not_eq_true hh, hs⟩
  induction n generalizing done s with
  | zero => exact (hfin h0 (Option.some.inj h)).elim .inl fun hs => .inr (.inl hs)
  | succ n ih =>
    rw [before_succ] at h
    by_cases hh : halted s = true
    · rw [if_pos hh] at h
      exact (hfin h0 (Option.some.inj h)).elim .inl fun hs => .inr (.inl hs)
    · have hh' : halted s = false := Bool.eq_false_of_not_eq_true hh
      rw [if_neg hh, Option.bind_eq_some_iff] at h
      obtain ⟨⟨r', u⟩, hs, hp⟩ := h
      dsimp only at hp
      by_cases hr : r' = ok
      · rw [if_pos hr] at hp
        subst hr
        exact ih (hI s u h0 hh' hs) hp
      · rw [if_neg hr] at hp
        obtain ⟨rfl, -, rfl⟩ : r' = r ∧ done = done' ∧ u = s' := by
          simpa only [Option.some.injEq, Prod.mk.injEq] using hp
        exact .inr (.inr ⟨s, h0, hh', hs, hr⟩)

/-- a loop with a budget that counts no step took none, or its first step answered for itself -/
theorem before_none {n done : Nat} {s s' : S} {r : R}
    (h : before step halted ok spent (n + 1) done s = some (r, done, s')) :
    (halted s = true ∧ r = ok ∧ s' = s) ∨
      (halted s = false ∧ step s = some (r, s') ∧ r ≠ ok) := by
  rw [before_succ] at h
  by_cases hh : halted s = true
  · rw [if_pos hh] at h
    have hr : (if halted s then ok else spent) = r := congrArg Prod.fst (Option.some.inj h)
    rw [if_pos hh] at hr
    exact .inl ⟨hh, hr.symm, (congrArg (fun x => x.2.2) (Option.some.inj h)).symm⟩
  · have hh' : halted s = false := Bool.eq_false_of_not_eq_true hh
    rw [if_neg hh, Option.bind_eq_some_iff] at h
    obtain ⟨⟨r', u⟩, hs, hp⟩ := h
    dsimp only at hp
    by_cases hr : r' = ok
    · rw [if_pos hr] at hp
      have := (before_count hp).1
      omega
    · rw [if_neg hr] at hp
      obtain ⟨rfl, -, rfl⟩ : r' = r ∧ done = done ∧ u = s' := by
        simpa only [Option.some.injEq, Prod.mk.injEq] using hp
      exact .inr ⟨hh', hs, hr⟩

theorem before_refused {s s' : S} {r : R} (hh : halted s = false) (hs : step s = some (r, s'))
    (hr : r ≠ ok) (n done : Nat) :
    before step halted ok spent (n + 1) done s = some (r, done, s') := by
  rw [before_succ, if_neg (by rw [hh]; exact Bool.false_ne_true), hs, Option.bind_some, if_neg hr]

/-! ## the steps of the second loop -/

/-- so many steps of a running machine, each of which succeeds -/
inductive Oks (step : S → Option (R × S)) (halted : S → Bool) (ok : R) : Nat → S → S → Prop
  | nil (s : S) : Oks step halted ok 0 s s
  | cons {n : Nat} {s u s' : S} (hrun : halted s = false) (hstep : step s = some (ok, u))
      (hrest : Oks step halted ok n u s') : Oks step halted ok (n + 1) s s'

section

omit [DecidableEq R]

/-- how the second loop ends: with the budget spent, with a step that halts the machine, or with one
that answers for itself -/
inductive Ended (step : S → Option (R × S)) (halted : S → Bool) (ok spent : R) (n : Nat) (s : S) :
    R → Nat → S → Prop
  | spent {s' : S} (hsteps : Oks step halted ok n s s') (hrun : halted s' = false) :
      Ended step halted ok spent n s spent n s'
  | halt {k : Nat} {u s' : S} (hk : k < n) (hsteps : Oks step halted ok k s u)
      (hrun : halted u = false) (hstep : step u = some (ok, s')) (hhalt : halted s' = true) :
      Ended step halted ok spent n s ok (k + 1) s'
  | refused {k : Nat} {u s' : S} {r : R} (hk : k < n) (hsteps : Oks step halted ok k s u)
      (hrun : halted u = false) (hstep : step u = some (r, s')) (hr : r ≠ ok) :
      Ended step halted ok spent n s r k s'

theorem Ended.cons {n : Nat} {s u s' : S} {r : R} {done : Nat} (hrun : halted s = false)
    (hstep : step s = some (ok, u)) (h : Ended step halted ok spent n u r done s') :
    Ended step halted ok spent (n + 1) s r (done + 1) s' := by
  cases h with
  | spent hsteps hlast => exact .spent (.cons hrun hstep hsteps) hlast
  | halt hk hsteps hlast hs hhalt =>
    exact .halt (Nat.succ_lt_succ hk) (.cons hrun hstep hsteps) hlast hs hhalt
  | refused hk hsteps hlast hs hr =>
    exact .refused (Nat.succ_lt_succ hk) (.cons hrun hstep hsteps) hlast hs hr

theorem Oks.running {n : Nat} {s s' : S} (h : Oks step halted ok n s s') (hs : halted s' = false) :
    halted s = false := by
  cases h with
  | nil => exact hs
  | cons hrun => exact hrun

end

theorem Oks.after {k : Nat} {s u : S} (h : Oks step halted ok k s u) (hu : halted u = false)
    (m done : Nat) :
    after step halted ok spent (k + m) done s = after step halted ok spent m (done + k) u := by
  induction h generalizing done with
  | nil s => rw [Nat.zero_add, Nat.add_zero]
  | @cons n s v u hrun hstep hrest ih =>
    have hv : ¬ halted v = true := by simp [hrest.running hu]
    rw [Nat.succ_add, after_succ, hstep, Option.bind_some, if_pos rfl, if_neg hv, ih hu]
    congr 1
    omega

theorem Ended.of_after {n done : Nat} {s s' : S} {r : R} {done' : Nat} (hrun : halted s = false)
    (h : Budget.after step halted ok spent n done s = some (r, done', s')) :
    ∃ k, done' = done + k ∧ Ended step halted ok spent n s r k s' := by
  have hfin : ∀ {d : Nat} {v : S} {b : Bool}, halted v = b →
      finish halted ok spent d v = (if b then ok else spent, d, v) := by
    rintro d v b rfl
    rfl
  induction n generalizing done s with
  | zero =>
    have hend := (hfin hrun).symm.trans (Option.some.inj h)
    obtain ⟨rfl, rfl, rfl⟩ : spent = r ∧ done = done' ∧ s = s' := by simpa using hend
    exact ⟨0, rfl, .spent (.nil s) hrun⟩
  | succ n ih =>
    rw [after_succ, Option.bind_eq_some_iff] at h
    obtain ⟨⟨q, u⟩, hstep, h⟩ := h
    by_cases hq : q = ok
    · subst hq
      rw [if_pos rfl] at h
      by_cases hh : halted u = true
      · rw [if_pos hh, hfin hh] at h
        obtain ⟨rfl, rfl, rfl⟩ : q = r ∧ done + 1 = done' ∧ u = s' := by simpa using h
        exact ⟨1, rfl, .halt (Nat.succ_pos n) (.nil s) hrun hstep hh⟩
      · rw [if_neg hh] at h
        obtain ⟨k, rfl, hk⟩ := ih (Bool.eq_false_of_not_eq_true hh) h
        exact ⟨k + 1, by omega, hk.cons hrun hstep⟩
    · rw [if_neg hq] at h
      obtain ⟨rfl, rfl, rfl⟩ : q = r ∧ done = done' ∧ u = s' := by simpa using h
      exact ⟨0, rfl, .refused (Nat.succ_pos n) (.nil s) hrun hstep hq⟩

/-- **the second loop is its steps** -/
theorem after_iff {n : Nat} {s s' : S} {r : R} {done : Nat} (hrun : halted s = false) :
    after step halted ok spent n 0 s = some (r, done, s') ↔
      Ended step halted ok spent n s r done s' := by
  constructor
  · intro h
    obtain ⟨k, rfl, hk⟩ := Ended.of_after hrun h
    rwa [Nat.zero_add]
  · intro h
    cases h with
    | spent hsteps hlast =>
      have hafter : after step halted ok spent (n + 0) 0 s = _ := hsteps.after hlast 0 0
      rw [Nat.add_zero, Nat.zero_add] at hafter
      rw [hafter]
      simp [after, finish, hlast]
    | @halt k u _ hk hsteps hlast hstep hhalt =>
      obtain ⟨m, rfl⟩ : ∃ m, n = k + (m + 1) := ⟨n - k - 1, by omega⟩
      rw [hsteps.after hlast, Nat.zero_add, after_succ, hstep]
      simp [finish, hhalt]
    | @refused _ u _ _ hk hsteps hlast hstep hr =>
      obtain ⟨m, rfl⟩ : ∃ m, n = done + (m + 1) := ⟨n - done - 1, by omega⟩
      rw [hsteps.after hlast, Nat.zero_add, after_succ, hstep]
      simp [hr]

end Budget
