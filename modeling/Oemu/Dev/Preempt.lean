import Oemu.Dev.Ack

/-!
# The order of preemption

The floor under the running priority is not kept: each scan computes it anew from the lines that
are active.  Along a run that leaves the active registers alone, and the priorities while a line is
active, the lines acknowledged form a chain nevertheless.

* `serve_active`, `serve_pending`, `serve_priority`  what one request does to a line;
* `Nested`  the invariant: active lines have distinct priorities, a line acknowledged and not yet
            ended is active, and a pending line was raised since it was last acknowledged;
* `preemption_order`  what follows for each acknowledgement of a run.
-/

namespace Oemu.Gicv2

/-! ## the banks -/

theorem Bank.put_apply (s : Bank) (line : Nat) (v : BitVec 8) (i : Fin 64) :
    s.put line v i = if line = i.val then v else s i := by
  unfold Bank.put
  split
  · case _ h =>
    by_cases hi : line = i.val
    · subst hi
      rw [if_pos rfl, Function.update_self]
    · rw [if_neg hi, Function.update_of_ne]
      intro he
      exact hi (congrArg Fin.val he).symm
  · case _ h =>
    rw [if_neg]
    intro he
    have := i.isLt
    omega

/-- the lines a word written to a bank names -/
def Names (base : Nat) (mask : W32) (i : Fin 64) : Prop :=
  ∃ b < 32, (mask >>> b) &&& 1 ≠ 0 ∧ base + b = i.val

theorem Bank.poke_apply (s : Bank) (base : Nat) (mask : W32) (set : Bool) (i : Fin 64) :
    s.poke base mask set i = s i ∨
      Names base mask i ∧ s.poke base mask set i = if set then 1 else 0 := by
  unfold Bank.poke
  have hpre : ∀ n ≤ 32, ∀ t : Bank, t = (List.range n).foldl
      (fun s b => if (mask >>> b) &&& 1 ≠ 0 then s.put (base + b) (if set then 1 else 0) else s) s →
      t i = s i ∨ Names base mask i ∧ t i = if set then 1 else 0 := by
    intro n
    induction n with
    | zero =>
      intro _ t ht
      exact .inl (congrFun ht i)
    | succ n ih =>
      intro hn t ht
      rw [List.range_succ, List.foldl_concat] at ht
      generalize hu : (List.range n).foldl _ s = u at ht
      have := ih (by omega) u hu.symm
      by_cases hb : (mask >>> n) &&& 1 ≠ 0
      · rw [if_pos hb] at ht
        rw [ht, Bank.put_apply]
        by_cases hi : base + n = i.val
        · rw [if_pos hi]
          exact .inr ⟨⟨n, by omega, hb, hi⟩, rfl⟩
        · rw [if_neg hi]
          exact this
      · rw [if_neg hb] at ht
        rw [ht]
        exact this
  exact hpre 32 le_rfl _ rfl

/-! ## requests by line -/

/-- the read of `GICC_IAR` that answers line `i` -/
def Acks (i : Fin 64) (e : Event) : Prop :=
  ∃ offset size, e.req = .cpuRead offset size ∧ regAt offset = 0x00C ∧
    e.reply = BitVec.ofNat 64 i.val

/-- the write of `GICC_EOIR` that names line `i` -/
def Eois (i : Fin 64) (e : Event) : Prop :=
  ∃ offset size value, e.req = .cpuWrite offset size value ∧ regAt offset = 0x010 ∧
    (value.setWidth 32 &&& (0x3FF : W32)).toNat = i.val

/-- a source or a write of `GICD_ISPENDR` that raises line `i` -/
def Raises (i : Fin 64) (e : Event) : Prop :=
  e.req = .setPending i.val true ∨
    ∃ offset size value, e.req = .distWrite offset size value ∧ within offset 0x200 0x80 = true ∧
      Names (wordAt offset 0x200 * 32) (value.setWidth 32) i

def writesActive : Req → Bool
  | .distWrite offset _ _ => within offset 0x300 0x80 || within offset 0x380 0x80
  | _ => false

def writesPriority : Req → Bool
  | .distWrite offset _ _ => within offset 0x400 0x100
  | _ => false

/-- a step that leaves the active registers alone, and the priorities while a line is active -/
def QuietStep (g : Gicv2) (e : Event) (g' : Gicv2) : Prop :=
  g.Step e g' ∧ writesActive e.req = false ∧ (writesPriority e.req = true → ∀ i, g.active i = 0)

theorem distWrite_cases {P : Gicv2 → Prop} (g : Gicv2) (offset : W64) (size : MemSize) (value : W64)
    (hgroup : ∀ b, P { g with group := b }) (henable : ∀ b, P { g with enable := b })
    (hset : within offset 0x200 0x80 = true →
      P { g with pending := g.pending.poke (wordAt offset 0x200 * 32) (value.setWidth 32) true })
    (hclear : within offset 0x280 0x80 = true →
      P { g with pending := g.pending.poke (wordAt offset 0x280 * 32) (value.setWidth 32) false })
    (hactive : within offset 0x300 0x80 = true ∨ within offset 0x380 0x80 = true →
      ∀ b, P { g with active := b })
    (hpriority : within offset 0x400 0x100 = true → ∀ b, P { g with priority := b })
    (htarget : ∀ b, P { g with target := b }) (hconfig : ∀ b, P { g with config := b })
    (hctl : ∀ v, P { g with ctl := v }) (hsgir : ∀ v, P { g with sgir := v }) (hsame : P g) :
    P (g.distWrite offset size value).2 := by
  unfold distWrite
  refine iteInduction (fun _ => hgroup _) fun _ => ?_
  refine iteInduction (fun _ => henable _) fun _ => ?_
  refine iteInduction (fun _ => henable _) fun _ => ?_
  refine iteInduction hset fun _ => ?_
  refine iteInduction hclear fun _ => ?_
  refine iteInduction (fun h => hactive (.inl h) _) fun _ => ?_
  refine iteInduction (fun h => hactive (.inr h) _) fun _ => ?_
  refine iteInduction (fun h => hpriority h _) fun _ => ?_
  refine iteInduction (fun _ => iteInduction (fun _ => htarget _) fun _ => hsame) fun _ => ?_
  refine iteInduction (fun _ => hconfig _) fun _ => ?_
  split
  · exact hctl _
  · exact hsgir _
  · exact hsame

theorem distWrite_active (g : Gicv2) {offset : W64} (size : MemSize) (value : W64)
    (h₁ : ¬ within offset 0x300 0x80 = true) (h₂ : ¬ within offset 0x380 0x80 = true) :
    (g.distWrite offset size value).2.active = g.active := by
  refine distWrite_cases (P := fun g' => g'.active = g.active) g offset size value (fun _ => rfl)
    (fun _ => rfl) (fun _ => rfl) (fun _ => rfl) ?_ (fun _ _ => rfl) (fun _ => rfl) (fun _ => rfl)
    (fun _ => rfl) (fun _ => rfl) rfl
  intro h
  rcases h with h | h
  · exact absurd h h₁
  · exact absurd h h₂

theorem distWrite_priority (g : Gicv2) {offset : W64} (size : MemSize) (value : W64)
    (h : ¬ within offset 0x400 0x100 = true) :
    (g.distWrite offset size value).2.priority = g.priority :=
  distWrite_cases (P := fun g' => g'.priority = g.priority) g offset size value (fun _ => rfl)
    (fun _ => rfl) (fun _ => rfl) (fun _ => rfl) (fun _ _ => rfl) (fun h' => absurd h' h)
    (fun _ => rfl) (fun _ => rfl) (fun _ => rfl) (fun _ => rfl) rfl

/-- a write to the distributor raises only the lines its `GICD_ISPENDR` word names -/
theorem distWrite_pending (g : Gicv2) (offset : W64) (size : MemSize) (value : W64) (i : Fin 64)
    (h : (g.distWrite offset size value).2.pending i ≠ 0) :
    g.pending i ≠ 0 ∨ within offset 0x200 0x80 = true ∧
      Names (wordAt offset 0x200 * 32) (value.setWidth 32) i := by
  revert h
  refine distWrite_cases (P := fun g' => g'.pending i ≠ 0 → g.pending i ≠ 0 ∨ _) g offset size value
    (fun _ => .inl) (fun _ => .inl) ?_ ?_ (fun _ _ => .inl) (fun _ _ => .inl) (fun _ => .inl)
    (fun _ => .inl) (fun _ => .inl) (fun _ => .inl) .inl
  · intro hw h
    rcases Bank.poke_apply g.pending (wordAt offset 0x200 * 32) (value.setWidth 32) true i with
      hp | hp
    · exact .inl (by rwa [← hp])
    · exact .inr ⟨hw, hp.1⟩
  · intro _ h
    rcases Bank.poke_apply g.pending (wordAt offset 0x280 * 32) (value.setWidth 32) false i with
      hp | hp
    · exact .inl (by rwa [← hp])
    · exact absurd hp.2 h

/-! ## what one step does to a line -/

theorem QuietStep.distWrite {g g' : Gicv2} {e : Event} {offset : W64} {size : MemSize} {value : W64}
    (h : QuietStep g e g') (he : e.req = .distWrite offset size value) :
    g' = (g.distWrite offset size value).2 ∧ ¬ within offset 0x300 0x80 = true ∧
      ¬ within offset 0x380 0x80 = true := by
  obtain ⟨hs, ha, -⟩ := h
  rw [he] at ha
  rw [Step, he] at hs
  have hw : ¬ (within offset 0x300 0x80 = true ∨ within offset 0x380 0x80 = true) := by
    rw [← Bool.or_eq_true, Bool.not_eq_true]
    exact ha
  exact ⟨(congrArg Prod.snd hs).symm, not_or.mp hw⟩

theorem cpuRead_cases (g : Gicv2) (offset : W64) (size : MemSize) :
    (∃ i, g.Winner i ∧ regAt offset = 0x00C ∧
      g.cpuRead offset size = (.ok, BitVec.ofNat 64 i.val, g.acked i)) ∨
    (∃ v, g.cpuRead offset size = (.ok, v, g) ∧ (regAt offset = 0x00C → v = 1023)) := by
  by_cases hreg : regAt offset = 0x00C
  · rcases g.winner_or_none with ⟨i, hi⟩ | hn
    · exact .inl ⟨i, hi, hreg, cpuRead_of_winner size hreg hi⟩
    · exact .inr ⟨_, cpuRead_of_none size hreg hn, fun _ => rfl⟩
  · refine .inr ?_
    unfold cpuRead
    split
    · exact ⟨_, rfl, fun h => absurd h hreg⟩
    · exact ⟨_, rfl, fun h => absurd h hreg⟩
    · exact ⟨_, rfl, fun h => absurd h hreg⟩
    · case _ h => exact absurd h hreg
    · exact ⟨_, rfl, fun h => absurd h hreg⟩

theorem cpuWrite_cases (g : Gicv2) (offset : W64) (size : MemSize) (value : W64) :
    (g.cpuWrite offset size value).2.priority = g.priority ∧
    (g.cpuWrite offset size value).2.pending = g.pending ∧
    ((g.cpuWrite offset size value).2.active = g.active ∨ regAt offset = 0x010 ∧
      (g.cpuWrite offset size value).2.active =
        g.active.put (value.setWidth 32 &&& (0x3FF : W32)).toNat 0) := by
  unfold cpuWrite
  split
  · exact ⟨rfl, rfl, .inl rfl⟩
  · exact ⟨rfl, rfl, .inl rfl⟩
  · exact ⟨rfl, rfl, .inl rfl⟩
  · case _ h => exact ⟨rfl, rfl, .inr ⟨h, rfl⟩⟩
  · exact ⟨rfl, rfl, .inl rfl⟩

theorem ofNat_val_inj {i j : Fin 64} (h : BitVec.ofNat 64 i.val = BitVec.ofNat 64 j.val) : i = j := by
  have := congrArg BitVec.toNat h
  rw [BitVec.toNat_ofNat, BitVec.toNat_ofNat] at this
  have hi := i.isLt
  have hj := j.isLt
  exact Fin.ext (by omega)

/-- what a step does: it acknowledges the winner, or it does to each line one of the things that are
not an acknowledgement -/
theorem QuietStep.cases {g g' : Gicv2} {e : Event} (h : QuietStep g e g') :
    (∃ i, g.Winner i ∧ Acks i e ∧ g' = g.acked i) ∨
    (∀ i, ¬ Acks i e) ∧
      (∀ i, g'.active i = g.active i ∨ Eois i e ∧ g'.active i = 0) ∧
      (∀ i, g'.pending i ≠ 0 → g.pending i ≠ 0 ∨ Raises i e) ∧
      (g'.priority = g.priority ∨ ∀ i, g.active i = 0) := by
  have hs := h.1
  rw [Step] at hs
  have hnot : (∀ offset size, e.req ≠ .cpuRead offset size) → ∀ i, ¬ Acks i e := by
    intro hr i hi
    obtain ⟨offset, size, he, -⟩ := hi
    exact hr _ _ he
  cases he : e.req with
  | setPending intid level =>
    rw [he] at hs
    have hg : g' = g.setPending intid level := (congrArg Prod.snd hs).symm
    refine .inr ⟨hnot (by rw [he]; intro _ _ h; cases h), fun i => .inl (by rw [hg]; rfl), ?_,
      .inl (by rw [hg]; rfl)⟩
    intro i hi
    have hput : g'.pending i = if intid = i.val then (if level then 1 else 0) else g.pending i := by
      rw [hg]
      exact Bank.put_apply ..
    rw [hput] at hi
    by_cases hid : intid = i.val
    · rw [if_pos hid] at hi
      cases level with
      | true => exact .inr (.inl (by rw [he, hid]))
      | false => exact absurd rfl hi
    · rw [if_neg hid] at hi
      exact .inl hi
  | distRead offset size =>
    rw [he] at hs
    have hg : g' = g := (congrArg Prod.snd hs).symm
    refine .inr ⟨hnot (by rw [he]; intro _ _ h; cases h), fun i => .inl (by rw [hg]),
      fun i hi => .inl (by rwa [← hg]), .inl (by rw [hg])⟩
  | distWrite offset size value =>
    obtain ⟨hg, h₁, h₂⟩ := h.distWrite he
    refine .inr ⟨hnot (by rw [he]; intro _ _ h; cases h), ?_, ?_, ?_⟩
    · intro i
      exact .inl (by rw [hg, distWrite_active g size value h₁ h₂])
    · intro i hi
      rw [hg] at hi
      rcases distWrite_pending g offset size value i hi with hp | ⟨hw, hn⟩
      · exact .inl hp
      · exact .inr (.inr ⟨offset, size, value, he, hw, hn⟩)
    · by_cases hw : within offset 0x400 0x100 = true
      · exact .inr (h.2.2 (by rw [he]; exact hw))
      · exact .inl (by rw [hg, distWrite_priority g size value hw])
  | cpuRead offset size =>
    rw [he] at hs
    rcases cpuRead_cases g offset size with ⟨i, hi, hreg, hread⟩ | ⟨v, hread, hv⟩
    · rw [show g.serve (.cpuRead offset size) = (g.cpuRead offset size).2 from rfl, hread] at hs
      refine .inl ⟨i, hi, ⟨offset, size, he, hreg, (congrArg Prod.fst hs).symm⟩, ?_⟩
      exact (congrArg Prod.snd hs).symm
    · rw [show g.serve (.cpuRead offset size) = (g.cpuRead offset size).2 from rfl, hread] at hs
      have hg : g' = g := (congrArg Prod.snd hs).symm
      refine .inr ⟨?_, fun i => .inl (by rw [hg]), fun i hi => .inl (by rwa [← hg]),
        .inl (by rw [hg])⟩
      rintro i ⟨offset', size', he', hreg, hrep⟩
      rw [he] at he'
      cases he'
      have hvr : v = e.reply := congrArg Prod.fst hs
      rw [hv hreg, hrep] at hvr
      exact ofNat_val_ne_spurious i hvr.symm
  | cpuWrite offset size value =>
    rw [he] at hs
    have hg : g' = (g.cpuWrite offset size value).2 := (congrArg Prod.snd hs).symm
    obtain ⟨hpri, hpend, hact⟩ := cpuWrite_cases g offset size value
    refine .inr ⟨hnot (by rw [he]; intro _ _ h; cases h), ?_, fun i hi => .inl ?_,
      .inl (by rw [hg, hpri])⟩
    · intro i
      rw [hg]
      rcases hact with hact | ⟨hreg, hact⟩
      · exact .inl (by rw [hact])
      · rw [hact, Bank.put_apply]
        by_cases hid : (value.setWidth 32 &&& (0x3FF : W32)).toNat = i.val
        · rw [if_pos hid]
          exact .inr ⟨⟨offset, size, value, he, hreg, hid⟩, rfl⟩
        · rw [if_neg hid]
          exact .inl rfl
    · rwa [hg, hpend] at hi

/-! ## runs -/

/-- the invariant: a state against the history that led to it -/
structure Nested (h : List Event) (g : Gicv2) : Prop where
  distinct : ∀ i j, g.active i ≠ 0 → g.active j ≠ 0 → g.priority i = g.priority j → i = j
  held : ∀ i, Lts.Since (Acks i) (fun e => ¬ Eois i e) h → g.active i ≠ 0
  raised : ∀ i, g.pending i ≠ 0 → Lts.Since (Raises i) (fun e => ¬ Acks i e) h

theorem Nested.init (lines : Nat) : Nested [] (Gicv2.init lines) where
  distinct _ _ hi := absurd rfl hi
  held _ h := absurd h Lts.not_since_nil
  raised _ h := absurd rfl h

theorem Acks.unique {i j : Fin 64} {e : Event} (hi : Acks i e) (hj : Acks j e) : i = j := by
  obtain ⟨-, -, -, -, hri⟩ := hi
  obtain ⟨-, -, -, -, hrj⟩ := hj
  exact ofNat_val_inj (hri.symm.trans hrj)

theorem Acks.not_eois {i j : Fin 64} {e : Event} (hi : Acks i e) : ¬ Eois j e := by
  obtain ⟨offset, size, he, -⟩ := hi
  rintro ⟨offset', size', value, he', -⟩
  rw [he] at he'
  cases he'

theorem Nested.step {h : List Event} {g g' : Gicv2} {e : Event} (hI : Nested h g)
    (hs : QuietStep g e g') : Nested (h ++ [e]) g' := by
  rcases hs.cases with ⟨i, hw, hack, rfl⟩ | ⟨hno, hact, hpend, hpri⟩
  · have hactive : ∀ j, (g.acked i).active j = if j = i then 1 else g.active j := by
      intro j
      exact Function.update_apply ..
    have hpending : ∀ j, (g.acked i).pending j = if j = i then 0 else g.pending j := by
      intro j
      exact Function.update_apply ..
    have hlt := hw.1.preempts
    refine ⟨?_, ?_, ?_⟩
    · intro j k hj hk hjk
      rw [hactive] at hj hk
      replace hjk : g.priority j = g.priority k := hjk
      by_cases hji : j = i
      · by_cases hki : k = i
        · rw [hji, hki]
        · rw [if_neg hki] at hk
          have := hlt k hk
          rw [← hji, hjk] at this
          exact absurd this (BitVec.lt_irrefl _)
      · rw [if_neg hji] at hj
        by_cases hki : k = i
        · have := hlt j hj
          rw [← hki, hjk] at this
          exact absurd this (BitVec.lt_irrefl _)
        · rw [if_neg hki] at hk
          exact hI.distinct j k hj hk hjk
    · intro j hj
      rw [hactive]
      by_cases hji : j = i
      · rw [if_pos hji]
        decide
      · rw [if_neg hji]
        refine hI.held j ?_
        rcases Lts.since_snoc.mp hj with hj | hj
        · exact absurd (hj.unique hack) hji
        · exact hj.1
    · intro j hj
      rw [hpending] at hj
      by_cases hji : j = i
      · rw [if_pos hji] at hj
        exact absurd rfl hj
      · rw [if_neg hji] at hj
        refine Lts.since_snoc.mpr (.inr ⟨hI.raised j hj, ?_⟩)
        intro ha
        exact hji (ha.unique hack)
  · have hsub : ∀ i, g'.active i ≠ 0 → g.active i ≠ 0 := by
      intro i hi
      rcases hact i with ha | ha
      · rwa [← ha]
      · exact absurd ha.2 hi
    refine ⟨?_, ?_, ?_⟩
    · intro i j hi hj hij
      rcases hpri with hp | hp
      · rw [hp] at hij
        exact hI.distinct i j (hsub i hi) (hsub j hj) hij
      · exact absurd (hp i) (hsub i hi)
    · intro i hi
      rcases Lts.since_snoc.mp hi with hi | ⟨hi, hne⟩
      · exact absurd hi (hno i)
      · rcases hact i with ha | ha
        · rw [ha]
          exact hI.held i hi
        · exact absurd ha.1 hne
    · intro i hi
      rcases hpend i hi with hp | hr
      · exact Lts.since_snoc.mpr (.inr ⟨hI.raised i hp, hno i⟩)
      · exact Lts.since_snoc.mpr (.inl hr)

theorem nested_of_run {lines : Nat} {l : List Event} {g : Gicv2}
    (h : Lts.Run QuietStep (init lines) l g) : Nested l g :=
  Lts.Run.history (I := Nested) (fun _ _ _ _ hI hs => hI.step hs) h (Nested.init lines)

/-- **the active lines have distinct priorities, and an acknowledged line preempts all of them, was
ended since its last acknowledgement and was raised since** -/
theorem preemption_order {lines : Nat} {l : List Event} {g : Gicv2}
    (h : Lts.Run QuietStep (init lines) l g) :
    (∀ i j, g.active i ≠ 0 → g.active j ≠ 0 → i ≠ j → g.priority i ≠ g.priority j) ∧
    ∀ i e g', QuietStep g e g' → Acks i e →
      (∀ j, g.active j ≠ 0 → g.priority i < g.priority j) ∧
      ¬ Lts.Since (Acks i) (fun e => ¬ Eois i e) l ∧
      Lts.Since (Raises i) (fun e => ¬ Acks i e) l := by
  have hI := nested_of_run h
  refine ⟨fun i j hi hj hne heq => hne (hI.distinct i j hi hj heq), ?_⟩
  intro i e g' hs hack
  rcases hs.cases with ⟨j, hw, hackj, -⟩ | ⟨hno, -⟩
  · have hij : i = j := hack.unique hackj
    subst hij
    refine ⟨hw.1.preempts, ?_, hI.raised i hw.1.pending⟩
    intro hsince
    exact hI.held i hsince hw.1.inactive
  · exact absurd hack (hno i)

/-- line 33 preempts line 32: priorities, enables and mask, then a raise and its acknowledgement -/
def nestedRequests : List Req :=
  [.distWrite 0x420 .word 0x40A0, .distWrite 0x104 .word 3, .cpuWrite 0x004 .word 0xFF,
    .setPending 32 true, .cpuRead 0x00C .word, .setPending 33 true]

/-- the states and events of a list of requests -/
def trace (g : Gicv2) : List Req → List Event × Gicv2
  | [] => ([], g)
  | r :: l =>
    let (es, g') := (g.serve r).2.trace l
    (⟨r, (g.serve r).1⟩ :: es, g')

/-- every request of a list is one of a quiet step -/
def quietTrace (g : Gicv2) : List Req → Bool
  | [] => true
  | r :: l => (!writesActive r && (!writesPriority r || decide (∀ i, g.active i = 0))) &&
      (g.serve r).2.quietTrace l

theorem run_trace {l : List Req} {g : Gicv2} (h : g.quietTrace l = true) :
    Lts.Run QuietStep g (g.trace l).1 (g.trace l).2 := by
  induction l generalizing g with
  | nil => exact .nil g
  | cons r l ih =>
    simp only [quietTrace, Bool.and_eq_true, Bool.or_eq_true, Bool.not_eq_true',
      decide_eq_true_eq] at h
    obtain ⟨⟨ha, hp⟩, hl⟩ := h
    refine .cons ⟨rfl, ha, ?_⟩ (ih hl)
    intro hw
    rcases hp with hp | hp
    · exact absurd hw (by rw [hp]; exact Bool.false_ne_true)
    · exact hp

/-- in a concrete run line 33 is acknowledged while line 32 is active -/
theorem preemption_order_nested :
    let t := (init 64).trace nestedRequests
    let e : Event := ⟨.cpuRead 0x00C .word, 33⟩
    t.2.active 32 ≠ 0 ∧ Acks 33 e ∧ t.2.priority 33 < t.2.priority 32 ∧
      ¬ Lts.Since (Acks 33) (fun e => ¬ Eois 33 e) t.1 ∧
      Lts.Since (Raises 33) (fun e => ¬ Acks 33 e) t.1 := by
  intro t e
  have hrun : Lts.Run QuietStep (init 64) t.1 t.2 := run_trace (by decide +kernel)
  have hactive : t.2.active 32 ≠ 0 := by decide +kernel
  have hstep : QuietStep t.2 e (t.2.serve e.req).2 := by
    refine ⟨Prod.ext ?_ rfl, rfl, fun h => by cases h⟩
    show (t.2.serve e.req).1 = 33
    decide +kernel
  have hack : Acks 33 e := ⟨0x00C, .word, rfl, by decide, rfl⟩
  obtain ⟨hfloor, hended, hraised⟩ := (preemption_order hrun).2 33 e _ hstep hack
  exact ⟨hactive, hack, hfloor 32 hactive, hended, hraised⟩

end Oemu.Gicv2
