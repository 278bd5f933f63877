import Oemu.Dev.Gicv2

/-!
# The interrupt output and the acknowledge

`Eligible` says when a line asks for the core and `Winner` which of these it gets: the least priority
byte, the least id among equals.  Both entry points of the controller decide by the same scan:

* `lt_runningPriority_iff`  the running priority is the floor the active lines set;
* `candidate_eq_iff`, `candidate_spurious_iff`  the scan finds the winner, or there is none;
* `acknowledge_of_winner`, `acknowledge_of_none`  what a read of `GICC_IAR` does;
* `irqLevel_ne_zero_iff`    when the output is raised.

They differ in the gate.  `irqLevel` wants the distributor and the CPU interface enabled, the
acknowledge asks for neither, so `iarAgrees_iff` holds on the states where both are enabled and on
those where no line is eligible.
-/

namespace Oemu.Gicv2

/-- a line that may be acknowledged -/
structure Eligible (g : Gicv2) (i : Fin 64) : Prop where
  modelled : i.val < g.linesOf
  enabled : g.enable i ≠ 0
  pending : g.pending i ≠ 0
  inactive : g.active i = 0
  targeted : g.target i &&& 1 ≠ 0
  unmasked : (g.priority i).toNat < (g.cpuPmr &&& 0xFF).toNat
  preempts : ∀ j, g.active j ≠ 0 → g.priority i < g.priority j

/-- the eligible line the controller serves first -/
def Winner (g : Gicv2) (i : Fin 64) : Prop :=
  g.Eligible i ∧
    ∀ j, g.Eligible j → g.priority i < g.priority j ∨ g.priority i = g.priority j ∧ i ≤ j

/-- `GICD_CTLR` and `GICC_CTLR` both enable -/
def Enabled (g : Gicv2) : Prop := g.ctl &&& 1 ≠ 0 ∧ g.cpuCtl &&& 1 ≠ 0

instance (g : Gicv2) : Decidable g.Enabled := inferInstanceAs (Decidable (_ ∧ _))

/-! ## the scan -/

theorem runningPriority_eq_low (g : Gicv2) :
    g.runningPriority =
      Scan.low (fun i => g.active i ≠ 0) (fun i => (g.priority i).toNat) 256 (List.finRange 64) :=
  rfl

/-- the running priority is the floor the active lines set -/
theorem lt_runningPriority_iff (g : Gicv2) (i : Fin 64) :
    (g.priority i).toNat < g.runningPriority ↔
      ∀ j, g.active j ≠ 0 → g.priority i < g.priority j := by
  rw [runningPriority_eq_low, Scan.lt_low_iff]
  constructor
  · rintro ⟨-, h⟩ j hj
    exact h j (List.mem_finRange j) hj
  · intro h
    exact ⟨(g.priority i).isLt, fun j _ hj => h j hj⟩

/-- the test of the scan loop, apart from the running best -/
def Passes (g : Gicv2) (i : Fin 64) : Prop :=
  skips g.enable g.pending g.active g.target i = false ∧
    (g.priority i).toNat < (g.cpuPmr &&& 0xFF).toNat

instance (g : Gicv2) : DecidablePred g.Passes := fun _ => inferInstanceAs (Decidable (_ ∧ _))

theorem skips_eq_false_iff (g : Gicv2) (i : Fin 64) :
    skips g.enable g.pending g.active g.target i = false ↔
      g.enable i ≠ 0 ∧ g.pending i ≠ 0 ∧ g.active i = 0 ∧ g.target i &&& 1 ≠ 0 := by
  simp only [skips, Bool.or_eq_false_iff, beq_eq_false_iff_ne, bne_eq_false_iff_eq]
  tauto

/-- the loop's pair of the best id and the best priority, from an optional line -/
def slot (s : Option (Fin 64) × Nat) : Nat × Nat := (s.1.elim spurious (·.val), s.2)

theorem scanStep_slot (g : Gicv2) (s : Option (Fin 64) × Nat) (i : Fin 64) :
    scanStep g.enable g.pending g.active g.priority g.target (g.cpuPmr &&& 0xFF).toNat (slot s) i =
      slot (Scan.pick g.Passes (fun i => (g.priority i).toNat) s i) := by
  unfold scanStep Scan.pick
  by_cases hs : skips g.enable g.pending g.active g.target i = true
  · rw [if_pos hs, if_neg fun h => by simp [h.1.1] at hs]
  · rw [if_neg hs]
    have hs' : skips g.enable g.pending g.active g.target i = false := by simpa using hs
    show (if (g.priority i).toNat ≥ (g.cpuPmr &&& 0xFF).toNat ∨ (g.priority i).toNat ≥ s.2
      then slot s else (i.val, (g.priority i).toNat)) = _
    by_cases hp : (g.priority i).toNat < (g.cpuPmr &&& 0xFF).toNat ∧ (g.priority i).toNat < s.2
    · rw [if_neg (by omega), if_pos ⟨⟨hs', hp.1⟩, hp.2⟩]
      rfl
    · rw [if_pos (by omega), if_neg fun h => hp ⟨h.1.2, h.2⟩]

theorem foldl_scanStep_slot (g : Gicv2) (s : Option (Fin 64) × Nat) (l : List (Fin 64)) :
    l.foldl (scanStep g.enable g.pending g.active g.priority g.target (g.cpuPmr &&& 0xFF).toNat)
        (slot s) =
      slot (l.foldl (Scan.pick g.Passes fun i => (g.priority i).toNat) s) := by
  induction l generalizing s with
  | nil => rfl
  | cons i l ih => rw [List.foldl_cons, scanStep_slot, ih, List.foldl_cons]

def visited (g : Gicv2) : List (Fin 64) := (List.finRange 64).filter (·.val < g.linesOf)

theorem visited_ascending (g : Gicv2) : g.visited.Pairwise (· < ·) :=
  (List.pairwise_lt_finRange 64).filter _

theorem mem_visited {g : Gicv2} {i : Fin 64} : i ∈ g.visited ↔ i.val < g.linesOf := by
  simp [visited]

theorem candidate_eq_best (g : Gicv2) :
    g.candidate = (Scan.best g.Passes (fun i => (g.priority i).toNat) g.runningPriority
      g.visited).1.elim spurious (·.val) :=
  congrArg Prod.fst (foldl_scanStep_slot g (none, g.runningPriority) g.visited)

theorem eligible_iff {g : Gicv2} {i : Fin 64} :
    g.Eligible i ↔ i ∈ g.visited ∧ g.Passes i ∧ (g.priority i).toNat < g.runningPriority := by
  rw [mem_visited, lt_runningPriority_iff, Passes, skips_eq_false_iff]
  constructor
  · intro h
    exact ⟨h.modelled, ⟨⟨h.enabled, h.pending, h.inactive, h.targeted⟩, h.unmasked⟩, h.preempts⟩
  · rintro ⟨hl, ⟨⟨he, hp, ha, ht⟩, hm⟩, hr⟩
    exact ⟨hl, he, hp, ha, ht, hm, hr⟩

theorem val_ne_spurious (i : Fin 64) : i.val ≠ spurious := by
  have := i.isLt
  unfold spurious
  omega

/-- **the scan finds the winner** -/
theorem candidate_eq_iff (g : Gicv2) (i : Fin 64) : g.candidate = i.val ↔ g.Winner i := by
  have hbest : g.candidate = i.val ↔ (Scan.best g.Passes (fun i => (g.priority i).toNat)
      g.runningPriority g.visited).1 = some i := by
    rw [candidate_eq_best]
    cases (Scan.best g.Passes (fun i => (g.priority i).toNat) g.runningPriority g.visited).1 with
    | none => exact ⟨fun h => absurd h.symm (val_ne_spurious i), fun h => by cases h⟩
    | some j => exact ⟨fun h => congrArg some (Fin.ext h), fun h => by cases h; rfl⟩
  rw [hbest, Scan.best_some g.visited_ascending, Winner]
  constructor
  · rintro ⟨hv, hp, hr, hall⟩
    refine ⟨eligible_iff.mpr ⟨hv, hp, hr⟩, fun j hj => ?_⟩
    obtain ⟨hvj, hpj, hrj⟩ := eligible_iff.mp hj
    rcases hall j hvj hpj hrj with h | ⟨h, hle⟩
    · exact .inl h
    · exact .inr ⟨BitVec.eq_of_toNat_eq h, hle⟩
  · rintro ⟨he, hall⟩
    obtain ⟨hv, hp, hr⟩ := eligible_iff.mp he
    refine ⟨hv, hp, hr, fun j hvj hpj hrj => ?_⟩
    rcases hall j (eligible_iff.mpr ⟨hvj, hpj, hrj⟩) with h | ⟨h, hle⟩
    · exact .inl h
    · exact .inr ⟨congrArg BitVec.toNat h, hle⟩

theorem candidate_spurious_iff (g : Gicv2) : g.candidate = spurious ↔ ∀ i, ¬ g.Eligible i := by
  have hbest : g.candidate = spurious ↔ (Scan.best g.Passes (fun i => (g.priority i).toNat)
      g.runningPriority g.visited).1 = none := by
    rw [candidate_eq_best]
    cases (Scan.best g.Passes (fun i => (g.priority i).toNat) g.runningPriority g.visited).1 with
    | none => exact ⟨fun _ => rfl, fun _ => rfl⟩
    | some j => exact ⟨fun h => absurd h (val_ne_spurious j), fun h => by cases h⟩
  rw [hbest, Scan.best_none g.visited_ascending]
  constructor
  · intro h i hi
    obtain ⟨hv, hp, hr⟩ := eligible_iff.mp hi
    exact absurd hr (not_lt.mpr (h i hv hp))
  · intro h i hv hp
    by_contra hlt
    exact h i (eligible_iff.mpr ⟨hv, hp, not_le.mp hlt⟩)

theorem winner_or_none (g : Gicv2) : (∃ i, g.Winner i) ∨ ∀ i, ¬ g.Eligible i := by
  have hbest := g.candidate_eq_best
  cases h : (Scan.best g.Passes (fun i => (g.priority i).toNat) g.runningPriority
      g.visited).1 with
  | none => exact .inr ((candidate_spurious_iff g).mp (by rw [hbest, h]; rfl))
  | some i => exact .inl ⟨i, (candidate_eq_iff g i).mp (by rw [hbest, h]; rfl)⟩

/-! ## the acknowledge -/

/-- line `i` becomes active and its pending latch is consumed; `running_pri` caches the floor -/
def acked (g : Gicv2) (i : Fin 64) : Gicv2 :=
  let g' := { g with
    active := Function.update g.active i 1
    pending := Function.update g.pending i 0 }
  { g' with runningPri := BitVec.ofNat 32 g'.runningPriority }

theorem Bank.put_val (s : Bank) (i : Fin 64) (v : BitVec 8) : s.put i.val v = Function.update s i v := by
  unfold Bank.put
  rw [dif_pos i.isLt]

theorem acknowledge_of_winner {g : Gicv2} {i : Fin 64} (h : g.Winner i) :
    g.acknowledge = (i.val, g.acked i) := by
  have hc := (candidate_eq_iff g i).mpr h
  unfold acknowledge
  rw [if_neg (by rw [hc]; exact val_ne_spurious i), hc, Bank.put_val, Bank.put_val]
  rfl

theorem acknowledge_of_none {g : Gicv2} (h : ∀ i, ¬ g.Eligible i) :
    g.acknowledge = (spurious, g) := by
  unfold acknowledge
  rw [if_pos ((candidate_spurious_iff g).mpr h)]

theorem irqLevel_ne_zero_iff (g : Gicv2) : g.irqLevel ≠ 0 ↔ g.Enabled ∧ ∃ i, g.Eligible i := by
  have hc : g.candidate ≠ spurious ↔ ∃ i, g.Eligible i := by
    rw [ne_eq, candidate_spurious_iff, not_forall_not]
  unfold irqLevel Enabled
  by_cases he : g.ctl &&& 1 = 0 ∨ g.cpuCtl &&& 1 = 0
  · rw [if_pos he]
    refine ⟨fun h => absurd rfl h, fun h => ?_⟩
    rcases he with he | he
    · exact absurd he h.1.1
    · exact absurd he h.1.2
  · rw [if_neg he]
    rw [not_or] at he
    by_cases h : g.candidate ≠ spurious
    · rw [if_pos h]
      exact ⟨fun _ => ⟨he, hc.mp h⟩, fun _ => Nat.one_ne_zero⟩
    · rw [if_neg h]
      exact ⟨fun h0 => absurd rfl h0, fun h' => absurd (hc.mpr h'.2) h⟩

/-! ## agreement of the two -/

/-- the contract of a read of `GICC_IAR` in the state `g`: it answers an id exactly when the output
is raised, the id is the winner's, which becomes active and not pending and nothing else changes,
and an answer of 1023 changes nothing -/
def IarAgrees (g : Gicv2) : Prop :=
  ∀ offset size, regAt offset = 0x00C →
    ∃ v g', g.cpuRead offset size = (.ok, v, g') ∧
      (v ≠ 1023 ↔ g.irqLevel ≠ 0) ∧
      (v ≠ 1023 → ∃ i : Fin 64, v = BitVec.ofNat 64 i.val ∧ g.Winner i ∧ g' = g.acked i) ∧
      (v = 1023 → g' = g)

theorem ofNat_val_ne_spurious (i : Fin 64) : BitVec.ofNat 64 i.val ≠ 1023 := by
  revert i
  decide

theorem cpuRead_iar (g : Gicv2) {offset : W64} (size : MemSize) (h : regAt offset = 0x00C) :
    g.cpuRead offset size = (.ok, BitVec.ofNat 64 g.acknowledge.1, g.acknowledge.2) := by
  unfold cpuRead
  rw [h]
  rfl

theorem cpuRead_of_winner {g : Gicv2} {i : Fin 64} {offset : W64} (size : MemSize)
    (hreg : regAt offset = 0x00C) (h : g.Winner i) :
    g.cpuRead offset size = (.ok, BitVec.ofNat 64 i.val, g.acked i) := by
  rw [cpuRead_iar g size hreg, acknowledge_of_winner h]

theorem cpuRead_of_none {g : Gicv2} {offset : W64} (size : MemSize)
    (hreg : regAt offset = 0x00C) (h : ∀ i, ¬ g.Eligible i) :
    g.cpuRead offset size = (.ok, 1023, g) := by
  rw [cpuRead_iar g size hreg, acknowledge_of_none h]
  rfl

/-- **`GICC_IAR` and the interrupt output agree exactly when both enables are set or no line is
eligible** -/
theorem iarAgrees_iff (g : Gicv2) : g.IarAgrees ↔ g.Enabled ∨ ∀ i, ¬ g.Eligible i := by
  constructor
  · intro h
    obtain ⟨v, g', hread, hlevel, -, -⟩ := h 0x00C .word rfl
    rcases g.winner_or_none with ⟨i, hi⟩ | hn
    · rw [cpuRead_of_winner .word rfl hi] at hread
      have hv : BitVec.ofNat 64 i.val = v := congrArg (fun r => r.2.1) hread
      have hne : v ≠ 1023 := by
        rw [← hv]
        exact ofNat_val_ne_spurious i
      exact .inl ((irqLevel_ne_zero_iff g).mp (hlevel.mp hne)).1
    · exact .inr hn
  · intro h offset size hreg
    rcases g.winner_or_none with ⟨i, hi⟩ | hn
    · have hen : g.Enabled := h.resolve_right fun hn => hn i hi.1
      refine ⟨_, _, cpuRead_of_winner size hreg hi, ?_, fun _ => ⟨i, rfl, hi, rfl⟩, ?_⟩
      · refine ⟨fun _ => (irqLevel_ne_zero_iff g).mpr ⟨hen, i, hi.1⟩, fun _ => ?_⟩
        exact ofNat_val_ne_spurious i
      · intro hv
        exact absurd hv (ofNat_val_ne_spurious i)
    · refine ⟨_, _, cpuRead_of_none size hreg hn, ?_, fun hv => absurd rfl hv, fun _ => rfl⟩
      refine ⟨fun hv => absurd rfl hv, fun hl => ?_⟩
      obtain ⟨-, i, hi⟩ := (irqLevel_ne_zero_iff g).mp hl
      exact absurd hi (hn i)

/-- line 0 enabled, unmasked and raised while the distributor and the CPU interface are off -/
def gatedOff : Gicv2 :=
  (((init 64).distWrite 0x100 .word 1).2.cpuWrite 0x004 .word 0xFF).2.setPending 0 true

/-- the acknowledge ignores the enables -/
theorem iar_ignores_enables :
    ¬ ∀ l g, Lts.Run Step (init 64) l g → g.IarAgrees := by
  intro h
  have hrun : Lts.Run Step (init 64)
      [⟨.distWrite 0x100 .word 1, 0⟩, ⟨.cpuWrite 0x004 .word 0xFF, 0⟩, ⟨.setPending 0 true, 0⟩]
      gatedOff :=
    .cons rfl (.cons rfl (.cons rfl (.nil _)))
  obtain ⟨v, g', hread, hlevel, -, -⟩ := h _ _ hrun 0x00C .word rfl
  have hwin : gatedOff.Winner 0 := (candidate_eq_iff _ _).mp (by decide +kernel)
  rw [cpuRead_of_winner .word rfl hwin] at hread
  have hv : (0 : W64) = v := congrArg (fun r => r.2.1) hread
  have hraised : gatedOff.irqLevel ≠ 0 := hlevel.mp (by rw [← hv]; decide)
  exact absurd hraised (by decide +kernel)

end Oemu.Gicv2
