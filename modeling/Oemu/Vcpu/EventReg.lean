import Oemu.Decode.Hint
import Oemu.Vcpu.Clock

/-!
# The event register

A step moves the event register by the word it executes, and by nothing else: what a step leaves
there is `Insn.note` of its record.

* `Vcpu.issued`          the word a step executes or waits at;
* `vcpuStep_eventReg`    what a step leaves in the register;
* `run_eventReg`         the register along a run, as a fact about the words since the last wait;
* `event_register_law`   a run without stray words.
-/

namespace Oemu

variable {σ ε τ : Type}

/-- the word a step executes or waits at -/
def Vcpu.issued (phys : Memops σ) (v : Vcpu σ ε) : Option W32 :=
  if v.insnsLeft = 0 ∨ v.pending ≠ none ∨ (v.fetch phys).1 ≠ .ok then none
  else (decode (v.fetch phys).2.1 v.cpu.regs.pc).toOption.map fun _ => (v.fetch phys).2.1

variable {phys : Memops σ} {f₀ : MmuFault} {env : Option (EnvOps τ ε)} {v v' : Vcpu σ ε}
  {st : Status}

theorem Vcpu.Reaches.issued {insn : Insn} (h : v.Reaches phys insn) :
    v.issued phys = some (v.fetch phys).2.1 := by
  unfold Vcpu.issued
  rw [if_neg, h.decoded]
  · rfl
  · rintro (hq | hp | hf)
    · exact h.quantum hq
    · exact hp h.quiet
    · exact hf h.fetched

theorem Vcpu.issued_reaches {word : W32} (h : v.issued phys = some word) :
    word = (v.fetch phys).2.1 ∧ ∃ insn, v.Reaches phys insn := by
  unfold Vcpu.issued at h
  split at h
  · cases h
  · case _ hc =>
    push Not at hc
    obtain ⟨hq, hp, hf⟩ := hc
    cases hd : decode (v.fetch phys).2.1 v.cpu.regs.pc with
    | error st =>
      rw [hd] at h
      cases h
    | ok insn =>
      rw [hd] at h
      cases h
      exact ⟨rfl, insn, hq, hp, hf, hd⟩

/-! ## one step -/

theorem Vcpu.noteEvent_note (insn : Insn) :
    (v.noteEvent insn).eventReg = insn.note.getD v.eventReg := by
  unfold Vcpu.noteEvent Insn.note
  split
  · rfl
  · split <;> rfl

theorem execute_eventReg {insn : Insn} {word : W32}
    (h : v.execute phys f₀ env insn word = some (st, v')) : v'.eventReg = v.eventReg := by
  unfold Vcpu.execute at h
  rw [Option.map_eq_some_iff] at h
  obtain ⟨q, -, hq⟩ := h
  dsimp only at hq
  split at hq <;> cases hq <;> rfl

theorem fetchAbort_eventReg : v.fetchAbort.eventReg = v.eventReg := by
  unfold Vcpu.fetchAbort
  rcases v.world.mmu.takeFault with ⟨f | f, m⟩ <;> rfl

theorem vcpuStep_eventReg_kept (h : vcpuStep phys f₀ env v = some (st, v'))
    (hi : v.issued phys = none) : v'.eventReg = v.eventReg := by
  by_cases hq : v.insnsLeft = 0
  · rw [vcpuStep_timeout hq] at h
    cases h
    rfl
  · cases hp : v.pending with
    | some kind =>
      have hpe : v.tick.takePending = some (v.tick.trapped (v.tick.cpu.trapped
          (excTake v.tick.cpu.regs v.tick.sr kind (excRoute v.tick.sr.el) 0 none))) := by
        unfold Vcpu.takePending
        rw [Vcpu.tick_pstate, show pendingKind v.sr.pstate v.tick.irqLevel v.tick.fiqLevel =
          some kind from hp]
      unfold vcpuStep at h
      rw [if_neg hq, hpe] at h
      cases h
      rfl
    | none =>
      rw [vcpuStep_quiet hq hp] at h
      unfold Vcpu.fetched at h
      have hfe : v.fetch phys = mmuFetch32 v.tick.sr phys v.tick.world v.tick.cpu.regs.pc := rfl
      rw [← hfe] at h
      unfold Vcpu.issued at hi
      rcases hf : v.fetch phys with ⟨fst, word, w⟩
      rw [hf] at h hi
      cases fst
      case ok =>
        have hc : ¬ (v.insnsLeft = 0 ∨ v.pending ≠ none ∨ Status.ok ≠ Status.ok) := by
          rintro (h0 | h0 | h0)
          · exact hq h0
          · exact h0 hp
          · exact h0 rfl
        rw [if_neg hc] at hi
        dsimp only at h hi
        unfold Vcpu.decoded at h
        cases hd : decode word v.cpu.regs.pc with
        | ok insn =>
          rw [hd] at hi
          cases hi
        | error e =>
          have hd' : decode word v.tick.cpu.regs.pc = .error e := hd
          dsimp only at h
          rw [hd'] at h
          cases h
          rfl
      all_goals
        cases h
        exact fetchAbort_eventReg

/-- **what a step leaves in the event register**: what its word does if it completes -/
theorem vcpuStep_eventReg (h : vcpuStep phys f₀ env v = some (st, v')) :
    v'.eventReg =
      (if st = .ok then (v.issued phys).bind wordNote else none).getD v.eventReg := by
  cases hi : v.issued phys with
  | none =>
    rw [vcpuStep_eventReg_kept h hi]
    split <;> rfl
  | some word =>
    obtain ⟨rfl, insn, hr⟩ := Vcpu.issued_reaches hi
    by_cases hw : (insn.op = .wfi ∨ insn.op = .wfe) ∧ v.wakes insn.op = false
    · rw [vcpuStep_parks ⟨insn, hr, hw.1, hw.2⟩] at h
      cases h
      rfl
    · have hok : st = .ok := by
        rcases vcpuStep_status h with rfl | rfl | rfl
        · rfl
        · obtain ⟨insn', hr', hop, hs⟩ := Vcpu.Parks.of_blocked h
          have he := hr'.decoded
          rw [hr.decoded] at he
          cases he
          exact absurd ⟨hop, hs⟩ hw
        · exact absurd rfl (vcpuStep_ne_timeout hr.quantum h)
      rw [vcpuStep_awake hr.quantum hr.quiet hr.fetched hr.decoded hw] at h
      rw [execute_eventReg h, Vcpu.noteEvent_note, decode_note hr.decoded, if_pos hok]
      rfl

/-! ## runs -/

/-- a move of the machine, with the word it executes or waits at -/
structure Move where
  label : Label
  word : Option W32

def Move.Sends (e : Move) : Prop := e.word = some (hintWord 4) ∨ e.word = some (hintWord 5)

/-- a wait for an event that completes -/
def Move.Consumes (e : Move) : Prop := e.label = .step .ok ∧ e.word = some (hintWord 2)

def Move.Strays (e : Move) : Prop := ∃ word, e.word = some word ∧ Stray word

inductive Watched (phys : Memops σ) (f₀ : MmuFault) (env : Option (EnvOps τ ε)) (v : Vcpu σ ε) :
    Move → Vcpu σ ε → Prop where
  | step (st : Status) (v' : Vcpu σ ε) (h : vcpuStep phys f₀ env v = some (st, v')) :
      Watched phys f₀ env v ⟨.step st, v.issued phys⟩ v'
  | between (i : Label) (v' : Vcpu σ ε) (h : Machine phys f₀ env v i v')
      (hi : ∀ st, i ≠ .step st) : Watched phys f₀ env v ⟨i, none⟩ v'

/-- what a move does to the register is what `sev`, `sevl` and a completed `wfe` do -/
structure EventLaw (b : Bool) (e : Move) (b' : Bool) : Prop where
  rises : b = false → b' = true → e.Sends
  falls : b = true → b' = false → e.Consumes
  keeps : ¬ e.Sends → ¬ e.Consumes → b' = b
  sends : e.Sends → b' = true
  consumes : e.Consumes → b' = false

variable {e : Move}

theorem Watched.of_step {word : Option W32} (h : vcpuStep phys f₀ env v = some (st, v'))
    (hi : v.issued phys = word) : Watched phys f₀ env v ⟨.step st, word⟩ v' := by
  subst hi
  exact .step st v' h

theorem Watched.eventReg (h : Watched phys f₀ env v e v') :
    v'.eventReg = (if e.label = .step .ok then e.word.bind wordNote else none).getD v.eventReg := by
  cases h with
  | step st v' h =>
    rw [vcpuStep_eventReg h]
    by_cases hst : st = .ok
    · rw [if_pos hst, if_pos (congrArg Label.step hst)]
    · rw [if_neg hst, if_neg (fun hl => hst (Label.step.inj hl))]
  | between i v' h hi =>
    rw [if_neg (hi _)]
    cases h with
    | step st v' h => exact absurd rfl (hi st)
    | irq | fiq | rearm | host => rfl

theorem sends_step (h : Watched phys f₀ env v e v') (hs : e.Sends) : e.label = .step .ok := by
  cases h with
  | between i v' h hi => rcases hs with hs | hs <;> cases hs
  | step st v' h =>
    obtain ⟨word, hw, hop⟩ : ∃ word, v.issued phys = some word ∧ wordNote word = some true := by
      rcases hs with hs | hs
      · exact ⟨_, hs, by decide⟩
      · exact ⟨_, hs, by decide⟩
    obtain ⟨rfl, insn, hr⟩ := Vcpu.issued_reaches hw
    rcases vcpuStep_status h with rfl | rfl | rfl
    · rfl
    · obtain ⟨insn', hr', hwait, -⟩ := Vcpu.Parks.of_blocked h
      have hn := decode_note hr'.decoded
      rw [hop] at hn
      unfold Insn.note at hn
      rcases hwait with ho | ho <;> rw [ho] at hn <;> cases hn
    · exact absurd rfl (vcpuStep_ne_timeout hr.quantum h)

theorem Watched.law (h : Watched phys f₀ env v e v') (hs : ¬ e.Strays) :
    EventLaw v.eventReg e v'.eventReg := by
  have hreg := h.eventReg
  have hsend : e.Sends → v'.eventReg = true := by
    intro hsd
    rw [hreg, if_pos (sends_step h hsd)]
    rcases hsd with hw | hw <;> rw [hw] <;> rfl
  have hcons : e.Consumes → v'.eventReg = false := by
    intro hc
    rw [hreg, if_pos hc.1, hc.2]
    rfl
  have hkeep : ¬ e.Sends → ¬ e.Consumes → v'.eventReg = v.eventReg := by
    intro hns hnc
    rw [hreg]
    by_cases hl : e.label = .step .ok
    · rw [if_pos hl]
      cases hw : e.word with
      | none => rfl
      | some word =>
        obtain ⟨ht, hf⟩ := wordNote_steady (fun hst => hs ⟨word, hw, hst⟩)
        show ((wordNote word).getD v.eventReg) = v.eventReg
        cases hn : wordNote word with
        | none => rfl
        | some b =>
          cases b with
          | true =>
            refine absurd ?_ hns
            unfold Move.Sends
            rw [hw]
            rcases ht.mp hn with rfl | rfl
            · exact .inl rfl
            · exact .inr rfl
          | false => exact absurd ⟨hl, by rw [hw, hf.mp hn]⟩ hnc
    · rw [if_neg hl]
      rfl
  refine ⟨fun h0 h1 => ?_, fun h1 h0 => ?_, hkeep, hsend, hcons⟩
  · by_contra hns
    by_cases hc : e.Consumes
    · rw [hcons hc] at h1
      cases h1
    · rw [hkeep hns hc, h0] at h1
      cases h1
  · by_contra hnc
    by_cases hsd : e.Sends
    · rw [hsend hsd] at h0
      cases h0
    · rw [hkeep hsd hnc, h1] at h0
      cases h0

/-- a `sev` or a `sevl`, and no completed `wfe` after it -/
def SentSince (l : List Move) : Prop := Lts.Since Move.Sends (fun e => ¬ e.Consumes) l

theorem EventLaw.apply {b b' : Bool} (h : EventLaw b e b') :
    b' = true ↔ e.Sends ∨ b = true ∧ ¬ e.Consumes := by
  constructor
  · intro hb
    by_cases hs : e.Sends
    · exact .inl hs
    · refine .inr ⟨?_, fun hc => ?_⟩
      · by_contra h0
        exact hs (h.rises (Bool.eq_false_iff.mpr h0) hb)
      · rw [h.consumes hc] at hb
        cases hb
  · rintro (hs | ⟨hb, hc⟩)
    · exact h.sends hs
    · by_contra h0
      exact hc (h.falls hb (Bool.eq_false_iff.mpr h0))

theorem run_eventReg {l : List Move} (h : Lts.Run (Watched phys f₀ env) v l v')
    (hl : ∀ e ∈ l, ¬ e.Strays) :
    v'.eventReg = true ↔ SentSince l ∨ v.eventReg = true ∧ ∀ e ∈ l, ¬ e.Consumes := by
  let I : List Move → Vcpu σ ε → Prop := fun l u => (∀ e ∈ l, ¬ e.Strays) →
    (u.eventReg = true ↔ SentSince l ∨ v.eventReg = true ∧ ∀ e ∈ l, ¬ e.Consumes)
  have hstep : ∀ l u e u', I l u → Watched phys f₀ env u e u' → I (l ++ [e]) u' := by
    intro l u e u' ih he hs
    have hlaw := he.law (hs e (by simp))
    rw [hlaw.apply, ih (fun i hi => hs i (by simp [hi]))]
    unfold SentSince
    rw [Lts.since_snoc]
    simp only [List.forall_mem_append, List.forall_mem_singleton]
    tauto
  have h0 : I [] v := fun _ => by simp [SentSince, Lts.not_since_nil]
  exact Lts.Run.history hstep h h0 hl

/-- **the event register**: in a run without stray words it moves only by `sev`, `sevl` and a
completed `wfe`, so that from a clear register a `wfe` with both pins low parks exactly when nothing
was sent since the last one that completed; and every stray word breaks this -/
theorem event_register_law (phys : Memops σ) (f₀ : MmuFault) (env : Option (EnvOps τ ε)) :
    (∀ (v v' : Vcpu σ ε) (l : List Move), Lts.Run (Watched phys f₀ env) v l v' →
      (∀ e ∈ l, ¬ e.Strays) →
      (∀ l₁ e l₂ u u', l = l₁ ++ e :: l₂ → Lts.Run (Watched phys f₀ env) v l₁ u →
        Watched phys f₀ env u e u' → EventLaw u.eventReg e u'.eventReg) ∧
      (v'.eventReg = true ↔ SentSince l ∨ v.eventReg = true ∧ ∀ e ∈ l, ¬ e.Consumes) ∧
      (v.eventReg = false → v'.issued phys = some (hintWord 2) → v'.irqLevel = false →
        v'.fiqLevel = false →
        ((∃ v'', vcpuStep phys f₀ env v' = some (.blocked, v'')) ↔ ¬ SentSince l))) ∧
    ∀ word, Stray word → ∃ b, ∀ u u' : Vcpu σ ε,
      Watched phys f₀ env u ⟨.step .ok, some word⟩ u' → u.eventReg = b →
        ¬ EventLaw u.eventReg ⟨.step .ok, some word⟩ u'.eventReg := by
  refine ⟨fun v v' l hrun hl => ⟨?_, run_eventReg hrun hl, ?_⟩, ?_⟩
  · intro l₁ e l₂ u u' hsplit _ hw
    exact hw.law (hl e (by simp [hsplit]))
  · intro h0 hi hirq hfiq
    have hreg := run_eventReg hrun hl
    rw [h0] at hreg
    obtain ⟨hword, insn, hr⟩ := Vcpu.issued_reaches hi
    have hn := decode_note hr.decoded
    rw [← hword] at hn
    have hop : insn.op = .wfe := by
      by_contra hne
      unfold Insn.note at hn
      rw [if_neg hne] at hn
      split at hn
      · exact absurd hn (by decide)
      · exact absurd hn (by decide)
    have hwakes : v'.wakes insn.op = v'.eventReg := by
      unfold Vcpu.wakes
      rw [hirq, hfiq, hop]
      rfl
    have hpark : (∃ v'', vcpuStep phys f₀ env v' = some (.blocked, v'')) ↔
        v'.eventReg = false := by
      constructor
      · rintro ⟨v'', h⟩
        obtain ⟨insn', hr', -, hs⟩ := Vcpu.Parks.of_blocked h
        have he := hr'.decoded
        rw [hr.decoded] at he
        cases he
        rw [← hwakes, hs]
      · intro hb
        exact ⟨_, vcpuStep_parks ⟨insn, hr, .inr hop, hwakes.trans hb⟩⟩
    rw [hpark, ← Bool.not_eq_true, hreg]
    simp
  · intro word hs
    rcases wordNote_stray hs with ⟨hn, h4, h5⟩ | ⟨hn, h2⟩
    · refine ⟨false, fun u u' hw hb hlaw => ?_⟩
      have hu : u'.eventReg = true := by
        rw [hw.eventReg, if_pos rfl, Option.bind_some, hn]
        rfl
      rcases hlaw.rises hb hu with hc | hc
      · exact h4 (Option.some.inj hc)
      · exact h5 (Option.some.inj hc)
    · refine ⟨true, fun u u' hw hb hlaw => ?_⟩
      have hu : u'.eventReg = false := by
        rw [hw.eventReg, if_pos rfl, Option.bind_some, hn]
        rfl
      exact h2 (Option.some.inj (hlaw.falls hb hu).2)

/-- a core before `sev`, `wfe`, `wfe` -/
def eventVcpu : Vcpu Memory Unit :=
  Vcpu.init (programMemory [0xD503209F, 0xD503205F, 0xD503205F]) () .el1 0x1000 0x8000 10

/-- the first wait takes the event and the second parks -/
theorem event_register_sev : ∃ v' : Vcpu Memory Unit,
    Lts.Run (Watched Memory.memops ⟨0, 0⟩ (none : Option (EnvOps Memory Unit))) eventVcpu
      [⟨.step .ok, some 0xD503209F⟩, ⟨.step .ok, some 0xD503205F⟩] eventVcpu.stepped.stepped ∧
    vcpuStep Memory.memops ⟨0, 0⟩ (none : Option (EnvOps Memory Unit))
      eventVcpu.stepped.stepped = some (.blocked, v') := by
  have hrun : Lts.Run (Watched Memory.memops ⟨0, 0⟩ (none : Option (EnvOps Memory Unit)))
      eventVcpu [⟨.step .ok, some 0xD503209F⟩, ⟨.step .ok, some 0xD503205F⟩]
      eventVcpu.stepped.stepped :=
    .cons (.of_step rfl (by decide +kernel)) (.cons (.of_step rfl (by decide +kernel)) (.nil _))
  have hclean : ∀ e ∈ [(⟨.step .ok, some 0xD503209F⟩ : Move), ⟨.step .ok, some 0xD503205F⟩],
      ¬ e.Strays := by
    rintro e he ⟨word, hw, hs⟩
    simp only [List.mem_cons, List.not_mem_nil, or_false] at he
    rcases he with rfl | rfl <;> cases hw <;> revert hs <;> decide
  have hpark := ((event_register_law Memory.memops ⟨0, 0⟩ none).1 _ _ _ hrun hclean).2.2
    rfl (by decide +kernel) rfl rfl
  obtain ⟨v', h⟩ := hpark.mpr (by
    intro hs
    rcases Lts.since_snoc.mp (show Lts.Since _ _ ([_] ++ [_]) from hs) with hs | ⟨-, hs⟩
    · rcases hs with hs | hs <;> exact absurd (Option.some.inj hs) (by decide)
    · exact hs ⟨rfl, by decide⟩)
  exact ⟨v', hrun, h⟩

/-- `prfum pldl1keep, [x0, #4]` sets the register, though it is no `sev` and no `sevl` -/
theorem prefetch_wakes :
    (codeVcpu 0xF8804000 .el1 0).eventReg = false ∧
      ∃ v', Watched Memory.memops ⟨0, 0⟩ (none : Option (EnvOps Memory Unit))
          (codeVcpu 0xF8804000 .el1 0) ⟨.step .ok, some 0xF8804000⟩ v' ∧
        v'.eventReg = true ∧ ¬ EventLaw false ⟨.step .ok, some 0xF8804000⟩ v'.eventReg := by
  have hw : Watched Memory.memops ⟨0, 0⟩ (none : Option (EnvOps Memory Unit))
      (codeVcpu 0xF8804000 .el1 0) ⟨.step .ok, some 0xF8804000⟩
      (codeVcpu 0xF8804000 .el1 0).stepped := .of_step rfl (by decide +kernel)
  have hset : (codeVcpu 0xF8804000 .el1 0).stepped.eventReg = true := by decide +kernel
  refine ⟨rfl, _, hw, hset, ?_⟩
  intro h
  rcases h.rises rfl hset with hs | hs
  · exact absurd (Option.some.inj hs) (by decide)
  · exact absurd (Option.some.inj hs) (by decide)

end Oemu
