import Oemu.Process.Text
import Oemu.Exec.Panic

/-!
# How a process ends

A process runs until it asks for its exit, an instruction fails, or the budget is spent; the exit
status of the emulator says which, and the emulator never gives up on the way.

* `Sysenv.syscall_extends`   a system call only adds to the output;
* `step_env`                 a step sets the exit flag exactly when it is an exit call;
* `runGuest_iff`             a run is its instructions;
* `process_exit`             the three ways to end, and that there is no other.
-/

namespace Oemu

/-! ## the output -/

theorem HostFile.fwrite_grows (f : HostFile) (bytes : List (BitVec 8)) :
    f.written <+: (f.fwrite bytes).2.written := by
  unfold fwrite
  split
  · exact List.prefix_append _ _
  · exact List.prefix_append _ _

namespace Sysenv

variable {σ : Type}

theorem writeTurn_grows (mem : Memops σ) (buf : W64) (count : Nat) (c : Copy σ) :
    (∀ r, writeTurn mem buf count c = .inl r → c.file.written <+: r.2.2.written) ∧
      ∀ c', writeTurn mem buf count c = .inr c' → c.file.written <+: c'.file.written := by
  unfold writeTurn
  split
  · dsimp only
    rcases readChunk mem (buf + BitVec.ofNat 64 c.written) 0 (min (count - c.written) chunkSize)
      c.bus with ⟨chunk, s⟩
    cases chunk with
    | none => exact ⟨fun r hr => Sum.inl.inj hr ▸ List.prefix_rfl, nofun⟩
    | some chunk =>
      have hf := c.file.fwrite_grows chunk
      dsimp only
      split
      · exact ⟨fun r hr => Sum.inl.inj hr ▸ hf, nofun⟩
      · exact ⟨nofun, fun c' hc => Sum.inr.inj hc ▸ hf⟩
  · exact ⟨fun r hr => Sum.inl.inj hr ▸ List.prefix_rfl, nofun⟩

theorem writeLoop_grows (mem : Memops σ) (buf : W64) (count : Nat) (c : Copy σ) :
    c.file.written <+: (writeLoop mem buf count c).2.2.written := by
  have hvisits : ∀ c', Consume.Visits (writeTurn mem buf count) c c' →
      c.file.written <+: c'.file.written := by
    intro c' hv
    induction hv with
    | refl => exact List.prefix_rfl
    | tail _ ht ih => exact ih.trans ((writeTurn_grows mem buf count _).2 _ ht)
  obtain ⟨c', r, hv, hret, hloop⟩ :=
    @Consume.loop_ends _ _ _ (0, c.bus, c.file) _ (writeTurn_shrinks mem buf count) c
  unfold writeLoop
  rw [hloop]
  exact (hvisits c' hv).trans ((writeTurn_grows mem buf count c').1 r hret)

theorem stream_setStream (env : Sysenv) (f : HostFile) : (env.setStream f).stream = f := by
  unfold setStream stream
  cases env.out <;> rfl

theorem exited_setStream (env : Sysenv) (f : HostFile) :
    (env.setStream f).exited = env.exited := by
  unfold setStream
  split <;> rfl

/-- what a call does to its environment -/
structure Extends (env env' : Sysenv) : Prop where
  output : env.stream.written <+: env'.stream.written
  exited : env'.exited = env.exited

theorem Extends.refl (env : Sysenv) : Extends env env := ⟨List.prefix_rfl, rfl⟩

theorem sysWrite_extends (mem : Option (Memops σ)) (fd buf count : W64) (s : σ) (env : Sysenv) :
    Extends env (sysWrite mem fd buf count s env).2.2 := by
  unfold sysWrite
  split
  · exact .refl env
  · split
    · exact .refl env
    · cases mem with
      | none => exact .refl env
      | some mem =>
        dsimp only
        split
        · exact .refl env
        · rcases mem.validate s buf count permRead with ⟨st, s₁⟩
          cases st <;> try exact .refl env
          constructor
          · show _ <+: (setStream _ _).stream.written
            rw [stream_setStream]
            exact writeLoop_grows mem buf count.toNat ⟨s₁, env.stream, 0⟩
          · exact exited_setStream _ _

/-- **a system call only adds to the output**, and only an exit call ends the guest, with the low
word of its argument -/
theorem syscall_extends (clock : W64 → Option (W64 × W64)) (mem : Option (Memops σ)) (nr : W64)
    (args : Fin 6 → W64) (s : σ) (env : Sysenv) :
    env.stream.written <+: (syscall clock mem nr args s env).2.2.stream.written ∧
      ((nr = 93 ∨ nr = 94) → (syscall clock mem nr args s env).2.2.exited = true ∧
        (syscall clock mem nr args s env).2.2.exitCode = (args 0).setWidth 32) ∧
      (¬ (nr = 93 ∨ nr = 94) → (syscall clock mem nr args s env).2.2.exited = env.exited) := by
  by_cases hnr : nr = 93 ∨ nr = 94
  · have hcall : syscall clock mem nr args s env =
        (0, s, { env with exitCode := (args 0).setWidth 32, exited := true }) := by
      rcases hnr with rfl | rfl <;> rfl
    rw [hcall]
    exact ⟨List.prefix_rfl, fun _ => ⟨rfl, rfl⟩, fun h => absurd hnr h⟩
  · have hcall : Extends env (syscall clock mem nr args s env).2.2 := by
      unfold syscall
      split
      · rename_i h
        exact absurd (.inl (BitVec.eq_of_toNat_eq h)) hnr
      · rename_i h
        exact absurd (.inr (BitVec.eq_of_toNat_eq h)) hnr
      · exact sysWrite_extends mem _ _ _ s env
      · exact .refl env
      · exact .refl env
    exact ⟨hcall.output, fun h => absurd h hnr, fun _ => hcall.exited⟩

end Sysenv

namespace Process

open Elf

/-! ## one instruction -/

/-- one instruction of a guest -/
def Host.step (h : Host) : Guest → Option (Status × Guest) :=
  execStep Memory.memops (some (Sysenv.envops h.clock))

/-- has the guest asked for its exit -/
def halted (g : Guest) : Bool := g.2.2.exited

/-- the word at the program counter is a supervisor call, and the number it passes is that of an
exit -/
def Exits (g : Guest) : Prop :=
  (∃ insn, decode (g.2.1.fetch32 g.1.regs.pc).2 g.1.regs.pc = .ok insn ∧ insn.op = .svc) ∧
    (g.1.regs.read 8 .w64 = 93 ∨ g.1.regs.read 8 .w64 = 94)

theorem step_env {h : Host} {g g' : Guest} {st : Status} (hstep : h.step g = some (st, g'))
    (hrun : halted g = false) :
    g.2.2.stream.written <+: g'.2.2.stream.written ∧
      (halted g' = true ↔ st = .ok ∧ Exits g) ∧
      (halted g' = true → g'.2.2.code = (g.1.regs.read 0 .w64).setWidth 32) := by
  unfold Host.step execStep at hstep
  obtain ⟨⟨res, s'⟩, hexec, heq⟩ := Option.map_eq_some_iff.mp hstep
  obtain ⟨rfl, rfl⟩ := Prod.mk.inj heq
  have hsame : s'.2 = g.2.2 → ¬ (res.1 = .ok ∧ Exits g) →
      g.2.2.stream.written <+: s'.2.stream.written ∧
        (s'.2.exited = true ↔ res.1 = .ok ∧ Exits g) ∧
        (s'.2.exited = true → s'.2.code = (g.1.regs.read 0 .w64).setWidth 32) := by
    intro henv hno
    have hex : ¬ s'.2.exited = true := by
      rw [henv]
      exact Bool.eq_false_iff.mp hrun
    exact ⟨henv ▸ List.prefix_rfl, iff_of_false hex hno, fun h => absurd h hex⟩
  rcases execStepBus_run hexec with ⟨-, hs', hwhy⟩ | ⟨insn, hdec, hd⟩
  · refine hsame (congrArg Prod.snd hs') ?_
    rintro ⟨hok, ⟨insn, hdec, -⟩, -⟩
    rcases hwhy with hne | ⟨st, herr⟩
    · exact hne hok
    · exact nomatch hdec.symm.trans herr
  · by_cases hop : insn.op = .svc
    · unfold dispatchBus at hd
      rw [if_pos hop] at hd
      obtain ⟨hres, henv⟩ := Prod.mk.inj (Option.some.inj hd)
      have hok : res.1 = .ok := by
        rw [← hres]
        rfl
      have henv' : s'.2 = (Sysenv.syscall h.clock (some Memory.memops) (g.1.regs.read 8 .w64)
          (fun i => g.1.regs.read (BitVec.ofNat 5 i) .w64)
          (Memory.memops.fetch32 g.2.1 g.1.regs.pc).2.2 g.2.2).2.2 := (congrArg Prod.snd henv).symm
      obtain ⟨hout, hexit, hother⟩ := Sysenv.syscall_extends h.clock (some Memory.memops)
        (g.1.regs.read 8 .w64) (fun i => g.1.regs.read (BitVec.ofNat 5 i) .w64)
        (Memory.memops.fetch32 g.2.1 g.1.regs.pc).2.2 g.2.2
      rw [← henv'] at hout hexit hother
      have hcall : s'.2.exited = true → g.1.regs.read 8 .w64 = 93 ∨ g.1.regs.read 8 .w64 = 94 := by
        intro hhalt
        by_contra hnr
        rw [hother hnr, show g.2.2.exited = false from hrun] at hhalt
        cases hhalt
      refine ⟨hout, ⟨fun hh => ⟨hok, ⟨insn, hdec, hop⟩, hcall hh⟩, fun hx => (hexit hx.2.2).1⟩, ?_⟩
      intro hh
      show (if s'.2.exited = true then s'.2.exitCode else 0) = _
      rw [if_pos (show s'.2.exited = true from hh)]
      exact (hexit (hcall hh)).2
    · unfold dispatchBus at hd
      rw [if_neg hop] at hd
      obtain ⟨p, -, hp⟩ := Option.map_eq_some_iff.mp hd
      refine hsame (congrArg Prod.snd (Prod.mk.inj hp).2).symm ?_
      rintro ⟨-, ⟨insn', hdec', hop'⟩, -⟩
      obtain rfl := Except.ok.inj (hdec.symm.trans hdec')
      exact hop hop'

/-! ## the run -/

/-- how a guest ends, with what budget, exit status and state -/
inductive Ends (h : Host) (g₀ : Guest) (max : Nat) : W32 → Guest → Prop
  /-- it asks for its exit, and the low byte of what it passes is the status -/
  | exit {n : Nat} {u g : Guest} (hn : n < max) (hsteps : Budget.Oks h.step halted .ok n g₀ u)
      (hrun : halted u = false) (hstep : h.step u = some (.ok, g)) (hx : Exits u) :
      Ends h g₀ max ((u.1.regs.read 0 .w64).setWidth 32 &&& 0xFF) g
  /-- the budget is spent -/
  | timeout {g : Guest} (hsteps : Budget.Oks h.step halted .ok max g₀ g)
      (hrun : halted g = false) : Ends h g₀ max exitTimeout g
  /-- an instruction fails -/
  | error {n : Nat} {u g : Guest} {st : Status} (hn : n < max)
      (hsteps : Budget.Oks h.step halted .ok n g₀ u) (hrun : halted u = false)
      (hstep : h.step u = some (st, g)) (hst : st ≠ .ok) : Ends h g₀ max exitError g

theorem runGuest_eq (h : Host) (maxInsns : W64) (g₀ : Guest) :
    runGuest h maxInsns g₀ =
      (Budget.after h.step halted .ok .timeout maxInsns.toNat 0 g₀).map fun r =>
        (exitStatus r.1 r.2.2.2.2, some r.2.2) := rfl

/-- **a run is its instructions** -/
theorem runGuest_iff {h : Host} {maxInsns : W64} {g₀ g : Guest} {code : W32}
    (h0 : halted g₀ = false) :
    runGuest h maxInsns g₀ = some (code, some g) ↔ Ends h g₀ maxInsns.toNat code g := by
  have hstatus : ∀ {st : Status} {u g : Guest}, h.step u = some (st, g) → st ≠ .timeout := by
    intro st u g hstep
    obtain ⟨q, hq, heq⟩ := Option.map_eq_some_iff.mp hstep
    rw [← (Prod.mk.inj heq).1]
    exact execStepBus_ne_timeout fetch32_ne_timeout_memory
      (show _ = some (q.1, q.2) from hq)
  have hcode : ∀ {st : Status} {g : Guest}, halted g = true →
      exitStatus st g.2.2 = g.2.2.code &&& 0xFF := fun hg => if_pos hg
  have hlive : ∀ {st : Status} {g : Guest}, halted g = false →
      exitStatus st g.2.2 = if st = .timeout then exitTimeout else exitError := fun {_ g} hg =>
    if_neg (show ¬ g.2.2.exited = true by rw [show g.2.2.exited = false from hg]; decide)
  rw [runGuest_eq, Option.map_eq_some_iff]
  constructor
  · rintro ⟨⟨st, done, g'⟩, hafter, heq⟩
    obtain ⟨hst, hg⟩ := Prod.mk.inj heq
    obtain rfl := Option.some.inj hg
    cases (Budget.after_iff h0).mp hafter with
    | spent hsteps hrun =>
      rw [← hst, hlive hrun, if_pos rfl]
      exact .timeout hsteps hrun
    | halt hk hsteps hrun hstep hhalt =>
      obtain ⟨-, hiff, hval⟩ := step_env hstep hrun
      rw [← hst, hcode hhalt, hval hhalt]
      exact .exit hk hsteps hrun hstep (hiff.mp hhalt).2
    | refused hk hsteps hrun hstep hne =>
      obtain ⟨-, hiff, -⟩ := step_env hstep hrun
      have hlast : halted g' = false :=
        Bool.eq_false_of_not_eq_true fun hhalt => hne (hiff.mp hhalt).1
      rw [← hst, hlive hlast, if_neg (hstatus hstep)]
      exact .error hk hsteps hrun hstep hne
  · intro hends
    cases hends with
    | @exit n u _ hn hsteps hrun hstep hx =>
      obtain ⟨-, hiff, hval⟩ := step_env hstep hrun
      have hhalt := hiff.mpr ⟨rfl, hx⟩
      refine ⟨_, (Budget.after_iff h0).mpr (.halt hn hsteps hrun hstep hhalt), ?_⟩
      rw [hcode hhalt, hval hhalt]
    | timeout hsteps hrun =>
      refine ⟨_, (Budget.after_iff h0).mpr (.spent hsteps hrun), ?_⟩
      rw [hlive hrun, if_pos rfl]
    | error hn hsteps hrun hstep hst =>
      obtain ⟨-, hiff, -⟩ := step_env hstep hrun
      have hlast : halted g = false :=
        Bool.eq_false_of_not_eq_true fun hhalt => hst (hiff.mp hhalt).1
      refine ⟨_, (Budget.after_iff h0).mpr (.refused hn hsteps hrun hstep hst), ?_⟩
      rw [hlive hlast, if_neg (hstatus hstep)]

theorem oks_output {h : Host} {n : Nat} {g₀ g : Guest}
    (hsteps : Budget.Oks h.step halted .ok n g₀ g) :
    g₀.2.2.stream.written <+: g.2.2.stream.written := by
  induction hsteps with
  | nil => exact List.prefix_rfl
  | cons hrun hstep _ ih => exact (step_env hstep hrun).1.trans ih

theorem Ends.output {h : Host} {g₀ g : Guest} {max : Nat} {code : W32}
    (hends : Ends h g₀ max code g) :
    g₀.2.2.stream.written <+: g.2.2.stream.written := by
  cases hends with
  | exit _ hu hrun hstep => exact (oks_output hu).trans (step_env hstep hrun).1
  | timeout hu => exact oks_output hu
  | error _ hu hrun hstep => exact (oks_output hu).trans (step_env hstep hrun).1

/-! ## nothing else happens -/

theorem start_total (h : Host) (img : Image) : ∃ g, start h img = some g := by
  unfold start
  cases h.table with
  | false => exact ⟨none, rfl⟩
  | true =>
    have hok : Memory.Ok ⟨[], regionCapacity, h.heap⟩ := .nil _
    obtain ⟨hgo, hstop⟩ := @load_eq img ⟨[], regionCapacity, h.heap⟩ h.segments hok
      (show regionCapacity < 2 ^ 32 by decide) h.loader
    have hload : ∃ p, load ⟨[], regionCapacity, h.heap⟩ img h.loader h.segments = some p := by
      by_cases hl : img.Loadable ∧ Room ⟨[], regionCapacity, h.heap⟩ img ∧ h.loader = true
      · obtain ⟨hl, hr, ht⟩ := hl
        obtain ⟨st, mem', lo, hi, -, hrun, -⟩ := @mapSegments_stops img _ h.segments _
          (loads_sound hl.good) (loads_pairwise.mpr hl.disjoint) hok
          (by rw [List.length_map]; exact hr) 0 (BitVec.allOnes 64) 0
        rw [hgo hl hr ht]
        unfold commit
        rw [hrun]
        cases st <;> exact ⟨_, rfl⟩
      · obtain ⟨st, -, hrun⟩ := hstop hl
        exact ⟨_, hrun⟩
    obtain ⟨p, hp⟩ := hload
    exact ⟨place h p, by
      show (load _ img h.loader h.segments).map _ = _
      rw [hp]
      rfl⟩

theorem step_total {h : Host} {g : Guest} (hg : g.2.1.Ok) :
    ∃ p, h.step g = some p ∧ p.2.2.1.Ok := by
  obtain ⟨p, hp⟩ := execStepBus_total Memory.firm (fun _ _ => trivial)
    (some (Sysenv.envops h.clock)) g.1 (s := g.2) hg
  refine ⟨(p.1.1, p.1.2, p.2), by unfold Host.step execStep; rw [hp]; rfl, ?_⟩
  have hkeep := execStepBus_keeps Memory.firm.toKeeps
    (Sysenv.envops_keeps Memory.firm.toKeeps h.clock) (show _ = some (p.1, p.2) from hp)
  exact (hkeep hg).1

theorem runGuest_total {h : Host} {maxInsns : W64} {g : Guest} (hg : g.2.1.Ok) :
    ∃ r, runGuest h maxInsns g = some r := by
  rw [runGuest_eq]
  obtain ⟨q, hq⟩ := Budget.after_total (I := fun g : Guest => g.2.1.Ok) (fun g hg => step_total hg)
    maxInsns.toNat 0 g hg
  exact ⟨_, by rw [hq]; rfl⟩

/-- **how a process ends**: the emulator always answers, with status 1 for a file that does not
start, and otherwise as the instructions of the guest say; the output of the host is only added
to -/
theorem process_exit (h : Host) (img : Image) (failed : Bool) (maxInsns : W64)
    (hfile : h.file = some ⟨img.bytes, failed⟩) (hfresh : h.Fresh img) :
    (∃ r, runProcess h maxInsns = some r) ∧
      (∀ code, runProcess h maxInsns = some (code, none) → code = exitError) ∧
      ∀ code g, runProcess h maxInsns = some (code, some g) ↔
        (∃ buf, readFile h ByteBuffer.empty = some (true, buf)) ∧
          ∃ g₀, start h img = some (some g₀) ∧ Ends h g₀ maxInsns.toNat code g ∧
            h.stdout.written <+: g.2.2.stream.written := by
  obtain ⟨b, buf, hread, hok⟩ := readFile_spec h
  cases b with
  | false =>
    have hrun : runProcess h maxInsns = some (exitError, none) := by
      unfold runProcess
      rw [hread]
      rfl
    rw [hrun]
    refine ⟨⟨_, rfl⟩, fun code hc => ?_, fun code g => iff_of_false nofun ?_⟩
    · exact (Prod.mk.inj (Option.some.inj hc)).1.symm
    · rintro ⟨⟨buf', hread'⟩, -⟩
      rw [hread] at hread'
      cases hread'
  | true =>
    have himg : imageOf buf = img := by
      obtain ⟨f, hf, hcont⟩ := hok rfl
      rw [hfile] at hf
      obtain rfl := Option.some.inj hf
      unfold imageOf
      obtain ⟨bytes, hfits⟩ := img
      congr
    obtain ⟨st, hstart⟩ := start_total h img
    unfold runProcess
    rw [hread, Option.bind_some, if_pos rfl, himg, hstart, Option.bind_some]
    cases st with
    | none =>
      refine ⟨⟨_, rfl⟩, fun code hc => ?_, fun code g => iff_of_false nofun ?_⟩
      · exact (Prod.mk.inj (Option.some.inj hc)).1.symm
      · rintro ⟨-, g₀, hg, -⟩
        cases hg
    | some g₀ =>
      obtain ⟨base, hs⟩ := started_of_start hfresh hstart
      have h0 : halted g₀ = false := by
        unfold halted
        rw [hs.env]
        rfl
      refine ⟨runGuest_total hs.ok, fun code hc => ?_, fun code g => ?_⟩
      · obtain ⟨r, -, hr⟩ := Option.map_eq_some_iff.mp ((runGuest_eq h maxInsns g₀).symm.trans hc)
        cases (Prod.mk.inj hr).2
      · rw [runGuest_iff h0]
        constructor
        · intro hends
          have hout := hends.output
          rw [hs.env] at hout
          exact ⟨⟨buf, rfl⟩, g₀, rfl, hends, hout⟩
        · rintro ⟨-, g₁, hg₁, hends, -⟩
          obtain rfl := Option.some.inj (Option.some.inj hg₁)
          exact hends

/-- the process above asks for its exit, at its third instruction -/
theorem process_exit_seven :
    ∃ g₀ g, start exitHost exitImage = some (some g₀) ∧ Ends exitHost g₀ 3 7 g := by
  obtain ⟨g, hrun⟩ := exitHost_run
  obtain ⟨-, g₀, hstart, hends, -⟩ :=
    ((process_exit exitHost exitImage false 3 rfl exitHost_fresh).2.2 7 g).mp hrun
  exact ⟨g₀, g, hstart, hends⟩

end Process

end Oemu
