import Oemu.Exec.Checked
import Oemu.Exec.Outcome
import Oemu.Exec.Sim

/-!
# The executor is total on what the decoder accepts

Both dispatches, on an instruction the decoder accepted: no shift is undefined, no request to the bus
has another size than one, two, four or eight bytes, and neither `DECODE` nor `INVALID_ARG` comes
back.  That a size is never asked for is said by two buses that differ there only: the executor cannot
tell them apart.  The one probe of another size is that of `DC ZVA`, for a cache line of 64 bytes.

* `decode_total`        what the decoder accepts, both dispatches execute;
* `dcZva_probes_line`   the probe of 64 bytes.
-/

namespace Oemu

variable {σ ε τ : Type}

/-! ## statuses -/

section

variable {insn : Insn} (hwf : insn.WellFormed)
include hwf

theorem dataProcessing_ok {r : Regs} {res : Status × Regs} (h : dataProcessing r insn = some res) :
    res.1 = .ok := by
  have hb : (doBitfield r insn).1 = .ok := by
    unfold doBitfield
    dsimp only
    rw [if_neg (by rw [not_or, not_le, not_le]; exact ⟨hwf.amount, hwf.position⟩)]
  unfold dataProcessing at h
  cases hop : insn.op <;> rw [hop] at h <;> cases h <;> first | rfl | exact hb

theorem dispatchPure_status (cpu : Cpu) :
    (dispatchPure cpu insn).1 = .ok ∨ (dispatchPure cpu insn).1 = .unsupported ∨
      (dispatchPure cpu insn).1 = .fault := by
  by_cases hst : (dispatchPure cpu insn).1 = .ok
  · exact .inl hst
  · refine .inr ?_
    unfold dispatchPure at hst ⊢
    cases hd : dataProcessing cpu.regs insn with
    | some res =>
      rw [hd] at hst
      dsimp only at hst
      rw [fallThrough_refused hst] at hst
      exact absurd (dataProcessing_ok hwf hd) hst
    | none =>
      rw [hd] at hst
      dsimp only at hst ⊢
      cases hop : insn.op <;> rw [hop] at hst <;> dsimp only at hst ⊢ <;>
        first
        | exact absurd hop hwf.known
        | exact absurd (branchTo_ok _ _ _ _) hst
        | exact absurd rfl hst
        | exact .inl rfl
        | exact .inr rfl
        | skip
      case mrs =>
        rw [fallThrough_move (doMrs_cases cpu insn) hst]
        exact .inl rfl
      case msr =>
        rw [fallThrough_move (doMsr_cases cpu insn) hst]
        exact .inl rfl
      case msrImm =>
        rw [fallThrough_move (doMsr_cases cpu insn) hst]
        exact .inl rfl

theorem dispatchShared_status {mem : Memops σ} {cpu : Cpu} {s s' : σ} {res : Status × Cpu}
    (h : dispatchShared mem cpu insn s = some (res, s')) :
    res.1 = .ok ∨ res.1 = .unsupported ∨ res.1 = .fault := by
  rcases dispatchShared_run h with ⟨-, hr, -⟩ | ⟨t, -, hr, -⟩ | ⟨t, s₁, vs, hp, -, -, hr⟩
  · rw [hr]
    exact dispatchPure_status hwf cpu
  · rw [hr]
    exact .inr (.inr rfl)
  · rw [hr]
    left
    unfold fallThrough
    rw [if_neg (not_not_intro (memPlan_commit hp vs))]

end

/-! ## two buses that differ elsewhere -/

/-- requests of the sizes in question are answered the same -/
structure SameOn (P : W64 → Prop) (mem mem' : Memops σ) : Prop where
  read : ∀ s a n sx, P (MemSize.count n) → mem.read s a n sx = mem'.read s a n sx
  write : ∀ s a n v, P (MemSize.count n) → mem.write s a n v = mem'.write s a n v
  validate : ∀ s a n q, P n → mem.validate s a n q = mem'.validate s a n q

theorem SameOn.mono {P Q : W64 → Prop} {mem mem' : Memops σ} (h : SameOn Q mem mem')
    (hPQ : ∀ n, P n → Q n) : SameOn P mem mem' where
  read s a n sx hn := h.read s a n sx (hPQ _ hn)
  write s a n v hn := h.write s a n v (hPQ _ hn)
  validate s a n q hn := h.validate s a n q (hPQ _ hn)

theorem SameOn.sim {P : W64 → Prop} {mem mem' : Memops σ} (h : SameOn P mem mem') :
    BusSim P Eq mem mem' where
  readOk := by
    rintro s _ rfl a n sx hn
    rw [h.read s a n sx hn]
  read := by
    rintro s _ rfl a n sx hn -
    rw [h.read s a n sx hn]
    exact ⟨rfl, rfl⟩
  writeOk := by
    rintro s _ rfl a n v hn
    rw [h.write s a n v hn]
  write := by
    rintro s _ rfl a n v hn -
    rw [h.write s a n v hn]
  validateOk := by
    rintro s _ rfl a n q hn
    rw [h.validate s a n q hn]
  validate := by
    rintro s _ rfl a n q hn
    rw [h.validate s a n q hn]

section

variable {insn : Insn} (hwf : insn.WellFormed)
include hwf

theorem dispatchShared_congr {mem mem' : Memops σ} (h : SameOn BusSize mem mem') (cpu : Cpu) :
    dispatchShared mem cpu insn = dispatchShared mem' cpu insn := by
  funext s
  have hrel := dispatchShared_sim h.sim hwf cpu (rfl : s = s)
  generalize dispatchShared mem cpu insn s = x at hrel ⊢
  generalize dispatchShared mem' cpu insn s = y at hrel ⊢
  cases hrel with
  | none => rfl
  | some hpq => exact congrArg some (Prod.ext hpq.1 hpq.2)

theorem dispatchBus_congr {mem mem' : Memops σ} (h : SameOn BusSize mem mem')
    {env : Option (EnvOps σ ε)}
    (henv : ∀ f, env.bind (·.syscall) = some f → f mem = f mem') (cpu : Cpu) :
    dispatchBus mem env cpu insn = dispatchBus mem' env cpu insn := by
  unfold dispatchBus
  rw [dispatchShared_congr hwf h cpu]
  have hsvc : doSvc env mem cpu = doSvc env mem' cpu := by
    unfold doSvc
    cases he : env.bind (·.syscall) with
    | none => rfl
    | some f =>
      dsimp only
      rw [henv f he]
  rw [hsvc]

end

/-- the line probe of `DC ZVA` -/
def Insn.IsDcZva (insn : Insn) : Prop := insn.op = .sys ∧ sysAction insn.sel = .dcZva

def SystemSize (insn : Insn) (n : W64) : Prop := BusSize n ∨ insn.IsDcZva ∧ n = cacheLine

theorem doDcZva_congr {mem mem' : Memops (MmuWorld σ)} {insn : Insn} (hz : insn.IsDcZva)
    (h : SameOn (SystemSize insn) mem mem') (cpu : Cpu) (sr : Sysregs) :
    doDcZva mem cpu sr insn = doDcZva mem' cpu sr insn := by
  have hline : ∀ a, busValidate mem a cacheLine permWrite = busValidate mem' a cacheLine permWrite := by
    intro a
    unfold busValidate
    congr 1
    funext s
    exact h.validate s a cacheLine permWrite (.inr ⟨hz, rfl⟩)
  have hwrite : ∀ a, busWrite mem a .dword 0 = busWrite mem' a .dword 0 := by
    intro a
    unfold busWrite
    congr 2
    funext s
    exact h.write s a .dword 0 (.inl busSize_eight)
  unfold doDcZva zeroLine
  simp only [hline, hwrite]

theorem doSys_congr {mem mem' : Memops (MmuWorld σ)} {insn : Insn} (hop : insn.op = .sys)
    (h : SameOn (SystemSize insn) mem mem') (phys : Memops σ) (cpu : Cpu) (sr : Sysregs)
    (word : W32) : doSys mem phys cpu sr insn word = doSys mem' phys cpu sr insn word := by
  unfold doSys
  cases ha : sysAction insn.sel <;> dsimp only
  exact doDcZva_congr ⟨hop, ha⟩ h cpu sr

theorem dispatchSystem_congr {mem mem' : Memops (MmuWorld σ)} {insn : Insn} (hwf : insn.WellFormed)
    (h : SameOn (SystemSize insn) mem mem') (phys : Memops σ) (env : Option (EnvOps τ ε)) (cpu : Cpu)
    (sr : Sysregs) (word : W32) :
    dispatchSystem mem phys env cpu sr insn word =
      dispatchSystem mem' phys env cpu sr insn word := by
  have hguest : dispatchGuest mem cpu sr insn word = dispatchGuest mem' cpu sr insn word := by
    unfold dispatchGuest
    rw [dispatchShared_congr hwf (h.mono fun _ hn => .inl hn) cpu]
  unfold dispatchSystem
  cases hop : insn.op <;> dsimp only
  case sys => rw [doSys_congr hop h]
  all_goals rw [hguest]

/-! ## both dispatches -/

/-- an instruction the user-mode dispatch executes -/
structure Insn.BusTotal (insn : Insn) : Prop where
  defined : ∀ {σ ε : Type} (mem : Memops σ) (env : Option (EnvOps σ ε)) (cpu : Cpu),
    cDispatchBus mem env cpu insn = some (dispatchBus mem env cpu insn)
  sized : ∀ {σ ε : Type} (mem mem' : Memops σ) (env : Option (EnvOps σ ε)) (cpu : Cpu),
    SameOn BusSize mem mem' → (∀ f, env.bind (·.syscall) = some f → f mem = f mem') →
      dispatchBus mem env cpu insn = dispatchBus mem' env cpu insn
  status : ∀ {σ ε : Type} (mem : Memops σ) (env : Option (EnvOps σ ε)) (cpu : Cpu) (s : σ × ε)
    (res : Status × Cpu) (s' : σ × ε), dispatchBus mem env cpu insn s = some (res, s') →
      res.1 ≠ .decode ∧ res.1 ≠ .invalidArg

/-- an instruction the system dispatch executes -/
structure Insn.SystemTotal (insn : Insn) : Prop where
  defined : ∀ {σ ε τ : Type} (mem : Memops (MmuWorld σ)) (phys : Memops σ)
    (env : Option (EnvOps τ ε)) (cpu : Cpu) (sr : Sysregs) (word : W32),
    cDispatchSystem mem phys env cpu sr insn word =
      some (dispatchSystem mem phys env cpu sr insn word)
  sized : ∀ {σ ε τ : Type} (mem mem' : Memops (MmuWorld σ)) (phys : Memops σ)
    (env : Option (EnvOps τ ε)) (cpu : Cpu) (sr : Sysregs) (word : W32),
    SameOn (SystemSize insn) mem mem' →
      dispatchSystem mem phys env cpu sr insn word = dispatchSystem mem' phys env cpu sr insn word
  status : ∀ {σ ε τ : Type} (mem : Memops (MmuWorld σ)) (phys : Memops σ)
    (env : Option (EnvOps τ ε)) (cpu : Cpu) (sr : Sysregs) (word : W32) (s : MmuWorld σ × ε)
    (res : Status × Cpu × Sysregs) (s' : MmuWorld σ × ε),
    dispatchSystem mem phys env cpu sr insn word s = some (res, s') →
      res.1 ≠ .decode ∧ res.1 ≠ .invalidArg

theorem answered {st : Status} (h : st = .ok ∨ st = .unsupported ∨ st = .fault) :
    st ≠ .decode ∧ st ≠ .invalidArg := by
  rcases h with rfl | rfl | rfl <;> decide

theorem Insn.WellFormed.busTotal {insn : Insn} (hwf : insn.WellFormed) : insn.BusTotal where
  defined mem env cpu := cDispatchBus_eq hwf mem env cpu
  sized mem mem' env cpu h henv := dispatchBus_congr hwf h henv cpu
  status mem env cpu s res s' h := by
    by_cases hst : res.1 = .ok
    · exact answered (.inl hst)
    · unfold dispatchBus at h
      by_cases hop : insn.op = .svc
      · rw [if_pos hop] at h
        have e : (fallThrough <$> doSvc env mem cpu) s =
            (doSvc env mem cpu s).bind fun p => some (fallThrough p.1, p.2) := rfl
        rw [e] at h
        unfold doSvc at h
        cases he : env.bind (·.syscall) with
        | none =>
          rw [he] at h
          cases h
          exact answered (.inr (.inl rfl))
        | some f =>
          rw [he] at h
          cases h
          exact absurd rfl hst
      · rw [if_neg hop] at h
        unfold onBus at h
        cases hd : dispatchShared mem cpu insn s.1 with
        | none =>
          rw [hd] at h
          cases h
        | some q =>
          rw [hd] at h
          cases h
          exact answered (dispatchShared_status hwf (show _ = some (q.1, q.2) from hd))

theorem Insn.WellFormed.systemTotal {insn : Insn} (hwf : insn.WellFormed) : insn.SystemTotal where
  defined mem phys env cpu sr word := cDispatchSystem_eq hwf mem phys env cpu sr word
  sized mem mem' phys env cpu sr word h := dispatchSystem_congr hwf h phys env cpu sr word
  status mem phys env cpu sr word s res s' h := by
    have hout := dispatchSystem_outcome h
    obtain ⟨st, cpu', sr'⟩ := res
    generalize s' = t at hout
    cases hout with
    | invalid hop => exact absurd hop hwf.known
    | shared st cpu' w hop hf hu h => exact answered (dispatchShared_status hwf h)
    | _ => exact answered (.inl rfl)

/-- **what the decoder accepts, both dispatches execute**: every shift defined, every request of a
size the bus serves, and no refusal that blames the caller -/
theorem decode_total {word : W32} {pc : W64} {insn : Insn} (h : decode word pc = .ok insn) :
    insn.BusTotal ∧ insn.SystemTotal :=
  ⟨(decode_wellFormed h).busTotal, (decode_wellFormed h).systemTotal⟩

/-- `stp x29, x30, [sp, #-16]!`, `lsl x0, x1, x2` and `eret` -/
theorem decode_total_stp :
    (∃ insn, decode 0xA9BF7BFD 0 = .ok insn ∧ insn.op = .stp ∧ insn.BusTotal ∧ insn.SystemTotal) ∧
      (∃ insn, decode 0x9AC22020 0 = .ok insn ∧ insn.op = .lslv ∧ insn.BusTotal ∧
        insn.SystemTotal) ∧
      ∃ insn, decode 0xD69F03E0 0 = .ok insn ∧ insn.op = .eret ∧ insn.BusTotal ∧
        insn.SystemTotal := by
  refine ⟨⟨_, rfl, rfl, ?_⟩, ⟨_, rfl, rfl, ?_⟩, ⟨_, rfl, rfl, ?_⟩⟩
  · exact decode_total (show decode 0xA9BF7BFD 0 = .ok _ from rfl)
  · exact decode_total (show decode 0x9AC22020 0 = .ok _ from rfl)
  · exact decode_total (show decode 0xD69F03E0 0 = .ok _ from rfl)

/-- a bus that answers a probe of 64 bytes by `st` and refuses every other -/
def lineBus (ω : Type) (st : Status) : Memops ω where
  fetch32 w _ := (.fault, 0, w)
  read w _ _ _ := (.fault, 0, w)
  write w _ _ _ := (.ok, w)
  validate w _ n _ := (if n = 64 then st else .fault, w)

/-- `DC ZVA, X3` tells two buses apart that differ on probes of 64 bytes only -/
theorem dcZva_probes_line :
    SameOn BusSize (lineBus (MmuWorld Unit) .ok) (lineBus _ .fault) ∧
      ∃ insn, decode 0xD50B7423 0 = .ok insn ∧
        dispatchSystem (lineBus _ .ok) (lineBus Unit .fault) (none : Option (EnvOps Unit Unit))
            (Cpu.init 0 0) (Sysregs.init (Regs.init 0 0) .el1) insn 0xD50B7423 ≠
          dispatchSystem (lineBus _ .fault) (lineBus Unit .fault) (none : Option (EnvOps Unit Unit))
            (Cpu.init 0 0) (Sysregs.init (Regs.init 0 0) .el1) insn 0xD50B7423 := by
  refine ⟨⟨fun _ _ _ _ _ => rfl, fun _ _ _ _ _ => rfl, ?_⟩, _, rfl, ?_⟩
  · intro s a n q hn
    have h64 : n ≠ 64 := by
      rcases hn with rfl | rfl | rfl | rfl <;> decide
    show (if n = 64 then Status.ok else .fault, s) = (if n = 64 then Status.fault else .fault, s)
    rw [if_neg h64, if_neg h64]
  · intro h
    have := congrArg (fun m => (m (⟨Mmu.init, ()⟩, ())).map fun q => q.1.2.1.regs.pc) h
    revert this
    decide

end Oemu
