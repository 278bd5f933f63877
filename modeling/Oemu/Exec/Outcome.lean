import Oemu.Exec.System
import Oemu.Exec.Precise

/-!
# What an instruction of system mode can do

`Outcome` lists the ways `dispatchSystem` can end, one constructor for each, with everything that
decides it.  `dispatchSystem_outcome` says the list is complete; the properties of system mode are
proved by cases on it.
-/

namespace Oemu

/-! ## the row of the two registers an immediate move reaches -/

theorem sysregFind_spsel :
    ∃ row, sysregFind selSpsel = some row ∧ row.minEl = .el1 ∧ row.flags = .none := by
  refine ⟨_, rfl, ?_, ?_⟩ <;> decide

theorem sysregFind_daif :
    ∃ row, sysregFind selDaif = some row ∧ row.minEl = .el1 ∧ row.flags = .none := by
  refine ⟨_, rfl, ?_, ?_⟩ <;> decide

/-- a register of level 1 that is plainly writable refuses EL0 only -/
theorem sysreg_el1 {sel : W32} (h : ∃ row, sysregFind sel = some row ∧ row.minEl = .el1 ∧
    row.flags = .none) (r : Regs) (sr : Sysregs) (value : W64) :
    (sysregWrite r sr sel value = none ↔ sr.el = .el0) ∧
      (sysregRead r sr sel = none ↔ sr.el = .el0) := by
  obtain ⟨row, hf, hm, hfl⟩ := h
  unfold sysregWrite sysregRead rowAccessAllowed
  rw [hf]
  dsimp only
  rw [hm, hfl]
  cases he : sr.el <;> simp [El.num]

theorem sysregRead_daif {r : Regs} {sr : Sysregs} {value : W64}
    (h : sysregRead r sr selDaif = some value) : value = sr.pstate &&& daifField := by
  have e : sysregRead r sr selDaif =
      if decide (1 ≤ sr.el.num) = true then some (sr.pstate &&& daifField) else none := rfl
  rw [e] at h
  split at h
  · exact (Option.some.inj h).symm
  · cases h

/-- the masks `DAIFSet` and `DAIFClr` write -/
def daifImm (insn : Insn) (pstate : W64) : W64 :=
  let mask := (insn.imm.setWidth 32 &&& (0xF : W32)).setWidth 64 <<< 6
  if insn.uimm.setWidth 32 = msrImmDaifSet then (pstate &&& daifField) ||| mask
  else pstate &&& daifField &&& ~~~mask

/-! ## the line a `DC ZVA` zeroes -/

variable {σ ε τ : Type}

def zeroActs (line : W64) : List Access :=
  (List.range 8).map fun i => .write (line + BitVec.ofNat 64 (8 * i)) .dword 0

theorem zeroLine_apply (mem : Memops (MmuWorld σ)) (line : W64) (w : MmuWorld σ) :
    zeroLine mem line w =
      (Txn.actAll (busOps mem) (zeroActs line) w).map fun p => (PUnit.unit, p.2) := by
  unfold zeroLine zeroActs
  generalize List.range 8 = l
  induction l generalizing w with
  | nil => rfl
  | cons i l ih =>
    show (busWrite mem (line + BitVec.ofNat 64 (8 * i)) .dword 0 >>= fun _ =>
      l.forM fun i => busWrite mem (line + BitVec.ofNat 64 (8 * i)) .dword 0) w = _
    rw [Prog.bind_apply, busWrite_apply, List.map_cons, Txn.actAll_cons]
    cases (busOps mem).act (.write (line + BitVec.ofNat 64 (8 * i)) .dword 0) w with
    | none => rfl
    | some p =>
      simp only [Option.map_some, Option.bind_some, ih]
      cases Txn.actAll (busOps mem) _ p.2 <;> rfl

/-! ## the outcomes -/

/-- a world reached by probes of the bus and by consuming the fault record -/
def Probed (mem : Memops (MmuWorld σ)) : MmuWorld σ → MmuWorld σ → Prop :=
  Relation.ReflTransGen fun w w' =>
    (∃ a n perm, w' = (mem.validate w a n perm).2) ∨ w' = { w with mmu := w.mmu.takeFault.2 }

theorem Probed.checkAll (mem : Memops (MmuWorld σ)) (l : List Check) (w : MmuWorld σ) :
    Probed mem w (Txn.checkAll (busOps mem) l w).2 :=
  Txn.checkAll_rel (fun _ => Relation.ReflTransGen.refl)
    (fun _ _ _ h h' => Relation.ReflTransGen.trans h h') (busOps mem)
    (fun c _ _ => Relation.ReflTransGen.single (.inl ⟨c.addr, c.size, c.perm, rfl⟩)) w

/-- a world change that every probe is an instance of holds after any probes -/
theorem Probed.rel {mem : Memops (MmuWorld σ)} {R : MmuWorld σ → MmuWorld σ → Prop}
    (hrefl : ∀ w, R w w) (htrans : ∀ a b c, R a b → R b c → R a c)
    (hval : ∀ w a n perm, R w (mem.validate w a n perm).2)
    (htake : ∀ w : MmuWorld σ, R w { w with mmu := w.mmu.takeFault.2 }) {w w' : MmuWorld σ}
    (h : Probed mem w w') : R w w' := by
  induction h with
  | refl => exact hrefl w
  | tail _ hs ih =>
    refine htrans _ _ _ ih ?_
    rcases hs with ⟨a, n, perm, rfl⟩ | rfl
    · exact hval _ a n perm
    · exact htake _

/-- an opcode system mode intercepts before the shared switch -/
def Intercepted (op : Opcode) : Prop :=
  op = .unknown ∨ op = .svc ∨ op = .brk ∨ op = .hlt ∨ op = .hvc ∨ op = .smc ∨ op = .eret ∨
    op = .mrs ∨ op = .msr ∨ op = .msrImm ∨ op = .sys

inductive Cause where
  | irq | fiq | instructionAbort | undefined | svc | brk | hlt | hvc | smc | illegalEret | dataAbort
deriving DecidableEq, Repr

/-- the registers an exception is taken with: past the instruction for the two calls -/
def Cause.resume (c : Cause) (r : Regs) : Regs :=
  match c with
  | .svc | .hvc => r.advancePc
  | _ => r

/-- which instructions a cause can come from -/
def Raised (cpu : Cpu) (insn : Insn) : Cause → Prop
  | .irq | .fiq | .instructionAbort => False
  | .undefined => insn.op ≠ .svc ∧ insn.op ≠ .hvc
  | .svc => insn.op = .svc
  | .brk => insn.op = .brk
  | .hlt => insn.op = .hlt
  | .hvc => insn.op = .hvc
  | .smc => insn.op = .smc
  | .illegalEret => insn.op = .eret
  | .dataAbort => (memPlan cpu insn).isSome ∨ insn.op = .sys

section

variable (mem : Memops (MmuWorld σ)) (phys : Memops σ) (cpu : Cpu) (sr : Sysregs) (insn : Insn)
  (word : W32) (s : MmuWorld σ × ε)

/-- the ways an instruction can end: status, processor, bank, world and environment -/
inductive Outcome : Status → Cpu × Sysregs → MmuWorld σ × ε → Prop where
  | invalid (hop : insn.op = .unknown) : Outcome .invalidArg (cpu, sr) s
  | took (c : Cause) (esr : W32) (far : Option W64) (w : MmuWorld σ) (e : ε)
      (hc : Raised cpu insn c) (hfar : far.isSome → c = .dataAbort) (hw : Probed mem s.1 w) :
      Outcome .ok
        (cpu.trapped (excTake (c.resume cpu.regs) sr .sync (excRoute sr.el) esr far)) (w, e)
  | eret (hop : insn.op = .eret) (hel : sr.el ≠ .el0)
      (hle : (pstateEl (sr.val (.spsrEl sr.el) &&& 0x1F)).num ≤ sr.el.num)
      (hil : sr.val (.spsrEl sr.el) &&& pstateIl = 0)
      (hmode : modeValid (sr.val (.spsrEl sr.el) &&& 0x1F) = true) :
      Outcome .ok (cpu.trapped (excReturn cpu.regs sr)) s
  | firmware (hop : insn.op = .hvc ∨ insn.op = .smc) (ret0 : W64) (e : ε) :
      Outcome .ok
        ({ cpu with regs := (cpu.regs.write 0 .w64 ret0).setPc (cpu.regs.pc + 4) }, sr) (s.1, e)
  | mrs (hop : insn.op = .mrs) (value : W64)
      (hv : sysregRead cpu.regs sr insn.sel = some value) :
      Outcome .ok ({ cpu with regs := (writeG cpu.regs insn.rd false .w64 value).advancePc }, sr) s
  | msr (hop : insn.op = .msr) (p : Regs × Sysregs)
      (hp : sysregWrite cpu.regs sr insn.sel (readG cpu.regs insn.rd false .w64) = some p) :
      Outcome .ok ({ cpu with regs := p.1.advancePc }, p.2) s
  | msrImm (hop : insn.op = .msrImm) (sel : W32) (value : W64) (p : Regs × Sysregs)
      (hsel : sel = selSpsel ∨ sel = selDaif) (hp : sysregWrite cpu.regs sr sel value = some p)
      (hval : sel = selDaif → value = daifImm insn sr.pstate ∧
        (insn.uimm.setWidth 32 = msrImmDaifSet ∨ insn.uimm.setWidth 32 = msrImmDaifClr)) :
      Outcome .ok ({ cpu with regs := p.1.advancePc }, p.2) s
  | msrImmNop (hop : insn.op = .msrImm) :
      Outcome .ok ({ cpu with regs := cpu.regs.advancePc }, sr) s
  | msrImmStuck (hop : insn.op = .msrImm) (hel : sr.el = .el0)
      (himm : insn.uimm.setWidth 32 = msrImmSpSel ∨ insn.uimm.setWidth 32 = msrImmDaifSet ∨
        insn.uimm.setWidth 32 = msrImmDaifClr) : Outcome .ok (cpu, sr) s
  | sysNop (hop : insn.op = .sys) (ha : sysAction insn.sel = .nop) :
      Outcome .ok ({ cpu with regs := cpu.regs.advancePc }, sr) s
  | tlbi (hop : insn.op = .sys) (ha : sysAction insn.sel = .tlbi) :
      Outcome .ok ({ cpu with regs := cpu.regs.advancePc }, sr)
        ({ s.1 with mmu := s.1.mmu.flushAll }, s.2)
  | at (hop : insn.op = .sys) (ha : sysAction insn.sel = .at) :
      Outcome .ok
        ({ cpu with regs := cpu.regs.advancePc },
          sr.set .parEl1 (parOf (mmuTranslate sr phys s.1 (readG cpu.regs insn.rd false .w64)
            (atWrite word) false).1))
        ((mmuTranslate sr phys s.1 (readG cpu.regs insn.rd false .w64) (atWrite word) false).2, s.2)
  | dcZva (hop : insn.op = .sys) (ha : sysAction insn.sel = .dcZva) (w w' : MmuWorld σ)
      (vs : List W64)
      (hc : mem.validate s.1 (lineOf (readG cpu.regs insn.rd false .w64)) cacheLine permWrite =
        (.ok, w))
      (hact : Txn.actAll (busOps mem) (zeroActs (lineOf (readG cpu.regs insn.rd false .w64))) w =
        some (vs, w')) :
      Outcome .ok ({ cpu with regs := cpu.regs.advancePc }, sr) (w', s.2)
  | shared (st : Status) (cpu' : Cpu) (w : MmuWorld σ) (hop : ¬ Intercepted insn.op)
      (hf : st ≠ .fault) (hu : st ≠ .unsupported)
      (h : dispatchShared mem cpu insn s.1 = some ((st, cpu'), w)) :
      Outcome st (cpu', sr) (w, s.2)

end

/-! ## the list is complete -/

/-- only the two debug opcodes fault without touching the bus -/
theorem dispatchPure_fault {cpu : Cpu} {insn : Insn} (h : (dispatchPure cpu insn).1 = .fault) :
    insn.op = .brk ∨ insn.op = .hlt := by
  have hst : (dispatchPure cpu insn).1 ≠ .ok := by rw [h]; nofun
  unfold dispatchPure at h hst
  cases hd : dataProcessing cpu.regs insn with
  | some res =>
    rw [hd] at h hst
    dsimp only at h hst
    rw [fallThrough_refused hst] at h
    exact absurd h (dataProcessing_not_fault cpu.regs insn hd)
  | none =>
    rw [hd] at h hst
    dsimp only at h hst
    cases hop : insn.op <;> rw [hop] at h hst <;> dsimp only at h hst <;>
      first
      | exact .inl rfl
      | exact .inr rfl
      | exact absurd (branchTo_ok _ _ _ _) hst
      | exact absurd rfl hst
      | cases h
      | skip
    case mrs =>
      rw [fallThrough_move (doMrs_cases cpu insn) hst] at h
      cases h
    case msr =>
      rw [fallThrough_move (doMsr_cases cpu insn) hst] at h
      cases h
    case msrImm =>
      rw [fallThrough_move (doMsr_cases cpu insn) hst] at h
      cases h

section

variable {mem : Memops (MmuWorld σ)} {phys : Memops σ} {env : Option (EnvOps τ ε)} {cpu : Cpu}
  {sr : Sysregs} {insn : Insn} {word : W32} {s s' : MmuWorld σ × ε}
  {res : Status × Cpu × Sysregs}

theorem deliverFault_took {far : W64} {sz : Nat} {b b' : Bool} {d : W32} {w w' : MmuWorld σ}
    {q : Cpu × Sysregs}
    (h : deliverFault cpu sr (excDataAbort cpu.regs sr far sz b b' d) w = some (q, w')) :
    w' = { w with mmu := w.mmu.takeFault.2 } ∧
      ∃ esr far', q = cpu.trapped (excTake cpu.regs sr .sync (excRoute sr.el) esr far') := by
  unfold deliverFault Prog.act at h
  unfold Mmu.takeFault at h ⊢
  cases hv : w.mmu.faultValid with
  | true =>
    simp only [hv, if_true] at h ⊢
    cases h
    exact ⟨rfl, _, _, rfl⟩
  | false =>
    simp only [hv, Bool.false_eq_true, if_false] at h ⊢
    cases h
    exact ⟨rfl, _, _, rfl⟩

theorem undefined_outcome (word' : W32) (hs : insn.op ≠ .svc) (hh : insn.op ≠ .hvc) :
    Outcome mem phys cpu sr insn word s .ok (cpu.trapped (excUndefined cpu.regs sr word')) s :=
  .took .undefined (esrUndefined word') none s.1 s.2 ⟨hs, hh⟩ nofun .refl

/-- an intercepted opcode that is not one of the two calls -/
theorem undefined_of_op {op : Opcode} (hop : insn.op = op) (word' : W32) (hs : op ≠ .svc)
    (hh : op ≠ .hvc) :
    Outcome mem phys cpu sr insn word s .ok (cpu.trapped (excUndefined cpu.regs sr word')) s :=
  undefined_outcome word' (by rw [hop]; exact hs) (by rw [hop]; exact hh)

theorem eret_outcome (hop : insn.op = .eret) {p : Regs × Sysregs}
    (hp : excEret cpu.regs sr = some p) :
    Outcome mem phys cpu sr insn word s .ok (cpu.trapped p) s := by
  have h := excEret_outcome cpu.regs sr
  rw [hp] at h
  cases h with
  | undefined h0 => exact undefined_of_op hop eretWord nofun nofun
  | refused h2 hr esr => exact .took .illegalEret esr none s.1 s.2 hop nofun .refl
  | returned h0 hr =>
    unfold ReturnRefused at hr
    push Not at hr
    obtain ⟨hil, hmode, hle⟩ := hr
    exact .eret hop h0 hle hil (by simpa using hmode)

theorem mrs_outcome (hop : insn.op = .mrs) :
    Outcome mem phys cpu sr insn word s (intercept (doMrsSystem cpu sr insn word)).1
      (intercept (doMrsSystem cpu sr insn word)).2 s := by
  unfold doMrsSystem
  cases hr : sysregRead cpu.regs sr insn.sel with
  | none => exact undefined_of_op hop word nofun nofun
  | some v => exact .mrs hop v hr

theorem msr_outcome (hop : insn.op = .msr) :
    Outcome mem phys cpu sr insn word s (intercept (doMsrSystem cpu sr insn word)).1
      (intercept (doMsrSystem cpu sr insn word)).2 s := by
  unfold doMsrSystem
  dsimp only
  cases hr : sysregWrite cpu.regs sr insn.sel (readG cpu.regs insn.rd false .w64) with
  | none => exact undefined_of_op hop word nofun nofun
  | some v => exact .msr hop v hr

theorem msrImm_outcome (hop : insn.op = .msrImm) :
    Outcome mem phys cpu sr insn word s (intercept (doMsrImmediate cpu sr insn word)).1
      (intercept (doMsrImmediate cpu sr insn word)).2 s := by
  unfold doMsrImmediate
  dsimp only
  by_cases h5 : insn.uimm.setWidth 32 = msrImmSpSel
  · rw [if_pos h5]
    split
    · rename_i p hp
      exact .msrImm hop selSpsel _ p (.inl rfl) hp (by intro h; cases h)
    · rename_i hp
      exact .msrImmStuck hop ((sysreg_el1 sysregFind_spsel _ _ _).1.mp hp) (.inl h5)
  · rw [if_neg h5]
    by_cases h67 : insn.uimm.setWidth 32 = msrImmDaifSet ∨ insn.uimm.setWidth 32 = msrImmDaifClr
    · rw [if_pos h67]
      cases hr : sysregRead cpu.regs sr selDaif with
      | none =>
        exact .msrImmStuck hop ((sysreg_el1 sysregFind_daif cpu.regs sr 0).2.mp hr) (.inr h67)
      | some daif =>
        dsimp only
        split
        · rename_i p hp
          refine .msrImm hop selDaif _ p (.inr rfl) hp fun _ => ⟨?_, h67⟩
          rw [sysregRead_daif hr]
          rfl
        · rename_i hp
          exact .msrImmStuck hop ((sysreg_el1 sysregFind_daif _ _ _).1.mp hp) (.inr h67)
    · rw [if_neg h67]
      split
      · exact .msrImmNop hop
      · exact undefined_of_op hop word nofun nofun

theorem firmware_outcome (hop : insn.op = .hvc ∨ insn.op = .smc) :
    Outcome mem phys cpu sr insn word s .ok (doFirmware env cpu sr insn s.2).1
      (s.1, (doFirmware env cpu sr insn s.2).2) := by
  unfold doFirmware
  rcases firmwareAnswer env cpu.regs insn s.2 with ⟨ret, e⟩
  cases ret with
  | some ret0 => exact .firmware hop ret0 e
  | none =>
    dsimp only
    by_cases hv : insn.op = .hvc
    · rw [if_pos hv]
      exact .took .hvc _ none s.1 e hv nofun .refl
    · rw [if_neg hv]
      exact .took .smc _ none s.1 e (hop.resolve_left hv) nofun .refl

theorem dcZva_outcome (hop : insn.op = .sys) (ha : sysAction insn.sel = .dcZva) {w' : MmuWorld σ}
    (h : doDcZva mem cpu sr insn s.1 = some (res, w')) :
    Outcome mem phys cpu sr insn word s (intercept res).1 (intercept res).2 (w', s.2) := by
  unfold doDcZva at h
  by_cases hal : readG cpu.regs insn.rd false .w64 &&& 7 ≠ 0
  · rw [if_pos hal] at h
    cases h
    exact .took .dataAbort _ _ s.1 s.2 (.inr hop) (fun _ => rfl) .refl
  · rw [if_neg hal, Prog.bind_apply, busValidate_apply] at h
    simp only [Option.bind_some] at h
    rcases hc : mem.validate s.1 (lineOf (readG cpu.regs insn.rd false .w64)) cacheLine permWrite
      with ⟨st, w⟩
    rw [hc] at h
    by_cases hst : st = .ok
    · subst hst
      dsimp only at h
      rw [if_neg (not_not_intro rfl), Prog.bind_apply, zeroLine_apply] at h
      cases hact : Txn.actAll (busOps mem)
          (zeroActs (lineOf (readG cpu.regs insn.rd false .w64))) w with
      | none =>
        rw [hact] at h
        cases h
      | some q =>
        rw [hact] at h
        cases h
        exact .dcZva hop ha w q.2 q.1 hc hact
    · rw [if_pos hst, Prog.bind_apply] at h
      cases hd : deliverFault cpu sr (excDataAbort cpu.regs sr
          (lineOf (readG cpu.regs insn.rd false .w64)) 3 true false 0x2C) w with
      | none =>
        dsimp only at h
        rw [hd] at h
        cases h
      | some q =>
        dsimp only at h
        rw [hd] at h
        cases h
        obtain ⟨hw, esr, far, hq⟩ := deliverFault_took (show _ = some (q.1, q.2) from hd)
        show Outcome mem phys cpu sr insn word s .ok q.1 (q.2, s.2)
        rw [hq, hw]
        refine .took .dataAbort esr far _ s.2 (.inr hop) (fun _ => rfl) ?_
        refine .tail (.single (.inl
          ⟨lineOf (readG cpu.regs insn.rd false .w64), cacheLine, permWrite, ?_⟩)) (.inr rfl)
        rw [hc]

theorem sys_outcome (hop : insn.op = .sys) {w' : MmuWorld σ}
    (h : doSys mem phys cpu sr insn word s.1 = some (res, w')) :
    Outcome mem phys cpu sr insn word s (intercept res).1 (intercept res).2 (w', s.2) := by
  unfold doSys at h
  cases ha : sysAction insn.sel with
  | nop =>
    rw [ha] at h
    cases h
    exact .sysNop hop ha
  | trap =>
    rw [ha] at h
    cases h
    exact undefined_of_op hop word nofun nofun
  | tlbi =>
    rw [ha] at h
    cases h
    exact .tlbi hop ha
  | «at» =>
    rw [ha] at h
    cases h
    exact .at hop ha
  | dcZva =>
    rw [ha] at h
    exact dcZva_outcome hop ha h

theorem guest_outcome (hop : ¬ Intercepted insn.op) {w' : MmuWorld σ}
    (h : dispatchGuest mem cpu sr insn word s.1 = some (res, w')) :
    Outcome mem phys cpu sr insn word s res.1 res.2 (w', s.2) := by
  unfold dispatchGuest at h
  rw [Prog.bind_apply] at h
  cases hd : dispatchShared mem cpu insn s.1 with
  | none =>
    rw [hd] at h
    cases h
  | some q =>
    obtain ⟨⟨st, cpu'⟩, w⟩ := q
    rw [hd] at h
    simp only [Option.bind_some] at h
    by_cases hf : st = .fault
    · subst hf
      rw [if_pos rfl, Prog.bind_apply] at h
      -- the precise contract: a refused instruction has committed nothing
      have hcpu : cpu' = cpu ∧ (memPlan cpu insn).isSome ∧ Probed mem s.1 w := by
        rcases dispatchShared_run hd with ⟨-, hr, -⟩ | ⟨t, hp, hr, hc⟩ | ⟨t, s₁, vs, hp, -, -, hr⟩
        · have hb : insn.op = .brk ∨ insn.op = .hlt := dispatchPure_fault (by rw [← hr])
          unfold Intercepted at hop
          tauto
        · have := Probed.checkAll mem t.checks s.1
          rw [hc] at this
          exact ⟨congrArg Prod.snd hr, by rw [hp]; rfl, this⟩
        · have h1 : (fallThrough (t.commit vs)).1 ≠ .ok := by
            rw [← hr]
            nofun
          rw [fallThrough_refused h1] at h1
          exact absurd (memPlan_commit hp vs) h1
      obtain ⟨rfl, hmem, hpr⟩ := hcpu
      cases hdel : deliverFault cpu' sr (excDataAbort cpu'.regs sr (faultFarOf cpu'.regs insn)
          insn.memSize.log2 (opIsStore insn.op) (!opIsPair insn.op) 0x2C) w with
      | none =>
        rw [hdel] at h
        cases h
      | some r =>
        rw [hdel] at h
        cases h
        obtain ⟨hw, esr, far, hq⟩ := deliverFault_took (show _ = some (r.1, r.2) from hdel)
        show Outcome mem phys cpu' sr insn word s .ok r.1 (r.2, s.2)
        rw [hq, hw]
        exact .took .dataAbort esr far _ s.2 (.inl hmem) (fun _ => rfl) (.tail hpr (.inr rfl))
    · rw [if_neg hf] at h
      by_cases hu : st = .unsupported
      · subst hu
        rw [if_pos rfl] at h
        cases h
        rcases dispatchShared_run hd with ⟨-, hr, hs⟩ | ⟨t, -, hr, -⟩ | ⟨t, s₁, vs, hp, -, -, hr⟩
        · have : (dispatchPure cpu insn).2 = cpu := dispatchPure_refused (by rw [← hr]; nofun)
          rw [← hr] at this
          dsimp only at this
          subst this
          subst hs
          unfold Intercepted at hop
          exact undefined_outcome word (by tauto) (by tauto)
        · cases hr
        · have h1 : (fallThrough (t.commit vs)).1 ≠ .ok := by
            rw [← hr]
            nofun
          rw [fallThrough_refused h1] at h1
          exact absurd (memPlan_commit hp vs) h1
      · rw [if_neg hu] at h
        cases h
        exact .shared st cpu' w' hop hf hu hd

theorem dispatchSystem_outcome
    (h : dispatchSystem mem phys env cpu sr insn word s = some (res, s')) :
    Outcome mem phys cpu sr insn word s res.1 res.2 s' := by
  have hshared : ¬ Intercepted insn.op →
      onBus (dispatchGuest mem cpu sr insn word) s = some (res, s') →
      Outcome mem phys cpu sr insn word s res.1 res.2 s' := by
    intro hop h
    unfold onBus at h
    cases hg : dispatchGuest mem cpu sr insn word s.1 with
    | none =>
      rw [hg] at h
      cases h
    | some q =>
      rw [hg] at h
      cases h
      exact guest_outcome hop hg
  unfold dispatchSystem at h
  cases hop : insn.op <;> rw [hop] at h <;> dsimp only at h
  case unknown =>
    cases h
    exact .invalid hop
  case svc =>
    cases h
    exact .took .svc _ none s.1 s.2 hop nofun .refl
  case brk =>
    cases h
    exact .took .brk _ none s.1 s.2 hop nofun .refl
  case hlt =>
    cases h
    exact .took .hlt _ none s.1 s.2 hop nofun .refl
  case hvc =>
    cases h
    exact firmware_outcome (.inl hop)
  case smc =>
    cases h
    exact firmware_outcome (.inr hop)
  case eret =>
    rw [Prog.require_bind_apply] at h
    cases hp : excEret cpu.regs sr with
    | none =>
      rw [hp] at h
      cases h
    | some p =>
      rw [hp] at h
      cases h
      exact eret_outcome hop hp
  case mrs =>
    cases h
    exact mrs_outcome hop
  case msr =>
    cases h
    exact msr_outcome hop
  case msrImm =>
    cases h
    exact msrImm_outcome hop
  case sys =>
    unfold onBus at h
    have e : (intercept <$> doSys mem phys cpu sr insn word) s.1 =
        (doSys mem phys cpu sr insn word s.1).bind fun q => some (intercept q.1, q.2) := rfl
    rw [e] at h
    cases hd : doSys mem phys cpu sr insn word s.1 with
    | none =>
      rw [hd] at h
      cases h
    | some q =>
      rw [hd] at h
      cases h
      exact sys_outcome hop hd
  all_goals
    refine hshared ?_ h
    rw [hop]
    unfold Intercepted
    decide

end

end Oemu
