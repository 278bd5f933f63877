import Oemu.Vcpu.Mode
import Oemu.Vcpu.SpBank

/-!
# Entry and return

An exception entry saves PSTATE, the flags and the address, and switches to a stack pointer of its
own; the return undoes it.  `eret_restores` says so of any state at the level of the entry that
still holds what the entry saved, so a handler may do what it likes in between, nested exceptions
included.  What it cannot undo is left to the run: a handler reaches no stack pointer but its own,
that of EL0 and, from EL3, that of EL1.

* `excEret_saved`      the return is carried out and restores PSTATE, the flags and the address;
* `run_banks`          the stack pointers out of a handler's reach;
* `eret_restores`      entry, any run of the machine, and the return.
-/

namespace Oemu

variable {σ ε τ : Type}

/-! ## what an entry saves -/

theorem nzcv_masked (n : Nzcv) : n.bits.setWidth 64 &&& nzcvMask64 = n.bits.setWidth 64 := by
  unfold nzcvMask64
  rw [← BitVec.setWidth_and, n.masked]

theorem savedPstate_and (r : Regs) (sr : Sysregs) {m : W64} (hm : nzcvMask64 &&& m = 0)
    (hm' : ~~~nzcvMask64 &&& m = m) : savedPstate r sr &&& m = sr.pstate &&& m := by
  unfold savedPstate
  rw [← nzcv_masked r.nzcv, merge_and, hm, hm']
  simp

theorem savedPstate_pstate (r : Regs) {sr : Sysregs} (h : sr.pstate &&& nzcvMask64 = 0) :
    savedPstate r sr &&& ~~~nzcvMask64 = sr.pstate := by
  have hnot : sr.pstate &&& ~~~nzcvMask64 = sr.pstate := by
    have hsplit : sr.pstate = (sr.pstate &&& nzcvMask64) ||| (sr.pstate &&& ~~~nzcvMask64) := by
      rw [← BitVec.and_or_distrib_left,
        show nzcvMask64 ||| ~~~nzcvMask64 = BitVec.allOnes 64 from rfl, BitVec.and_allOnes]
    rw [h] at hsplit
    simpa using hsplit.symm
  rw [savedPstate_and r sr (by decide) (by decide), hnot]

theorem Nzcv.ofWord_bits (n : Nzcv) : Nzcv.ofWord n.bits = n := by
  obtain ⟨bits, masked⟩ := n
  unfold Nzcv.ofWord
  simp only [masked]

theorem savedPstate_nzcv (r : Regs) (sr : Sysregs) :
    Nzcv.ofWord ((savedPstate r sr &&& nzcvMask64).setWidth 32) = r.nzcv := by
  have h : savedPstate r sr &&& nzcvMask64 = r.nzcv.bits.setWidth 64 := by
    unfold savedPstate
    rw [← nzcv_masked r.nzcv, merge_and, show ~~~nzcvMask64 &&& nzcvMask64 = 0#64 from rfl,
      BitVec.and_self]
    simp
  rw [h, BitVec.setWidth_setWidth_of_le _ (by decide), BitVec.setWidth_eq, Nzcv.ofWord_bits]

/-! ## the return -/

/-- a mode the machine implements is accepted, at its own level and above -/
theorem legalMode_valid {m : W64} (h : LegalMode m) : modeValid m = true := by
  rcases h with rfl | rfl | rfl | rfl | rfl <;> decide

theorem num_le_excRoute {e : El} (h : e ≠ .el2) : e.num ≤ (excRoute e).1.num := by
  cases e <;> first | decide | exact absurd rfl h

/-- with what an entry from a legal PSTATE saved, a return is carried out -/
theorem excEret_saved {r₀ r : Regs} {sr₀ sr : Sysregs} (hl : LegalPstate sr₀.pstate)
    (hel : sr.el = excRoute sr₀.el) (hspsr : sr.val (.spsrEl sr.el) = savedPstate r₀ sr₀) :
    excEret r sr = some (excReturn r sr) := by
  have hmode : savedPstate r₀ sr₀ &&& modeMask = sr₀.pstate &&& modeMask :=
    savedPstate_and r₀ sr₀ (by decide) (by decide)
  have hil : savedPstate r₀ sr₀ &&& pstateIl = 0 :=
    (savedPstate_and r₀ sr₀ (by decide) (by decide)).trans hl.il
  have h0 : sr.el ≠ .el0 := by
    rw [hel]
    rcases excRoute_target sr₀.el with h | h <;> rw [h] <;> decide
  have h2 : sr₀.el ≠ .el2 := by
    intro h2
    have := hl.el
    rw [show pstateEl sr₀.pstate = .el2 from h2] at this
    revert this
    decide
  refine excEret_returned h0 ?_
  unfold ReturnRefused
  rw [hspsr, hil]
  show ¬ ((0 : W64) ≠ 0 ∨ (!modeValid (savedPstate r₀ sr₀ &&& modeMask)) = true ∨
    sr.el.num < (pstateEl (savedPstate r₀ sr₀ &&& modeMask)).num)
  rw [hmode, legalMode_valid hl.mode, pstateEl_mode, hel]
  have := num_le_excRoute h2
  rintro (h | h | h)
  · exact h rfl
  · cases h
  · exact absurd h (Nat.not_lt.mpr this)

theorem excReturn_saved {r₀ r : Regs} {sr₀ sr : Sysregs} (hl : LegalPstate sr₀.pstate)
    (hspsr : sr.val (.spsrEl sr.el) = savedPstate r₀ sr₀) :
    (excReturn r sr).2.pstate = sr₀.pstate ∧ (excReturn r sr).1.nzcv = r₀.nzcv := by
  constructor
  · rw [excReturn_pstate, hspsr, savedPstate_pstate r₀ hl.flags]
  · show Nzcv.ofWord ((sr.val (.spsrEl sr.el) &&& nzcvMask64).setWidth 32) = _
    rw [hspsr, savedPstate_nzcv]

/-! ## what a run cannot reach -/

theorem pstateEl_entry (target : El) : pstateEl (entryPstate target) = target := by
  cases target <;> decide

theorem pstateEl_selected (p value : W64) :
    pstateEl ((p &&& ~~~1) ||| (value &&& 1)) = pstateEl p := by
  have key : ∀ m : BitVec 5, pstateEl (m.setWidth 64 &&& ~~~1) = pstateEl (m.setWidth 64) ∧
      pstateEl ((m.setWidth 64 &&& ~~~1) ||| 1) = pstateEl (m.setWidth 64) := by
    decide
  have hk := mode_cases (P := fun m => pstateEl (m &&& ~~~1) = pstateEl m ∧
    pstateEl ((m &&& ~~~1) ||| 1) = pstateEl m) p key
  rw [← pstateEl_mode, ← pstateEl_mode p]
  rcases selected_mode p value with hm | hm <;> rw [hm]
  · exact hk.1
  · exact hk.2

section

variable {phys : Memops σ} {f₀ : MmuFault} {env : Option (EnvOps τ ε)} {v v' : Vcpu σ ε}
  {st : Status}

/-- a step goes down, or to the level its exceptions are routed to -/
theorem step_level (h : vcpuStep phys f₀ env v = some (st, v')) :
    v'.sr.el.num ≤ v.sr.el.num ∨
      v'.sr.el = excRoute v.sr.el ∧ (v'.sr.el = .el3 → v.sr.el = .el3) := by
  have same : pstateEl v'.sr.pstate = pstateEl v.sr.pstate → v'.sr.el.num ≤ v.sr.el.num := by
    intro he
    show (pstateEl v'.sr.pstate).num ≤ _
    rw [he]
    exact Nat.le_refl _
  cases step_pstate h with
  | delivered d hd hp ht =>
    right
    have he : v'.sr.el = excRoute v.sr.el := by
      show pstateEl v'.sr.pstate = _
      rw [hp, pstateEl_entry, ht]
    refine ⟨he, ?_⟩
    rw [he]
    exact excRoute_el3
  | returned insn hr hop hel hle hil hmode ht hp =>
    left
    show (pstateEl v'.sr.pstate).num ≤ _
    rw [hp, ← pstateEl_mode, BitVec.and_assoc,
      show ~~~nzcvMask64 &&& modeMask = modeMask from rfl]
    exact hle
  | selected insn hr hop hel value ht hp =>
    left
    refine same ?_
    rw [hp, pstateEl_selected]
  | masked insn hr value hop ht hp =>
    left
    refine same ?_
    rw [hp, ← pstateEl_mode, daif_mode, pstateEl_mode]
  | kept ht hp =>
    left
    refine same ?_
    rw [hp]

theorem step_el3 (h : vcpuStep phys f₀ env v = some (st, v')) (h3 : v'.sr.el = .el3) :
    v.sr.el = .el3 := by
  rcases step_level h with hle | ⟨-, h'⟩
  · rw [h3] at hle
    cases he : v.sr.el <;> rw [he] at hle <;> first | rfl | exact absurd hle (by decide)
  · exact h' h3

theorem step_low (h : vcpuStep phys f₀ env v = some (st, v')) (hl : v.sr.el.num ≤ 1) :
    v'.sr.el.num ≤ 1 := by
  rcases step_level h with hle | ⟨h', -⟩
  · exact hle.trans hl
  · cases he : v.sr.el <;> rw [he] at hl h' <;> try exact absurd hl (by decide)
    · rw [h']
      decide
    · rw [h']
      decide

theorem spNamed_cases {insn : Insn} {p : W64} {e : El} (h : insn.spNamed p = some e) :
    e = .el0 ∨ e = .el1 ∨ e = pstateEl p := by
  unfold Insn.spNamed at h
  split at h
  · split at h
    · exact .inl (Option.some.inj h).symm
    · split at h
      · exact .inr (.inl (Option.some.inj h).symm)
      · cases h
  · split at h
    · cases h
    · split at h
      · have hb := Option.some.inj h
        unfold spBank at hb
        split at hb
        · exact .inl hb.symm
        · exact .inr (.inr hb.symm)
      · cases h

theorem step_bank (h : vcpuStep phys f₀ env v = some (st, v')) {e : El} (h0 : e ≠ .el0)
    (h1 : e ≠ .el1) (he : e ≠ v.sr.el) : spOf v'.cpu.regs v'.sr e = spOf v.cpu.regs v.sr e := by
  by_contra hne
  obtain ⟨-, insn, -, hn⟩ := step_banks h e hne
  rcases spNamed_cases hn with h' | h' | h'
  · exact h0 h'
  · exact h1 h'
  · exact he h'

/-- a move of the host changes neither processor nor bank -/
theorem machine_cases {i : Label} (h : Machine phys f₀ env v i v') :
    (∃ st, vcpuStep phys f₀ env v = some (st, v')) ∨ v'.cpu = v.cpu ∧ v'.sr = v.sr := by
  cases h with
  | step st v' h => exact .inl ⟨st, h⟩
  | irq level => exact .inr ⟨rfl, rfl⟩
  | fiq level => exact .inr ⟨rfl, rfl⟩
  | rearm => exact .inr ⟨rfl, rfl⟩
  | host p e => exact .inr ⟨rfl, rfl⟩

/-- what a handler at EL1 or EL3 does not reach: every bank but its own, that of EL0 and that of
EL1 -/
theorem run_banks {l : List Label} (hrun : Lts.Run (Machine phys f₀ env) v l v')
    (ht : v.sr.el = .el1 ∨ v.sr.el = .el3) (ht' : v'.sr.el = v.sr.el) {e : El} (h0 : e ≠ .el0)
    (h1 : e ≠ .el1) (he : e ≠ v.sr.el) :
    spOf v'.cpu.regs v'.sr e = spOf v.cpu.regs v.sr e := by
  rcases ht with ht | ht
  · -- from EL1 down the machine stays at EL0 and EL1
    have hinv := hrun.invariant (A := fun _ => True)
      (I := fun s => s.sr.el.num ≤ 1 ∧ spOf s.cpu.regs s.sr e = spOf v.cpu.regs v.sr e) ?_
      (fun _ _ => trivial) ⟨by rw [ht]; decide, rfl⟩
    · exact hinv.2
    · rintro s i s' ⟨hl, hs⟩ - hm
      rcases machine_cases hm with ⟨st, hstep⟩ | ⟨hc, hsr⟩
      · refine ⟨step_low hstep hl, (step_bank hstep h0 h1 ?_).trans hs⟩
        rintro rfl
        cases hes : s.sr.el <;> rw [hes] at hl h0 h1 <;>
          first | exact h0 rfl | exact h1 rfl | exact absurd hl (by decide)
      · rw [hc, hsr]
        exact ⟨hl, hs⟩
  · -- what is at EL3 has never been below it
    rw [ht] at he ht'
    have hinv := hrun.invariant (A := fun _ => True)
      (I := fun s => s.sr.el = .el3 → spOf s.cpu.regs s.sr e = spOf v.cpu.regs v.sr e) ?_
      (fun _ _ => trivial) (fun _ => rfl)
    · exact hinv ht'
    · intro s i s' hs _ hm h3
      rcases machine_cases hm with ⟨st, hstep⟩ | ⟨hc, hsr⟩
      · have h3' := step_el3 hstep h3
        exact (step_bank hstep h0 h1 (by rw [h3']; exact he)).trans (hs h3')
      · rw [hsr] at h3
        rw [hc, hsr]
        exact hs h3

end

/-! ## entry, a handler, and its return -/

/-- the interrupted state is back -/
structure Restored (r : Regs) (sr : Sysregs) (v₁ v₂ v₃ : Vcpu σ ε) (st : Status) : Prop where
  status : st = .ok
  accepted : v₃.sr.taken = v₂.sr.taken
  pstate : v₃.sr.pstate = sr.pstate
  nzcv : v₃.cpu.regs.nzcv = r.nzcv
  pc : v₃.cpu.regs.pc = v₁.sr.val (.elrEl (excRoute sr.el))
  banks : ∀ e, spOf v₃.cpu.regs v₃.sr e = spOf r sr e

theorem eret_step {phys : Memops σ} {f₀ : MmuFault} {env : Option (EnvOps τ ε)}
    {v v' : Vcpu σ ε} {insn : Insn} {st : Status} (hr : v.Reaches phys insn)
    (hop : insn.op = .eret)
    (hret : excEret v.cpu.regs v.tick.sr = some (excReturn v.cpu.regs v.tick.sr))
    (h : vcpuStep phys f₀ env v = some (st, v')) :
    st = .ok ∧ v'.cpu.regs = (excReturn v.cpu.regs v.tick.sr).1 ∧
      v'.sr = (excReturn v.cpu.regs v.tick.sr).2 := by
  have hd : dispatchSystem (mmuMemops v.tick.sr phys f₀) phys env v.cpu v.tick.sr insn
      (v.fetch phys).2.1 ((v.fetch phys).2.2, v.env) =
        some ((.ok, v.cpu.trapped (excReturn v.cpu.regs v.tick.sr)), (v.fetch phys).2.2, v.env) := by
    rw [dispatchSystem_eret hop, hret]
    rfl
  obtain ⟨v'', hv, hcpu, hsr, -⟩ := hr.execute (by rw [hop]; decide) hd
  rw [hv] at h
  cases h
  refine ⟨rfl, ?_, hsr⟩
  rw [hcpu]

/-- **a handler that reaches its return with what the entry saved in place returns to the
interrupted state**, whatever it has done in between, nested exceptions included: the return is
accepted, and level, `SPSel`, masks, flags, address and every stack pointer are back -/
theorem eret_restores (phys : Memops σ) (f₀ : MmuFault) (env : Option (EnvOps τ ε)) (r : Regs)
    (sr : Sysregs) (hl : LegalPstate sr.pstate) (kind : ExcKind) (esr : W32) (far : Option W64)
    (v₁ v₂ v₃ : Vcpu σ ε)
    (hentry : (v₁.cpu.regs, v₁.sr) = excTake r sr kind (excRoute sr.el) esr far)
    (l : List Label) (hrun : Lts.Run (Machine phys f₀ env) v₁ l v₂)
    (hel : v₂.sr.el = excRoute sr.el)
    (hspsr : v₂.sr.val (.spsrEl (excRoute sr.el)) = v₁.sr.val (.spsrEl (excRoute sr.el)))
    (helr : v₂.sr.val (.elrEl (excRoute sr.el)) = v₁.sr.val (.elrEl (excRoute sr.el)))
    (hsp : spOf v₂.cpu.regs v₂.sr (excRoute sr.el) = spOf v₁.cpu.regs v₁.sr (excRoute sr.el))
    (hsp0 : spOf v₂.cpu.regs v₂.sr .el0 = spOf v₁.cpu.regs v₁.sr .el0)
    (hsp1 : (excRoute sr.el).1 = .el3 → spOf v₂.cpu.regs v₂.sr .el1 = spOf v₁.cpu.regs v₁.sr .el1)
    (insn : Insn) (hr : v₂.Reaches phys insn) (hop : insn.op = .eret) (st : Status)
    (hstep : vcpuStep phys f₀ env v₂ = some (st, v₃)) : Restored r sr v₁ v₂ v₃ st := by
  have hr₁ : v₁.cpu.regs = (excTake r sr kind (excRoute sr.el) esr far).1 :=
    congrArg Prod.fst hentry
  have hs₁ : v₁.sr = (excTake r sr kind (excRoute sr.el) esr far).2 :=
    congrArg Prod.snd hentry
  have hsaved : v₁.sr.val (.spsrEl (excRoute sr.el)) = savedPstate r sr := by
    rw [hs₁, excTake_val]
    simp
  have hel₁ : v₁.sr.el = excRoute sr.el := by
    show pstateEl v₁.sr.pstate = _
    rw [hs₁, excTake_pstate, pstateEl_entry]
  have htel : v₂.tick.sr.el = excRoute sr.el := Vcpu.tick_el.trans hel
  have htspsr : v₂.tick.sr.val (.spsrEl v₂.tick.sr.el) = savedPstate r sr := by
    rw [htel, Vcpu.tick_val (by intro h; cases h), hspsr, hsaved]
  have hret : excEret v₂.cpu.regs v₂.tick.sr = some (excReturn v₂.cpu.regs v₂.tick.sr) :=
    excEret_saved hl htel htspsr
  obtain ⟨hst, hregs, hsr⟩ := eret_step hr hop hret hstep
  obtain ⟨hp, hn⟩ := excReturn_saved (r := v₂.cpu.regs) hl htspsr
  refine ⟨hst, ?_, ?_, ?_, ?_, ?_⟩
  · rw [hsr, excReturn_taken, Vcpu.tick_taken]
  · rw [hsr, hp]
  · rw [hregs, hn]
  · rw [hregs, excReturn_pc, htel, Vcpu.tick_val (by intro h; cases h), helr]
  · intro e
    have hback : spOf v₃.cpu.regs v₃.sr e = spOf v₂.cpu.regs v₂.sr e := by
      rw [hregs, hsr, spOf_excReturn, spOf_tick]
    have hin : spOf v₁.cpu.regs v₁.sr e = spOf r sr e := by
      rw [hr₁, hs₁, spOf_excTake]
    rw [hback, ← hin]
    have htgt : v₁.sr.el = .el1 ∨ v₁.sr.el = .el3 := by
      rw [hel₁]
      exact excRoute_target sr.el
    by_cases ht : e = excRoute sr.el
    · rw [ht]
      exact hsp
    · by_cases h0 : e = .el0
      · rw [h0]
        exact hsp0
      · by_cases h1 : e = .el1
        · subst h1
          rcases excRoute_target sr.el with h | h
          · exact absurd h.symm ht
          · exact hsp1 h
        · exact run_banks hrun htgt (hel.trans hel₁.symm) h0 h1 (by rw [hel₁]; exact ht)

/-! ## two handlers -/

/-- user code about to be interrupted, the vectors of EL1 at `0x1000` -/
def userSysregs : Sysregs :=
  (Sysregs.init (Regs.init 0x4000 0x8000) .el0).set (.vbarEl .el1) 0x1000

/-- a core right after an entry, with a page of code at its vector -/
def enteredVcpu (ws : List W32) (p : Regs × Sysregs) : Vcpu Memory Unit :=
  let code := { programMemory ws with regions := [⟨p.1.pc, 0x1000, 7, 0, true⟩] }
  { Vcpu.init code () .el1 0 0 10 with
    cpu := { Cpu.init 0 0 with regs := p.1 }
    sr := p.2 }

/-- the page of the vectors: `eret` for an exception of EL1 itself, and for an interrupt of EL0
`mrs x0, elr_el1; mrs x1, spsr_el1; svc #0; msr elr_el1, x0; msr spsr_el1, x1; eret` -/
def nestedMemory : Memory :=
  programMemory (List.replicate 128 0 ++ [0xD69F03E0] ++ List.replicate 159 0 ++
    [0xD5384020, 0xD5384001, 0xD4000001, 0xD5184020, 0xD5184001, 0xD69F03E0])

/-- a core right after the interrupt, in a handler that takes an exception itself -/
def nestedHandler : Vcpu Memory Unit :=
  let p := excTake (Regs.init 0x4000 0x8000) userSysregs .irq (excRoute .el0) 0 none
  { Vcpu.init nestedMemory () .el1 0 0 10 with
    cpu := { Cpu.init 0 0 with regs := p.1 }
    sr := p.2 }

/-- the word of `eret`, decoded -/
def returnInsn : Insn :=
  { Insn.reset 0xD69F03E0 with rn := 31, op := .eret }

theorem decode_return {word : W32} (h : word = 0xD69F03E0) (pc : W64) :
    decode word pc = .ok returnInsn := by
  rw [h]
  rfl

/-- the state of the handler after so many steps -/
def nestedAfter : Nat → Vcpu Memory Unit
  | 0 => nestedHandler
  | n + 1 => (nestedAfter n).stepped

theorem nestedAfter_ok (n : Nat) (hn : n < 7) :
    vcpuStep Memory.memops ⟨0, 0⟩ (none : Option (EnvOps Memory Unit)) (nestedAfter n) =
      some (.ok, nestedAfter (n + 1)) := by
  refine Vcpu.stepped_ok ?_
  revert n
  decide +kernel

/-- the outer return, with the inner exception and its return in between -/
theorem eret_restores_nested :
    (nestedAfter 6).sr.taken.length = 2 ∧
      Restored (Regs.init 0x4000 0x8000) userSysregs nestedHandler (nestedAfter 6) (nestedAfter 7)
        .ok := by
  have hrun : Lts.Run (Machine Memory.memops ⟨0, 0⟩ (none : Option (EnvOps Memory Unit)))
      nestedHandler [.step .ok, .step .ok, .step .ok, .step .ok, .step .ok, .step .ok]
      (nestedAfter 6) :=
    .cons (.step .ok _ (nestedAfter_ok 0 (by decide)))
      (.cons (.step .ok _ (nestedAfter_ok 1 (by decide)))
        (.cons (.step .ok _ (nestedAfter_ok 2 (by decide)))
          (.cons (.step .ok _ (nestedAfter_ok 3 (by decide)))
            (.cons (.step .ok _ (nestedAfter_ok 4 (by decide)))
              (.cons (.step .ok _ (nestedAfter_ok 5 (by decide))) (.nil _))))))
  refine ⟨by decide +kernel, ?_⟩
  refine eret_restores Memory.memops ⟨0, 0⟩ (none : Option (EnvOps Memory Unit)) _ userSysregs ?_
    .irq 0 none _ _ _ rfl _ hrun ?_ ?_ ?_ ?_ ?_ ?_ returnInsn
    ⟨?_, ?_, ?_, decode_return ?_ _⟩ rfl .ok (nestedAfter_ok 6 (by decide))
  · exact ⟨by decide, by decide, by decide⟩
  all_goals decide +kernel

/-- code at EL3 about to be interrupted, its vectors at `0x1000` and `0x42` in `x0` -/
def el3Regs : Regs := (Regs.init 0x4000 0x8000).write 0 .w64 0x42

def el3Sysregs : Sysregs := (Sysregs.init el3Regs .el3).set (.vbarEl .el3) 0x1000

/-- `msr sp_el1, x0; eret` -/
def movingHandler : Vcpu Memory Unit :=
  enteredVcpu [0xD51C4100, 0xD69F03E0] (excTake el3Regs el3Sysregs .irq (excRoute .el3) 0 none)

/-- a handler at EL3 can name the stack pointer of EL1, and no return brings that one back -/
theorem eret_keeps_moved_sp :
    LegalPstate el3Sysregs.pstate ∧ (excRoute el3Sysregs.el).1 = .el3 ∧
      (movingHandler.cpu.regs, movingHandler.sr) =
        excTake el3Regs el3Sysregs .irq (excRoute el3Sysregs.el) 0 none ∧
      Lts.Run (Machine Memory.memops ⟨0, 0⟩ (none : Option (EnvOps Memory Unit)))
        movingHandler [.step .ok] movingHandler.stepped ∧
      movingHandler.stepped.sr.el = .el3 ∧
      (∀ f, f = .spsrEl .el3 ∨ f = .elrEl .el3 →
        movingHandler.stepped.sr.val f = movingHandler.sr.val f) ∧
      (∀ e, e = .el3 ∨ e = .el0 →
        spOf movingHandler.stepped.cpu.regs movingHandler.stepped.sr e =
          spOf movingHandler.cpu.regs movingHandler.sr e) ∧
      movingHandler.stepped.Reaches Memory.memops returnInsn ∧
      vcpuStep Memory.memops ⟨0, 0⟩ (none : Option (EnvOps Memory Unit)) movingHandler.stepped =
        some (.ok, movingHandler.stepped.stepped) ∧
      spOf movingHandler.stepped.stepped.cpu.regs movingHandler.stepped.stepped.sr .el1 = 0x42 ∧
      spOf el3Regs el3Sysregs .el1 = 0 := by
  refine ⟨⟨by decide, by decide, by decide⟩, by decide, rfl, .cons (.step .ok _ rfl) (.nil _),
    by decide, ?_, ?_, ⟨by decide, by decide, by decide, decode_return (by decide) _⟩,
    rfl, by decide, by decide⟩
  · rintro f (rfl | rfl) <;> decide
  · rintro e (rfl | rfl) <;> decide

end Oemu
