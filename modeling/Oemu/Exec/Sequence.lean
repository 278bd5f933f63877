import Oemu.Exec.Dispatch

/-!
# Instructions in sequence

Decoded instructions run one after the other, to the end or to the first that is refused.

* `execAll_cons`    an instruction that runs hands its state to the rest;
* `execAll_append`  a sequence that runs hands its state to the next.
-/

namespace Oemu

variable {σ ε : Type} (mem : Memops σ) (env : Option (EnvOps σ ε))

def execAll : List Insn → Cpu → σ × ε → Option ((Status × Cpu) × (σ × ε))
  | [], cpu, s => some ((.ok, cpu), s)
  | insn :: insns, cpu, s =>
    (dispatchBus mem env cpu insn s).bind fun p =>
      if p.1.1 = .ok then execAll insns p.1.2 p.2 else some p

variable {mem env} {cpu cpu' : Cpu} {s s' : σ × ε}

theorem execAll_cons {insn : Insn} (h : dispatchBus mem env cpu insn s = some ((.ok, cpu'), s'))
    (insns : List Insn) : execAll mem env (insn :: insns) cpu s = execAll mem env insns cpu' s' := by
  show (dispatchBus mem env cpu insn s).bind _ = _
  rw [h]
  rfl

theorem execAll_head {insn : Insn} {insns : List Insn} {cpu'' : Cpu} {s'' : σ × ε}
    (h : execAll mem env (insn :: insns) cpu s = some ((.ok, cpu''), s'')) :
    ∃ cpu' s', dispatchBus mem env cpu insn s = some ((.ok, cpu'), s') ∧
      execAll mem env insns cpu' s' = some ((.ok, cpu''), s'') := by
  change (dispatchBus mem env cpu insn s).bind _ = _ at h
  cases hd : dispatchBus mem env cpu insn s with
  | none =>
    rw [hd] at h
    cases h
  | some p =>
    obtain ⟨⟨st, cpu'⟩, s'⟩ := p
    rw [hd] at h
    change (if st = .ok then execAll mem env insns cpu' s' else some ((st, cpu'), s')) = _ at h
    by_cases hok : st = .ok
    · rw [if_pos hok] at h
      exact ⟨cpu', s', by rw [hok], h⟩
    · rw [if_neg hok] at h
      exact absurd (congrArg (fun q => q.1.1) (Option.some.inj h)) hok

theorem execAll_append {insns : List Insn}
    (h : execAll mem env insns cpu s = some ((.ok, cpu'), s')) (rest : List Insn) :
    execAll mem env (insns ++ rest) cpu s = execAll mem env rest cpu' s' := by
  induction insns generalizing cpu s with
  | nil =>
    cases Option.some.inj h
    rfl
  | cons insn insns ih =>
    obtain ⟨cpu₁, s₁, hd, hr⟩ := execAll_head h
    rw [List.cons_append, execAll_cons hd]
    exact ih hr

end Oemu
