import Oemu.Exec.Precise
import Oemu.Sysenv.Write
import Oemu.Vcpu.RunLoop
import Oemu.Mmu.Frame
import Oemu.Aspace.Agree

/-!
# What a user-mode run keeps

A relation that every operation of a bus keeps is kept by a step of a user-mode process on it, the
system calls included, and by a run.

* `execStepBus_keeps`   one step;
* `Memory.keeps`        writes stay in the regions that may be written.
-/

namespace Oemu

variable {σ ε : Type} {mem : Memops σ} {R : σ → σ → Prop}

/-! ## the executor -/

theorem Keeps.act (h : Keeps mem R) (i : Access) (s : σ) (b : W64) (s' : σ)
    (ha : (busOps mem).act i s = some (b, s')) : R s s' := by
  cases i with
  | read a n sx =>
    change (if (mem.read s a n sx).1 = .ok then some (mem.read s a n sx).2 else none) = _ at ha
    split at ha
    · rw [← show (mem.read s a n sx).2.2 = s' from congrArg Prod.snd (Option.some.inj ha)]
      exact h.read s a n sx
    · cases ha
  | write a n value =>
    change (if (mem.write s a n value).1 = .ok then some (0, (mem.write s a n value).2) else none) =
      _ at ha
    split at ha
    · cases ha
      exact h.write s a n value
    · cases ha

theorem Keeps.dispatchShared (h : Keeps mem R) {cpu : Cpu} {insn : Insn} {s s' : σ}
    {res : Status × Cpu} (hd : Oemu.dispatchShared mem cpu insn s = some (res, s')) : R s s' := by
  have hcheck : ∀ (l : List Check) (s : σ), R s (Txn.checkAll (busOps mem) l s).2 := fun l s =>
    Txn.checkAll_rel h.refl h.trans (busOps mem)
      (fun c _ s => h.validate s c.addr c.size c.perm) s
  rcases dispatchShared_run hd with ⟨-, -, hs⟩ | ⟨t, -, -, hc⟩ | ⟨t, s₁, vs, -, hc, ha, -⟩
  · rw [hs]
    exact h.refl s
  · have hr := hcheck t.checks s
    rwa [hc] at hr
  · have hr := hcheck t.checks s
    rw [hc] at hr
    exact h.trans _ _ _ hr (Txn.actAll_rel h.refl h.trans (busOps mem)
      (fun i _ s b s' hi => h.act i s b s' hi) ha)

def EnvKeeps (mem : Memops σ) (env : Option (EnvOps σ ε)) (R : σ → σ → Prop) : Prop :=
  ∀ syscall, env.bind (·.syscall) = some syscall → ∀ nr args s e,
    R s (syscall mem nr args (s, e)).2.1

/-- **one step of a process** -/
theorem execStepBus_keeps (h : Keeps mem R) {env : Option (EnvOps σ ε)} (he : EnvKeeps mem env R)
    {cpu : Cpu} {s s' : σ × ε} {res : Status × Cpu}
    (hstep : execStepBus mem env cpu s = some (res, s')) : R s.1 s'.1 := by
  have hfetch := h.fetch32 s.1 cpu.regs.pc
  rcases execStepBus_run hstep with ⟨-, h2, -⟩ | ⟨insn, -, hd⟩
  · rw [h2]
    exact hfetch
  · refine h.trans _ _ _ hfetch ?_
    unfold dispatchBus at hd
    split at hd
    · have e : (fallThrough <$> doSvc env mem cpu) ((mem.fetch32 s.1 cpu.regs.pc).2.2, s.2) =
          (doSvc env mem cpu ((mem.fetch32 s.1 cpu.regs.pc).2.2, s.2)).bind
            fun p => some (fallThrough p.1, p.2) := rfl
      rw [e] at hd
      unfold doSvc at hd
      cases hs : env.bind (·.syscall) with
      | none =>
        rw [hs] at hd
        cases hd
        exact h.refl _
      | some syscall =>
        rw [hs] at hd
        cases hd
        exact he syscall hs _ _ _ _
    · unfold onBus at hd
      cases hs : Oemu.dispatchShared mem cpu insn (mem.fetch32 s.1 cpu.regs.pc).2.2 with
      | none =>
        rw [hs] at hd
        cases hd
      | some p =>
        rw [hs] at hd
        cases hd
        exact h.dispatchShared (show _ = some (p.1, p.2) from hs)

/-! ## the system calls -/

namespace Sysenv

theorem readChunk_keeps (h : Reads mem R) (a : W64) (n : Nat) :
    ∀ (i : Nat) (s : σ), R s (readChunk mem a i n s).2 := by
  induction n with
  | zero => exact fun _ s => h.refl s
  | succ n ih =>
    intro i s
    have hread := h.read s (a + BitVec.ofNat 64 i) .byte false
    unfold readChunk
    rcases hr : mem.read s (a + BitVec.ofNat 64 i) .byte false with ⟨st, byte, s₁⟩
    rw [hr] at hread
    cases st <;> first | exact hread | exact h.trans _ _ _ hread (ih (i + 1) s₁)

theorem writeTurn_keeps (h : Reads mem R) (buf : W64) (count : Nat) (c : Copy σ) :
    (∀ r, writeTurn mem buf count c = .inl r → R c.bus r.2.1) ∧
      ∀ c', writeTurn mem buf count c = .inr c' → R c.bus c'.bus := by
  unfold writeTurn
  split
  · dsimp only
    have hk := readChunk_keeps h (buf + BitVec.ofNat 64 c.written)
      (min (count - c.written) chunkSize) 0 c.bus
    rcases hr : readChunk mem (buf + BitVec.ofNat 64 c.written) 0
      (min (count - c.written) chunkSize) c.bus with ⟨chunk, s⟩
    rw [hr] at hk
    cases chunk with
    | none => exact ⟨fun r hr => Sum.inl.inj hr ▸ hk, nofun⟩
    | some chunk =>
      dsimp only
      split
      · exact ⟨fun r hr => Sum.inl.inj hr ▸ hk, nofun⟩
      · exact ⟨nofun, fun c' hc => Sum.inr.inj hc ▸ hk⟩
  · exact ⟨fun r hr => Sum.inl.inj hr ▸ h.refl _, nofun⟩

theorem writeLoop_keeps (h : Reads mem R) (buf : W64) (count : Nat) (c : Copy σ) :
    R c.bus (writeLoop mem buf count c).2.1 := by
  have hturns : ∀ (n : Nat) (c₀ : Copy σ), R c.bus c₀.bus →
      R c.bus (Consume.turns (writeTurn mem buf count) (0, c.bus, c.file) n c₀).2.1 := by
    intro n
    induction n with
    | zero => exact fun _ _ => h.refl _
    | succ n ih =>
      intro c₀ hc
      obtain ⟨hret, hnext⟩ := writeTurn_keeps h buf count c₀
      rw [Consume.turns_succ]
      cases ht : writeTurn mem buf count c₀ with
      | inl r => exact h.trans _ _ _ hc (hret r ht)
      | inr c' => exact ih c' (h.trans _ _ _ hc (hnext c' ht))
  exact hturns _ c (h.refl _)

theorem sysWrite_keeps (h : Probes mem R) (fd buf count : W64) (s : σ) (env : Sysenv) :
    R s (sysWrite (some mem) fd buf count s env).2.1 := by
  unfold sysWrite
  split
  · exact h.refl s
  · split
    · exact h.refl s
    · dsimp only
      split
      · exact h.refl s
      · have hv := h.validate s buf count permRead
        rcases hr : mem.validate s buf count permRead with ⟨st, s₁⟩
        rw [hr] at hv
        cases st <;> try exact hv
        exact h.trans _ _ _ hv (writeLoop_keeps h.toReads buf count.toNat ⟨s₁, env.stream, 0⟩)

theorem sysClockGettime_keeps (h : Keeps mem R) (clock : W64 → Option (W64 × W64))
    (clockId tsAddr : W64) (s : σ) :
    R s (sysClockGettime clock (some mem) clockId tsAddr s).2 := by
  unfold sysClockGettime
  split
  · exact h.refl s
  · rcases clock clockId with - | ⟨sec, nsec⟩
    · exact h.refl s
    · dsimp only
      have h1 := h.validate s tsAddr 8 permWrite
      rcases hr₁ : mem.validate s tsAddr 8 permWrite with ⟨st₁, s₁⟩
      rw [hr₁] at h1
      cases st₁ <;> try exact h1
      have h2 := h.trans _ _ _ h1 (h.validate s₁ (tsAddr + 8) 8 permWrite)
      dsimp only at h2 ⊢
      rcases hr₂ : mem.validate s₁ (tsAddr + 8) 8 permWrite with ⟨st₂, s₂⟩
      rw [hr₂] at h2
      cases st₂ <;> try exact h2
      have h3 := h.trans _ _ _ h2 (h.write s₂ tsAddr .dword sec)
      dsimp only at h3 ⊢
      rcases hr₃ : mem.write s₂ tsAddr .dword sec with ⟨st₃, s₃⟩
      rw [hr₃] at h3
      cases st₃ <;> try exact h3
      have h4 := h.trans _ _ _ h3 (h.write s₃ (tsAddr + 8) .dword nsec)
      dsimp only at h4 ⊢
      rcases hr₄ : mem.write s₃ (tsAddr + 8) .dword nsec with ⟨st₄, s₄⟩
      rw [hr₄] at h4
      cases st₄ <;> exact h4

theorem syscall_keeps (h : Keeps mem R) (clock : W64 → Option (W64 × W64)) (nr : W64)
    (args : Fin 6 → W64) (s : σ) (env : Sysenv) :
    R s (syscall clock (some mem) nr args s env).2.1 := by
  unfold syscall
  split
  · exact h.refl s
  · exact h.refl s
  · exact sysWrite_keeps h.toProbes _ _ _ s env
  · exact sysClockGettime_keeps h clock _ _ s
  · exact h.refl s

/-- **the environment of a process** -/
theorem envops_keeps (h : Keeps mem R) (clock : W64 → Option (W64 × W64)) :
    EnvKeeps mem (some (envops clock)) R := by
  intro call hcall nr args s e
  obtain rfl := Option.some.inj hcall
  exact syscall_keeps h clock nr args s e

end Sysenv

/-! ## a run -/

/-- the states of a loop with a budget are those of its machine -/
theorem execRunBus_keeps (h : Keeps mem R) {env : Option (EnvOps σ ε)} (he : EnvKeeps mem env R)
    {maxInsns : W64} {s s' : Cpu × σ × ε} {st : Status} {done : Nat}
    (hrun : execRunBus mem env maxInsns s = some (st, done, s')) : R s.2.1 s'.2.1 := by
  have hafter : ∀ (n d : Nat) (s : Cpu × σ × ε) (st : Status) (done : Nat) (s' : Cpu × σ × ε),
      Budget.after (execStep mem env) (fun s => envHalted env s.2.2) .ok .timeout n d s =
        some (st, done, s') → R s.2.1 s'.2.1 := by
    intro n
    induction n with
    | zero =>
      intro d s st done s' hr
      cases hr
      exact h.refl _
    | succ n ih =>
      intro d s st done s' hr
      rw [Budget.after_succ] at hr
      cases hs : execStep mem env s with
      | none =>
        rw [hs] at hr
        cases hr
      | some p =>
        have hp : R s.2.1 p.2.2.1 := by
          unfold execStep at hs
          cases hq : execStepBus mem env s.1 s.2 with
          | none =>
            rw [hq] at hs
            cases hs
          | some q =>
            rw [hq] at hs
            cases hs
            exact execStepBus_keeps h he (show _ = some (q.1, q.2) from hq)
        rw [hs, Option.bind_some] at hr
        split at hr
        · split at hr
          · cases hr
            exact hp
          · exact h.trans _ _ _ hp (ih _ _ _ _ _ hr)
        · cases hr
          exact hp
  exact hafter _ _ _ _ _ _ hrun

/-! ## protected memory -/

namespace Memory

/-- the address lies in a region that may be written -/
def Writable (mem : Memory) (x : Nat) : Prop :=
  ∃ r ∈ mem.regions, r.perms &&& permWrite = permWrite ∧ r.span.Covers x 1

/-- one region table, separate buffers still, and the same bytes wherever no write may go -/
structure Guarded (mem mem' : Memory) : Prop where
  separate : mem'.Separate
  regions : mem'.regions = mem.regions
  capacity : mem'.capacity = mem.capacity
  view : ∀ x, ¬ mem.Writable x → mem'.view x = mem.view x

theorem write_guarded {mem : Memory} (h : mem.Separate) (a value : W64) (n : MemSize) :
    Guarded mem (mem.write a n value).2 := by
  obtain ⟨hr, hc⟩ := mem.write_table a n value
  refine ⟨h.write a n value, hr, hc, ?_⟩
  intro x hx
  by_cases hw : (mem.write a n value).1 = .ok
  · rw [write_view h hw]
    refine if_neg ?_
    rintro ⟨hlo, hhi⟩
    obtain ⟨r, hf, -⟩ := write_ok hw
    obtain ⟨-, hr, hp, hcov⟩ := (find_iff h.ok _ _ _ _).mp hf
    rw [n.toNat_bytes] at hcov
    exact hx ⟨r, hr, hp, hcov.sub hlo (by omega)⟩
  · rw [show (mem.write a n value).2 = mem from call_failed (c := .write a n value) hw]

/-- **writes stay in the regions that may be written** -/
theorem keeps : Keeps memops (fun mem mem' => mem.Separate → Guarded mem mem') where
  refl mem h := ⟨h, rfl, rfl, fun _ _ => rfl⟩
  trans a b c hab hbc ha := by
    have h1 := hab ha
    have h2 := hbc h1.separate
    refine ⟨h2.separate, h2.regions.trans h1.regions, h2.capacity.trans h1.capacity, ?_⟩
    intro x hx
    have hx' : ¬ b.Writable x := by
      unfold Writable
      rw [h1.regions]
      exact hx
    exact (h2.view x hx').trans (h1.view x hx)
  read mem _ _ _ h := ⟨h, rfl, rfl, fun _ _ => rfl⟩
  validate mem _ _ _ h := ⟨h, rfl, rfl, fun _ _ => rfl⟩
  fetch32 mem _ h := ⟨h, rfl, rfl, fun _ _ => rfl⟩
  write mem a n value h := write_guarded h a value n

end Memory

end Oemu
