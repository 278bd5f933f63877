import Oemu.Exec.Keep

/-!
# What a system call writes

The calls of an environment reach memory through the bus they are handed, so what a call leaves is a
state the bus reaches by reads, probes and the writes it accepted.

* `EnvWrites`     an environment with the writes of its calls;
* `clockWrites`   the two fields `clock_gettime` stores;
* `sysenvWrites`  the system-call surface, where no other call writes.
-/

namespace Oemu

variable {σ ε : Type} {mem : Memops σ}

/-- the bus goes from one state to another by its operations, accepting the writes of the list -/
inductive BusTrace (mem : Memops σ) : List Access → σ → σ → Prop where
  | nil (s : σ) : BusTrace mem [] s s
  | fetch32 {l : List Access} {s s' : σ} (a : W64)
      (h : BusTrace mem l (mem.fetch32 s a).2.2 s') : BusTrace mem l s s'
  | read {l : List Access} {s s' : σ} (a : W64) (size : MemSize) (sx : Bool)
      (h : BusTrace mem l (mem.read s a size sx).2.2 s') : BusTrace mem l s s'
  | validate {l : List Access} {s s' : σ} (a n : W64) (perms : W32)
      (h : BusTrace mem l (mem.validate s a n perms).2 s') : BusTrace mem l s s'
  | refused {l : List Access} {s s' : σ} (a : W64) (size : MemSize) (v : W64)
      (hst : (mem.write s a size v).1 ≠ .ok) (h : BusTrace mem l (mem.write s a size v).2 s') :
      BusTrace mem l s s'
  | write {l : List Access} {s s' : σ} (a : W64) (size : MemSize) (v : W64)
      (hst : (mem.write s a size v).1 = .ok) (h : BusTrace mem l (mem.write s a size v).2 s') :
      BusTrace mem (.write a size v :: l) s s'

namespace BusTrace

theorem append {l l' : List Access} {s s' s'' : σ} (h : BusTrace mem l s s')
    (h' : BusTrace mem l' s' s'') : BusTrace mem (l ++ l') s s'' := by
  induction h with
  | nil => exact h'
  | fetch32 a _ ih => exact .fetch32 a (ih h')
  | read a size sx _ ih => exact .read a size sx (ih h')
  | validate a n perms _ ih => exact .validate a n perms (ih h')
  | refused a size v hst _ ih => exact .refused a size v hst (ih h')
  | write a size v hst _ ih => exact .write a size v hst (ih h')

theorem probes (mem : Memops σ) : Probes mem (BusTrace mem []) where
  refl := .nil
  trans _ _ _ h h' := h.append h'
  read _ a size sx := .read a size sx (.nil _)
  validate _ a n perms := .validate a n perms (.nil _)
  fetch32 _ a := .fetch32 a (.nil _)

end BusTrace

/-- the writes of the calls of an environment, with the state each call leaves -/
structure EnvWrites (mem : Memops σ) (env : Option (EnvOps σ ε)) where
  writes : W64 → (Fin 6 → W64) → σ × ε → List Access
  traced : ∀ syscall, env.bind (·.syscall) = some syscall → ∀ nr args s,
    BusTrace mem (writes nr args s) s.1 (syscall mem nr args s).2.1

namespace Sysenv

/-- what `sys_clock_gettime` stores: both fields of the timespec, once both are granted -/
def clockWrites (clock : W64 → Option (W64 × W64)) (mem : Memops σ) (clockId tsAddr : W64) (s : σ) :
    List Access :=
  if clockId ≠ 0 ∧ clockId ≠ 1 then []
  else
    match clock clockId with
    | none => []
    | some (sec, nsec) =>
      match mem.validate s tsAddr 8 permWrite with
      | (.ok, s) =>
        match mem.validate s (tsAddr + 8) 8 permWrite with
        | (.ok, s) =>
          match mem.write s tsAddr .dword sec with
          | (.ok, s) =>
            match mem.write s (tsAddr + 8) .dword nsec with
            | (.ok, _) => [.write tsAddr .dword sec, .write (tsAddr + 8) .dword nsec]
            | _ => [.write tsAddr .dword sec]
          | _ => []
        | _ => []
      | _ => []

theorem clockWrites_traced (clock : W64 → Option (W64 × W64)) (mem : Memops σ)
    (clockId tsAddr : W64) (s : σ) :
    BusTrace mem (clockWrites clock mem clockId tsAddr s) s
      (sysClockGettime clock (some mem) clockId tsAddr s).2 := by
  unfold clockWrites sysClockGettime
  split
  · exact .nil s
  · rcases clock clockId with - | ⟨sec, nsec⟩
    · exact .nil s
    · dsimp only
      have h1 := (BusTrace.probes mem).validate s tsAddr 8 permWrite
      rcases hr₁ : mem.validate s tsAddr 8 permWrite with ⟨st₁, s₁⟩
      rw [hr₁] at h1
      cases st₁ <;> try exact h1
      have h2 := h1.append ((BusTrace.probes mem).validate s₁ (tsAddr + 8) 8 permWrite)
      dsimp only at h2 ⊢
      rcases hr₂ : mem.validate s₁ (tsAddr + 8) 8 permWrite with ⟨st₂, s₂⟩
      rw [hr₂] at h2
      cases st₂ <;> try exact h2
      dsimp only at h2 ⊢
      rcases hr₃ : mem.write s₂ tsAddr .dword sec with ⟨st₃, s₃⟩
      by_cases hst₃ : st₃ = .ok
      · subst hst₃
        have h3 : BusTrace mem [.write tsAddr .dword sec] s s₃ := by
          refine h2.append (.write tsAddr .dword sec (by rw [hr₃]) ?_)
          rw [hr₃]
          exact .nil s₃
        dsimp only
        rcases hr₄ : mem.write s₃ (tsAddr + 8) .dword nsec with ⟨st₄, s₄⟩
        by_cases hst₄ : st₄ = .ok
        · subst hst₄
          refine h3.append (.write (tsAddr + 8) .dword nsec (by rw [hr₄]) ?_)
          rw [hr₄]
          exact .nil s₄
        · have h4 : BusTrace mem [.write tsAddr .dword sec] s s₄ := by
            refine h3.append (.refused (tsAddr + 8) .dword nsec (by rwa [hr₄]) ?_)
            rw [hr₄]
            exact .nil s₄
          cases st₄ <;> first | exact absurd rfl hst₄ | exact h4
      · have h3 : BusTrace mem [] s s₃ := by
          refine h2.append (.refused tsAddr .dword sec (by rwa [hr₃]) ?_)
          rw [hr₃]
          exact .nil s₃
        cases st₃ <;> first | exact absurd rfl hst₃ | exact h3

/-- the writes of a call: only `clock_gettime` makes any -/
def callWrites (clock : W64 → Option (W64 × W64)) (mem : Memops σ) (nr : W64) (args : Fin 6 → W64)
    (s : σ) : List Access :=
  if nr.toNat = 113 then clockWrites clock mem (clockArgs args).1 (clockArgs args).2 s else []

theorem callWrites_traced (clock : W64 → Option (W64 × W64)) (mem : Memops σ) (nr : W64)
    (args : Fin 6 → W64) (s : σ × Sysenv) :
    BusTrace mem (callWrites clock mem nr args s.1) s.1
      (syscall clock (some mem) nr args s.1 s.2).2.1 := by
  have hp := BusTrace.probes mem
  unfold callWrites syscall
  by_cases h : nr.toNat = 113
  · rw [if_pos h, h]
    exact clockWrites_traced clock mem _ _ s.1
  · rw [if_neg h]
    split
    · exact hp.refl s.1
    · exact hp.refl s.1
    · exact sysWrite_keeps hp _ _ _ s.1 s.2
    · rename_i h113
      exact absurd h113 h
    · exact hp.refl s.1

def sysenvWrites (clock : W64 → Option (W64 × W64)) (mem : Memops σ) :
    EnvWrites mem (some (envops clock)) where
  writes nr args s := callWrites clock mem nr args s.1
  traced call hcall nr args s := by
    obtain rfl := Option.some.inj hcall
    exact callWrites_traced clock mem nr args s

end Sysenv

end Oemu
