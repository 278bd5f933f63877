import Oemu.Mmu.Bus
import Oemu.Memory
import Oemu.Aspace

/-!
# What the translated bus does to the physical one

The translation layer reaches the physical bus through its four operations only.  A relation on the
physical states that is reflexive and transitive and contains every read therefore relates the
states before and after a walk; one that contains the probes and the fetch too, those before and
after a `validate` and a fetch of the translated bus.

* `Reads.walk`, `Reads.translate`             the walk only reads;
* `Probes.mmuValidate`, `Probes.mmuFetch32`   the probes of the view are probes below it;
* `Quiet`   the part of a bus that only writes change.
-/

namespace Oemu

variable {σ : Type} {phys : Memops σ} {R : σ → σ → Prop}

/-- a preorder on the physical states that contains the reads -/
structure Reads (phys : Memops σ) (R : σ → σ → Prop) : Prop where
  refl : ∀ p, R p p
  trans : ∀ a b c, R a b → R b c → R a c
  read : ∀ p a size sx, R p (phys.read p a size sx).2.2

structure Probes (phys : Memops σ) (R : σ → σ → Prop) : Prop extends Reads phys R where
  validate : ∀ p a n perms, R p (phys.validate p a n perms).2
  fetch32 : ∀ p a, R p (phys.fetch32 p a).2.2

/-- and the writes -/
structure Keeps (phys : Memops σ) (R : σ → σ → Prop) : Prop extends Probes phys R where
  write : ∀ p a size value, R p (phys.write p a size value).2

/-- the verdicts of the bus stand -/
def Steady (phys : Memops σ) (I : σ → Prop) (p p' : σ) : Prop :=
  I p → I p' ∧ ∀ a n perms, (phys.validate p' a n perms).1 = (phys.validate p a n perms).1

/-- a bus whose verdicts stand, where a part of a granted range is granted, and which serves the
granted accesses of a kind -/
structure Firm (phys : Memops σ) (I : σ → Prop) (A : W64 → MemSize → Prop) : Prop
    extends Keeps phys (Steady phys I) where
  sub : ∀ p a n perms, I p → (phys.validate p a n perms).1 = .ok → ∀ j k, 0 < k →
    j + k ≤ n.toNat →
      (phys.validate p (a + BitVec.ofNat 64 j) (BitVec.ofNat 64 k) perms).1 = .ok
  serves : ∀ p a size, I p → A a size → size.bytes ≤ 8 →
    ((phys.validate p a (BitVec.ofNat 64 size.bytes) permRead).1 = .ok →
        ∀ sx, (phys.read p a size sx).1 = .ok) ∧
      ((phys.validate p a (BitVec.ofNat 64 size.bytes) permWrite).1 = .ok →
        ∀ value, (phys.write p a size value).1 = .ok)

namespace Reads

theorem walkTable (h : Reads phys R) (va : W64) (out rem : Nat) :
    ∀ (base : W64) (tattrs : BitVec 5) (p : σ),
      R p (Oemu.walkTable phys va out rem base tattrs p).2 := by
  induction rem with
  | zero =>
    intro base tattrs p
    have hr := h.read p (base ||| tableIndex va 3) .dword false
    unfold Oemu.walkTable
    rcases hp : phys.read p (base ||| tableIndex va 3) .dword false with ⟨st, raw, p'⟩
    rw [hp] at hr
    cases st <;> exact hr
  | succ rem ih =>
    intro base tattrs p
    have hr := h.read p (base ||| tableIndex va (2 - rem)) .dword false
    unfold Oemu.walkTable
    dsimp only
    rcases hp : phys.read p (base ||| tableIndex va (2 - rem)) .dword false with ⟨st, raw, p'⟩
    rw [hp] at hr
    dsimp only at hr
    cases st <;> try exact hr
    dsimp only
    split
    · split
      · exact hr
      · exact h.trans _ _ _ hr (ih _ _ _)
    · exact hr

theorem walkStage1 (h : Reads phys R) (sr : Sysregs) (va : W64) (p : σ) :
    R p (Oemu.walkStage1 sr phys va p).2 := by
  unfold Oemu.walkStage1
  dsimp only
  split
  · exact h.refl p
  · split
    · exact h.refl p
    · split
      · exact h.refl p
      · split
        · exact h.refl p
        · exact h.walkTable _ _ _ _ _ _

theorem walk (h : Reads phys R) (sr : Sysregs) (va : W64) (cur : El) (isWrite isFetch : Bool)
    (p : σ) : R p (Oemu.walk sr phys va cur isWrite isFetch p).2 := by
  have hs := h.walkStage1 sr va p
  unfold Oemu.walk
  split
  · exact h.refl p
  · split
    · exact h.refl p
    · split
      · rename_i _ _ heq
        rw [heq] at hs
        exact hs
      · rename_i _ _ heq
        rw [heq] at hs
        exact hs

theorem translateMiss (h : Reads phys R) (sr : Sysregs) (w : MmuWorld σ) (va : W64) (cur : El)
    (isWrite isFetch : Bool) :
    R w.phys (Oemu.translateMiss sr phys w va cur isWrite isFetch).2.phys := by
  have hw := h.walk sr va cur isWrite isFetch w.phys
  unfold Oemu.translateMiss
  rcases hr : Oemu.walk sr phys va cur isWrite isFetch w.phys with ⟨res, p⟩
  rw [hr] at hw
  cases res <;> exact hw

theorem translate (h : Reads phys R) (sr : Sysregs) (w : MmuWorld σ) (va : W64) (cur : El)
    (isWrite isFetch : Bool) :
    R w.phys (Oemu.translate sr phys w va cur isWrite isFetch).2.phys := by
  unfold Oemu.translate
  dsimp only
  split
  · rcases hl : tlbLookup (epochCheck w.mmu sr) (walkVa (sr.val .tcrEl1) va) cur isWrite isFetch
      with ⟨served, m⟩
    cases served with
    | served pa => exact h.refl w.phys
    | denied f => exact h.refl w.phys
    | miss => exact h.translateMiss sr ⟨m, w.phys⟩ va cur isWrite isFetch
  · exact h.translateMiss sr ⟨epochCheck w.mmu sr, w.phys⟩ va cur isWrite isFetch

end Reads

namespace Probes

theorem validateLoop (h : Probes phys R) (sr : Sysregs) (va size : W64) (perms : W32)
    (fuel : Nat) : ∀ (off : W64) (w : MmuWorld σ),
      R w.phys (Oemu.validateLoop sr phys va size perms fuel off w).2.phys := by
  induction fuel with
  | zero =>
    intro off w
    exact h.refl w.phys
  | succ fuel ih =>
    intro off w
    unfold Oemu.validateLoop
    dsimp only
    split
    · have ht := h.translate sr w (va + off) sr.el (perms.getLsbD 1) (perms.getLsbD 2)
      rcases hr : Oemu.translate sr phys w (va + off) sr.el (perms.getLsbD 1) (perms.getLsbD 2)
        with ⟨t, w'⟩
      rw [hr] at ht
      cases t with
      | error f => exact ht
      | ok pa =>
        dsimp only
        generalize (if 4096 - ((va + off) &&& pageMask) ≤ size - off then
          4096 - ((va + off) &&& pageMask) else size - off) = chunk
        have hv := h.validate w'.phys pa chunk perms
        rcases hq : phys.validate w'.phys pa chunk perms with ⟨st, p⟩
        rw [hq] at hv
        cases st <;> try exact h.trans _ _ _ ht hv
        exact h.trans _ _ _ ht (h.trans _ _ _ hv (ih (off + chunk) ⟨w'.mmu, p⟩))
    · exact h.refl w.phys

theorem mmuValidate (h : Probes phys R) (sr : Sysregs) (w : MmuWorld σ) (va size : W64)
    (perms : W32) : R w.phys (Oemu.mmuValidate sr phys w va size perms).2.phys :=
  h.validateLoop sr va size perms size.toNat 0 w

theorem mmuFetch32 (h : Probes phys R) (sr : Sysregs) (w : MmuWorld σ) (va : W64) :
    R w.phys (Oemu.mmuFetch32 sr phys w va).2.2.phys := by
  unfold Oemu.mmuFetch32
  dsimp only
  have ht := h.translate sr w va sr.el false true
  rcases hr : Oemu.translate sr phys w va sr.el false true with ⟨t, w'⟩
  rw [hr] at ht
  cases t with
  | error f => exact ht
  | ok pa =>
    dsimp only
    have hv := h.validate w'.phys pa 4 permExec
    rcases hq : phys.validate w'.phys pa 4 permExec with ⟨st, p⟩
    rw [hq] at hv
    have htv := h.trans _ _ _ ht hv
    cases st <;> try exact htv
    dsimp only
    have hf := h.fetch32 p pa
    rcases hg : phys.fetch32 p pa with ⟨st, word, p'⟩
    rw [hg] at hf
    cases st <;> exact h.trans _ _ _ htv hf

end Probes

/-! ## guest memory -/

/-- a part of the physical bus that only writes change -/
def Quiet {μ : Type} (phys : Memops σ) (view : σ → μ) : Prop :=
  Probes phys fun p p' => view p' = view p

theorem quiet_memory : Quiet Memory.memops (id : Memory → Memory) where
  refl _ := rfl
  trans _ _ _ h h' := h'.trans h
  read _ _ _ _ := rfl
  validate _ _ _ _ := rfl
  fetch32 _ _ := rfl

theorem quiet_aspace {δ : Type} : Quiet (Aspace.memops : Memops (Aspace δ)) Aspace.ram where
  refl _ := rfl
  trans _ _ _ h h' := h'.trans h
  read := Aspace.read_ram
  validate _ _ _ _ := rfl
  fetch32 _ _ := rfl

end Oemu
