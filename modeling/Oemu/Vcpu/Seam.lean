import Oemu.Vcpu.Panic
import Oemu.Mmu.Transparent

/-!
# The bus seam

The executor relies on one promise of whatever is behind the seam: an access whose range was just
validated is answered.  The memory of a process keeps it.  An address space breaks it for a
misaligned access of a device, and the translated view for a misaligned access that the alignment
policy refuses, which no probe looks at; so a guest of the virtual CPU can take the host down.

* `SeamIff`                 the promise of one provider, and the accesses it breaks it for;
* `Aspace.answered_iff`     an address space;
* `Firm.answered_iff`       the translated view over any firm bus;
* `seam_sound`              every provider in every state it can reach, and both executors.
-/

namespace Oemu

variable {σ : Type}

/-! ## the promise -/

/-- the range of the access was validated -/
def Passed (mem : Memops σ) (s : σ) (a : W64) (size : MemSize) (isWrite : Bool) : Prop :=
  (mem.validate s a size.count (accessPerm isWrite)).1 = .ok

instance (mem : Memops σ) (s : σ) (a : W64) (size : MemSize) (isWrite : Bool) :
    Decidable (Passed mem s a size isWrite) :=
  inferInstanceAs (Decidable (_ = _))

/-- the access succeeds, with any value stored and either extension of the value loaded -/
def Answered (mem : Memops σ) (s : σ) (a : W64) (size : MemSize) : Bool → Prop
  | false => ∀ sx, (mem.read s a size sx).1 = .ok
  | true => ∀ value, (mem.write s a size value).1 = .ok

/-- in the states of a kind, an access made right after its range was validated succeeds, but for
those of another kind, which fail -/
def SeamIff (mem : Memops σ) (R : σ → Prop) (Fails : σ → W64 → MemSize → Prop) : Prop :=
  ∀ s, R s → ∀ a size isWrite, size.bytes ≤ 8 → Passed mem s a size isWrite →
    (Answered mem (mem.validate s a size.count (accessPerm isWrite)).2 a size isWrite ↔
      ¬ Fails s a size)

/-! ## the two providers -/

namespace Memory

/-- the states of a memory after any history of calls -/
def Reached (mem : Memory) : Prop :=
  ∃ heap table capacity mem₀ l, init heap table capacity = .ok mem₀ ∧ Lts.Run Calls mem₀ l mem

theorem Reached.ok {mem : Memory} (h : mem.Reached) : mem.Ok := by
  obtain ⟨heap, table, capacity, mem₀, l, hinit, hrun⟩ := h
  exact ok_calls hinit hrun

theorem answered {mem : Memory} (hok : mem.Ok) {a : W64} {size : MemSize} {isWrite : Bool}
    (h8 : size.bytes ≤ 8) (hv : Passed memops mem a size isWrite) :
    Answered memops mem a size isWrite := by
  obtain ⟨hread, hwrite⟩ := firm.serves mem a size hok trivial h8
  unfold Passed at hv
  rw [count_eq] at hv
  cases isWrite with
  | false => exact hread hv
  | true => exact hwrite hv

end Memory

namespace Aspace

variable {δ : Type}

/-- the states of an address space after any history of calls and accesses, with devices that answer
every callback -/
structure Reached (as : Aspace δ) : Prop where
  serving : as.Serving
  history : ∃ heap dev table capacity as₀ l, init heap dev table capacity = .ok as₀ ∧
    Lts.Run Move as₀ l as

theorem Reached.sound {as : Aspace δ} (h : as.Reached) : as.Sound := by
  obtain ⟨heap, dev, table, capacity, as₀, l, hinit, hrun⟩ := h.history
  exact ⟨ok_moves hinit hrun, h.serving⟩

/-- the range meets a device -/
def OnDevice (as : Aspace δ) (a : W64) (n : Nat) : Prop :=
  ∃ r ∈ as.regions, r.span.Covers a.toNat n ∧ ∃ ops, r.backing = .device ops

theorem misaligned_fails {as : Aspace δ} {a : W64} {size : MemSize} {r : AspaceRegion δ}
    {ops : DeviceOps δ} (hmis : misaligned a size = true) (hb : r.backing = .device ops)
    {isWrite : Bool}
    (hf : as.find a (BitVec.ofNat 64 size.bytes) (accessPerm isWrite) = some r) :
    ¬ Answered memops as a size isWrite := by
  have hmod := misaligned_iff.mp hmis
  cases isWrite with
  | false =>
    intro h
    have hr : (as.read a size false).1 = .ok := h false
    unfold read at hr
    rw [show as.find a (BitVec.ofNat 64 size.bytes) permRead = some r from hf] at hr
    dsimp only at hr
    rw [hb] at hr
    dsimp only at hr
    rw [if_pos hmod] at hr
    cases hr
  | true =>
    intro h
    have hw : (as.write a size 0).1 = .ok := h 0
    unfold write at hw
    rw [show as.find a (BitVec.ofNat 64 size.bytes) permWrite = some r from hf] at hw
    dsimp only at hw
    rw [hb] at hw
    dsimp only at hw
    rw [if_pos hmod] at hw
    cases hw

theorem ram_answered {as : Aspace δ} {a : W64} {size : MemSize} {r : AspaceRegion δ} {host : Nat}
    {owned : Bool} (hb : r.backing = .ram host owned) {isWrite : Bool}
    (hf : as.find a (BitVec.ofNat 64 size.bytes) (accessPerm isWrite) = some r) :
    Answered memops as a size isWrite := by
  cases isWrite with
  | false =>
    intro sx
    show (as.read a size sx).1 = .ok
    unfold read
    rw [show as.find a (BitVec.ofNat 64 size.bytes) permRead = some r from hf]
    dsimp only
    rw [hb]
  | true =>
    intro value
    show (as.write a size value).1 = .ok
    unfold write
    rw [show as.find a (BitVec.ofNat 64 size.bytes) permWrite = some r from hf]
    dsimp only
    rw [hb]

/-- **an address space keeps the promise** but for the misaligned accesses of a device -/
theorem answered_iff {as : Aspace δ} (hs : as.Sound) {a : W64} {size : MemSize} {isWrite : Bool}
    (h8 : size.bytes ≤ 8) (hv : Passed memops as a size isWrite) :
    Answered memops as a size isWrite ↔
      ¬ (misaligned a size = true ∧ as.OnDevice a size.bytes) := by
  unfold Passed at hv
  rw [count_eq] at hv
  obtain ⟨r, hf⟩ := validate_found hv
  obtain ⟨-, hr, -, hcov⟩ := (find_iff hs.ok _ _ _ _).mp hf
  rw [MemSize.toNat_bytes] at hcov
  constructor
  · rintro h ⟨hmis, r', hr', hcov', ops, hb⟩
    obtain rfl := Span.Table.unique hs.ok size.bytes_pos hr' hr hcov' hcov
    exact misaligned_fails hmis hb hf h
  · intro h
    cases hb : r.backing with
    | ram host owned => exact ram_answered hb hf
    | device ops =>
      have hal : misaligned a size = false :=
        Bool.eq_false_of_not_eq_true fun hmis => h ⟨hmis, r, hr, hcov, ops, hb⟩
      obtain ⟨hread, hwrite⟩ := firm.serves as a size hs hal h8
      cases isWrite with
      | false => exact hread hv
      | true => exact hwrite hv

end Aspace

/-! ## the view -/

/-- the states of the view: a bus it can be stacked on, and a layer that has run over such buses -/
structure ViewReached (phys : Memops σ) (R : σ → Prop) (w : MmuWorld σ) : Prop where
  bus : R w.phys
  layer : Mmu.Reached phys w.mmu

section

variable {phys : Memops σ} {I : σ → Prop} {A : W64 → MemSize → Prop} (hf : Firm phys I A)

include hf

/-- **the view keeps the promise** but for the misaligned accesses that the policy refuses -/
theorem Firm.answered_iff (hA : ServesAligned A) (sr : Sysregs) (f₀ : MmuFault) {w : MmuWorld σ}
    (hs : Settled phys I w) {a : W64} {size : MemSize} {isWrite : Bool} (h8 : size.bytes ≤ 8)
    (hv : Passed (mmuMemops sr phys f₀) w a size isWrite) :
    Answered (mmuMemops sr phys f₀)
        ((mmuMemops sr phys f₀).validate w a size.count (accessPerm isWrite)).2 a size isWrite ↔
      ¬ Forbidden sr a size := by
  have hpl : Check.Placed a 8 ⟨a, size.count, accessPerm isWrite⟩ :=
    ⟨0, isWrite, (BitVec.add_zero a).symm, by rw [Nat.zero_add, toNat_count]; exact h8, rfl⟩
  have hcheck : (busOps (mmuMemops sr phys f₀)).check ⟨a, size.count, accessPerm isWrite⟩ w =
      (true, ((mmuMemops sr phys f₀).validate w a size.count (accessPerm isWrite)).2) :=
    Prod.ext (decide_eq_true hv) rfl
  have hst := hf.check_stands hpl (by decide) hs hcheck
  have hcalm := hf.check_calm sr f₀ hpl (by decide) w
  rw [hcheck] at hcalm
  have hs' := hs.calm hcalm
  constructor
  · intro h hp
    cases isWrite with
    | false => exact mmuRead_forbidden hp false (h false)
    | true => exact mmuWrite_forbidden hp 0 (h 0)
  · intro hp
    cases isWrite with
    | false =>
      intro sx
      obtain ⟨v, w', hact, -⟩ :=
        hf.access_served f₀ hA (i := .read a size sx) h8 hs' hst (by decide) hp
      by_contra hne
      exact absurd (hact.symm.trans (if_neg hne)) (Option.some_ne_none _)
    | true =>
      intro value
      obtain ⟨v, w', hact, -⟩ :=
        hf.access_served f₀ hA (i := .write a size value) h8 hs' hst (by decide) hp
      by_contra hne
      exact absurd (hact.symm.trans (if_neg hne)) (Option.some_ne_none _)

end

/-! ## runs -/

/-- the core and what goes on beside it, with the bus always left in a state it can reach -/
def SeamMachine {ε τ : Type} (phys : Memops σ) (R : σ → Prop) (f₀ : MmuFault)
    (env : Option (EnvOps τ ε)) (v : Vcpu σ ε) (i : Label) (v' : Vcpu σ ε) : Prop :=
  Machine phys f₀ env v i v' ∧ (i = .host → R v'.world.phys)

/-- in every run, the states in which a load or store takes the host down: it trips.  An `ERET`
makes no access. -/
def AbortIff (ε τ : Type) (phys : Memops σ) (R : σ → Prop) (f₀ : MmuFault) : Prop :=
  ∀ (env : Option (EnvOps τ ε)) (v u : Vcpu σ ε) (l : List Label), ViewReached phys R v.world →
    Lts.Run (SeamMachine phys R f₀ env) v l u →
      (∀ insn, u.Reaches phys insn → insn.op ≠ .eret) →
        (vcpuStep phys f₀ env u = none ↔ ∃ insn, u.Reaches phys insn ∧
          Trips u.tick.sr phys f₀ u.cpu insn (u.fetch phys).2.2)

theorem Firm.abortIff {phys : Memops σ} {I R : σ → Prop} {A : W64 → MemSize → Prop}
    (hf : Firm phys I A) (hA : ServesAligned A) (hR : ∀ p, R p → I p) (ε τ : Type)
    (f₀ : MmuFault) : AbortIff ε τ phys R f₀ := by
  intro env v u l hv hrun heret
  have hu : Settled phys I u.world :=
    hrun.invariant (I := fun v => Settled phys I v.world) (A := fun _ => True)
      (fun _ _ _ h _ hm => hf.machine_settled h hm.1 fun hi => hR _ (hm.2 hi))
      (fun _ _ => trivial) ⟨hR _ hv.bus, hv.layer⟩
  rw [hf.step_panics hA env hu]
  constructor
  · rintro ⟨insn, hr, htrips | hstranded⟩
    · exact ⟨insn, hr, htrips⟩
    · exact absurd hstranded.1 (heret insn hr)
  · rintro ⟨insn, hr, htrips⟩
    exact ⟨insn, hr, .inl htrips⟩

/-- **the bus seam**: what each provider promises, in every state it can reach, and what that is to
the host.  User mode never takes it down; the virtual CPU does where a checked load or store is
misaligned and the policy of the moment refuses it. -/
theorem seam_sound (δ ε τ : Type) (f₀ : MmuFault) :
    SeamIff Memory.memops Memory.Reached (fun _ _ _ => False) ∧
    SeamIff (Aspace.memops : Memops (Aspace δ)) Aspace.Reached
      (fun as a size => misaligned a size = true ∧ as.OnDevice a size.bytes) ∧
    (∀ sr, SeamIff (mmuMemops sr Memory.memops f₀) (ViewReached Memory.memops Memory.Reached)
      (fun _ a size => Forbidden sr a size)) ∧
    (∀ sr, SeamIff (mmuMemops sr (Aspace.memops : Memops (Aspace δ)) f₀)
      (ViewReached Aspace.memops Aspace.Reached) (fun _ a size => Forbidden sr a size)) ∧
    (∀ (env : Option (EnvOps Memory ε)) (cpu : Cpu) (mem : Memory) (e : ε), mem.Reached →
      execStepBus Memory.memops env cpu (mem, e) ≠ none) ∧
    AbortIff ε τ Memory.memops Memory.Reached f₀ ∧
    AbortIff ε τ (Aspace.memops : Memops (Aspace δ)) Aspace.Reached f₀ := by
  have hmemory : ServesAligned fun _ _ => True := fun _ _ _ => trivial
  have haspace : ServesAligned fun pa size => misaligned pa size = false := fun _ _ hal => hal
  refine ⟨?_, ?_, ?_, ?_, ?_, ?_, ?_⟩
  · intro mem hm a size isWrite h8 hv
    exact iff_of_true (Memory.answered hm.ok h8 hv) not_false
  · intro as has a size isWrite h8 hv
    exact Aspace.answered_iff has.sound h8 hv
  · intro sr w hw a size isWrite h8 hv
    exact Memory.firm.answered_iff hmemory sr f₀ ⟨hw.bus.ok, hw.layer⟩ h8 hv
  · intro sr w hw a size isWrite h8 hv
    exact Aspace.firm.answered_iff haspace sr f₀ ⟨hw.bus.sound, hw.layer⟩ h8 hv
  · intro env cpu mem e hm h
    obtain ⟨p, hp⟩ := execStepBus_total Memory.firm (fun _ _ => trivial) env cpu (s := (mem, e)) hm.ok
    cases h.symm.trans hp
  · exact Memory.firm.abortIff hmemory (fun _ h => h.ok) ε τ f₀
  · exact Aspace.firm.abortIff haspace (fun _ h => h.sound) ε τ f₀

/-- a misaligned word of a device: refused on the bus, served byte by byte through the view -/
theorem seam_sound_device :
    ¬ Answered Aspace.memops deviceBus 0x1002 .word false ∧
      Answered (mmuMemops resetSysregs Aspace.memops ⟨0, 0⟩)
        ((mmuMemops resetSysregs Aspace.memops ⟨0, 0⟩).validate ⟨Mmu.init, deviceBus⟩ 0x1002
          MemSize.word.count permRead).2 0x1002 .word false := by
  have hbus : deviceBus.Reached := by
    refine ⟨?_, fun _ => 0, (), true, 1, emptyAspace, _, rfl, deviceBus_run⟩
    intro r hr ops hb dev off size _
    obtain rfl := List.mem_singleton.mp hr
    cases hb
    exact ⟨rfl, fun _ => rfl⟩
  obtain ⟨-, hdevice, -, hview, -⟩ := seam_sound Unit Unit Unit ⟨0, 0⟩
  constructor
  · intro h
    refine (hdevice deviceBus hbus 0x1002 .word false (by decide) (by decide)).mp h ⟨by decide, ?_⟩
    exact ⟨_, List.mem_singleton_self _, ⟨by decide, by decide⟩, _, rfl⟩
  · exact (hview resetSysregs ⟨Mmu.init, deviceBus⟩ ⟨hbus, .init⟩ 0x1002 .word false (by decide)
      (by decide)).mpr (by decide)

/-- EL1 sets `SCTLR_EL1.A` and loads from an odd address: the probe passes, the load is refused, and
the host goes down -/
theorem misaligned_load_aborts : ∃ u,
    vcpuStep Aspace.memops ⟨0, 0⟩ (none : Option (EnvOps Unit Unit)) tripGuest = some (.ok, u) ∧
      Passed (mmuMemops u.tick.sr Aspace.memops ⟨0, 0⟩) u.world 0x1801 .dword false ∧
      ((mmuMemops u.tick.sr Aspace.memops ⟨0, 0⟩).read
        ((mmuMemops u.tick.sr Aspace.memops ⟨0, 0⟩).validate u.world 0x1801 MemSize.dword.count
          permRead).2 0x1801 .dword false).1 = .fault ∧
      vcpuStep Aspace.memops ⟨0, 0⟩ (none : Option (EnvOps Unit Unit)) u = none := by
  have hrun : (vcpuStep Aspace.memops ⟨0, 0⟩ (none : Option (EnvOps Unit Unit)) tripGuest).map
      (fun q => (q.1,
        decide (Passed (mmuMemops q.2.tick.sr Aspace.memops ⟨0, 0⟩) q.2.world 0x1801 .dword false),
        ((mmuMemops q.2.tick.sr Aspace.memops ⟨0, 0⟩).read
          ((mmuMemops q.2.tick.sr Aspace.memops ⟨0, 0⟩).validate q.2.world 0x1801
            MemSize.dword.count permRead).2 0x1801 .dword false).1,
        (vcpuStep Aspace.memops ⟨0, 0⟩ (none : Option (EnvOps Unit Unit)) q.2).isNone)) =
      some (.ok, true, .fault, true) := by decide +kernel
  obtain ⟨⟨st, u⟩, hu, hq⟩ := Option.map_eq_some_iff.mp hrun
  simp only [Prod.mk.injEq] at hq
  obtain ⟨hst, hpassed, hread, hnone⟩ := hq
  exact ⟨u, hst ▸ hu, of_decide_eq_true hpassed, hread, Option.isNone_iff_eq_none.mp hnone⟩

end Oemu
