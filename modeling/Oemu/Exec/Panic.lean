import Oemu.Exec.Keep
import Oemu.Exec.Sim
import Oemu.Exec.Monitor

/-!
# Accesses that were checked

The executor checks every transfer of a load or store before it makes the first, and takes the host
down when one of them is refused all the same.  Over a `Firm` bus none is.

* `memPlan_covered`      every transfer of a load or store is one of its checks;
* `memPlan_near`         the checks lie within thirty-two bytes;
* `execStepBus_total`    over a firm bus the host stays up;
* `Memory.firm`          the memory of a process is one.
-/

namespace Oemu

variable {σ ε : Type}

/-! ## what a load or store checks -/

/-- every transfer of a plan is one of its checks -/
def Plan.Covered (t : Plan) : Prop :=
  ∀ i ∈ t.acts, (⟨i.addr, i.size.count, i.perm⟩ : Check) ∈ t.checks

/-- the checks lie within so many bytes of one address -/
def Plan.Near (t : Plan) (n : Nat) : Prop :=
  ∃ base, ∀ c ∈ t.checks, ∃ off, c.addr = base + BitVec.ofNat 64 off ∧ off + c.size.toNat ≤ n

section

variable (cpu : Cpu) (insn : Insn)

theorem singlePlan_covered : Plan.Covered (singlePlan cpu insn) := by
  unfold singlePlan
  dsimp only
  split
  · exact List.forall_mem_singleton.mpr (List.mem_singleton.mpr rfl)
  · exact List.forall_mem_singleton.mpr (List.mem_singleton.mpr rfl)

theorem exclusivePlan_covered : Plan.Covered (exclusivePlan cpu insn) := by
  unfold exclusivePlan
  dsimp only
  split
  · exact List.forall_mem_singleton.mpr (List.mem_singleton.mpr rfl)
  · split
    · exact List.forall_mem_singleton.mpr (List.mem_singleton.mpr rfl)
    · exact List.forall_mem_nil _

theorem pairPlan_covered : Plan.Covered (pairPlan cpu insn) := by
  unfold pairPlan
  dsimp only
  split
  all_goals
    refine List.forall_mem_cons.mpr ⟨List.mem_cons_self, List.forall_mem_singleton.mpr ?_⟩
    exact List.mem_cons_of_mem _ (List.mem_singleton.mpr rfl)

theorem singleVectorPlan_covered : Plan.Covered (singleVectorPlan cpu insn) := by
  unfold singleVectorPlan
  dsimp only
  split
  all_goals
    refine List.forall_mem_cons.mpr ⟨List.mem_cons_self, List.forall_mem_singleton.mpr ?_⟩
    exact List.mem_cons_of_mem _ (List.mem_singleton.mpr rfl)

/-- the transfers of a vector pair are of the size that is checked -/
theorem vectorPiece_size (hm : insn.memSize ≠ .m128) :
    (vectorPiece insn).count =
      if insn.memSize.count < 8 then insn.memSize.count else 8 := by
  unfold vectorPiece
  rw [if_neg hm]
  cases h : insn.memSize <;> first | rfl | exact absurd h hm

theorem pairVectorPlan_covered : Plan.Covered (pairVectorPlan cpu insn) := by
  unfold pairVectorPlan vectorRead vectorWrite pairVectorAddrs vectorPieces
  dsimp only
  by_cases hm : insn.memSize = .m128
  · have hp : (vectorPiece insn).count = 8 := by
      unfold vectorPiece
      rw [if_pos hm]
      rfl
    have hb : (if insn.memSize.count < 8 then insn.memSize.count else 8) = 8 := by
      rw [hm]
      rfl
    rw [hb, if_pos hm]
    split <;> simp [Plan.Covered, Access.addr, Access.size, Access.perm, hp,
      show MemSize.dword.count = 8 from rfl]
  · have hp := vectorPiece_size insn hm
    rw [if_neg hm]
    split <;> simp [Plan.Covered, Access.addr, Access.size, Access.perm, hp]

variable {cpu insn}

/-- **every transfer of a load or store is one of its checks** -/
theorem memPlan_covered {t : Plan} (h : memPlan cpu insn = some t) : t.Covered := by
  rcases memPlan_shape h with ⟨-, rfl⟩ | ⟨-, rfl | ⟨-, -, -, rfl⟩ | rfl | rfl⟩
  · exact exclusivePlan_covered cpu insn
  · exact singlePlan_covered cpu insn
  · exact singleVectorPlan_covered cpu insn
  · exact pairPlan_covered cpu insn
  · exact pairVectorPlan_covered cpu insn

theorem BusSize.le {n : W64} (h : BusSize n) : n.toNat ≤ 8 := by
  rcases h with rfl | rfl | rfl | rfl <;> decide

theorem count_le (m : MemSize) : m.count.toNat ≤ 16 := by
  cases m <;> decide

/-- **the checks of a load or store lie together** -/
theorem memPlan_near (hwf : insn.WellFormed) {t : Plan} (h : memPlan cpu insn = some t) :
    t.Near 32 := by
  have hsize : ∀ c ∈ t.checks, c.size.toNat ≤ 8 := fun c hc =>
    ((memPlan_sized cpu hwf h).1 c hc).le
  have hplace : ∃ base, ∀ c ∈ t.checks, ∃ off, c.addr = base + BitVec.ofNat 64 off ∧ off ≤ 24 := by
    have hzero : ∀ a : W64, a = a + BitVec.ofNat 64 0 := fun a => (BitVec.add_zero a).symm
    have hcount : ∀ a : W64, a + insn.memSize.count = a + BitVec.ofNat 64 insn.memSize.count.toNat :=
      fun a => by rw [BitVec.ofNat_toNat, BitVec.setWidth_eq]
    have hle := count_le insn.memSize
    rcases memPlan_shape h with ⟨-, rfl⟩ | ⟨-, rfl | ⟨-, -, -, rfl⟩ | rfl | rfl⟩
    · refine ⟨readG cpu.regs insn.rn true .w64, ?_⟩
      unfold exclusivePlan
      dsimp only
      split
      · exact List.forall_mem_singleton.mpr ⟨0, hzero _, by decide⟩
      · split <;> exact List.forall_mem_singleton.mpr ⟨0, hzero _, by decide⟩
    · refine ⟨singleAddr cpu.regs insn, ?_⟩
      unfold singlePlan
      dsimp only
      split <;> exact List.forall_mem_singleton.mpr ⟨0, hzero _, by decide⟩
    · refine ⟨(resolveMemAddr cpu.regs insn).1, ?_⟩
      unfold singleVectorPlan
      dsimp only
      split
      all_goals
        refine List.forall_mem_cons.mpr ⟨⟨0, hzero _, by decide⟩, ?_⟩
        exact List.forall_mem_singleton.mpr ⟨8, rfl, by decide⟩
    · refine ⟨(resolveMemAddr cpu.regs insn).1, ?_⟩
      unfold pairPlan
      dsimp only
      split
      all_goals
        refine List.forall_mem_cons.mpr ⟨⟨0, hzero _, by decide⟩, ?_⟩
        exact List.forall_mem_singleton.mpr ⟨_, hcount _, by omega⟩
    · refine ⟨(resolveMemAddr cpu.regs insn).1, ?_⟩
      unfold pairVectorPlan pairVectorAddrs
      have h8 : (resolveMemAddr cpu.regs insn).1 + insn.memSize.count + 8 =
          (resolveMemAddr cpu.regs insn).1 + BitVec.ofNat 64 (insn.memSize.count.toNat + 8) := by
        rw [hcount, BitVec.add_assoc, BitVec.ofNat_add]
        rfl
      dsimp only
      split
      all_goals
        refine List.forall_mem_map.mpr ?_
        split
        · intro a ha
          simp only [List.mem_cons, List.not_mem_nil, or_false] at ha
          rcases ha with rfl | rfl | rfl | rfl
          · exact ⟨0, hzero _, by decide⟩
          · exact ⟨8, rfl, by decide⟩
          · exact ⟨_, hcount _, by omega⟩
          · exact ⟨_, h8, by omega⟩
        · intro a ha
          simp only [List.mem_cons, List.not_mem_nil, or_false] at ha
          rcases ha with rfl | rfl
          · exact ⟨0, hzero _, by decide⟩
          · exact ⟨_, hcount _, by omega⟩
  obtain ⟨base, hbase⟩ := hplace
  refine ⟨base, fun c hc => ?_⟩
  obtain ⟨off, haddr, hoff⟩ := hbase c hc
  have := hsize c hc
  exact ⟨off, haddr, by omega⟩

end

/-! ## over a firm bus -/

variable {mem : Memops σ} {I : σ → Prop} {A : W64 → MemSize → Prop} {insn : Insn} {s : σ}

theorem Firm.granted (h : Firm mem I A) (hs : I s) {c : Check} {s' : σ}
    (hc : (busOps mem).check c s = (true, s')) :
    I s' ∧ (mem.validate s' c.addr c.size c.perm).1 = .ok := by
  obtain ⟨hok, rfl⟩ := Prod.mk.inj hc
  obtain ⟨hI, hv⟩ := h.validate s c.addr c.size c.perm hs
  exact ⟨hI, (hv _ _ _).trans (of_decide_eq_true hok)⟩

theorem count_eq (n : MemSize) : n.count = BitVec.ofNat 64 n.bytes := by
  apply BitVec.eq_of_toNat_eq
  rw [toNat_count, MemSize.toNat_bytes]

theorem Firm.act (h : Firm mem I A) (hs : I s) {i : Access} (hA : A i.addr i.size)
    (hsize : i.size.bytes ≤ 8) (hv : (mem.validate s i.addr i.size.count i.perm).1 = .ok) :
    ∃ b s', (busOps mem).act i s = some (b, s') ∧ Steady mem I s s' := by
  obtain ⟨hr, hw⟩ := h.serves s i.addr i.size hs hA hsize
  rw [count_eq] at hv
  cases i with
  | read a n sx => exact ⟨_, _, if_pos (hr hv sx), h.read s a n sx⟩
  | write a n v => exact ⟨_, _, if_pos (hw hv v), h.write s a n v⟩

theorem BusSize.bytes_le {n : MemSize} (h : BusSize n.count) : n.bytes ≤ 8 := by
  rw [← toNat_count]
  exact h.le

/-- over a firm bus a load or store never brings the host down -/
theorem Firm.dispatchShared (h : Firm mem I A) (hA : ∀ a n, A a n) (hwf : insn.WellFormed)
    (cpu : Cpu) (hs : I s) : ∃ p, Oemu.dispatchShared mem cpu insn s = some p := by
  rw [dispatchShared_eq]
  cases hp : memPlan cpu insn with
  | none => exact ⟨_, rfl⟩
  | some t =>
    have hsteady : ∀ c s, I s → Steady mem I s ((busOps mem).check c s).2 := fun c s _ =>
      h.validate s c.addr c.size c.perm
    have hrun : Txn.run (busOps mem) (Status.fault, cpu) t s ≠ none := by
      intro hnone
      have hiff := @Txn.run_eq_none_iff _ _ _ _ _ (busOps mem) I
        (fun c s => (mem.validate s c.addr c.size c.perm).1 = .ok) (fun _ => False)
        (Status.fault, cpu) t s (fun c _ s hs => (hsteady c s hs hs).1)
        (fun c _ s s' hs hc => (h.granted hs hc).2)
        (fun c _ c' s hs hg => ((hsteady c s hs hs).2 _ _ _).trans hg)
        (by
          intro i hi _ s hs hg
          obtain ⟨b, s', hact, hst⟩ := h.act hs (hA i.addr i.size)
            ((memPlan_sized cpu hwf hp).2 i hi).bytes_le (hg _ (memPlan_covered hp i hi))
          exact ⟨b, s', hact, (hst hs).1, fun c hc => ((hst hs).2 _ _ _).trans (hg c hc)⟩)
        (fun _ _ hbad => hbad.elim) hs
      obtain ⟨-, i, -, hbad⟩ := hiff.mp hnone
      exact hbad
    obtain ⟨p, hp⟩ := Option.ne_none_iff_exists'.mp hrun
    refine ⟨(fallThrough p.1, p.2), ?_⟩
    show (Txn.run (busOps mem) (Status.fault, cpu) t s).bind _ = _
    rw [hp]
    rfl

/-- **over a firm bus the host stays up** -/
theorem execStepBus_total (h : Firm mem I A) (hA : ∀ a n, A a n) (env : Option (EnvOps σ ε))
    (cpu : Cpu) {s : σ × ε} (hs : I s.1) : ∃ p, execStepBus mem env cpu s = some p := by
  have hfetch := (h.fetch32 s.1 cpu.regs.pc hs).1
  unfold execStepBus
  rw [Prog.bind_apply]
  simp only [onBus, Prog.act, Option.map_some, Option.bind_some]
  split
  · exact ⟨_, rfl⟩
  · cases hdec : decode (mem.fetch32 s.1 cpu.regs.pc).2.1 cpu.regs.pc with
    | error st => exact ⟨_, rfl⟩
    | ok insn =>
      dsimp only
      unfold dispatchBus
      split
      · unfold doSvc
        cases hc : env.bind (·.syscall) with
        | none => exact ⟨_, rfl⟩
        | some call => exact ⟨_, rfl⟩
      · obtain ⟨p, hp⟩ := h.dispatchShared hA (decode_wellFormed hdec) cpu hfetch
        refine ⟨(p.1, p.2, s.2), ?_⟩
        unfold onBus
        rw [hp]
        rfl

/-! ## the memory of a process -/

namespace Memory

theorem firm : Firm memops Memory.Ok (fun _ _ => True) where
  refl _ hs := ⟨hs, fun _ _ _ => rfl⟩
  trans a b c hab hbc ha := by
    obtain ⟨hb, h1⟩ := hab ha
    obtain ⟨hc, h2⟩ := hbc hb
    exact ⟨hc, fun x n perms => (h2 x n perms).trans (h1 x n perms)⟩
  read _ _ _ _ hs := ⟨hs, fun _ _ _ => rfl⟩
  validate _ _ _ _ hs := ⟨hs, fun _ _ _ => rfl⟩
  fetch32 _ _ hs := ⟨hs, fun _ _ _ => rfl⟩
  write mem a n v hs := by
    refine ⟨hs.call (.write a n v), ?_⟩
    intro x m perms
    show (mem.write a n v).2.validate x m perms = mem.validate x m perms
    unfold validate find
    rw [write_regions]
  sub mem a n perms hs hv j k hk hjk := by
    have hn : n ≠ 0 := by
      rintro rfl
      simp at hjk
      omega
    have hlt := n.isLt
    have hk' : (BitVec.ofNat 64 k).toNat = k := by
      rw [BitVec.toNat_ofNat, Nat.mod_eq_of_lt (by omega)]
    change mem.validate a n perms = .ok at hv
    unfold validate at hv
    rw [if_neg hn] at hv
    split at hv
    · rename_i r hf
      obtain ⟨-, hr, hp, hcov⟩ := (find_iff hs _ _ _ _).mp hf
      have hbelow := hs.below r hr
      have haj : (a + BitVec.ofNat 64 j).toNat = a.toNat + j := by
        unfold Span.Covers at hcov
        rw [BitVec.toNat_add, BitVec.toNat_ofNat, Nat.mod_eq_of_lt (show j < 2 ^ 64 by omega),
          Nat.mod_eq_of_lt (by omega)]
      have hk0 : BitVec.ofNat 64 k ≠ 0 := by
        intro h0
        rw [h0] at hk'
        simp at hk'
        omega
      have hfind : mem.find (a + BitVec.ofNat 64 j) (BitVec.ofNat 64 k) perms = some r := by
        refine (find_iff hs _ _ _ _).mpr ⟨hk0, hr, hp, ?_⟩
        rw [haj, hk']
        exact hcov.sub (Nat.le_add_right _ _) (by omega)
      show mem.validate _ _ _ = .ok
      unfold validate
      rw [if_neg hk0, hfind]
    · cases hv
  serves mem a n hs _ _ := by
    have hne : BitVec.ofNat 64 n.bytes ≠ 0 := by
      cases n <;> decide
    have hfind : ∀ perms, (memops.validate mem a (BitVec.ofNat 64 n.bytes) perms).1 = .ok →
        ∃ r, mem.find a (BitVec.ofNat 64 n.bytes) perms = some r := by
      intro perms hv
      change mem.validate a (BitVec.ofNat 64 n.bytes) perms = .ok at hv
      unfold validate at hv
      rw [if_neg hne] at hv
      split at hv
      · exact ⟨_, ‹_›⟩
      · cases hv
    constructor
    · intro hv sx
      obtain ⟨r, hr⟩ := hfind permRead hv
      show (mem.read a n sx).1 = .ok
      unfold read
      rw [hr]
    · intro hv v
      obtain ⟨r, hr⟩ := hfind permWrite hv
      show (mem.write a n v).1 = .ok
      unfold write
      rw [hr]

end Memory

end Oemu
