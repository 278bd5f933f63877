import Oemu.Exec.Precise
import Oemu.Decode.WellFormed

/-!
# The executor over two buses

The switch asks a bus for one, two, four or eight bytes and nothing else: `memPlan_sized`.  So two
buses that answer such requests alike, in related states, make the switch answer alike:
`dispatchShared_sim`.
-/

namespace Oemu

def BusSize (n : W64) : Prop := n = 1 ∨ n = 2 ∨ n = 4 ∨ n = 8

variable {σ σ' : Type}

/-- requests of the sizes in question are answered alike and keep the states related -/
structure BusSim (P : W64 → Prop) (S : σ → σ' → Prop) (mem : Memops σ) (mem' : Memops σ') :
    Prop where
  readOk : ∀ {s s'}, S s s' → ∀ a n sx, P (MemSize.count n) →
    ((mem.read s a n sx).1 = .ok ↔ (mem'.read s' a n sx).1 = .ok)
  read : ∀ {s s'}, S s s' → ∀ a n sx, P (MemSize.count n) → (mem.read s a n sx).1 = .ok →
    Txn.Alike S (mem.read s a n sx).2 (mem'.read s' a n sx).2
  writeOk : ∀ {s s'}, S s s' → ∀ a n v, P (MemSize.count n) →
    ((mem.write s a n v).1 = .ok ↔ (mem'.write s' a n v).1 = .ok)
  write : ∀ {s s'}, S s s' → ∀ a n v, P (MemSize.count n) → (mem.write s a n v).1 = .ok →
    S (mem.write s a n v).2 (mem'.write s' a n v).2
  validateOk : ∀ {s s'}, S s s' → ∀ a n q, P n →
    ((mem.validate s a n q).1 = .ok ↔ (mem'.validate s' a n q).1 = .ok)
  validate : ∀ {s s'}, S s s' → ∀ a n q, P n →
    S (mem.validate s a n q).2 (mem'.validate s' a n q).2

section

variable {P : W64 → Prop} {S : σ → σ' → Prop} {mem : Memops σ} {mem' : Memops σ'}

theorem BusSim.check (h : BusSim P S mem mem') {c : Check} (hc : P c.size) {s : σ} {s' : σ'}
    (hs : S s s') : Txn.Alike S ((busOps mem).check c s) ((busOps mem').check c s') :=
  ⟨decide_eq_decide.mpr (h.validateOk hs c.addr c.size c.perm hc),
    h.validate hs c.addr c.size c.perm hc⟩

theorem BusSim.act (h : BusSim P S mem mem') {i : Access} (hi : P i.size.count) {s : σ} {s' : σ'}
    (hs : S s s') :
    Option.Rel (Txn.Alike S) ((busOps mem).act i s) ((busOps mem').act i s') := by
  cases i with
  | read a n sx =>
    show Option.Rel _ (if (mem.read s a n sx).1 = .ok then some (mem.read s a n sx).2 else none)
      (if (mem'.read s' a n sx).1 = .ok then some (mem'.read s' a n sx).2 else none)
    by_cases hr : (mem.read s a n sx).1 = .ok
    · rw [if_pos hr, if_pos ((h.readOk hs a n sx hi).mp hr)]
      exact .some (h.read hs a n sx hi hr)
    · rw [if_neg hr, if_neg (fun hr' => hr ((h.readOk hs a n sx hi).mpr hr'))]
      exact .none
  | write a n v =>
    show Option.Rel _ (if (mem.write s a n v).1 = .ok then some (0, (mem.write s a n v).2) else none)
      (if (mem'.write s' a n v).1 = .ok then some (0, (mem'.write s' a n v).2) else none)
    by_cases hw : (mem.write s a n v).1 = .ok
    · rw [if_pos hw, if_pos ((h.writeOk hs a n v hi).mp hw)]
      exact .some ⟨rfl, h.write hs a n v hi hw⟩
    · rw [if_neg hw, if_neg (fun hw' => hw ((h.writeOk hs a n v hi).mpr hw'))]
      exact .none

end

/-! ## what a load or store asks for -/

theorem MemSize.count_busSize {s : MemSize} (h : s ≠ .m128) : BusSize s.count := by
  cases s with
  | byte => exact .inl rfl
  | half => exact .inr (.inl rfl)
  | word => exact .inr (.inr (.inl rfl))
  | dword => exact .inr (.inr (.inr rfl))
  | m128 => exact absurd rfl h

theorem vectorPiece_narrow (insn : Insn) : vectorPiece insn ≠ .m128 := by
  unfold vectorPiece
  split
  · exact MemSize.noConfusion
  · assumption

theorem busSize_eight : BusSize 8 := .inr (.inr (.inr rfl))

theorem pairVector_busSize (insn : Insn) :
    BusSize (if insn.memSize.count < 8 then insn.memSize.count else 8) := by
  cases hm : insn.memSize with
  | byte => exact .inl rfl
  | half => exact .inr (.inl rfl)
  | word => exact .inr (.inr (.inl rfl))
  | dword => exact busSize_eight
  | m128 => exact busSize_eight

/-- the requests of a plan -/
def Plan.Sized (t : Plan) : Prop :=
  (∀ c ∈ t.checks, BusSize c.size) ∧ ∀ i ∈ t.acts, BusSize i.size.count

section

variable (cpu : Cpu) {insn : Insn}

theorem singlePlan_sized (h : insn.memSize ≠ .m128) : Plan.Sized (singlePlan cpu insn) := by
  have hn := MemSize.count_busSize h
  unfold singlePlan
  dsimp only
  split
  · exact ⟨List.forall_mem_singleton.mpr hn, List.forall_mem_singleton.mpr hn⟩
  · exact ⟨List.forall_mem_singleton.mpr hn, List.forall_mem_singleton.mpr hn⟩

theorem pairPlan_sized (h : insn.memSize ≠ .m128) : Plan.Sized (pairPlan cpu insn) := by
  have hn := MemSize.count_busSize h
  unfold pairPlan
  dsimp only
  split
  all_goals
    refine ⟨List.forall_mem_cons.mpr ⟨hn, List.forall_mem_singleton.mpr hn⟩, ?_⟩
    exact List.forall_mem_cons.mpr ⟨hn, List.forall_mem_singleton.mpr hn⟩

theorem exclusivePlan_sized (h : insn.memSize ≠ .m128) : Plan.Sized (exclusivePlan cpu insn) := by
  have hn := MemSize.count_busSize h
  unfold exclusivePlan
  dsimp only
  split
  · exact ⟨List.forall_mem_singleton.mpr hn, List.forall_mem_singleton.mpr hn⟩
  · split
    · exact ⟨List.forall_mem_singleton.mpr hn, List.forall_mem_singleton.mpr hn⟩
    · exact ⟨List.forall_mem_singleton.mpr hn, List.forall_mem_nil _⟩

theorem singleVectorPlan_sized (insn : Insn) : Plan.Sized (singleVectorPlan cpu insn) := by
  have hd : BusSize MemSize.dword.count := busSize_eight
  unfold singleVectorPlan
  dsimp only
  split
  all_goals
    refine ⟨List.forall_mem_cons.mpr ⟨busSize_eight, List.forall_mem_singleton.mpr busSize_eight⟩, ?_⟩
    exact List.forall_mem_cons.mpr ⟨hd, List.forall_mem_singleton.mpr hd⟩

theorem vectorRead_sized (insn : Insn) (a : W64) :
    ∀ i ∈ vectorRead insn a, BusSize i.size.count := by
  have hp := MemSize.count_busSize (vectorPiece_narrow insn)
  unfold vectorRead
  split
  · exact List.forall_mem_cons.mpr ⟨hp, List.forall_mem_singleton.mpr busSize_eight⟩
  · exact List.forall_mem_singleton.mpr hp

theorem vectorWrite_sized (insn : Insn) (reg : BitVec 5) (a : W64) :
    ∀ i ∈ vectorWrite cpu insn reg a, BusSize i.size.count := by
  have hp := MemSize.count_busSize (vectorPiece_narrow insn)
  unfold vectorWrite
  split
  · exact List.forall_mem_cons.mpr ⟨hp, List.forall_mem_singleton.mpr busSize_eight⟩
  · exact List.forall_mem_singleton.mpr hp

theorem pairVectorPlan_sized (insn : Insn) : Plan.Sized (pairVectorPlan cpu insn) := by
  have hn := pairVector_busSize insn
  unfold pairVectorPlan
  dsimp only
  split
  · refine ⟨List.forall_mem_map.mpr fun _ _ => hn, List.forall_mem_append.mpr ⟨?_, ?_⟩⟩
    · exact vectorWrite_sized cpu insn _ _
    · exact vectorWrite_sized cpu insn _ _
  · refine ⟨List.forall_mem_map.mpr fun _ _ => hn, List.forall_mem_append.mpr ⟨?_, ?_⟩⟩
    · exact vectorRead_sized insn _
    · exact vectorRead_sized insn _

theorem memPlan_sized (hwf : insn.WellFormed) {t : Plan} (h : memPlan cpu insn = some t) :
    Plan.Sized t := by
  have hnarrow : insn.op ≠ .vecDup → (insn.isVector = true →
      insn.op ≠ .ldr ∧ insn.op ≠ .str ∧ insn.op ≠ .ldp ∧ insn.op ≠ .stp) →
      insn.memSize ≠ .m128 := by
    intro hd hv hm
    rcases hwf.wide hm with h | ⟨hvec, h⟩
    · exact hd h
    · obtain ⟨h1, h2, h3, h4⟩ := hv hvec
      tauto
  unfold memPlan at h
  cases hop : insn.op <;> rw [hop] at h hnarrow <;> cases h
  case ldr | str =>
    by_cases hv : insn.isVector = true
    · rw [if_pos hv]
      exact singleVectorPlan_sized cpu insn
    · rw [if_neg hv]
      exact singlePlan_sized cpu (hnarrow Opcode.noConfusion fun h => absurd h hv)
  case ldp | stp =>
    by_cases hv : insn.isVector = true
    · rw [if_pos hv]
      exact pairVectorPlan_sized cpu insn
    · rw [if_neg hv]
      exact pairPlan_sized cpu (hnarrow Opcode.noConfusion fun h => absurd h hv)
  case ldrs | ldar | stlr =>
    exact singlePlan_sized cpu (hnarrow Opcode.noConfusion fun _ => by decide)
  case ldpsw => exact pairPlan_sized cpu (hnarrow Opcode.noConfusion fun _ => by decide)
  case ldxr | stxr => exact exclusivePlan_sized cpu (hnarrow Opcode.noConfusion fun _ => by decide)

end

/-! ## the switch -/

/-- **the switch over two buses**: alike in, alike out -/
theorem dispatchShared_sim {S : σ → σ' → Prop} {mem : Memops σ} {mem' : Memops σ'}
    (hsim : BusSim BusSize S mem mem') {insn : Insn} (hwf : insn.WellFormed) (cpu : Cpu) {s : σ}
    {s' : σ'} (h : S s s') :
    Option.Rel (Txn.Alike S) (dispatchShared mem cpu insn s) (dispatchShared mem' cpu insn s') := by
  rw [dispatchShared_eq, dispatchShared_eq]
  cases hp : memPlan cpu insn with
  | none => exact .some ⟨rfl, h⟩
  | some t =>
    obtain ⟨hc, ha⟩ := memPlan_sized cpu hwf hp
    have hrun : Option.Rel (Txn.Alike S) (Txn.run (busOps mem) (Status.fault, cpu) t s)
        (Txn.run (busOps mem') (.fault, cpu) t s') :=
      Txn.run_sim (fun c hm s s' hs => hsim.check (hc c hm) hs)
        (fun i hm s s' hs => hsim.act (ha i hm) hs) h
    show Option.Rel _ ((Txn.run (busOps mem) (.fault, cpu) t s).bind fun p =>
        some (fallThrough p.1, p.2))
      ((Txn.run (busOps mem') (.fault, cpu) t s').bind fun p => some (fallThrough p.1, p.2))
    generalize Txn.run (busOps mem) (Status.fault, cpu) t s = x at hrun ⊢
    generalize Txn.run (busOps mem') (Status.fault, cpu) t s' = y at hrun ⊢
    cases hrun with
    | none => exact .none
    | some hpq => exact .some ⟨congrArg fallThrough hpq.1, hpq.2⟩

end Oemu
