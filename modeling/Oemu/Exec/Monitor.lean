import Oemu.Exec.Outcome
import Oemu.Lib.Run

/-!
# The exclusive monitor

`Reserved h a n` is what a reservation means, over the history `h` of what the core has executed: a
load-exclusive of exactly `(a, n)`, and nothing since that disturbs it.  The monitor of the source is
three fields that each store path must remember to clear.  `Missed` are the executed instructions
that disturb a live reservation and leave the monitor set: a `CLREX`, an exception return, a vector
`STR` or `DC ZVA` into it, an `SVC` whose environment writes into it, and a store that reaches it only
across the end of the address space.

* `Tracks`           the monitor moves as the history does;
* `memPlan_tracks`   every load and store that misses nothing tracks;
* `stxr_spec`        what a store-exclusive does, from what the monitor holds.
-/

namespace Oemu

/-! ## events -/

/-- what an executed instruction is to the monitor -/
inductive Event where
  | loadEx (addr size : W64)
  | storeEx
  | clrex
  | eret
  | wrote (acts : List Access)
  | other

/-- `CLREX`, with any `CRm`; the decoder files it under the barriers -/
def isClrex (word : W32) : Bool := word &&& 0xFFFFF0FF == 0xD503305F

/-- the event of an executed instruction; `svc` is what the environment wrote for a system call -/
def insnEvent (cpu : Cpu) (insn : Insn) (word : W32) (svc : List Access) : Event :=
  match insn.op with
  | .ldxr => .loadEx (readG cpu.regs insn.rn true .w64) insn.memSize.count
  | .stxr => .storeEx
  | .eret => .eret
  | .svc => .wrote svc
  | .barrier => if isClrex word then .clrex else .other
  | .sys =>
    if sysAction insn.sel = .dcZva then
      .wrote (zeroActs (lineOf (readG cpu.regs insn.rd false .w64)))
    else .other
  | _ =>
    match memPlan cpu insn with
    | some t => .wrote t.acts
    | none => .other

/-- one of the transfers writes a byte of the `n` bytes at `a`; addresses wrap -/
def Touches (acts : List Access) (a n : W64) : Prop :=
  ∃ b m v x, Access.write b m v ∈ acts ∧ x - b < m.count ∧ x - a < n

/-- an event that ends a reservation of `(a, n)` -/
def Disturbs (e : Event) (a n : W64) : Prop :=
  match e with
  | .loadEx _ _ | .storeEx | .clrex | .eret => True
  | .wrote acts => Touches acts a n
  | .other => False

/-- a load-exclusive of exactly `(a, n)`, and nothing since that disturbs it -/
def Reserved (h : List Event) (a n : W64) : Prop :=
  Lts.Since (fun e => e = .loadEx a n) (fun e => ¬ Disturbs e a n) h

/-- the store reports a range to the monitor, and the comparison there finds the overlap -/
def Noted (cpu : Cpu) (insn : Insn) : Prop :=
  ((insn.op = .str ∧ insn.isVector = false ∨ insn.op = .stlr) ∧
      monitorOverlap cpu (singleAddr cpu.regs insn) insn.memSize.count = true) ∨
    (insn.op = .stp ∧
      monitorOverlap cpu (resolveMemAddr cpu.regs insn).1 (insn.memSize.count * 2) = true)

/-- an executed instruction that ends a live reservation, and that the monitor does not hear of -/
def Missed (cpu : Cpu) (insn : Insn) (e : Event) : Prop :=
  cpu.monitorValid = true ∧
    match e with
    | .clrex | .eret => True
    | .wrote acts => Touches acts cpu.monitorAddr cpu.monitorSize ∧ ¬ Noted cpu insn
    | _ => False

/-- the monitor moves as the history does -/
def Tracks (cpu : Cpu) (e : Event) (cpu' : Cpu) : Prop :=
  ∀ a n, exclusiveHit cpu' a n = true ↔
    e = .loadEx a n ∨ exclusiveHit cpu a n = true ∧ ¬ Disturbs e a n

/-- a live reservation is of at least one byte -/
def MonitorOk (cpu : Cpu) : Prop := cpu.monitorValid = true → cpu.monitorSize ≠ 0

/-! ## the overlap test -/

theorem exclusiveHit_iff {cpu : Cpu} {a n : W64} :
    exclusiveHit cpu a n = true ↔
      cpu.monitorValid = true ∧ cpu.monitorAddr = a ∧ cpu.monitorSize = n := by
  simp [exclusiveHit, and_assoc]

theorem exclusiveHit_congr {cpu cpu' : Cpu} (h : cpu'.monitor = cpu.monitor) (a n : W64) :
    exclusiveHit cpu' a n = exclusiveHit cpu a n := by
  unfold Cpu.monitor at h
  obtain ⟨h1, h2, h3⟩ : cpu'.monitorAddr = cpu.monitorAddr ∧ cpu'.monitorSize = cpu.monitorSize ∧
      cpu'.monitorValid = cpu.monitorValid := by simpa using h
  unfold exclusiveHit
  rw [h1, h2, h3]

theorem noteStore_hit {cpu : Cpu} {b m a n : W64} :
    exclusiveHit (noteStore cpu b m) a n = true ↔
      exclusiveHit cpu a n = true ∧ monitorOverlap cpu b m = false := by
  unfold noteStore
  cases hv : cpu.monitorValid with
  | false => simp [exclusiveHit, hv]
  | true =>
    cases ho : monitorOverlap cpu b m with
    | false => simp
    | true => simp [exclusiveHit]

/-- the transfers write every byte of a range -/
def CoversRange (acts : List Access) (b len : W64) : Prop :=
  ∀ x, x - b < len → ∃ c m v, Access.write c m v ∈ acts ∧ x - c < m.count

/-- a range the comparison finds overlapping does overlap -/
theorem overlap_touches {cpu : Cpu} {acts : List Access} {b len : W64} (hc : CoversRange acts b len)
    (hlen : len ≠ 0) (hpos : cpu.monitorSize ≠ 0) (h : monitorOverlap cpu b len = true) :
    Touches acts cpu.monitorAddr cpu.monitorSize := by
  unfold monitorOverlap at h
  have key : ∃ x, x - b < len ∧ x - cpu.monitorAddr < cpu.monitorSize := by
    split at h
    · refine ⟨b, ?_, of_decide_eq_true h⟩
      rw [BitVec.sub_self]
      bv_omega
    · refine ⟨cpu.monitorAddr, of_decide_eq_true h, ?_⟩
      rw [BitVec.sub_self]
      bv_omega
  obtain ⟨x, hx, hm⟩ := key
  obtain ⟨c, m, v, hmem, hcx⟩ := hc x hx
  exact ⟨c, m, v, x, hmem, hcx, hm⟩

theorem coversRange_one (b : W64) (m : MemSize) (v : W64) :
    CoversRange [.write b m v] b m.count :=
  fun _ hx => ⟨b, m, v, List.mem_singleton.mpr rfl, hx⟩

theorem CoversRange.append {acts acts' : List Access} {b l l' : W64} (h : CoversRange acts b l)
    (h' : CoversRange acts' (b + l) l') (hl : l.toNat + l'.toNat < 2 ^ 64) :
    CoversRange (acts ++ acts') b (l + l') := by
  intro x hx
  by_cases hlt : x - b < l
  · obtain ⟨c, m, v, hmem, hcx⟩ := h x hlt
    exact ⟨c, m, v, List.mem_append_left _ hmem, hcx⟩
  · have hx' : x - (b + l) < l' := by bv_omega
    obtain ⟨c, m, v, hmem, hcx⟩ := h' x hx'
    exact ⟨c, m, v, List.mem_append_right _ hmem, hcx⟩

theorem toNat_count (m : MemSize) : m.count.toNat = m.bytes := by
  cases m <;> rfl

theorem count_ne_zero (m : MemSize) : m.count ≠ 0 := by
  cases m <;> decide

theorem count_double (m : MemSize) : m.count * 2 = m.count + m.count ∧ m.count * 2 ≠ 0 := by
  cases m <;> decide

theorem vectorWrite_covers (cpu : Cpu) (insn : Insn) (reg : BitVec 5) (a : W64) :
    CoversRange (vectorWrite cpu insn reg a) a insn.memSize.count := by
  unfold vectorWrite vectorPieces vectorPiece
  by_cases h : insn.memSize = .m128
  · simp only [h, if_true]
    exact (coversRange_one a .dword _).append (coversRange_one (a + 8) .dword _) (by decide)
  · simp only [h, if_false]
    exact coversRange_one a insn.memSize _

/-! ## tracking -/

/-- an instruction that leaves the monitor alone, and had nothing to end -/
theorem tracks_keep {cpu cpu' : Cpu} {e : Event} (hmon : cpu'.monitor = cpu.monitor)
    (hload : ∀ a n, e ≠ .loadEx a n)
    (hd : cpu.monitorValid = true → ¬ Disturbs e cpu.monitorAddr cpu.monitorSize) :
    Tracks cpu e cpu' := by
  intro a n
  rw [exclusiveHit_congr hmon]
  constructor
  · intro h
    obtain ⟨hv, rfl, rfl⟩ := exclusiveHit_iff.mp h
    exact .inr ⟨h, hd hv⟩
  · rintro (h | ⟨h, -⟩)
    · exact absurd h (hload a n)
    · exact h

theorem tracks_noted {cpu cpu' : Cpu} {acts : List Access} {b len : W64}
    (hmon : cpu'.monitor = (noteStore cpu b len).monitor) (hok : MonitorOk cpu)
    (hc : CoversRange acts b len) (hlen : len ≠ 0)
    (hm : cpu.monitorValid = true → Touches acts cpu.monitorAddr cpu.monitorSize →
      monitorOverlap cpu b len = true) : Tracks cpu (.wrote acts) cpu' := by
  intro a n
  rw [exclusiveHit_congr hmon, noteStore_hit]
  constructor
  · rintro ⟨h, ho⟩
    obtain ⟨hv, rfl, rfl⟩ := exclusiveHit_iff.mp h
    refine .inr ⟨h, fun ht => ?_⟩
    rw [hm hv ht] at ho
    cases ho
  · rintro (h | ⟨h, hd⟩)
    · cases h
    · obtain ⟨hv, rfl, rfl⟩ := exclusiveHit_iff.mp h
      refine ⟨h, ?_⟩
      by_contra ho
      exact hd (overlap_touches hc hlen (hok hv) (by simpa using ho))

theorem not_touches_of_reads {acts : List Access} (h : ∀ b m v, Access.write b m v ∉ acts)
    (a n : W64) : ¬ Touches acts a n := by
  rintro ⟨b, m, v, x, hmem, -⟩
  exact h b m v hmem

theorem vectorRead_reads (insn : Insn) (a b : W64) (m : MemSize) (v : W64) :
    Access.write b m v ∉ vectorRead insn a := by
  unfold vectorRead
  split <;> simp

theorem tracks_load {cpu cpu' : Cpu} {acts : List Access} (hmon : cpu'.monitor = cpu.monitor)
    (h : ∀ b m v, Access.write b m v ∉ acts) : Tracks cpu (.wrote acts) cpu' :=
  tracks_keep hmon nofun fun _ => not_touches_of_reads h _ _

section

variable {cpu : Cpu} {insn : Insn} {t : Plan} {vs : List W64}

theorem missed_wrote {acts : List Access} (hm : ¬ Missed cpu insn (.wrote acts))
    (hv : cpu.monitorValid = true) (ht : Touches acts cpu.monitorAddr cpu.monitorSize) :
    Noted cpu insn := by
  by_contra hn
  exact hm ⟨hv, ht, hn⟩

theorem singlePlan_tracks (hok : MonitorOk cpu)
    (hm : ¬ Missed cpu insn (.wrote (singlePlan cpu insn).acts)) :
    Tracks cpu (.wrote (singlePlan cpu insn).acts) ((singlePlan cpu insn).commit vs).2 := by
  by_cases hs : insn.op = .str ∨ insn.op = .stlr
  · have hnoted : Noted cpu insn →
        monitorOverlap cpu (singleAddr cpu.regs insn) insn.memSize.count = true := by
      rintro (⟨-, h⟩ | ⟨h, -⟩)
      · exact h
      · rcases hs with hs | hs <;> rw [hs] at h <;> cases h
    unfold singlePlan at hm ⊢
    simp only [hs, if_true] at hm ⊢
    refine tracks_noted (singleFinish_monitor ..) hok (coversRange_one _ _ _) (count_ne_zero _) ?_
    exact fun hv ht => hnoted (missed_wrote hm hv ht)
  · unfold singlePlan
    simp only [hs, if_false]
    exact tracks_load (by simp) (by simp)

theorem singleVectorPlan_tracks (hop : insn.op = .str → insn.isVector = true)
    (hstp : insn.op ≠ .stp) (hstlr : insn.op ≠ .stlr)
    (hm : ¬ Missed cpu insn (.wrote (singleVectorPlan cpu insn).acts)) :
    Tracks cpu (.wrote (singleVectorPlan cpu insn).acts)
      ((singleVectorPlan cpu insn).commit vs).2 := by
  by_cases hs : insn.op = .str
  · have hn : ¬ Noted cpu insn := by
      rintro (⟨⟨-, h⟩ | h, -⟩ | ⟨h, -⟩)
      · rw [hop hs] at h
        cases h
      · exact hstlr h
      · exact hstp h
    unfold singleVectorPlan at hm ⊢
    simp only [hs, if_true] at hm ⊢
    refine tracks_keep (writebackG_monitor ..) nofun ?_
    exact fun hv ht => hn (missed_wrote hm hv ht)
  · unfold singleVectorPlan
    simp only [hs, if_false]
    exact tracks_load (by simp) (by simp)

theorem noted_stp (hop : insn.op = .stp) (h : Noted cpu insn) :
    monitorOverlap cpu (resolveMemAddr cpu.regs insn).1 (insn.memSize.count * 2) = true := by
  rcases h with ⟨⟨h, -⟩ | h, -⟩ | ⟨-, h⟩
  · rw [hop] at h
    cases h
  · rw [hop] at h
    cases h
  · exact h

theorem pairPlan_tracks (hok : MonitorOk cpu)
    (hm : ¬ Missed cpu insn (.wrote (pairPlan cpu insn).acts)) :
    Tracks cpu (.wrote (pairPlan cpu insn).acts) ((pairPlan cpu insn).commit vs).2 := by
  obtain ⟨hd, hne⟩ := count_double insn.memSize
  by_cases hs : insn.op = .stp
  · have hb := insn.memSize.bytes_le
    have hcov := (coversRange_one (resolveMemAddr cpu.regs insn).1 insn.memSize
      (readG cpu.regs insn.rd false insn.width)).append
        (coversRange_one ((resolveMemAddr cpu.regs insn).1 + insn.memSize.count) insn.memSize
          (readG cpu.regs insn.rt2 false insn.width)) (by rw [toNat_count]; omega)
    rw [← hd] at hcov
    unfold pairPlan at hm ⊢
    simp only [hs, if_true] at hm ⊢
    refine tracks_noted (writebackG_monitor ..) hok hcov hne ?_
    exact fun hv ht => noted_stp hs (missed_wrote hm hv ht)
  · unfold pairPlan
    simp only [hs, if_false]
    exact tracks_load (by simp) (by simp)

theorem pairVectorPlan_tracks (hok : MonitorOk cpu)
    (hm : ¬ Missed cpu insn (.wrote (pairVectorPlan cpu insn).acts)) :
    Tracks cpu (.wrote (pairVectorPlan cpu insn).acts) ((pairVectorPlan cpu insn).commit vs).2 := by
  obtain ⟨hd, hne⟩ := count_double insn.memSize
  by_cases hs : insn.op = .stp
  · have hb := insn.memSize.bytes_le
    have hcov := (vectorWrite_covers cpu insn insn.rd (resolveMemAddr cpu.regs insn).1).append
      (vectorWrite_covers cpu insn insn.rt2
        ((resolveMemAddr cpu.regs insn).1 + insn.memSize.count)) (by rw [toNat_count]; omega)
    rw [← hd] at hcov
    unfold pairVectorPlan at hm ⊢
    simp only [hs, if_true] at hm ⊢
    refine tracks_noted (writebackG_monitor ..) hok hcov hne ?_
    exact fun hv ht => noted_stp hs (missed_wrote hm hv ht)
  · unfold pairVectorPlan
    simp only [hs, if_false]
    refine tracks_load ?_ ?_
    · split <;> simp
    · intro b m v hmem
      rcases List.mem_append.mp hmem with h | h
      · exact vectorRead_reads _ _ _ _ _ h
      · exact vectorRead_reads _ _ _ _ _ h

theorem ldxr_tracks (hop : insn.op = .ldxr) :
    Tracks cpu (.loadEx (readG cpu.regs insn.rn true .w64) insn.memSize.count)
      ((exclusivePlan cpu insn).commit vs).2 := by
  intro a n
  unfold exclusivePlan
  simp only [hop, if_true]
  rw [exclusiveHit_iff]
  simp [Disturbs]

/-- a store-exclusive, successful or not, ends every reservation -/
theorem stxr_tracks (hop : insn.op = .stxr) :
    Tracks cpu .storeEx ((exclusivePlan cpu insn).commit vs).2 := by
  intro a n
  unfold exclusivePlan
  simp only [hop, reduceCtorEq, if_false]
  rw [exclusiveHit_iff]
  split <;> simp [Disturbs, Cpu.writeG]

theorem insnEvent_wrote (h : memPlan cpu insn = some t)
    (hop : insn.op ≠ .ldxr ∧ insn.op ≠ .stxr) (word : W32) (svc : List Access) :
    insnEvent cpu insn word svc = .wrote t.acts := by
  unfold insnEvent
  split <;> rename_i ho <;>
    first
    | exact absurd ho hop.1
    | exact absurd ho hop.2
    | (unfold memPlan at h; rw [ho] at h; cases h)
    | rw [h]

theorem memPlan_tracks (h : memPlan cpu insn = some t) (hok : MonitorOk cpu) {word : W32}
    {svc : List Access} (hm : ¬ Missed cpu insn (insnEvent cpu insn word svc)) :
    Tracks cpu (insnEvent cpu insn word svc) (t.commit vs).2 := by
  rcases memPlan_shape h with ⟨hop | hop, rfl⟩ | ⟨hop, hshape⟩
  · have e : insnEvent cpu insn word svc =
        .loadEx (readG cpu.regs insn.rn true .w64) insn.memSize.count := by
      unfold insnEvent
      rw [hop]
    rw [e]
    exact ldxr_tracks hop
  · have e : insnEvent cpu insn word svc = .storeEx := by
      unfold insnEvent
      rw [hop]
    rw [e]
    exact stxr_tracks hop
  · rw [insnEvent_wrote h hop] at hm ⊢
    rcases hshape with rfl | ⟨hv, hstp, hstlr, rfl⟩ | rfl | rfl
    · exact singlePlan_tracks hok hm
    · exact singleVectorPlan_tracks (fun _ => hv) hstp hstlr hm
    · exact pairPlan_tracks hok hm
    · exact pairVectorPlan_tracks hok hm

/-! ## the switch -/

theorem fallThrough_monitor (res : Status × Cpu) :
    (fallThrough res).2.monitor = res.2.monitor := by
  unfold fallThrough
  split <;> rfl

theorem branchTo_monitor (taken : Bool) (target : W64) (link : Bool) :
    (branchTo cpu taken target link).2.monitor = cpu.monitor := by
  unfold branchTo
  split <;> rfl

theorem doMrs_monitor : (doMrs cpu insn).2.monitor = cpu.monitor := by
  unfold doMrs
  dsimp only
  split <;> rfl

theorem doMsr_monitor : (doMsr cpu insn).2.monitor = cpu.monitor := by
  unfold doMsr
  dsimp only
  (repeat' split) <;> rfl

theorem dispatchPure_monitor : (dispatchPure cpu insn).2.monitor = cpu.monitor := by
  unfold dispatchPure
  split
  · exact fallThrough_monitor _
  · split <;>
      first
      | rfl
      | exact branchTo_monitor _ _ _
      | exact (fallThrough_monitor _).trans doMrs_monitor
      | exact (fallThrough_monitor _).trans doMsr_monitor

theorem insnEvent_pure (hp : memPlan cpu insn = none) (hst : (dispatchPure cpu insn).1 = .ok)
    (word : W32) (svc : List Access) :
    insnEvent cpu insn word svc = .clrex ∨ insnEvent cpu insn word svc = .other := by
  unfold insnEvent
  split <;> rename_i ho
  · unfold memPlan at hp
    rw [ho] at hp
    cases hp
  · unfold memPlan at hp
    rw [ho] at hp
    cases hp
  · unfold dispatchPure dataProcessing at hst
    rw [ho] at hst
    cases hst
  · unfold dispatchPure dataProcessing at hst
    rw [ho] at hst
    cases hst
  · split
    · exact .inl rfl
    · exact .inr rfl
  · unfold dispatchPure dataProcessing at hst
    rw [ho] at hst
    cases hst
  · rw [hp]
    exact .inr rfl

theorem dispatchShared_tracks {σ : Type} {mem : Memops σ} {s s' : σ} {res : Status × Cpu}
    {word : W32} {svc : List Access} (h : dispatchShared mem cpu insn s = some (res, s'))
    (hst : res.1 = .ok) (hok : MonitorOk cpu)
    (hm : ¬ Missed cpu insn (insnEvent cpu insn word svc)) :
    Tracks cpu (insnEvent cpu insn word svc) res.2 := by
  rcases dispatchShared_run h with ⟨hp, hr, -⟩ | ⟨t, -, hr, -⟩ | ⟨t, s₁, vs, hp, -, -, hr⟩
  · have hmon : res.2.monitor = cpu.monitor := by
      rw [hr]
      exact dispatchPure_monitor
    rcases insnEvent_pure hp (by rw [← hr]; exact hst) word svc with he | he
    · rw [he] at hm ⊢
      exact tracks_keep hmon nofun fun hv _ => hm ⟨hv, trivial⟩
    · rw [he]
      exact tracks_keep hmon nofun fun _ => id
  · rw [hr] at hst
    cases hst
  · intro a n
    have hmon : res.2.monitor = (t.commit vs).2.monitor := by
      rw [hr]
      exact fallThrough_monitor _
    rw [exclusiveHit_congr hmon]
    exact memPlan_tracks hp hok hm a n

/-! ## the store-exclusive -/

/-- the outcome of a store-exclusive: with a reservation the value is stored and the status register
is zero, without one the access is only checked and the status register is one -/
structure StxrResult {σ : Type} (mem : Memops σ) (cpu : Cpu) (insn : Insn) (s : σ) (cpu' : Cpu)
    (s' : σ) (reserved : Prop) : Prop where
  stored : reserved → ∃ s₁, mem.validate s (readG cpu.regs insn.rn true .w64) insn.memSize.count
      permWrite = (.ok, s₁) ∧
    mem.write s₁ (readG cpu.regs insn.rn true .w64) insn.memSize
      (readG cpu.regs insn.rd false insn.width) = (.ok, s') ∧
    cpu'.regs = (writeG cpu.regs insn.rm false .w32 0).advancePc
  refused : ¬ reserved → mem.validate s (readG cpu.regs insn.rn true .w64) insn.memSize.count
      permWrite = (.ok, s') ∧
    cpu'.regs = (writeG cpu.regs insn.rm false .w32 1).advancePc

theorem checkAll_one {σ : Type} {mem : Memops σ} {c : Check} {s s' : σ}
    (h : Txn.checkAll (busOps mem) [c] s = (true, s')) :
    mem.validate s c.addr c.size c.perm = (.ok, s') := by
  rw [checkAll_cons] at h
  rcases hv : mem.validate s c.addr c.size c.perm with ⟨st, s₁⟩
  rw [hv] at h
  by_cases hst : st = .ok
  · rw [if_pos hst] at h
    cases h
    rw [hst]
  · rw [if_neg hst] at h
    cases h

theorem actAll_write {σ : Type} {mem : Memops σ} {a v : W64} {m : MemSize} {s s' : σ}
    {ws : List W64} (h : Txn.actAll (busOps mem) [.write a m v] s = some (ws, s')) :
    mem.write s a m v = (.ok, s') := by
  rw [Txn.actAll_cons] at h
  rcases hw : mem.write s a m v with ⟨st, s₁⟩
  simp only [busOps, hw] at h
  by_cases hst : st = .ok
  · rw [if_pos hst] at h
    cases h
    rw [hst]
  · rw [if_neg hst] at h
    cases h

/-- what a store-exclusive does, from what the monitor holds -/
theorem stxr_spec {σ : Type} {mem : Memops σ} {s s' : σ} {res : Status × Cpu}
    (h : dispatchShared mem cpu insn s = some (res, s')) (hst : res.1 = .ok)
    (hop : insn.op = .stxr) :
    StxrResult mem cpu insn s res.2 s' (exclusiveHit cpu (readG cpu.regs insn.rn true .w64)
      insn.memSize.count = true) := by
  have hplan : memPlan cpu insn = some (exclusivePlan cpu insn) := by
    unfold memPlan
    rw [hop]
  rcases dispatchShared_run h with ⟨hp, -, -⟩ | ⟨t, -, hr, -⟩ | ⟨t, s₁, vs, hp, hc, ha, hr⟩
  · rw [hplan] at hp
    cases hp
  · rw [hr] at hst
    cases hst
  · rw [hplan] at hp
    cases hp
    unfold exclusivePlan at hc ha hr
    simp only [hop, reduceCtorEq, if_false] at hc ha hr
    constructor
    · intro hhit
      simp only [hhit, if_true] at hc ha hr
      refine ⟨s₁, checkAll_one hc, actAll_write ha, ?_⟩
      rw [hr]
      rfl
    · intro hhit
      simp only [hhit] at hc ha hr
      cases ha
      refine ⟨checkAll_one hc, ?_⟩
      rw [hr]
      rfl

end

end Oemu
