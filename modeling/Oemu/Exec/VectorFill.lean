import Oemu.Exec.ByteReverse
import Oemu.Exec.LoadStore
import Oemu.Exec.Sequence
import Oemu.Memory.View

/-!
# Filling memory from a vector register

`DUP` is to copy the low byte of a general register to the byte lanes of a vector register, which a
fill then stores again and again.  The executor moves the whole general register into the low half
and clears the high half.

* `duplicates_iff`     when that is the copy;
* `storeQs_view`       the bytes a run of 16-byte stores leaves;
* `storeQuads_filled`  when they are a fill;
* `vector_fill`        the instruction, and a fill that starts with it.
-/

namespace Oemu

/-! ## the instruction -/

/-- the record of `DUP` from a general register -/
def dupInsn (word : W32) : Insn :=
  { Insn.reset word with
    op := .vecDup, rd := fieldRd word, rm := fieldRn word, operandKind := .reg, isVector := true
    memSize := if bit word 30 ≠ 0 then .m128 else .dword }

theorem and_bit {word mask want : W32} (h : word &&& mask = want) {i : Nat}
    (hm : mask.getLsbD i = true) : word.getLsbD i = want.getLsbD i := by
  rw [← h, BitVec.getLsbD_and, hm, Bool.and_true]

theorem decode_dup {word : W32} (h : isVecDup word = true) (pc : W64) :
    decode word pc = .ok (dupInsn word) := by
  have hand : word &&& 0xBFFFFC00 = 0x0E010C00 := eq_of_beq h
  have hbits : bits word 25 4 = 7 := by
    apply Nat.eq_of_testBit_eq
    intro i
    unfold bits
    rw [Nat.testBit_mod_two_pow, Nat.testBit_shiftRight]
    by_cases hi : i < 4
    · have hb := and_bit hand (show (0xBFFFFC00 : W32).getLsbD (25 + i) = true by
        interval_cases i <;> rfl)
      rw [show word.toNat.testBit (25 + i) = word.getLsbD (25 + i) from rfl, hb]
      interval_cases i <;> rfl
    · rw [decide_eq_false hi, Bool.false_and]
      exact (Nat.testBit_lt_two_pow (lt_of_lt_of_le (by decide : 7 < 2 ^ 4)
        (Nat.pow_le_pow_right (by decide) (Nat.le_of_not_lt hi)))).symm
  unfold decode
  rw [hbits]
  exact if_pos h

/-- the register it copies from -/
def dupSource (word : W32) (r : Regs) : W64 := r.read (fieldRn word) .w64

/-- what it leaves -/
def dupped (word : W32) (cpu : Cpu) : Cpu :=
  { cpu with
    v := Function.update cpu.v (fieldRd word) (dupSource word cpu.regs, 0)
    regs := cpu.regs.advancePc }

section Run

variable {σ ε : Type} {mem : Memops σ} {env : Option (EnvOps σ ε)}

theorem dup_runs (word : W32) (cpu : Cpu) (s : σ × ε) :
    dispatchBus mem env cpu (dupInsn word) s = some ((.ok, dupped word cpu), s) := rfl

/-! ## the lanes -/

/-- the byte lanes of a vector register -/
def lane (v : W64 × W64) (i : Nat) : BitVec 8 :=
  if i < 8 then byteAt v.1 i else byteAt v.2 (i - 8)

/-- how many of them the arrangement has -/
def lanes (word : W32) : Nat := if bit word 30 = 1 then 16 else 8

/-- the low byte in every lane of the arrangement, and nothing above -/
def Duplicates (word : W32) (x : W64) (v : W64 × W64) : Prop :=
  ∀ i < 16, lane v i = if i < lanes word then byteAt x 0 else 0

/-- the sources for which the whole register is the copies of its low byte -/
def Even (word : W32) (x : W64) : Prop :=
  if bit word 30 = 1 then x = 0 else ∀ i < 8, byteAt x i = byteAt x 0

theorem byteAt_zero (i : Nat) : byteAt 0 i = 0 := by
  apply BitVec.eq_of_getLsbD_eq
  intro b hb
  rw [byteAt_bit _ _ hb]
  exact BitVec.getLsbD_zero.trans BitVec.getLsbD_zero.symm

theorem eq_zero_of_byteAt {x : W64} (h : ∀ i < 8, byteAt x i = 0) : x = 0 := by
  apply eq_of_byteAt
  intro i hi
  rw [h i hi, byteAt_zero]

theorem duplicates_iff (word : W32) (x : W64) : Duplicates word x (x, 0) ↔ Even word x := by
  unfold Duplicates Even lanes lane
  by_cases hq : bit word 30 = 1
  · rw [if_pos hq, if_pos hq]
    constructor
    · intro h
      have hlow : byteAt x 0 = 0 := by
        have h8 := h 8 (by decide)
        rw [if_neg (by decide), if_pos (by decide), byteAt_zero] at h8
        exact h8.symm
      apply eq_zero_of_byteAt
      intro i hi
      have hi' := h i (by omega)
      rw [if_pos hi, if_pos (by omega)] at hi'
      exact hi'.trans hlow
    · rintro rfl i hi
      rw [if_pos hi, byteAt_zero, byteAt_zero, byteAt_zero, ite_self]
  · rw [if_neg hq, if_neg hq]
    constructor
    · intro h i hi
      have hi' := h i (by omega)
      rw [if_pos hi, if_pos hi] at hi'
      exact hi'
    · intro h i _
      by_cases h8 : i < 8
      · rw [if_pos h8, if_pos h8]
        exact h i h8
      · rw [if_neg h8, if_neg h8]
        exact byteAt_zero _

/-! ## stores of a register -/

/-- a store of one 16-byte register, or of a pair that is twice the same -/
structure Insn.StoresQ (insn : Insn) (d : BitVec 5) : Prop where
  op : insn.op = .str ∨ insn.op = .stp ∧ insn.rt2 = d
  vector : insn.isVector = true
  size : insn.memSize = .m128
  rd : insn.rd = d

/-- where a store puts its register -/
def Insn.quads (r : Regs) (insn : Insn) : List W64 :=
  if insn.op = .str then [(resolveMemAddr r insn).1]
  else [(resolveMemAddr r insn).1, (resolveMemAddr r insn).1 + 16]

/-- the halves of the registers, with their addresses -/
def halves (v : W64 × W64) (qs : List W64) : List (W64 × W64) :=
  qs.flatMap fun q => [(q, v.1), (q + 8, v.2)]

def storeHalf (m : Nat → BitVec 8) (p : W64 × W64) : Nat → BitVec 8 := assemble m p.1.toNat 8 p.2

/-- the bytes after a register is stored at some addresses in turn -/
def storeQuads (m : Nat → BitVec 8) (v : W64 × W64) (qs : List W64) : Nat → BitVec 8 :=
  (halves v qs).foldl storeHalf m

variable {Good : σ → Prop} {view : σ → Nat → BitVec 8}

theorem ByteStore.checkAll (hb : ByteStore mem Good view) (l : List Check) {s : σ} (hg : Good s) :
    Good (Txn.checkAll (busOps mem) l s).2 ∧ view (Txn.checkAll (busOps mem) l s).2 = view s := by
  have h := Txn.checkAll_rel (R := fun s s' => Good s → Good s' ∧ view s' = view s)
    (fun _ hg => ⟨hg, rfl⟩)
    (fun _ _ _ h1 h2 hg => ⟨(h2 (h1 hg).1).1, (h2 (h1 hg).1).2.trans (h1 hg).2⟩)
    (busOps mem) (l := l) (fun c _ s hg => hb.validate hg c.addr c.size c.perm) s
  exact h hg

theorem ByteStore.writes (hb : ByteStore mem Good view) (l : List (W64 × W64)) {s s' : σ}
    {vs : List W64} (hg : Good s)
    (h : Txn.actAll (busOps mem) (l.map fun p => .write p.1 .dword p.2) s = some (vs, s')) :
    Good s' ∧ view s' = l.foldl storeHalf (view s) := by
  induction l generalizing s vs with
  | nil =>
    cases h
    exact ⟨hg, rfl⟩
  | cons p l ih =>
    rw [List.map_cons, Txn.actAll_cons] at h
    change (if (mem.write s p.1 .dword p.2).1 = .ok
      then some (0, (mem.write s p.1 .dword p.2).2) else none).bind _ = _ at h
    by_cases hok : (mem.write s p.1 .dword p.2).1 = .ok
    · rw [if_pos hok, Option.bind_some] at h
      obtain ⟨q, hq, hqs⟩ := Option.map_eq_some_iff.mp h
      obtain ⟨hg', hv⟩ := hb.write hg p.1 .dword p.2 hok
      obtain ⟨vs', t⟩ := q
      obtain rfl : t = s' := congrArg Prod.snd hqs
      obtain ⟨hg'', hv'⟩ := ih hg' hq
      refine ⟨hg'', hv'.trans ?_⟩
      rw [hv]
      rfl
    · rw [if_neg hok] at h
      cases h

theorem Insn.StoresQ.plan {insn : Insn} {d : BitVec 5} (h : insn.StoresQ d) (cpu : Cpu) :
    ∃ t, memPlan cpu insn = some t ∧
      t.acts = (halves (cpu.v d) (insn.quads cpu.regs)).map (fun p => .write p.1 .dword p.2) ∧
      ∀ vs, (fallThrough (t.commit vs)).2.v = cpu.v := by
  unfold Insn.quads
  rcases h.op with ho | ⟨ho, hrt2⟩
  · refine ⟨singleVectorPlan cpu insn, ?_, ?_, ?_⟩
    · unfold memPlan
      rw [ho, h.vector]
      rfl
    · unfold singleVectorPlan
      dsimp only
      rw [if_pos ho, if_pos ho, h.rd]
      rfl
    · intro vs
      unfold singleVectorPlan
      dsimp only
      rw [if_pos ho]
      exact writebackG_v cpu _
  · have hne : insn.op ≠ .str := by
      rw [ho]
      decide
    have htwo := (vectorPieces_two insn).mpr h.size
    refine ⟨pairVectorPlan cpu insn, ?_, ?_, ?_⟩
    · unfold memPlan
      rw [ho, h.vector]
      rfl
    · have hcount : insn.memSize.count = 16 := by
        rw [h.size]
        rfl
      have hpiece : vectorPiece insn = .dword := if_pos h.size
      unfold pairVectorPlan vectorWrite
      dsimp only
      rw [if_pos ho, if_neg hne, htwo, if_pos rfl, if_pos rfl, h.rd, hrt2, hcount, hpiece]
      rfl
    · intro vs
      unfold pairVectorPlan
      dsimp only
      rw [if_pos ho]
      exact (writebackG_v _ _).trans (noteStore_v cpu _ _)

theorem storeQ_view (hb : ByteStore mem Good view) {insn : Insn} {d : BitVec 5}
    (hq : insn.StoresQ d) {cpu cpu' : Cpu} {s s' : σ × ε} (hg : Good s.1)
    (h : dispatchBus mem env cpu insn s = some ((.ok, cpu'), s')) :
    cpu'.v = cpu.v ∧ Good s'.1 ∧
      view s'.1 = storeQuads (view s.1) (cpu.v d) (insn.quads cpu.regs) := by
  have hsvc : insn.op ≠ .svc := by
    rcases hq.op with ho | ⟨ho, -⟩ <;> rw [ho] <;> decide
  unfold dispatchBus onBus at h
  rw [if_neg hsvc] at h
  obtain ⟨p, hp, hps⟩ := Option.map_eq_some_iff.mp h
  have hres : p.1 = (.ok, cpu') := congrArg Prod.fst hps
  have hs' : p.2 = s'.1 := congrArg (fun x => x.2.1) hps
  obtain ⟨t, ht, hacts, hv⟩ := hq.plan cpu
  rcases dispatchShared_run (show _ = some (p.1, p.2) from hp) with
    ⟨hn, -⟩ | ⟨t', -, hf, -⟩ | ⟨t', s₁, vs, ht', hc, ha, hr⟩
  · rw [ht] at hn
    cases hn
  · rw [hres] at hf
    cases hf
  · rw [ht] at ht'
    cases ht'
    obtain ⟨hg₁, hv₁⟩ := hb.checkAll t.checks hg
    rw [hc] at hg₁ hv₁
    rw [hacts] at ha
    obtain ⟨hg₂, hv₂⟩ := hb.writes _ hg₁ ha
    rw [hs'] at hg₂ hv₂
    refine ⟨?_, hg₂, ?_⟩
    · have hcpu := hv vs
      rw [← hr, hres] at hcpu
      exact hcpu
    · rw [hv₂, hv₁]
      rfl

/-- where a sequence of stores puts the register -/
def storeQs (mem : Memops σ) (env : Option (EnvOps σ ε)) : List Insn → Cpu → σ × ε → List W64
  | [], _, _ => []
  | insn :: insns, cpu, s => insn.quads cpu.regs ++
    (dispatchBus mem env cpu insn s).elim [] fun p => storeQs mem env insns p.1.2 p.2

theorem storeQs_cons {insn : Insn} {cpu cpu' : Cpu} {s s' : σ × ε}
    (h : dispatchBus mem env cpu insn s = some ((.ok, cpu'), s')) (insns : List Insn) :
    storeQs mem env (insn :: insns) cpu s =
      insn.quads cpu.regs ++ storeQs mem env insns cpu' s' := by
  show insn.quads cpu.regs ++ Option.elim (dispatchBus mem env cpu insn s) _ _ = _
  rw [h]
  rfl

/-- **the bytes a sequence of stores leaves** -/
theorem storeQs_view (hb : ByteStore mem Good view) {d : BitVec 5} {insns : List Insn}
    (hq : ∀ i ∈ insns, Insn.StoresQ i d) {cpu cpu' : Cpu} {s s' : σ × ε} (hg : Good s.1)
    (h : execAll mem env insns cpu s = some ((.ok, cpu'), s')) :
    view s'.1 = storeQuads (view s.1) (cpu.v d) (storeQs mem env insns cpu s) := by
  induction insns generalizing cpu s with
  | nil =>
    cases h
    rfl
  | cons insn insns ih =>
    obtain ⟨cpu₁, s₁, hd, hr⟩ := execAll_head h
    obtain ⟨hv, hg₁, hview⟩ := storeQ_view hb (hq insn List.mem_cons_self) hg hd
    rw [storeQs_cons hd, ih (fun i hi => hq i (List.mem_cons_of_mem _ hi)) hg₁ hr, hview, hv]
    unfold storeQuads halves
    rw [List.flatMap_append, List.foldl_append]

end Run

/-! ## fills -/

/-- the bytes a store covers -/
def InQuad (q : W64) (x : Nat) : Prop :=
  (q.toNat ≤ x ∧ x < q.toNat + 8) ∨ ((q + 8).toNat ≤ x ∧ x < (q + 8).toNat + 8)

def CoverRange (qs : List W64) (a len : Nat) : Prop :=
  ∀ x, (∃ q ∈ qs, InQuad q x) ↔ a ≤ x ∧ x < a + len

theorem storeQuads_cons (m : Nat → BitVec 8) (v : W64 × W64) (q : W64) (qs : List W64) :
    storeQuads m v (q :: qs) =
      storeQuads (assemble (assemble m q.toNat 8 v.1) (q + 8).toNat 8 v.2) v qs := rfl

theorem storeQuads_snoc (m : Nat → BitVec 8) (v : W64 × W64) (qs : List W64) (q : W64) :
    storeQuads m v (qs ++ [q]) =
      assemble (assemble (storeQuads m v qs) q.toNat 8 v.1) (q + 8).toNat 8 v.2 := by
  unfold storeQuads halves
  rw [List.flatMap_append, List.foldl_append]
  rfl

theorem shift_byte (v : W64) (i : Nat) : (v >>> (8 * i)).setWidth 8 = byteAt v i := by
  apply BitVec.eq_of_getLsbD_eq
  intro b hb
  rw [BitVec.getLsbD_setWidth, BitVec.getLsbD_ushiftRight, byteAt_bit _ _ hb, decide_eq_true hb,
    Bool.true_and]

theorem assemble_at (m : Nat → BitVec 8) (dst : Nat) (v : W64) {x : Nat}
    (hx : dst ≤ x ∧ x < dst + 8) : assemble m dst 8 v x = byteAt v (x - dst) :=
  (if_pos hx).trans (shift_byte v _)

/-- zeros stay, and stores make more of them -/
theorem storeQuads_zero (qs : List W64) (m : Nat → BitVec 8) {x : Nat}
    (h : m x = 0 ∨ ∃ q ∈ qs, InQuad q x) : storeQuads m (0, 0) qs x = 0 := by
  induction qs generalizing m with
  | nil =>
    rcases h with h | ⟨q, hq, -⟩
    · exact h
    · cases hq
  | cons q qs ih =>
    rw [storeQuads_cons]
    apply ih
    have hkeep : ∀ (m : Nat → BitVec 8) dst, m x = 0 → assemble m dst 8 0 x = 0 := by
      intro m dst hm
      by_cases hx : dst ≤ x ∧ x < dst + 8
      · rw [assemble_at m dst 0 hx, byteAt_zero]
      · exact (if_neg hx).trans hm
    have hput : ∀ (m : Nat → BitVec 8) dst, dst ≤ x ∧ x < dst + 8 → assemble m dst 8 0 x = 0 := by
      intro m dst hx
      rw [assemble_at m dst 0 hx, byteAt_zero]
    rcases h with h | ⟨p, hp, hx⟩
    · exact .inl (hkeep _ _ (hkeep _ _ h))
    · rcases List.mem_cons.mp hp with rfl | hp
      · rcases hx with hx | hx
        · exact .inl (hkeep _ _ (hput _ _ hx))
        · exact .inl (hput _ _ hx)
      · exact .inr ⟨p, hp, hx⟩

/-- **a fill**: the range holds copies of the low byte only if the register was zero -/
theorem storeQuads_filled (m : Nat → BitVec 8) (v : W64) {qs : List W64} {a len : Nat}
    (hc : CoverRange qs a len) :
    (∀ x, a ≤ x → x < a + len → storeQuads m (v, 0) qs x = byteAt v 0) ↔ len = 0 ∨ v = 0 := by
  constructor
  · intro h
    by_cases hlen : len = 0
    · exact .inl hlen
    · refine .inr ?_
      obtain ⟨q₀, hq₀, -⟩ := (hc a).mpr ⟨le_refl a, by omega⟩
      -- the last store is the one that is seen
      obtain ⟨init, q, rfl⟩ : ∃ init q, qs = init ++ [q] := by
        rcases List.eq_nil_or_concat qs with hnil | ⟨init, q, hqs⟩
        · rw [hnil] at hq₀
          cases hq₀
        · exact ⟨init, q, by rw [hqs, List.concat_eq_append]⟩
      have hmem : q ∈ init ++ [q] := List.mem_append_right _ List.mem_cons_self
      have hread : ∀ x, InQuad q x → assemble (assemble (storeQuads m (v, 0) init) q.toNat 8 v)
          (q + 8).toNat 8 0 x = byteAt v 0 := by
        intro x hx
        obtain ⟨hlo, hhi⟩ := (hc x).mp ⟨q, hmem, hx⟩
        have hf := h x hlo hhi
        rw [storeQuads_snoc] at hf
        exact hf
      have hzero : byteAt v 0 = 0 := by
        have hx : (q + 8).toNat ≤ (q + 8).toNat ∧ (q + 8).toNat < (q + 8).toNat + 8 := by omega
        rw [← hread _ (.inr hx), assemble_at _ _ _ hx, byteAt_zero]
      have happart : (q + 8).toNat = q.toNat + 8 ∨ (q + 8).toNat + 2 ^ 64 = q.toNat + 8 := by
        have hq := q.isLt
        rw [BitVec.toNat_add, show (8 : W64).toNat = 8 from rfl]
        omega
      apply eq_zero_of_byteAt
      intro i hi
      have hq := q.isLt
      have hx : q.toNat ≤ q.toNat + i ∧ q.toNat + i < q.toNat + 8 := by omega
      have hr := hread _ (.inl hx)
      rw [show ∀ m', assemble m' (q + 8).toNat 8 0 (q.toNat + i) = m' (q.toNat + i) from
        fun m' => if_neg (by omega), assemble_at _ _ _ hx, Nat.add_sub_cancel_left] at hr
      rw [hr, hzero]
  · rintro (rfl | rfl) x hlo hhi
    · omega
    · rw [byteAt_zero]
      exact storeQuads_zero qs m (.inr ((hc x).mpr ⟨hlo, hhi⟩))

/-- the bytes of a range after a fill -/
def Filled (m : Nat → BitVec 8) (a len : Nat) (b : BitVec 8) : Prop :=
  ∀ x, a ≤ x → x < a + len → m x = b

/-- **a fill from a vector register**: the instruction copies its byte to the lanes for even sources
only, and stores of the register fill a range with copies of the byte for a zero source only -/
theorem vector_fill {σ ε : Type} (mem : Memops σ) (env : Option (EnvOps σ ε)) (word : W32)
    (pc : W64) (h : isVecDup word = true) :
    ∃ insn, decode word pc = .ok insn ∧
      (∀ (cpu : Cpu) (s : σ × ε), ∃ cpu',
        dispatchBus mem env cpu insn s = some ((.ok, cpu'), s) ∧
          (Duplicates word (dupSource word cpu.regs) (cpu'.v (fieldRd word)) ↔
            Even word (dupSource word cpu.regs))) ∧
      ∀ (Good : σ → Prop) (view : σ → Nat → BitVec 8), ByteStore mem Good view → bit word 30 = 1 →
        ∀ (stores : List Insn) (cpu cpu' : Cpu) (s s' : σ × ε), Good s.1 →
          (∀ i ∈ stores, i.StoresQ (fieldRd word)) →
          execAll mem env (insn :: stores) cpu s = some ((.ok, cpu'), s') →
          ∀ a len, CoverRange (storeQs mem env stores (dupped word cpu) s) a len →
            (Filled (view s'.1) a len (byteAt (dupSource word cpu.regs) 0) ↔
              len = 0 ∨ dupSource word cpu.regs = 0) := by
  have hupd : ∀ cpu : Cpu,
      (dupped word cpu).v (fieldRd word) = (dupSource word cpu.regs, 0) :=
    fun cpu => Function.update_self _ _ _
  refine ⟨dupInsn word, decode_dup h pc, ?_, ?_⟩
  · intro cpu s
    refine ⟨dupped word cpu, dup_runs word cpu s, ?_⟩
    rw [hupd]
    exact duplicates_iff word _
  · intro Good view hb _ stores cpu cpu' s s' hg hq hrun a len hc
    rw [execAll_cons (dup_runs word cpu s)] at hrun
    unfold Filled
    rw [storeQs_view hb hq hg hrun, hupd]
    exact storeQuads_filled _ _ hc

/-- one page, every byte of it `0xAA` -/
def fillPage : Memory where
  regions := [⟨0x1000, 0x1000, 7, 0, true⟩]
  capacity := 1
  heap := fun _ => 0xAA

theorem fillPage_separate : fillPage.Separate :=
  .single (Span.Table.single (by decide) (by decide) (by decide) (by decide)) rfl

/-- the buffer in `x0` and the byte in `x1` -/
def fillCpu (x : W64) : Cpu :=
  { Cpu.init 0 0 with regs := ((Cpu.init 0 0).regs.write 0 .w64 0x1800).write 1 .w64 x }

/-- `str q0, [x0]` and `stp q0, q0, [x0, #16]` -/
def fillStores : List Insn :=
  [{ Insn.reset 0x3D800000 with
      op := .str, operandKind := .mem, memSize := .m128, isVector := true, rnIsSpForm := true },
    { Insn.reset 0xAD008000 with
      op := .stp, operandKind := .mem, memSize := .m128, isVector := true, rnIsSpForm := true
      imm := 16, uimm := 16 }]

/-- the run on the page: `dup v0.16b, w1` and the two stores -/
def fillRun (x : W64) : Option ((Status × Cpu) × (Memory × Unit)) :=
  execAll Memory.memops (none : Option (EnvOps Memory Unit)) (dupInsn 0x4E010C20 :: fillStores)
    (fillCpu x) (fillPage, ())

/-- 48 bytes of the page: a zero byte fills them, `0x41` does not -/
theorem vector_fill_dup :
    [(0x3D800000, 4), (0xAD008000, 8)].map (fun p => decode p.1 p.2) = fillStores.map .ok ∧
      decode 0x4E010C20 0 = .ok (dupInsn 0x4E010C20) ∧
      (∃ cpu s, fillRun 0 = some ((.ok, cpu), s) ∧ Filled s.1.view 0x1800 48 0) ∧
      ∃ cpu s, fillRun 0x41 = some ((.ok, cpu), s) ∧ ¬ Filled s.1.view 0x1800 48 0x41 := by
  have hdup : decode 0x4E010C20 0 = .ok (dupInsn 0x4E010C20) := decode_dup (by decide) 0
  obtain ⟨insn, hd, -, hfill⟩ :=
    vector_fill Memory.memops (none : Option (EnvOps Memory Unit)) 0x4E010C20 0 (by decide)
  obtain rfl : dupInsn 0x4E010C20 = insn := Except.ok.inj (hdup.symm.trans hd)
  have hstores : ∀ i ∈ fillStores, i.StoresQ (fieldRd 0x4E010C20) := by
    intro i hi
    rcases List.mem_cons.mp hi with rfl | hi
    · exact ⟨.inl rfl, rfl, rfl, rfl⟩
    · obtain rfl := List.mem_singleton.mp hi
      exact ⟨.inr ⟨rfl, rfl⟩, rfl, rfl, rfl⟩
  have hcover : CoverRange [0x1800, 0x1810, 0x1820] 0x1800 48 := by
    intro x
    simp only [List.mem_cons, List.not_mem_nil, or_false, exists_eq_or_imp, exists_eq_left, InQuad]
    rw [show (0x1800 : W64).toNat = 0x1800 from rfl, show (0x1810 : W64).toNat = 0x1810 from rfl,
      show (0x1820 : W64).toNat = 0x1820 from rfl, show (0x1800 + 8 : W64).toNat = 0x1808 from rfl,
      show (0x1810 + 8 : W64).toNat = 0x1818 from rfl,
      show (0x1820 + 8 : W64).toNat = 0x1828 from rfl]
    omega
  have hrun : ∀ x, (fillRun x).map (fun p => p.1.1) = some .ok →
      storeQs Memory.memops (none : Option (EnvOps Memory Unit)) fillStores
        (dupped 0x4E010C20 (fillCpu x)) (fillPage, ()) = [0x1800, 0x1810, 0x1820] →
      ∃ cpu s, fillRun x = some ((.ok, cpu), s) ∧
        (Filled s.1.view 0x1800 48 (byteAt (dupSource 0x4E010C20 (fillCpu x).regs) 0) ↔
          48 = 0 ∨ dupSource 0x4E010C20 (fillCpu x).regs = 0) := by
    intro x hok hq
    obtain ⟨⟨⟨st, cpu⟩, s⟩, hr, rfl⟩ := Option.map_eq_some_iff.mp hok
    refine ⟨cpu, s, hr, hfill Memory.Separate Memory.view Memory.byteStore rfl fillStores _ _ _ _
      fillPage_separate hstores hr 0x1800 48 ?_⟩
    rw [hq]
    exact hcover
  refine ⟨by decide +kernel, hdup, ?_, ?_⟩
  · obtain ⟨cpu, s, hr, hf⟩ := hrun 0 (by decide +kernel) (by decide +kernel)
    exact ⟨cpu, s, hr, hf.mpr (.inr (by decide))⟩
  · obtain ⟨cpu, s, hr, hf⟩ := hrun 0x41 (by decide +kernel) (by decide +kernel)
    refine ⟨cpu, s, hr, fun h => ?_⟩
    exact absurd (hf.mp h) (by decide)

/-- a byte of one goes to the first lane alone -/
theorem dup_one : ∃ cpu', dispatchBus Memory.memops (none : Option (EnvOps Memory Unit))
      { Cpu.init 0 0 with regs := (Cpu.init 0 0).regs.write 1 .w64 1 } (dupInsn 0x4E010C20)
      (codeMemory 0x4E010C20, ()) = some ((.ok, cpu'), (codeMemory 0x4E010C20, ())) ∧
    cpu'.v 0 = (1, 0) ∧ ¬ Duplicates 0x4E010C20 1 (cpu'.v 0) := by
  refine ⟨_, rfl, rfl, ?_⟩
  intro h
  exact absurd (h 1 (by decide)) (by decide)

end Oemu
