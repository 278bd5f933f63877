import Oemu.Exec.Mem
import Oemu.Lib.Txn

/-!
# The memory arms as transactions

Every load and store of the executor checks all it is going to touch, then touches it, then commits
registers.  `memPlan` says for an instruction what it checks, what it touches and what it commits,
and `doPair_eq` to `doExclusive_eq` that the arms of the source are exactly those transactions.
What holds of all loads and stores is proved of `memPlan` from here on.
-/

namespace Oemu

/-- one `validate` -/
structure Check where
  addr : W64
  size : W64
  perm : W32
deriving DecidableEq

/-- one transfer -/
inductive Access where
  | read (addr : W64) (size : MemSize) (sx : Bool)
  | write (addr : W64) (size : MemSize) (value : W64)
deriving DecidableEq

def Access.addr : Access → W64
  | .read a _ _ => a
  | .write a _ _ => a

def Access.size : Access → MemSize
  | .read _ n _ => n
  | .write _ n _ => n

def Access.perm : Access → W32
  | .read _ _ _ => permRead
  | .write _ _ _ => permWrite

abbrev Plan := Txn.Plan Check Access W64 (Status × Cpu)

variable {σ : Type}

/-- a bus as the operations of a transaction; a write answers nothing, read as zero -/
def busOps (mem : Memops σ) : Txn.Ops σ Check Access W64 where
  check c s := (decide ((mem.validate s c.addr c.size c.perm).1 = .ok),
    (mem.validate s c.addr c.size c.perm).2)
  act i s :=
    match i with
    | .read a n sx =>
      if (mem.read s a n sx).1 = .ok then some (mem.read s a n sx).2 else none
    | .write a n v =>
      if (mem.write s a n v).1 = .ok then some (0, (mem.write s a n v).2) else none

/-! ## the plans -/

def pairPlan (cpu : Cpu) (insn : Insn) : Plan :=
  let addr := (resolveMemAddr cpu.regs insn).1
  let writeback := (resolveMemAddr cpu.regs insn).2
  let n := insn.memSize.count
  if insn.op = .stp then
    { checks := [⟨addr, n, permWrite⟩, ⟨addr + n, n, permWrite⟩]
      acts := [.write addr insn.memSize (readG cpu.regs insn.rd false insn.width),
        .write (addr + n) insn.memSize (readG cpu.regs insn.rt2 false insn.width)]
      commit := fun _ => (.ok, writebackG (noteStore cpu addr (n * 2)) insn writeback) }
  else
    { checks := [⟨addr, n, permRead⟩, ⟨addr + n, n, permRead⟩]
      acts := [.read addr insn.memSize insn.isSignedLoad,
        .read (addr + n) insn.memSize insn.isSignedLoad]
      commit := fun vs =>
        (.ok, writebackG ((cpu.writeG insn.rd false insn.width (vs.getD 0 0)).writeG insn.rt2 false
          insn.width (vs.getD 1 0)) insn writeback) }

/-- the pieces of one vector register: its two halves, or one transfer -/
def vectorRead (insn : Insn) (a : W64) : List Access :=
  if vectorPieces insn = 2 then
    [.read a (vectorPiece insn) false, .read (a + 8) .dword false]
  else [.read a (vectorPiece insn) false]

def vectorWrite (cpu : Cpu) (insn : Insn) (reg : BitVec 5) (a : W64) : List Access :=
  if vectorPieces insn = 2 then
    [.write a (vectorPiece insn) (cpu.v reg).1, .write (a + 8) .dword (cpu.v reg).2]
  else [.write a (vectorPiece insn) (cpu.v reg).1]

def pairVectorPlan (cpu : Cpu) (insn : Insn) : Plan :=
  let addr := (resolveMemAddr cpu.regs insn).1
  let writeback := (resolveMemAddr cpu.regs insn).2
  let stride := insn.memSize.count
  let bytes := if stride < 8 then stride else 8
  if insn.op = .stp then
    { checks := (pairVectorAddrs insn addr).map fun a => ⟨a, bytes, permWrite⟩
      acts := vectorWrite cpu insn insn.rd addr ++ vectorWrite cpu insn insn.rt2 (addr + stride)
      commit := fun _ => (.ok, writebackG (noteStore cpu addr (stride * 2)) insn writeback) }
  else
    { checks := (pairVectorAddrs insn addr).map fun a => ⟨a, bytes, permRead⟩
      acts := vectorRead insn addr ++ vectorRead insn (addr + stride)
      commit := fun vs =>
        (.ok, writebackG
          (if vectorPieces insn = 2 then
            (cpu.setV insn.rd (vs.getD 0 0) (vs.getD 1 0)).setV insn.rt2 (vs.getD 2 0) (vs.getD 3 0)
          else (cpu.setV insn.rd (vs.getD 0 0) 0).setV insn.rt2 (vs.getD 1 0) 0) insn writeback) }

def singleVectorPlan (cpu : Cpu) (insn : Insn) : Plan :=
  let addr := (resolveMemAddr cpu.regs insn).1
  let writeback := (resolveMemAddr cpu.regs insn).2
  if insn.op = .str then
    { checks := [⟨addr, 8, permWrite⟩, ⟨addr + 8, 8, permWrite⟩]
      acts := [.write addr .dword (cpu.v insn.rd).1, .write (addr + 8) .dword (cpu.v insn.rd).2]
      commit := fun _ => (.ok, writebackG cpu insn writeback) }
  else
    { checks := [⟨addr, 8, permRead⟩, ⟨addr + 8, 8, permRead⟩]
      acts := [.read addr .dword false, .read (addr + 8) .dword false]
      commit := fun vs =>
        (.ok, writebackG (cpu.setV insn.rd (vs.getD 0 0) (vs.getD 1 0)) insn writeback) }

/-- the writeback of a single transfer: a literal has none -/
def singleFinish (r : Regs) (insn : Insn) (cpu : Cpu) : Cpu :=
  if insn.operandKind = .imm then cpu else writebackG cpu insn (resolveMemAddr r insn).2

def singlePlan (cpu : Cpu) (insn : Insn) : Plan :=
  let addr := singleAddr cpu.regs insn
  let n := insn.memSize.count
  if insn.op = .str ∨ insn.op = .stlr then
    { checks := [⟨addr, n, permWrite⟩]
      acts := [.write addr insn.memSize (readG cpu.regs insn.rd false insn.width)]
      commit := fun _ => (.ok, singleFinish cpu.regs insn (noteStore cpu addr n)) }
  else
    { checks := [⟨addr, n, permRead⟩]
      acts := [.read addr insn.memSize insn.isSignedLoad]
      commit := fun vs =>
        (.ok, singleFinish cpu.regs insn (cpu.writeG insn.rd false insn.width (vs.getD 0 0))) }

def exclusivePlan (cpu : Cpu) (insn : Insn) : Plan :=
  let addr := readG cpu.regs insn.rn true .w64
  let n := insn.memSize.count
  if insn.op = .ldxr then
    { checks := [⟨addr, n, permRead⟩]
      acts := [.read addr insn.memSize false]
      commit := fun vs =>
        (.ok, { cpu.writeG insn.rd false insn.width (vs.getD 0 0) with
          monitorAddr := addr, monitorSize := n, monitorValid := true }) }
  else if exclusiveHit cpu addr n then
    { checks := [⟨addr, n, permWrite⟩]
      acts := [.write addr insn.memSize (readG cpu.regs insn.rd false insn.width)]
      commit := fun _ => (.ok, { cpu with monitorValid := false }.writeG insn.rm false .w32 0) }
  else
    { checks := [⟨addr, n, permWrite⟩]
      acts := []
      commit := fun _ => (.ok, { cpu with monitorValid := false }.writeG insn.rm false .w32 1) }

/-- the transaction of a load or store; `none` is any other opcode -/
def memPlan (cpu : Cpu) (insn : Insn) : Option Plan :=
  match insn.op with
  | .ldr | .str =>
    some (if insn.isVector then singleVectorPlan cpu insn else singlePlan cpu insn)
  | .ldrs | .ldar | .stlr => some (singlePlan cpu insn)
  | .ldp | .stp => some (if insn.isVector then pairVectorPlan cpu insn else pairPlan cpu insn)
  | .ldpsw => some (pairPlan cpu insn)
  | .ldxr | .stxr => some (exclusivePlan cpu insn)
  | _ => none

/-- the five transactions; only the exclusive pair shares its opcodes with no other -/
theorem memPlan_shape {cpu : Cpu} {insn : Insn} {t : Plan} (h : memPlan cpu insn = some t) :
    ((insn.op = .ldxr ∨ insn.op = .stxr) ∧ t = exclusivePlan cpu insn) ∨
      (insn.op ≠ .ldxr ∧ insn.op ≠ .stxr) ∧
        (t = singlePlan cpu insn ∨
          (insn.isVector = true ∧ insn.op ≠ .stp ∧ insn.op ≠ .stlr ∧
            t = singleVectorPlan cpu insn) ∨
          t = pairPlan cpu insn ∨ t = pairVectorPlan cpu insn) := by
  unfold memPlan at h
  cases hop : insn.op <;> rw [hop] at h <;> cases h <;>
    first
    | exact .inl ⟨by decide, rfl⟩
    | exact .inr ⟨by decide, .inl rfl⟩
    | exact .inr ⟨by decide, .inr (.inr (.inl rfl))⟩
    | skip
  all_goals
    refine .inr ⟨by decide, ?_⟩
    by_cases hv : insn.isVector = true
    · simp [hv]
    · simp [hv]

/-! ## the steps of a transaction and those of an arm -/

section Steps

variable (mem : Memops σ)

theorem busRead_apply (a : W64) (n : MemSize) (sx : Bool) (s : σ) :
    busRead mem a n sx s = (busOps mem).act (.read a n sx) s := by
  unfold busRead
  rw [Prog.bind_apply]
  show (accessOrPanic (mem.read s a n sx).1 >>= fun _ => pure (mem.read s a n sx).2.1)
    (mem.read s a n sx).2.2 = _
  unfold accessOrPanic busOps
  dsimp only
  by_cases h : (mem.read s a n sx).1 = .ok
  · rw [if_pos h, if_pos h]
    rfl
  · rw [if_neg h, if_neg h]
    rfl

theorem busWrite_apply (a : W64) (n : MemSize) (v : W64) (s : σ) :
    busWrite mem a n v s =
      ((busOps mem).act (.write a n v) s).map fun p => (PUnit.unit, p.2) := by
  unfold busWrite
  rw [Prog.bind_apply]
  show accessOrPanic (mem.write s a n v).1 (mem.write s a n v).2 = _
  unfold accessOrPanic busOps
  dsimp only
  by_cases h : (mem.write s a n v).1 = .ok
  · rw [if_pos h, if_pos h]
    rfl
  · rw [if_neg h, if_neg h]
    rfl

theorem busValidate_apply (a n : W64) (perm : W32) (s : σ) :
    busValidate mem a n perm s = some (mem.validate s a n perm) := rfl

theorem checkAll_cons (c : Check) (l : List Check) (s : σ) :
    Txn.checkAll (busOps mem) (c :: l) s =
      if (mem.validate s c.addr c.size c.perm).1 = .ok then
        Txn.checkAll (busOps mem) l (mem.validate s c.addr c.size c.perm).2
      else (false, (mem.validate s c.addr c.size c.perm).2) := by
  by_cases h : (mem.validate s c.addr c.size c.perm).1 = .ok
  · simp only [Txn.checkAll, busOps, h, decide_true, if_true]
  · simp only [Txn.checkAll, busOps, h, decide_false, if_false]

theorem validateAll_apply (bytes : W64) (perm : W32) (l : List W64) (s : σ) :
    validateAll mem bytes perm l s =
      some (if (Txn.checkAll (busOps mem) (l.map fun a => ⟨a, bytes, perm⟩) s).1 then .ok
        else .fault, (Txn.checkAll (busOps mem) (l.map fun a => ⟨a, bytes, perm⟩) s).2) := by
  induction l generalizing s with
  | nil => rfl
  | cons a l ih =>
    unfold validateAll
    rw [Prog.bind_apply, busValidate_apply, List.map_cons, checkAll_cons]
    dsimp only [Option.bind_some]
    by_cases h : (mem.validate s a bytes perm).1 = .ok
    · rw [if_pos h, if_neg (not_not_intro h), ih]
    · rw [if_neg h, if_pos h]
      rfl

end Steps

/-! ## every arm is its transaction -/

section Arms

variable (mem : Memops σ) (cpu : Cpu) (insn : Insn)

theorem doSingleMem_eq :
    doSingleMem mem cpu insn = Txn.run (busOps mem) (.fault, cpu) (singlePlan cpu insn) := by
  funext s
  rw [Txn.run_apply]
  unfold doSingleMem singlePlan
  dsimp only
  rw [Prog.bind_apply, busValidate_apply]
  by_cases hst : insn.op = .str ∨ insn.op = .stlr
  · simp only [hst, if_true, checkAll_cons, Option.bind_some]
    by_cases h : (mem.validate s (singleAddr cpu.regs insn) insn.memSize.count permWrite).1 = .ok
    · simp only [h, if_true, ne_eq, not_true_eq_false, if_false, Prog.bind_apply, busWrite_apply,
        Txn.actAll_cons, Txn.checkAll_nil, Txn.actAll_nil]
      cases (busOps mem).act _ _ <;> rfl
    · simp only [h, if_false, ne_eq, not_false_eq_true, if_true, Bool.false_eq_true]
      rfl
  · simp only [hst, if_false, checkAll_cons, Option.bind_some]
    by_cases h : (mem.validate s (singleAddr cpu.regs insn) insn.memSize.count permRead).1 = .ok
    · simp only [h, if_true, ne_eq, not_true_eq_false, if_false, Prog.bind_apply, busRead_apply,
        Txn.actAll_cons, Txn.checkAll_nil, Txn.actAll_nil]
      cases (busOps mem).act _ _ <;> rfl
    · simp only [h, if_false, ne_eq, not_false_eq_true, if_true, Bool.false_eq_true]
      rfl

theorem doExclusive_eq :
    doExclusive mem cpu insn = Txn.run (busOps mem) (.fault, cpu) (exclusivePlan cpu insn) := by
  funext s
  rw [Txn.run_apply]
  unfold doExclusive exclusivePlan
  dsimp only
  rw [Prog.bind_apply, busValidate_apply]
  generalize readG cpu.regs insn.rn true .w64 = addr
  by_cases hld : insn.op = .ldxr
  · simp only [hld, if_true, checkAll_cons, Option.bind_some]
    by_cases h : (mem.validate s addr insn.memSize.count permRead).1 = .ok
    · simp only [h, if_true, ne_eq, not_true_eq_false, if_false, Prog.bind_apply, busRead_apply,
        Txn.actAll_cons, Txn.checkAll_nil, Txn.actAll_nil]
      cases (busOps mem).act _ _ <;> rfl
    · simp only [h, if_false, ne_eq, not_false_eq_true, if_true, Bool.false_eq_true]
      rfl
  · by_cases hit : exclusiveHit cpu addr insn.memSize.count = true
    · simp only [hld, hit, if_false, if_true, checkAll_cons, Option.bind_some]
      by_cases h : (mem.validate s addr insn.memSize.count permWrite).1 = .ok
      · simp only [h, if_true, ne_eq, not_true_eq_false, if_false, Prog.bind_apply, busWrite_apply,
          Txn.actAll_cons, Txn.checkAll_nil, Txn.actAll_nil]
        cases (busOps mem).act _ _ <;> rfl
      · simp only [h, if_false, ne_eq, not_false_eq_true, if_true, Bool.false_eq_true]
        rfl
    · simp only [hld, hit, if_false, checkAll_cons, Option.bind_some, Bool.false_eq_true]
      by_cases h : (mem.validate s addr insn.memSize.count permWrite).1 = .ok
      · simp only [h, if_true, ne_eq, not_true_eq_false, if_false, Txn.checkAll_nil, Txn.actAll_nil]
        rfl
      · simp only [h, if_false, ne_eq, not_false_eq_true, if_true, Bool.false_eq_true]
        rfl

theorem doSingleVector_eq :
    doSingleVector mem cpu insn =
      Txn.run (busOps mem) (.fault, cpu) (singleVectorPlan cpu insn) := by
  funext s
  rw [Txn.run_apply]
  unfold doSingleVector singleVectorPlan
  dsimp only
  rw [Prog.bind_apply, validateAll_apply]
  generalize (resolveMemAddr cpu.regs insn).1 = addr
  by_cases hst : insn.op = .str
  · simp only [hst, if_true, Option.bind_some, List.map_cons, List.map_nil]
    rcases Txn.checkAll (busOps mem) [⟨addr, 8, permWrite⟩, ⟨addr + 8, 8, permWrite⟩] s
      with ⟨b, s₁⟩
    cases b with
    | false => rfl
    | true =>
      simp only [if_true, ne_eq, not_true_eq_false, if_false, Prog.bind_apply, busWrite_apply,
        Txn.actAll_cons, Txn.actAll_nil]
      cases (busOps mem).act _ s₁ with
      | none => rfl
      | some q =>
        simp only [Option.map_some, Option.bind_some]
        cases (busOps mem).act _ q.2 <;> rfl
  · simp only [hst, if_false, Option.bind_some, List.map_cons, List.map_nil]
    rcases Txn.checkAll (busOps mem) [⟨addr, 8, permRead⟩, ⟨addr + 8, 8, permRead⟩] s
      with ⟨b, s₁⟩
    cases b with
    | false => rfl
    | true =>
      simp only [if_true, ne_eq, not_true_eq_false, if_false, Prog.bind_apply, busRead_apply,
        Txn.actAll_cons, Txn.actAll_nil]
      cases (busOps mem).act _ s₁ with
      | none => rfl
      | some q =>
        simp only [Option.bind_some]
        cases (busOps mem).act _ q.2 <;> rfl

theorem validatePair_apply (a b n : W64) (perm : W32) (s : σ) :
    ∃ st, validatePair mem a b n perm s =
          some (st, (Txn.checkAll (busOps mem) [⟨a, n, perm⟩, ⟨b, n, perm⟩] s).2) ∧
      (st = .ok ↔ (Txn.checkAll (busOps mem) [⟨a, n, perm⟩, ⟨b, n, perm⟩] s).1 = true) := by
  unfold validatePair
  rw [Prog.bind_apply, busValidate_apply, checkAll_cons, checkAll_cons, Txn.checkAll_nil]
  dsimp only [Option.bind_some]
  by_cases h : (mem.validate s a n perm).1 = .ok
  · rw [if_pos h, if_pos h, busValidate_apply]
    refine ⟨(mem.validate (mem.validate s a n perm).2 b n perm).1, ?_⟩
    by_cases h2 : (mem.validate (mem.validate s a n perm).2 b n perm).1 = .ok
    · rw [if_pos h2]
      exact ⟨rfl, by simp [h2]⟩
    · rw [if_neg h2]
      exact ⟨rfl, by simp [h2]⟩
  · rw [if_neg h, if_neg h]
    exact ⟨_, rfl, by simp [h]⟩

theorem doPair_eq :
    doPair mem cpu insn = Txn.run (busOps mem) (.fault, cpu) (pairPlan cpu insn) := by
  funext s
  rw [Txn.run_apply]
  unfold doPair pairPlan
  dsimp only
  rw [Prog.bind_apply]
  generalize (resolveMemAddr cpu.regs insn).1 = addr
  generalize (resolveMemAddr cpu.regs insn).2 = wb
  by_cases hst : insn.op = .stp
  · simp only [hst, if_true]
    obtain ⟨st, he, hiff⟩ := validatePair_apply mem addr (addr + insn.memSize.count) insn.memSize.count
      permWrite s
    generalize Txn.checkAll (busOps mem) _ s = r at he hiff ⊢
    rw [he]
    obtain ⟨b, s₁⟩ := r
    cases b with
    | false =>
      have hne : st ≠ .ok := by simpa using hiff
      simp only [Option.bind_some, hne, ne_eq, not_false_eq_true, if_true]
      rfl
    | true =>
      have hok : st = .ok := by simpa using hiff
      simp only [Option.bind_some, hok, if_true, ne_eq, not_true_eq_false, if_false,
        Prog.bind_apply, busWrite_apply, Txn.actAll_cons, Txn.actAll_nil]
      cases (busOps mem).act _ s₁ with
      | none => rfl
      | some q =>
        simp only [Option.map_some, Option.bind_some]
        cases (busOps mem).act _ q.2 <;> rfl
  · simp only [hst, if_false]
    obtain ⟨st, he, hiff⟩ := validatePair_apply mem addr (addr + insn.memSize.count) insn.memSize.count
      permRead s
    generalize Txn.checkAll (busOps mem) _ s = r at he hiff ⊢
    rw [he]
    obtain ⟨b, s₁⟩ := r
    cases b with
    | false =>
      have hne : st ≠ .ok := by simpa using hiff
      simp only [Option.bind_some, hne, ne_eq, not_false_eq_true, if_true]
      rfl
    | true =>
      have hok : st = .ok := by simpa using hiff
      simp only [Option.bind_some, hok, if_true, ne_eq, not_true_eq_false, if_false,
        Prog.bind_apply, busRead_apply, Txn.actAll_cons, Txn.actAll_nil]
      cases (busOps mem).act _ s₁ with
      | none => rfl
      | some q =>
        simp only [Option.bind_some]
        cases (busOps mem).act _ q.2 <;> rfl

theorem pairVectorMove_store (hst : insn.op = .stp) (reg : BitVec 5) (a : W64) (s : σ) :
    pairVectorMove mem cpu insn reg a s =
      (Txn.actAll (busOps mem) (vectorWrite cpu insn reg a) s).map fun p => (cpu, p.2) := by
  unfold pairVectorMove vectorWrite
  rw [if_pos hst]
  by_cases h2 : vectorPieces insn = 2
  · simp only [h2, if_true, Prog.bind_apply, busWrite_apply, Txn.actAll_cons, Txn.actAll_nil]
    cases (busOps mem).act _ s with
    | none => rfl
    | some q =>
      simp only [Option.map_some, Option.bind_some]
      cases (busOps mem).act _ q.2 <;> rfl
  · simp only [h2, if_false, Prog.bind_apply, busWrite_apply, Txn.actAll_cons, Txn.actAll_nil]
    cases (busOps mem).act _ s <;> rfl

theorem pairVectorMove_load (hst : insn.op ≠ .stp) (reg : BitVec 5) (a : W64) (s : σ) :
    pairVectorMove mem cpu insn reg a s =
      (Txn.actAll (busOps mem) (vectorRead insn a) s).map fun p =>
        (cpu.setV reg (p.1.getD 0 0) (if vectorPieces insn = 2 then p.1.getD 1 0 else 0), p.2) := by
  unfold pairVectorMove vectorRead
  rw [if_neg hst]
  by_cases h2 : vectorPieces insn = 2
  · simp only [h2, if_true, Prog.bind_apply, busRead_apply, Txn.actAll_cons, Txn.actAll_nil]
    cases (busOps mem).act _ s with
    | none => rfl
    | some q =>
      simp only [Option.bind_some]
      cases (busOps mem).act _ q.2 <;> rfl
  · simp only [h2, if_false, Prog.bind_apply, busRead_apply, Txn.actAll_cons, Txn.actAll_nil]
    cases (busOps mem).act _ s <;> rfl

theorem length_vectorRead (a : W64) : (vectorRead insn a).length = vectorPieces insn := by
  unfold vectorRead vectorPieces
  split <;> split <;> first | rfl | contradiction

theorem doPairVector_eq :
    doPairVector mem cpu insn = Txn.run (busOps mem) (.fault, cpu) (pairVectorPlan cpu insn) := by
  funext s
  rw [Txn.run_apply]
  unfold doPairVector pairVectorPlan
  dsimp only
  rw [Prog.bind_apply, validateAll_apply]
  generalize (resolveMemAddr cpu.regs insn).1 = addr
  generalize (resolveMemAddr cpu.regs insn).2 = wb
  by_cases hst : insn.op = .stp
  · simp only [hst, if_true]
    rcases Txn.checkAll (busOps mem) _ s with ⟨b, s₁⟩
    cases b with
    | false => rfl
    | true =>
      simp only [Option.bind_some, if_true, ne_eq, not_true_eq_false, if_false, Prog.bind_apply,
        pairVectorMove_store mem _ insn hst, Txn.actAll_append]
      cases Txn.actAll (busOps mem) _ s₁ with
      | none => rfl
      | some p =>
        simp only [Option.map_some, Option.bind_some]
        cases Txn.actAll (busOps mem) _ p.2 <;> rfl
  · simp only [hst, if_false]
    rcases Txn.checkAll (busOps mem) _ s with ⟨b, s₁⟩
    cases b with
    | false => rfl
    | true =>
      simp only [Option.bind_some, if_true, ne_eq, not_true_eq_false, if_false, Prog.bind_apply,
        pairVectorMove_load mem _ insn hst, Txn.actAll_append]
      cases hp : Txn.actAll (busOps mem) (vectorRead insn addr) s₁ with
      | none => rfl
      | some p =>
        simp only [Option.map_some, Option.bind_some]
        cases hq : Txn.actAll (busOps mem) (vectorRead insn (addr + insn.memSize.count)) p.2 with
        | none => rfl
        | some q =>
          have h1 := Txn.actAll_length hp
          have h2 := Txn.actAll_length hq
          rw [length_vectorRead] at h1 h2
          simp only [Option.map_some]
          by_cases hp2 : vectorPieces insn = 2
          · rw [hp2] at h1 h2
            obtain ⟨a, b, hab⟩ := List.length_eq_two.mp h1
            obtain ⟨c, d, hcd⟩ := List.length_eq_two.mp h2
            simp only [hp2, if_true, hab, hcd]
            rfl
          · have h1' : vectorPieces insn = 1 := by
              unfold vectorPieces at hp2 ⊢
              split at hp2 <;> simp_all
            rw [h1'] at h1 h2
            obtain ⟨a, hab⟩ := List.length_eq_one_iff.mp h1
            obtain ⟨c, hcd⟩ := List.length_eq_one_iff.mp h2
            simp only [hp2, if_false, hab, hcd]
            rfl

end Arms

/-! ## what a commit leaves alone -/

/-- the parts of a processor no load or store writes: the program counter and the thread register -/
def Cpu.aside (cpu : Cpu) : W64 × W64 := (cpu.regs.pc, cpu.tpidrurEl0)

def Cpu.monitor (cpu : Cpu) : W64 × W64 × Bool :=
  (cpu.monitorAddr, cpu.monitorSize, cpu.monitorValid)

section Frame

variable (cpu : Cpu) (insn : Insn) (n : BitVec 5) (b : Bool) (w : RegWidth) (v v' : W64)

@[simp] theorem Cpu.writeG_aside : (cpu.writeG n b w v).aside = cpu.aside := by
  unfold Cpu.aside Cpu.writeG
  rw [writeG_pc]

@[simp] theorem Cpu.writeG_monitor : (cpu.writeG n b w v).monitor = cpu.monitor := rfl

@[simp] theorem Cpu.setV_aside : (cpu.setV n v v').aside = cpu.aside := rfl

@[simp] theorem Cpu.setV_monitor : (cpu.setV n v v').monitor = cpu.monitor := rfl

@[simp] theorem writebackG_aside : (writebackG cpu insn v).aside = cpu.aside := by
  unfold writebackG
  split <;> simp

@[simp] theorem writebackG_monitor : (writebackG cpu insn v).monitor = cpu.monitor := by
  unfold writebackG
  split <;> simp

@[simp] theorem noteStore_aside : (noteStore cpu v v').aside = cpu.aside := by
  unfold noteStore
  split
  · rfl
  · split <;> rfl

@[simp] theorem singleFinish_aside (r : Regs) : (singleFinish r insn cpu).aside = cpu.aside := by
  unfold singleFinish
  split <;> simp

@[simp] theorem singleFinish_monitor (r : Regs) :
    (singleFinish r insn cpu).monitor = cpu.monitor := by
  unfold singleFinish
  split <;> simp

end Frame

/-- an indexed form writes the stack pointer back only when the instruction names it -/
theorem writebackG_sp {cpu : Cpu} {insn : Insn} (h : insn.writesSp = false) (v : W64) :
    (writebackG cpu insn v).regs.sp = cpu.regs.sp := by
  unfold writebackG
  split
  · rename_i hi
    refine writeG_sp fun _ hn => ?_
    simp [Insn.writesSp, hi, hn] at h
  · rfl

theorem noteStore_regs (cpu : Cpu) (a n : W64) : (noteStore cpu a n).regs = cpu.regs := by
  unfold noteStore
  split
  · rfl
  · split <;> rfl

theorem singleFinish_sp {cpu : Cpu} {insn : Insn} (h : insn.writesSp = false) (r : Regs) :
    (singleFinish r insn cpu).regs.sp = cpu.regs.sp := by
  unfold singleFinish
  split
  · rfl
  · exact writebackG_sp h _

theorem Cpu.writeG_plain_sp (cpu : Cpu) (n : BitVec 5) (w : RegWidth) (v : W64) :
    (cpu.writeG n false w v).regs.sp = cpu.regs.sp :=
  Oemu.writeG_plain_sp n w v

theorem memPlan_commit_sp {cpu : Cpu} {insn : Insn} {t : Plan} (h : memPlan cpu insn = some t)
    (hw : insn.writesSp = false) (vs : List W64) : (t.commit vs).2.regs.sp = cpu.regs.sp := by
  rcases memPlan_shape h with ⟨-, rfl⟩ | ⟨-, rfl | ⟨-, -, -, rfl⟩ | rfl | rfl⟩
  · unfold exclusivePlan
    dsimp only
    split
    · exact Cpu.writeG_plain_sp _ _ _ _
    · split <;> exact Cpu.writeG_plain_sp _ _ _ _
  · unfold singlePlan
    dsimp only
    split
    · exact (singleFinish_sp hw _).trans (congrArg Regs.sp (noteStore_regs _ _ _))
    · exact (singleFinish_sp hw _).trans (Cpu.writeG_plain_sp _ _ _ _)
  · unfold singleVectorPlan
    dsimp only
    split <;> exact writebackG_sp hw _
  · unfold pairPlan
    dsimp only
    split
    · exact (writebackG_sp hw _).trans (congrArg Regs.sp (noteStore_regs _ _ _))
    · refine (writebackG_sp hw _).trans ?_
      exact (Cpu.writeG_plain_sp _ _ _ _).trans (Cpu.writeG_plain_sp _ _ _ _)
  · unfold pairVectorPlan
    dsimp only
    split
    · exact (writebackG_sp hw _).trans (congrArg Regs.sp (noteStore_regs _ _ _))
    · refine (writebackG_sp hw _).trans ?_
      split <;> rfl

theorem memPlan_commit_aside {cpu : Cpu} {insn : Insn} {t : Plan} (h : memPlan cpu insn = some t)
    (vs : List W64) : (t.commit vs).2.aside = cpu.aside := by
  unfold memPlan at h
  cases hop : insn.op <;> rw [hop] at h <;> cases h <;>
    simp only [singleVectorPlan, singlePlan, pairVectorPlan, pairPlan, exclusivePlan, hop] <;>
    (repeat' split) <;>
    first | simp; done | exact Cpu.writeG_aside ..

end Oemu
