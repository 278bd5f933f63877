import Oemu.Exec.Operand
import Oemu.Exec.Dispatch

/-!
# Loads and stores, from the word

What a load or store word asks for: where it goes, how much it moves, in which registers, and what
becomes of the base.  `archAccess` reads that off the encoding and `Performs` says of a transaction
that it is that access, piece by piece.

* `Insn.access`        the access a decoded record stands for;
* `access_performs`    the executor performs it;
* `Performs.addr`      a transaction has one address.
-/

namespace Oemu

/-! ## accesses -/

/-- the sorts of transfer -/
inductive AccessKind where
  | general | generalPair | vector | vectorPair | exclusive
deriving DecidableEq, Repr

/-- an access: `size` is that of one register, `writeback` the new base of an indexed form -/
structure MemAccess where
  kind : AccessKind
  store : Bool
  size : MemSize
  width : RegWidth
  signed : Bool
  addr : W64
  writeback : Option W64
deriving DecidableEq

namespace MemAccess

/-- the bus transfers of one register: a 128-bit one takes two -/
def one (size : MemSize) (addr : W64) : List (W64 × MemSize) :=
  if size = .m128 then [(addr, .dword), (addr + 8, .dword)] else [(addr, size)]

/-- the bus transfers of an access; the second register of a pair is one size up -/
def pieces (a : MemAccess) : List (W64 × MemSize) :=
  match a.kind with
  | .generalPair | .vectorPair => one a.size a.addr ++ one a.size (a.addr + a.size.count)
  | _ => one a.size a.addr

def perm (a : MemAccess) : W32 := if a.store then permWrite else permRead

def checks (a : MemAccess) : List Check := a.pieces.map fun p => ⟨p.1, p.2.count, a.perm⟩

/-- the contents of a vector register, in transfers -/
def vectorValues (cpu : Cpu) (size : MemSize) (n : BitVec 5) : List W64 :=
  if size = .m128 then [(cpu.v n).1, (cpu.v n).2] else [(cpu.v n).1]

/-- what a store stores -/
def values (word : W32) (cpu : Cpu) (a : MemAccess) : List W64 :=
  match a.kind with
  | .general | .exclusive => [readG cpu.regs (field word 0) false a.width]
  | .generalPair =>
    [readG cpu.regs (field word 0) false a.width, readG cpu.regs (field word 10) false a.width]
  | .vector => vectorValues cpu a.size (field word 0)
  | .vectorPair => vectorValues cpu a.size (field word 0) ++ vectorValues cpu a.size (field word 10)

/-- is it a store-exclusive without its reservation -/
def misses (cpu : Cpu) (a : MemAccess) : Bool :=
  a.kind = .exclusive && a.store && !exclusiveHit cpu a.addr a.size.count

def acts (word : W32) (cpu : Cpu) (a : MemAccess) : List Access :=
  if a.misses cpu then []
  else if a.store then
    List.zipWith (fun p v => .write p.1 p.2 v) a.pieces (a.values word cpu)
  else a.pieces.map fun p => .read p.1 p.2 a.signed

/-- the general registers an access loads, or the status of a store-exclusive -/
def loaded (word : W32) (cpu : Cpu) (a : MemAccess) (vs : List W64) : Regs :=
  match a.kind, a.store with
  | .general, false | .exclusive, false =>
    writeG cpu.regs (field word 0) false a.width (vs.getD 0 0)
  | .generalPair, false =>
    writeG (writeG cpu.regs (field word 0) false a.width (vs.getD 0 0)) (field word 10) false
      a.width (vs.getD 1 0)
  | .exclusive, true => writeG cpu.regs (field word 16) false .w32 (if a.misses cpu then 1 else 0)
  | _, _ => cpu.regs

/-- the registers after: the base last -/
def regs (word : W32) (cpu : Cpu) (a : MemAccess) (vs : List W64) : Regs :=
  a.writeback.elim (a.loaded word cpu vs) fun v =>
    writeG (a.loaded word cpu vs) (field word 5) true .w64 v

/-- the vector file after: a load clears what it does not fill -/
def vectors (word : W32) (cpu : Cpu) (a : MemAccess) (vs : List W64) : BitVec 5 → W64 × W64 :=
  match a.kind, a.store with
  | .vector, false => Function.update cpu.v (field word 0) (vs.getD 0 0, vs.getD 1 0)
  | .vectorPair, false =>
    if a.size = .m128 then
      Function.update (Function.update cpu.v (field word 0) (vs.getD 0 0, vs.getD 1 0))
        (field word 10) (vs.getD 2 0, vs.getD 3 0)
    else
      Function.update (Function.update cpu.v (field word 0) (vs.getD 0 0, 0)) (field word 10)
        (vs.getD 1 0, 0)
  | _, _ => cpu.v

end MemAccess

/-- a transaction is an access: what it checks, what it transfers, and the registers it leaves -/
structure Performs (word : W32) (cpu : Cpu) (a : MemAccess) (t : Plan) : Prop where
  checks : t.checks = a.checks
  acts : t.acts = a.acts word cpu
  regs : ∀ vs, (t.commit vs).2.regs = a.regs word cpu vs
  vectors : ∀ vs, (t.commit vs).2.v = a.vectors word cpu vs

/-- what the executor does for a record is what a word asks for -/
def Accesses (word : W32) (cpu : Cpu) (insn : Insn) : Option MemAccess → Prop
  | some a => ∃ t, memPlan cpu insn = some t ∧ Performs word cpu a t
  | none => memPlan cpu insn = none

/-! ## the words -/

/-- an immediate field, sign-extended or not -/
def simm (word : W32) (lsb n : Nat) : W64 := (word.extractLsb' lsb n).signExtend 64

def uimm (word : W32) (lsb n : Nat) : W64 := (word.extractLsb' lsb n).setWidth 64

def archBaseReg (word : W32) (r : Regs) : W64 := archReg r (field word 5) true

/-- the address and the writeback of a base and an offset -/
def archIndexed (base offset : W64) : IndexMode → W64 × Option W64
  | .none => (base + offset, none)
  | .post => (base, some (base + offset))
  | .pre => (base + offset, some (base + offset))

/-- store, width and sign of `size:opc`; `none` prefetches or is unallocated -/
def archOpc (size opc : Nat) : Option (Bool × RegWidth × Bool) :=
  if opc = 0 then some (true, if size = 3 then .w64 else .w32, false)
  else if opc = 1 then some (false, if size = 3 then .w64 else .w32, false)
  else if opc = 2 then (if size = 3 then none else some (false, .w64, true))
  else if size = 0 ∨ size = 1 then some (false, .w32, true)
  else none

/-- one general register at an address -/
def archSingle (word : W32) (p : W64 × Option W64) : Option MemAccess :=
  (archOpc (bits word 30 2) (bits word 22 2)).map fun o =>
    ⟨.general, o.1, toMemSize (bits word 30 2), o.2.1, o.2.2, p.1, p.2⟩

/-- the index register of the register-offset form, extended -/
def archOffset (word : W32) (r : Regs) : W64 :=
  let m := archReg r (field word 16) false
  if bits word 13 3 = 2 then (m.setWidth 32).setWidth 64
  else if bits word 13 3 = 6 then (m.setWidth 32).signExtend 64
  else m

/-- the index mode of bits 11:10; 2 is the unprivileged form -/
def indexBits (n : Nat) : IndexMode :=
  if n = 1 then .post else if n = 3 then .pre else .none

def archRegister (word : W32) (r : Regs) : Option MemAccess :=
  let size := bits word 30 2
  if bit word 24 = 1 then
    archSingle word (archIndexed (archBaseReg word r) (uimm word 10 12 <<< size) .none)
  else if bit word 21 = 0 then
    archSingle word (archIndexed (archBaseReg word r) (simm word 12 9) (indexBits (bits word 10 2)))
  else if bits word 10 2 = 2 then
    archSingle word (archIndexed (archBaseReg word r)
      (archOffset word r <<< (if bit word 12 = 1 then size else 0)) .none)
  else none

def archVector (word : W32) (r : Regs) : Option MemAccess :=
  let access (p : W64 × Option W64) : Option MemAccess :=
    some ⟨.vector, bit word 22 = 0, .m128, .w64, false, p.1, p.2⟩
  if bit word 24 = 1 then
    access (archIndexed (archBaseReg word r) (uimm word 10 12 <<< 4) .none)
  else if bit word 21 = 0 ∧ bits word 10 2 ≠ 2 then
    access (archIndexed (archBaseReg word r) (simm word 12 9) (indexBits (bits word 10 2)))
  else none

/-- the address of a pair: bits 24:23 are the index mode, 0 the non-temporal form -/
def archPairAddr (word : W32) (r : Regs) (size : MemSize) : W64 × Option W64 :=
  archIndexed (archBaseReg word r) (simm word 15 7 <<< size.log2) (indexBits (bits word 23 2))

def archPair (word : W32) (r : Regs) : Option MemAccess :=
  let access (size : MemSize) (width : RegWidth) (signed : Bool) : Option MemAccess :=
    some ⟨.generalPair, bit word 22 = 0, size, width, signed, (archPairAddr word r size).1,
      (archPairAddr word r size).2⟩
  if bits word 30 2 = 0 then access .word .w32 false
  else if bits word 30 2 = 1 then
    if bit word 22 = 1 ∧ bits word 23 2 ≠ 0 then access .word .w64 true else none
  else if bits word 30 2 = 2 then access .dword .w64 false
  else none

def archVectorPair (word : W32) (r : Regs) : Option MemAccess :=
  let access (size : MemSize) : Option MemAccess :=
    some ⟨.vectorPair, bit word 22 = 0, size, .w64, false, (archPairAddr word r size).1,
      (archPairAddr word r size).2⟩
  if bits word 30 2 = 0 then access .word
  else if bits word 30 2 = 1 then access .dword
  else if bits word 30 2 = 2 then access .m128
  else none

/-- a literal: `opc` 3 prefetches -/
def archLiteral (word : W32) (pc : W64) : Option MemAccess :=
  let access (size : MemSize) (width : RegWidth) (signed : Bool) : Option MemAccess :=
    some ⟨.general, false, size, width, signed, pc + simm word 5 19 <<< 2, none⟩
  if bits word 30 2 = 0 then access .word .w32 false
  else if bits word 30 2 = 1 then access .dword .w64 false
  else if bits word 30 2 = 2 then access .word .w64 true
  else none

/-- the exclusive and the ordered accesses of one register -/
def archOrdered (word : W32) (r : Regs) : Option MemAccess :=
  let access (kind : AccessKind) : Option MemAccess :=
    some ⟨kind, bit word 22 = 0, toMemSize (bits word 30 2),
      if bits word 30 2 = 3 then .w64 else .w32, false, archBaseReg word r, none⟩
  if bit word 21 = 1 then none
  else if bit word 23 = 0 then access .exclusive
  else if bit word 15 = 1 then access .general
  else none

/-- **the access of a load or store word**; of the vector space only the forms of the subset -/
def archAccess (word : W32) (pc : W64) (r : Regs) : Option MemAccess :=
  if bit word 26 = 1 then
    if bits word 28 2 = 2 then archVectorPair word r
    else if bits word 28 2 = 3 then archVector word r
    else none
  else if bits word 28 2 = 0 then archOrdered word r
  else if bits word 28 2 = 1 then archLiteral word pc
  else if bits word 28 2 = 2 then archPair word r
  else archRegister word r

/-! ## the records -/

/-- the writeback of an indexed record -/
def Insn.back (r : Regs) (insn : Insn) : Option W64 :=
  if insn.indexMode ≠ .none then some (resolveMemAddr r insn).2 else none

/-- one general register, through the resolver or not -/
def Insn.single (r : Regs) (insn : Insn) (store : Bool) : MemAccess :=
  ⟨.general, store, insn.memSize, insn.width, insn.isSignedLoad, singleAddr r insn,
    if insn.operandKind = .imm then none else insn.back r⟩

def Insn.pair (r : Regs) (insn : Insn) (store : Bool) : MemAccess :=
  ⟨.generalPair, store, insn.memSize, insn.width, insn.isSignedLoad, (resolveMemAddr r insn).1,
    insn.back r⟩

def Insn.vector (r : Regs) (insn : Insn) (kind : AccessKind) (store : Bool) (size : MemSize) :
    MemAccess :=
  ⟨kind, store, size, .w64, false, (resolveMemAddr r insn).1, insn.back r⟩

def Insn.exclusive (r : Regs) (insn : Insn) (store : Bool) : MemAccess :=
  ⟨.exclusive, store, insn.memSize, insn.width, false, readG r insn.rn true .w64, none⟩

def Insn.access (r : Regs) (insn : Insn) : Option MemAccess :=
  match insn.op with
  | .ldr => some (if insn.isVector then insn.vector r .vector false .m128 else insn.single r false)
  | .str => some (if insn.isVector then insn.vector r .vector true .m128 else insn.single r true)
  | .ldrs | .ldar => some (insn.single r false)
  | .stlr => some (insn.single r true)
  | .ldp =>
    some (if insn.isVector then insn.vector r .vectorPair false insn.memSize
      else insn.pair r false)
  | .stp =>
    some (if insn.isVector then insn.vector r .vectorPair true insn.memSize
      else insn.pair r true)
  | .ldpsw => some (insn.pair r false)
  | .ldxr => some (insn.exclusive r false)
  | .stxr => some (insn.exclusive r true)
  | _ => none

/-- the registers of a record are those of the word; a literal has no base -/
structure Insn.Fielded (word : W32) (insn : Insn) : Prop where
  rd : insn.rd = field word 0
  rn : insn.operandKind ≠ .imm → insn.rn = field word 5
  literal : insn.operandKind = .imm → insn.isVector = false ∧ (insn.op = .ldr ∨ insn.op = .ldrs)
  rm : insn.op = .stxr → insn.rm = field word 16
  rt2 : insn.op = .ldp ∨ insn.op = .stp ∨ insn.op = .ldpsw → insn.rt2 = field word 10
  size : insn.isVector = false → insn.memSize ≠ .m128
  plain : insn.isVector = true → insn.op = .ldr ∨ insn.op = .str ∨ insn.op = .ldp ∨ insn.op = .stp

variable {word : W32} {cpu : Cpu} {insn : Insn}

theorem writebackG_regs (r : Regs) (c : Cpu) :
    (writebackG c insn (resolveMemAddr r insn).2).regs =
      (insn.back r).elim c.regs fun v => writeG c.regs insn.rn true .w64 v := by
  unfold writebackG Insn.back
  by_cases h : insn.indexMode ≠ .none
  · rw [if_pos h, if_pos h]
    rfl
  · rw [if_neg h, if_neg h]
    rfl

theorem writebackG_v (c : Cpu) (v : W64) : (writebackG c insn v).v = c.v := by
  unfold writebackG
  split <;> rfl

theorem noteStore_v (c : Cpu) (a n : W64) : (noteStore c a n).v = c.v := by
  unfold noteStore
  split
  · rfl
  · split <;> rfl

theorem one_of_ne {n : MemSize} (h : n ≠ .m128) (a : W64) : MemAccess.one n a = [(a, n)] := by
  unfold MemAccess.one
  rw [if_neg h]

theorem writebackG_fielded (hrn : insn.rn = field word 5) (r : Regs) (c : Cpu) :
    (writebackG c insn (resolveMemAddr r insn).2).regs =
      (insn.back r).elim c.regs fun v => writeG c.regs (field word 5) true .w64 v := by
  rw [writebackG_regs, hrn]

theorem Insn.Fielded.base (hf : insn.Fielded word)
    (h : insn.isVector = true ∨ (insn.op ≠ .ldr ∧ insn.op ≠ .ldrs)) : insn.rn = field word 5 := by
  apply hf.rn
  intro hk
  obtain ⟨hv, hop⟩ := hf.literal hk
  rcases h with h | ⟨h1, h2⟩
  · rw [hv] at h
    cases h
  · exact hop.elim h1 h2

theorem singleFinish_regs (hf : insn.Fielded word) (r : Regs) (c : Cpu) :
    (singleFinish r insn c).regs =
      (if insn.operandKind = .imm then none else insn.back r).elim c.regs fun v =>
        writeG c.regs (field word 5) true .w64 v := by
  unfold singleFinish
  by_cases hi : insn.operandKind = .imm
  · rw [if_pos hi, if_pos hi]
    rfl
  · rw [if_neg hi, if_neg hi]
    exact writebackG_fielded (hf.rn hi) r c

theorem singleFinish_v (r : Regs) (c : Cpu) : (singleFinish r insn c).v = c.v := by
  unfold singleFinish
  split
  · rfl
  · exact writebackG_v c _

theorem singlePlan_performs (hf : insn.Fielded word) (hv : insn.isVector = false) (store : Bool)
    (hst : (insn.op = .str ∨ insn.op = .stlr) ↔ store = true) :
    Performs word cpu (insn.single cpu.regs store) (singlePlan cpu insn) := by
  have hone := one_of_ne (hf.size hv) (singleAddr cpu.regs insn)
  unfold singlePlan Insn.single
  cases store with
  | true =>
    rw [if_pos (hst.mpr rfl), hf.rd]
    constructor
    · show _ = (MemAccess.one _ _).map _
      rw [hone]
      rfl
    · show _ = List.zipWith _ (MemAccess.one _ _) _
      rw [hone]
      rfl
    · intro vs
      refine (singleFinish_regs hf _ _).trans ?_
      rw [noteStore_regs]
      rfl
    · intro vs
      exact (singleFinish_v _ _).trans (noteStore_v _ _ _)
  | false =>
    rw [if_neg (fun h => Bool.false_ne_true (hst.mp h)), hf.rd]
    constructor
    · show _ = (MemAccess.one _ _).map _
      rw [hone]
      rfl
    · show _ = (MemAccess.one _ _).map _
      rw [hone]
      rfl
    · intro vs
      exact singleFinish_regs hf _ _
    · intro vs
      exact singleFinish_v _ _

theorem singleVectorPlan_performs (hf : insn.Fielded word) (hv : insn.isVector = true)
    (store : Bool) (hst : insn.op = .str ↔ store = true) :
    Performs word cpu (insn.vector cpu.regs .vector store .m128) (singleVectorPlan cpu insn) := by
  have hrn := hf.base (.inl hv)
  unfold singleVectorPlan Insn.vector
  cases store with
  | true =>
    rw [if_pos (hst.mpr rfl), hf.rd]
    exact ⟨rfl, rfl, fun vs => writebackG_fielded hrn _ _, fun vs => writebackG_v _ _⟩
  | false =>
    rw [if_neg (fun h => Bool.false_ne_true (hst.mp h)), hf.rd]
    exact ⟨rfl, rfl, fun vs => writebackG_fielded hrn _ _, fun vs => writebackG_v _ _⟩

theorem pairPlan_performs (hf : insn.Fielded word) (hv : insn.isVector = false)
    (hrn : insn.rn = field word 5) (hrt2 : insn.rt2 = field word 10) (store : Bool)
    (hst : insn.op = .stp ↔ store = true) :
    Performs word cpu (insn.pair cpu.regs store) (pairPlan cpu insn) := by
  have hone := one_of_ne (hf.size hv)
  unfold pairPlan Insn.pair
  cases store with
  | true =>
    rw [if_pos (hst.mpr rfl), hf.rd, hrt2]
    constructor
    · show _ = (MemAccess.one _ _ ++ MemAccess.one _ _).map _
      rw [hone, hone]
      rfl
    · show _ = List.zipWith _ (MemAccess.one _ _ ++ MemAccess.one _ _) _
      rw [hone, hone]
      rfl
    · intro vs
      refine (writebackG_fielded hrn _ _).trans ?_
      rw [noteStore_regs]
      rfl
    · intro vs
      exact (writebackG_v _ _).trans (noteStore_v _ _ _)
  | false =>
    rw [if_neg (fun h => Bool.false_ne_true (hst.mp h)), hf.rd, hrt2]
    constructor
    · show _ = (MemAccess.one _ _ ++ MemAccess.one _ _).map _
      rw [hone, hone]
      rfl
    · show _ = (MemAccess.one _ _ ++ MemAccess.one _ _).map _
      rw [hone, hone]
      rfl
    · intro vs
      exact writebackG_fielded hrn _ _
    · intro vs
      exact writebackG_v _ _

theorem exclusivePlan_performs (hf : insn.Fielded word) (hv : insn.isVector = false)
    (hrm : insn.op = .stxr → insn.rm = field word 16) (store : Bool)
    (hst : insn.op = .ldxr ↔ store = false) (hop : store = true → insn.op = .stxr) :
    Performs word cpu (insn.exclusive cpu.regs store) (exclusivePlan cpu insn) := by
  have hone := one_of_ne (hf.size hv)
  unfold exclusivePlan
  cases store with
  | false =>
    rw [if_pos (hst.mpr rfl), hf.rd]
    constructor
    · show _ = (MemAccess.one insn.memSize (readG cpu.regs insn.rn true .w64)).map _
      rw [hone]
      rfl
    · show _ = (MemAccess.one insn.memSize (readG cpu.regs insn.rn true .w64)).map _
      rw [hone]
      rfl
    · exact fun vs => rfl
    · exact fun vs => rfl
  | true =>
    rw [if_neg (fun h => Bool.false_ne_true (hst.mp h).symm), hf.rd, hrm (hop rfl)]
    by_cases hx : exclusiveHit cpu (readG cpu.regs insn.rn true .w64) insn.memSize.count = true
    · have hmiss : (insn.exclusive cpu.regs true).misses cpu = false := by
        unfold MemAccess.misses Insn.exclusive
        dsimp only
        rw [hx]
        rfl
      rw [if_pos hx]
      constructor
      · show _ = (MemAccess.one insn.memSize (readG cpu.regs insn.rn true .w64)).map _
        rw [hone]
        rfl
      · unfold MemAccess.acts
        rw [hmiss]
        show _ = List.zipWith _ (MemAccess.one insn.memSize (readG cpu.regs insn.rn true .w64)) _
        rw [hone]
        rfl
      · intro vs
        show _ = writeG cpu.regs (field word 16) false .w32
          (if (insn.exclusive cpu.regs true).misses cpu then 1 else 0)
        rw [hmiss]
        rfl
      · exact fun vs => rfl
    · have hmiss : (insn.exclusive cpu.regs true).misses cpu = true := by
        unfold MemAccess.misses Insn.exclusive
        dsimp only
        rw [Bool.eq_false_iff.mpr hx]
        rfl
      rw [if_neg hx]
      constructor
      · show _ = (MemAccess.one insn.memSize (readG cpu.regs insn.rn true .w64)).map _
        rw [hone]
        rfl
      · unfold MemAccess.acts
        rw [hmiss]
        rfl
      · intro vs
        show _ = writeG cpu.regs (field word 16) false .w32
          (if (insn.exclusive cpu.regs true).misses cpu then 1 else 0)
        rw [hmiss]
        rfl
      · exact fun vs => rfl

theorem vectorPiece_count (insn : Insn) :
    (if insn.memSize.count < 8 then insn.memSize.count else 8) = (vectorPiece insn).count := by
  unfold vectorPiece
  cases insn.memSize <;> rfl

theorem vectorPieces_two (insn : Insn) : vectorPieces insn = 2 ↔ insn.memSize = .m128 := by
  unfold vectorPieces
  by_cases h : insn.memSize = .m128
  · rw [if_pos h]
    exact ⟨fun _ => h, fun _ => rfl⟩
  · rw [if_neg h]
    exact ⟨fun h1 => absurd h1 (by decide), fun h1 => absurd h1 h⟩

theorem pairVectorPlan_performs (hf : insn.Fielded word) (hrn : insn.rn = field word 5)
    (hrt2 : insn.rt2 = field word 10) (store : Bool) (hst : insn.op = .stp ↔ store = true) :
    Performs word cpu (insn.vector cpu.regs .vectorPair store insn.memSize)
      (pairVectorPlan cpu insn) := by
  unfold pairVectorPlan pairVectorAddrs vectorWrite vectorRead Insn.vector
  dsimp only
  rw [vectorPiece_count, hf.rd, hrt2]
  by_cases hm : insn.memSize = .m128
  · have h2 : vectorPieces insn = 2 := (vectorPieces_two insn).mpr hm
    have hp : vectorPiece insn = .dword := if_pos hm
    simp only [if_pos h2, hp, hm]
    cases store with
    | true =>
      rw [if_pos (hst.mpr rfl)]
      refine ⟨rfl, rfl, fun vs => ?_, fun vs => ?_⟩
      · refine (writebackG_fielded hrn _ _).trans ?_
        rw [noteStore_regs]
        rfl
      · exact (writebackG_v _ _).trans (noteStore_v _ _ _)
    | false =>
      rw [if_neg (fun h => Bool.false_ne_true (hst.mp h))]
      exact ⟨rfl, rfl, fun vs => writebackG_fielded hrn _ _, fun vs => writebackG_v _ _⟩
  · have h2 : ¬ vectorPieces insn = 2 := fun h => hm ((vectorPieces_two insn).mp h)
    have hp : vectorPiece insn = insn.memSize := if_neg hm
    have hone := one_of_ne hm
    have hval : ∀ n, MemAccess.vectorValues cpu insn.memSize n = [(cpu.v n).1] := fun n => if_neg hm
    simp only [if_neg h2, hp]
    cases store with
    | true =>
      rw [if_pos (hst.mpr rfl)]
      constructor
      · show _ = (MemAccess.one _ _ ++ MemAccess.one _ _).map _
        rw [hone, hone]
        rfl
      · show _ = List.zipWith _ (MemAccess.one _ _ ++ MemAccess.one _ _)
          (MemAccess.vectorValues _ _ _ ++ MemAccess.vectorValues _ _ _)
        rw [hone, hone, hval, hval]
        rfl
      · intro vs
        refine (writebackG_fielded hrn _ _).trans ?_
        rw [noteStore_regs]
        rfl
      · intro vs
        exact (writebackG_v _ _).trans (noteStore_v _ _ _)
    | false =>
      rw [if_neg (fun h => Bool.false_ne_true (hst.mp h))]
      constructor
      · show _ = (MemAccess.one _ _ ++ MemAccess.one _ _).map _
        rw [hone, hone]
        rfl
      · show _ = (MemAccess.one _ _ ++ MemAccess.one _ _).map _
        rw [hone, hone]
        rfl
      · intro vs
        exact writebackG_fielded hrn _ _
      · intro vs
        refine (writebackG_v _ _).trans ?_
        show _ = (if insn.memSize = .m128 then _ else _)
        rw [if_neg hm]
        rfl

/-! ## what the executor performs -/

/-- **the executor performs the access its record stands for** -/
theorem access_performs (hfield : insn.op ≠ .hint → insn.Fielded word) :
    Accesses word cpu insn (insn.access cpu.regs) := by
  have hvec : insn.Fielded word → ∀ {op}, insn.op = op → op ≠ .ldr → op ≠ .str → op ≠ .ldp →
      op ≠ .stp → insn.isVector = false := by
    intro hf op hop h1 h2 h3 h4
    by_contra hv
    rcases hf.plain (Bool.eq_true_of_not_eq_false hv) with h | h | h | h
    · exact h1 (hop.symm.trans h)
    · exact h2 (hop.symm.trans h)
    · exact h3 (hop.symm.trans h)
    · exact h4 (hop.symm.trans h)
  unfold Insn.access
  cases hop : insn.op <;> dsimp only
  case ldr =>
    have hf := hfield (by rw [hop]; decide)
    refine ⟨_, by unfold memPlan; rw [hop], ?_⟩
    by_cases hv : insn.isVector = true
    · rw [if_pos hv, if_pos hv]
      exact singleVectorPlan_performs hf hv false (by rw [hop]; decide)
    · rw [if_neg hv, if_neg hv]
      exact singlePlan_performs hf (Bool.eq_false_iff.mpr hv) false (by rw [hop]; decide)
  case str =>
    have hf := hfield (by rw [hop]; decide)
    refine ⟨_, by unfold memPlan; rw [hop], ?_⟩
    by_cases hv : insn.isVector = true
    · rw [if_pos hv, if_pos hv]
      exact singleVectorPlan_performs hf hv true (by rw [hop]; decide)
    · rw [if_neg hv, if_neg hv]
      exact singlePlan_performs hf (Bool.eq_false_iff.mpr hv) true (by rw [hop]; decide)
  case ldp =>
    have hf := hfield (by rw [hop]; decide)
    refine ⟨_, by unfold memPlan; rw [hop], ?_⟩
    have hrt2 : insn.rt2 = field word 10 := hf.rt2 (.inl hop)
    have hrn : insn.rn = field word 5 := hf.base (.inr (by rw [hop]; decide))
    by_cases hv : insn.isVector = true
    · rw [if_pos hv, if_pos hv]
      exact pairVectorPlan_performs hf hrn hrt2 false (by rw [hop]; decide)
    · rw [if_neg hv, if_neg hv]
      exact pairPlan_performs hf (Bool.eq_false_iff.mpr hv) hrn hrt2 false (by rw [hop]; decide)
  case stp =>
    have hf := hfield (by rw [hop]; decide)
    refine ⟨_, by unfold memPlan; rw [hop], ?_⟩
    have hrt2 : insn.rt2 = field word 10 := hf.rt2 (.inr (.inl hop))
    have hrn : insn.rn = field word 5 := hf.base (.inr (by rw [hop]; decide))
    by_cases hv : insn.isVector = true
    · rw [if_pos hv, if_pos hv]
      exact pairVectorPlan_performs hf hrn hrt2 true (by rw [hop]; decide)
    · rw [if_neg hv, if_neg hv]
      exact pairPlan_performs hf (Bool.eq_false_iff.mpr hv) hrn hrt2 true (by rw [hop]; decide)
  case ldrs =>
    have hf := hfield (by rw [hop]; decide)
    have hv := hvec hf hop (by decide) (by decide) (by decide) (by decide)
    refine ⟨_, by unfold memPlan; rw [hop], ?_⟩
    exact singlePlan_performs hf hv false (by rw [hop]; decide)
  case ldar =>
    have hf := hfield (by rw [hop]; decide)
    have hv := hvec hf hop (by decide) (by decide) (by decide) (by decide)
    refine ⟨_, by unfold memPlan; rw [hop], ?_⟩
    exact singlePlan_performs hf hv false (by rw [hop]; decide)
  case stlr =>
    have hf := hfield (by rw [hop]; decide)
    have hv := hvec hf hop (by decide) (by decide) (by decide) (by decide)
    refine ⟨_, by unfold memPlan; rw [hop], ?_⟩
    exact singlePlan_performs hf hv true (by rw [hop]; decide)
  case ldpsw =>
    have hf := hfield (by rw [hop]; decide)
    have hv := hvec hf hop (by decide) (by decide) (by decide) (by decide)
    refine ⟨_, by unfold memPlan; rw [hop], ?_⟩
    have hrn : insn.rn = field word 5 := hf.base (.inr (by rw [hop]; decide))
    exact pairPlan_performs hf hv hrn (hf.rt2 (.inr (.inr hop))) false (by rw [hop]; decide)
  case ldxr =>
    have hf := hfield (by rw [hop]; decide)
    have hv := hvec hf hop (by decide) (by decide) (by decide) (by decide)
    refine ⟨_, by unfold memPlan; rw [hop], ?_⟩
    exact exclusivePlan_performs hf hv hf.rm false (by rw [hop]; decide) fun h =>
      absurd h (by decide)
  case stxr =>
    have hf := hfield (by rw [hop]; decide)
    have hv := hvec hf hop (by decide) (by decide) (by decide) (by decide)
    refine ⟨_, by unfold memPlan; rw [hop], ?_⟩
    exact exclusivePlan_performs hf hv hf.rm true (by rw [hop]; decide) (fun _ => hop)
  all_goals
    show memPlan cpu insn = none
    unfold memPlan
    rw [hop]

theorem Performs.addr {a a' : MemAccess} {t : Plan} (h : Performs word cpu a t)
    (h' : Performs word cpu a' t) : a.addr = a'.addr := by
  have hhead : ∀ a : MemAccess, (a.checks.head?.map fun c => c.addr) = some a.addr := by
    intro a
    have hone : ∀ l, ((MemAccess.one a.size a.addr ++ l).map fun p : W64 × MemSize =>
        (⟨p.1, p.2.count, a.perm⟩ : Check)).head?.map (fun c => c.addr) = some a.addr := by
      intro l
      unfold MemAccess.one
      split <;> rfl
    unfold MemAccess.checks MemAccess.pieces
    split
    · exact hone _
    · exact hone _
    · rw [← List.append_nil (MemAccess.one a.size a.addr)]
      exact hone []
  have he : a.checks = a'.checks := h.checks.symm.trans h'.checks
  have hs : some a.addr = some a'.addr := by
    rw [← hhead a, he, hhead a']
  exact Option.some.inj hs

end Oemu
