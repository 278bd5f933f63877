import Oemu.Exec.SecondOperand
import Oemu.Exec.Sequence
import Oemu.Lib.Limbs

/-!
# Arithmetic on several words

`ADDS` on the lowest limbs and `ADCS` on the others is an addition column by column: the carry flag
of one instruction is the carry the next one adds.  `SUBS` and `SBCS` are the same addition with the
complement of the second number and a first carry of one.

* `limb_column`       one instruction is one column;
* `Chain.columns`     a chain of them is an addition, whatever happens between two instructions as
                      long as it keeps the flags;
* `multiword`         the digits, the carry and the overflow of the sum and of the difference.
-/

namespace Oemu

/-! ## the instructions -/

def Opcode.subtracts : Opcode → Bool
  | .sub | .subs | .sbc | .sbcs => true
  | _ => false

/-- the opcode of the limbs above -/
def Opcode.carryForm : Opcode → Opcode
  | .subs | .sbcs => .sbcs
  | _ => .adcs

/-- the opcodes of a limb: they set the flags -/
def Opcode.isLimb : Opcode → Bool
  | .adds | .subs | .adcs | .sbcs => true
  | _ => false

def Regs.carry (r : Regs) : Bool := r.nzcv.bits &&& nzcvC != 0

def Regs.overflow (r : Regs) : Bool := r.nzcv.bits &&& nzcvV != 0

def carryIn (op : Opcode) (r : Regs) : Bool :=
  if op = .adds then false else if op = .subs then true else r.carry

/-- a word and its record -/
structure Coded where
  word : W32
  pc : W64
  insn : Insn
  decoded : decode word pc = .ok insn

namespace Coded

variable (code : Coded) (r : Regs)

def rd : BitVec 5 := fieldRd code.word

/-- the first operand, as a number -/
def x : Nat := uval code.insn.width (firstOperand code.word r)

/-- the second operand, as a number -/
def y : Nat := (namedOperand code.word r).toNat

def added : Nat :=
  if code.insn.op.subtracts then 2 ^ code.insn.width.bits - 1 - code.y r else code.y r

/-- the sum of a limb -/
def result : AluResult :=
  addWithCarry (firstOperand code.word r)
    (if code.insn.op.subtracts then ~~~(operand2 r code.insn).2.1 else (operand2 r code.insn).2.1)
    (carryIn code.insn.op r) code.insn.width

end Coded

section Limb

variable {code : Coded}

theorem addsub_plainRd {word : W32} {pc : W64} {insn : Insn} (h : decode word pc = .ok insn)
    (hop : insn.op = .adds ∨ insn.op = .subs) : insn.rdIsSpForm = false := by
  have hdata : insn.op.family = .data := by
    rcases hop with hop | hop <;> rw [hop] <;> rfl
  have hs := addsub_setsFlags h hop
  have hgroup : insn.op.group = .addsub := by
    rcases hop with hop | hop <;> rw [hop] <;> rfl
  have hsrc := decode_source h hdata
  rw [hgroup] at hsrc
  cases hsrc with
  | addsubImm hc hd =>
    unfold decodeAddsubImm at hd
    dsimp only at hd
    split at hd <;> cases hd
    show (!_) = false
    rw [show decide (bit word 29 ≠ 0) = true from hs]
    rfl
  | addsubShifted hc hd =>
    unfold decodeAddsubShifted at hd
    dsimp only at hd
    split at hd
    · cases hd
    · split at hd <;> cases hd
      rfl
  | addsubExtended hc hd =>
    unfold decodeAddsubExtended at hd
    dsimp only at hd
    split at hd
    · cases hd
    · split at hd <;> cases hd
      show (!_) = false
      rw [show decide (bit word 29 ≠ 0) = true from hs]
      rfl

theorem decodeAddsubCarry_fields {word : W32} {insn : Insn} (h : decodeAddsubCarry word = .ok insn) :
    insn.operandKind = .reg ∧ insn.rnIsSpForm = false := by
  unfold decodeAddsubCarry at h
  dsimp only at h
  split at h <;> cases h
  exact ⟨rfl, rfl⟩

theorem limb_runs (hop : code.insn.op.isLimb = true) (r : Regs) :
    dataProcessing r code.insn =
      some (.ok, (r.write code.rd code.insn.width (code.result r).value).setNzcv
        (code.result r).nzcv) := by
  obtain ⟨word, pc, insn, h⟩ := code
  have hdata : insn.op.family = .data := by
    cases ho : insn.op <;> rw [ho] at hop <;> first | rfl | cases hop
  have hrouted := decode_routed h hdata
  have hrd : insn.rd = fieldRd word := hrouted.rd (by
    cases ho : insn.op <;> rw [ho] at hop <;> first | rfl | cases hop)
  have hrn : insn.rn = fieldRn word := hrouted.rn (by
    cases ho : insn.op <;> rw [ho] at hop <;> first | rfl | cases hop)
  have hw : insn.width = widthFromSf word := by
    rw [hrouted.width]
    cases ho : insn.op <;> rw [ho] at hop <;> first | rfl | cases hop
  have hfirst : firstOperand word r = readG r insn.rn insn.rnIsSpForm insn.width := by
    unfold firstOperand
    rw [hrn, hrouted.src, hw]
  by_cases has : insn.op = .adds ∨ insn.op = .subs
  · have hrun : dataProcessing r insn = some (.ok, doAddSub r insn) := by
      unfold dataProcessing
      rcases has with ho | ho <;> rw [ho]
    refine hrun.trans ?_
    unfold doAddSub Coded.result
    dsimp only
    rw [if_pos (addsub_setsFlags h has), addsub_plainRd h has, ← hfirst, hrd]
    rcases has with ho | ho
    · rw [ho]
      rfl
    · rw [ho]
      rfl
  · have hcarry : insn.op = .adcs ∨ insn.op = .sbcs := by
      revert hop has
      dsimp only
      cases insn.op <;> decide
    have hgroup : insn.op.group = .carry := by
      rcases hcarry with ho | ho <;> rw [ho] <;> rfl
    have hsrc := decode_source h hdata
    rw [hgroup] at hsrc
    cases hsrc with
    | carry hc hd =>
      obtain ⟨hkind, hsp⟩ := decodeAddsubCarry_fields hd
      have hm : (operand2 r insn).2.1 = readG r insn.rm false insn.width := by
        unfold operand2
        rw [hkind]
      have hrun : dataProcessing r insn = some (.ok, doAddSubCarry r insn) := by
        unfold dataProcessing
        rcases hcarry with ho | ho <;> rw [ho]
      refine hrun.trans ?_
      unfold doAddSubCarry Coded.result
      dsimp only
      rw [if_pos hcarry, hm, hfirst, hsp, hrd]
      rcases hcarry with ho | ho
      · rw [ho]
        rfl
      · rw [ho]
        rfl

theorem Opcode.isLimb_group {op : Opcode} (hop : op.isLimb = true) :
    op.group = .addsub ∨ op.group = .carry := by
  revert hop
  cases op <;> decide

theorem Coded.width_eq (hop : code.insn.op.isLimb = true) :
    code.insn.width = widthFromSf code.word := by
  have hdata : code.insn.op.family = .data := by
    revert hop
    cases code.insn.op <;> decide
  rw [(decode_routed code.decoded hdata).width]
  revert hop
  cases code.insn.op <;> first | exact fun _ => rfl | exact nofun

theorem Coded.y_eq (hop : code.insn.op.isLimb = true) (r : Regs) :
    uval code.insn.width (operand2 r code.insn).2.1 = code.y r := by
  unfold Coded.y
  rw [← operand2_named code.decoded (Opcode.isLimb_group hop) r, ← uval_low, Coded.width_eq hop]

theorem Coded.result_masked (code : Coded) (r : Regs) :
    (code.result r).nzcv &&& nzcvMask = (code.result r).nzcv := (addWithCarry_flags _ _ _ _).masked

/-- **one limb is one column** of the addition -/
theorem limb_column (code : Coded) (hop : code.insn.op.isLimb = true) (r : Regs) :
    (Limbs.Column.mk (code.x r) (code.added r) (code.result r).value.toNat).Carries
        code.insn.width.bits (carryIn code.insn.op r).toNat
        ((code.result r).nzcv &&& nzcvC != 0).toNat ∧
      code.x r < 2 ^ code.insn.width.bits ∧ code.added r < 2 ^ code.insn.width.bits ∧
      (((code.result r).nzcv &&& nzcvV != 0) = true ↔
        ¬ (-2 ^ (code.insn.width.bits - 1) ≤ Limbs.twos code.insn.width.bits (code.x r) +
              Limbs.twos code.insn.width.bits (code.added r) + (carryIn code.insn.op r).toNat ∧
            Limbs.twos code.insn.width.bits (code.x r) +
              Limbs.twos code.insn.width.bits (code.added r) + (carryIn code.insn.op r).toNat <
                2 ^ (code.insn.width.bits - 1))) := by
  have hadded : code.added r = uval code.insn.width
      (if code.insn.op.subtracts then ~~~(operand2 r code.insn).2.1
        else (operand2 r code.insn).2.1) := by
    unfold Coded.added
    by_cases hs : code.insn.op.subtracts = true
    · rw [if_pos hs, if_pos hs, uval_not, Coded.y_eq hop]
    · rw [if_neg hs, if_neg hs, Coded.y_eq hop]
  have hval := addWithCarry_value (firstOperand code.word r)
    (if code.insn.op.subtracts then ~~~(operand2 r code.insn).2.1 else (operand2 r code.insn).2.1)
    (carryIn code.insn.op r) code.insn.width
  obtain ⟨-, -, hc, hv, -⟩ := addWithCarry_flags (firstOperand code.word r)
    (if code.insn.op.subtracts then ~~~(operand2 r code.insn).2.1 else (operand2 r code.insn).2.1)
    (carryIn code.insn.op r) code.insn.width
  have hx : code.x r < 2 ^ code.insn.width.bits := uval_lt _ _
  have hy : code.added r < 2 ^ code.insn.width.bits := hadded ▸ uval_lt _ _
  have hb : (carryIn code.insn.op r).toNat ≤ 1 := Bool.toNat_le _
  unfold exactSum at hval hc
  unfold exactSigned at hv
  rw [← hadded] at hval hc
  refine ⟨⟨?_, hval ▸ Nat.mod_lt _ (Nat.two_pow_pos _)⟩, hx, hy, ?_⟩
  · show code.x r + code.added r + _ = (code.result r).value.toNat + _
    unfold Coded.result
    rw [hval]
    change _ ↔ _ ≤ code.x r + code.added r + _ at hc
    change _ = (code.x r + code.added r + _) % _ + _
    generalize ((addWithCarry (firstOperand code.word r)
      (if code.insn.op.subtracts = true then ~~~(operand2 r code.insn).2.1
        else (operand2 r code.insn).2.1) (carryIn code.insn.op r) code.insn.width).nzcv &&&
        nzcvC != 0) = carry at hc ⊢
    generalize 2 ^ code.insn.width.bits = B at *
    by_cases hle : B ≤ code.x r + code.added r + (carryIn code.insn.op r).toNat
    · rw [hc.mpr hle, Nat.mod_eq_sub_mod hle, Nat.mod_eq_of_lt (by omega)]
      show _ = _ + B * 1
      omega
    · have hfalse : carry = false := by
        rw [← Bool.not_eq_true]
        exact mt hc.mp hle
      rw [hfalse, Nat.mod_eq_of_lt (by omega)]
      rfl
  · rw [hadded]
    exact hv

end Limb

/-! ## chains -/

variable {σ ε : Type}

/-- an instruction that has run: the state before it and the state it left -/
structure Limb where
  code : Coded
  before : Cpu
  after : Cpu

/-- the first opcode, its carry form after it, and one width -/
inductive Follows (w : RegWidth) : Opcode → List Coded → Prop where
  | last {op : Opcode} {code : Coded} (hop : code.insn.op = op) (hw : code.insn.width = w) :
      Follows w op [code]
  | cons {op : Opcode} {code : Coded} {codes : List Coded} (hop : code.insn.op = op)
      (hw : code.insn.width = w) (h : Follows w op.carryForm codes) : Follows w op (code :: codes)

theorem Follows.head {w : RegWidth} {op : Opcode} {code : Coded} {codes : List Coded}
    (h : Follows w op (code :: codes)) : code.insn.op = op ∧ code.insn.width = w := by
  cases h with
  | last hop hw => exact ⟨hop, hw⟩
  | cons hop hw => exact ⟨hop, hw⟩

theorem Follows.tail {w : RegWidth} {op : Opcode} {code code' : Coded} {codes : List Coded}
    (h : Follows w op (code :: code' :: codes)) : Follows w op.carryForm (code' :: codes) := by
  cases h with
  | cons _ _ h => exact h

/-- instructions run one after the other; between two of them anything may happen that keeps the
flags -/
structure Chain (mem : Memops σ) (env : Option (EnvOps σ ε)) (w : RegWidth) (op : Opcode)
    (limbs : List Limb) : Prop where
  codes : Follows w op (limbs.map Limb.code)
  ran : ∀ l ∈ limbs, ∃ s s', dispatchBus mem env l.before l.code.insn s = some ((.ok, l.after), s')
  kept : limbs.IsChain fun l l' => l'.before.regs.nzcv = l.after.regs.nzcv

variable {mem : Memops σ} {env : Option (EnvOps σ ε)} {w : RegWidth} {op : Opcode}

def Limb.column (l : Limb) : Limbs.Column :=
  ⟨l.code.x l.before.regs, l.code.added l.before.regs, (l.code.result l.before.regs).value.toNat⟩

theorem Limb.after_regs {l : Limb} (hop : l.code.insn.op.isLimb = true)
    (h : ∃ s s', dispatchBus mem env l.before l.code.insn s = some ((.ok, l.after), s')) :
    l.after.regs = ((l.before.regs.write l.code.rd l.code.insn.width
      (l.code.result l.before.regs).value).setNzcv
        (l.code.result l.before.regs).nzcv).advancePc := by
  obtain ⟨s, s', h⟩ := h
  have hdata : l.code.insn.op.family = .data := by
    cases ho : l.code.insn.op <;> rw [ho] at hop <;> first | rfl | cases hop
  have hrun := dispatchBus_data mem env l.before s hdata (limb_runs hop l.before.regs)
  have heq := Option.some.inj (h.symm.trans hrun)
  exact congrArg (fun p => p.1.2.regs) heq

theorem Opcode.carryForm_isLimb (op : Opcode) : op.carryForm.isLimb = true := by
  cases op <;> rfl

/-- **a chain is an addition column by column** -/
theorem Chain.columns {limbs : List Limb} (hop : op.isLimb = true)
    (h : Chain mem env w op limbs) :
    ∃ (first last : Limb) (z : Int), limbs.head? = some first ∧ limbs.getLast? = some last ∧
      Limbs.Columns w.bits (carryIn op first.before.regs).toNat (limbs.map Limb.column)
        last.after.regs.carry.toNat z ∧
      (last.after.regs.overflow = true ↔ ¬ (-2 ^ (w.bits - 1) ≤ z ∧ z < 2 ^ (w.bits - 1))) := by
  induction limbs generalizing op with
  | nil => cases h.codes
  | cons l limbs ih =>
    obtain ⟨hcodes, hran, hkept⟩ := h
    obtain ⟨rfl, rfl⟩ := hcodes.head
    have hregs := Limb.after_regs hop (hran l List.mem_cons_self)
    have hflags : l.after.regs.nzcv.bits = (l.code.result l.before.regs).nzcv := by
      rw [hregs]
      exact l.code.result_masked l.before.regs
    obtain ⟨hcol, hx, hy, hv⟩ := limb_column l.code hop l.before.regs
    have hcarry : l.after.regs.carry = ((l.code.result l.before.regs).nzcv &&& nzcvC != 0) := by
      unfold Regs.carry
      rw [hflags]
    have hover : l.after.regs.overflow = ((l.code.result l.before.regs).nzcv &&& nzcvV != 0) := by
      unfold Regs.overflow
      rw [hflags]
    rw [← hcarry] at hcol
    rw [← hover] at hv
    cases limbs with
    | nil => exact ⟨l, l, _, rfl, rfl, .last hcol, hv⟩
    | cons l' limbs =>
      rw [List.isChain_cons_cons] at hkept
      obtain ⟨first, last, z, hfirst, hlast, hcols, hz⟩ := ih (Opcode.carryForm_isLimb _)
        ⟨hcodes.tail, fun m hm => hran m (List.mem_cons_of_mem _ hm), hkept.2⟩
      cases Option.some.inj hfirst
      have hin : carryIn l.code.insn.op.carryForm l'.before.regs = l.after.regs.carry := by
        unfold carryIn Regs.carry
        rw [hkept.1]
        cases l.code.insn.op <;> rfl
      rw [hin] at hcols
      exact ⟨l, last, z, rfl, hlast, .cons hcol hx hy hcols, hz⟩

/-! ## the digits of the sum and of the difference -/

/-- `rs` are the digits of the sum of the numbers with the digits `xs` and `ys` -/
structure IsSum (w : RegWidth) (xs ys rs : List Nat) (carry overflow : Bool) : Prop where
  length : rs.length = xs.length
  digits : ∀ r ∈ rs, r < 2 ^ w.bits
  value : Limbs.number w.bits rs =
    (Limbs.number w.bits xs + Limbs.number w.bits ys) % 2 ^ (w.bits * xs.length)
  carry : carry = true ↔
    2 ^ (w.bits * xs.length) ≤ Limbs.number w.bits xs + Limbs.number w.bits ys
  overflow : overflow = true ↔
    ¬ (-2 ^ (w.bits * xs.length - 1) ≤ Limbs.twos (w.bits * xs.length) (Limbs.number w.bits xs) +
          Limbs.twos (w.bits * xs.length) (Limbs.number w.bits ys) ∧
        Limbs.twos (w.bits * xs.length) (Limbs.number w.bits xs) +
          Limbs.twos (w.bits * xs.length) (Limbs.number w.bits ys) <
            2 ^ (w.bits * xs.length - 1))

/-- `rs` are the digits of their difference; the carry says that nothing was borrowed -/
structure IsDifference (w : RegWidth) (xs ys rs : List Nat) (carry overflow : Bool) : Prop where
  length : rs.length = xs.length
  digits : ∀ r ∈ rs, r < 2 ^ w.bits
  value : (Limbs.number w.bits rs : Int) =
    ((Limbs.number w.bits xs : Int) - Limbs.number w.bits ys) % 2 ^ (w.bits * xs.length)
  carry : carry = true ↔ Limbs.number w.bits ys ≤ Limbs.number w.bits xs
  overflow : overflow = true ↔
    ¬ (-2 ^ (w.bits * xs.length - 1) ≤ Limbs.twos (w.bits * xs.length) (Limbs.number w.bits xs) -
          Limbs.twos (w.bits * xs.length) (Limbs.number w.bits ys) ∧
        Limbs.twos (w.bits * xs.length) (Limbs.number w.bits xs) -
          Limbs.twos (w.bits * xs.length) (Limbs.number w.bits ys) <
            2 ^ (w.bits * xs.length - 1))

/-- what `ADDS` and `ADCS`, or `SUBS` and `SBCS`, make of two numbers -/
def IsTotal (op : Opcode) (w : RegWidth) (xs ys rs : List Nat) (carry overflow : Bool) : Prop :=
  (op = .adds → IsSum w xs ys rs carry overflow) ∧
    (op = .subs → IsDifference w xs ys rs carry overflow)

theorem toNat_pos_iff (b : Bool) : 0 < b.toNat ↔ b = true := by
  cases b <;> simp

/-- the columns of an addition are its digits -/
theorem columns_isSum {cols : List Limbs.Column} {c v : Bool} {z : Int}
    (h : Limbs.Columns w.bits 0 cols c.toNat z)
    (hv : v = true ↔ ¬ (-2 ^ (w.bits - 1) ≤ z ∧ z < 2 ^ (w.bits - 1))) :
    IsSum w (Limbs.xs cols) (Limbs.ys cols) (Limbs.rs cols) c v := by
  have hlen : (Limbs.xs cols).length = cols.length := List.length_map _
  have hcarry := h.carry_iff w.bits_pos
  have hover := h.overflow_iff w.bits_pos
  rw [Nat.add_zero, toNat_pos_iff] at hcarry
  constructor
  · exact (List.length_map _).trans (List.length_map _).symm
  · exact h.digits_lt
  · rw [hlen]
    exact h.digits w.bits_pos
  · rw [hlen]
    exact hcarry
  · rw [hlen, hv, hover, Nat.cast_zero, Int.add_zero]

/-- the columns of an addition of complements are the digits of a difference -/
theorem columns_isDifference {cols : List Limbs.Column} {c v : Bool} {z : Int} {ys : List Nat}
    (h : Limbs.Columns w.bits 1 cols c.toNat z) (hys : ∀ y ∈ ys, y < 2 ^ w.bits)
    (hcomp : Limbs.ys cols = ys.map fun y => 2 ^ w.bits - 1 - y)
    (hv : v = true ↔ ¬ (-2 ^ (w.bits - 1) ≤ z ∧ z < 2 ^ (w.bits - 1))) :
    IsDifference w (Limbs.xs cols) ys (Limbs.rs cols) c v := by
  have hlen : (Limbs.xs cols).length = cols.length := List.length_map _
  have hylen : ys.length = cols.length := by
    have e := congrArg List.length hcomp
    rw [List.length_map] at e
    exact e.symm.trans (List.length_map _)
  have hlt := Limbs.number_lt w.bits_pos hys
  have hnum := Limbs.number_complement w.bits_pos hys
  rw [hylen] at hlt hnum
  have hcarry := h.carry_iff w.bits_pos
  have hover := h.overflow_iff w.bits_pos
  have hdigits := h.digits w.bits_pos
  have hpos : 0 < w.bits * cols.length := by
    refine Nat.mul_pos w.bits_pos ?_
    cases h with
    | last => exact Nat.one_pos
    | cons => exact Nat.succ_pos _
  rw [hcomp, hnum] at hcarry hover hdigits
  rw [Limbs.twos_complement hpos hlt] at hover
  rw [toNat_pos_iff] at hcarry
  constructor
  · exact (List.length_map _).trans (List.length_map _).symm
  · exact h.digits_lt
  · rw [hlen, hdigits]
    have hcast : ((2 ^ (w.bits * cols.length) - 1 - Limbs.number w.bits ys : Nat) : Int) =
        2 ^ (w.bits * cols.length) - 1 - Limbs.number w.bits ys := by
      rw [Nat.sub_sub, Nat.cast_sub (by omega)]
      push_cast
      ring
    push_cast
    rw [hcast, show (Limbs.number w.bits (Limbs.xs cols) : Int) +
      (2 ^ (w.bits * cols.length) - 1 - Limbs.number w.bits ys) + 1 =
        Limbs.number w.bits (Limbs.xs cols) - Limbs.number w.bits ys +
          2 ^ (w.bits * cols.length) by ring, Int.add_emod_right]
  · rw [hcarry]
    omega
  · rw [hlen, hv, hover, Nat.cast_one]
    have e : ∀ a b : Int, a + (-1 - b) + 1 = a - b := by
      intro a b
      ring
    rw [e]

def chainXs (limbs : List Limb) : List Nat := limbs.map fun l => l.code.x l.before.regs
def chainYs (limbs : List Limb) : List Nat := limbs.map fun l => l.code.y l.before.regs
def chainRs (limbs : List Limb) : List Nat :=
  limbs.map fun l => (l.code.result l.before.regs).value.toNat

theorem Coded.y_lt (code : Coded) (hop : code.insn.op.isLimb = true) (r : Regs) :
    code.y r < 2 ^ code.insn.width.bits := by
  rw [← Coded.y_eq hop r]
  exact uval_lt _ _

/-- every opcode of a chain subtracts, or none does -/
theorem Follows.subtracts {codes : List Coded} (h : Follows w op codes) (hop : op.isLimb = true) :
    ∀ code ∈ codes, code.insn.op.subtracts = op.subtracts ∧ code.insn.op.isLimb = true ∧
      code.insn.width = w := by
  have hform : ∀ op : Opcode, op.isLimb = true → op.carryForm.subtracts = op.subtracts := by
    intro op hop
    cases op <;> first | rfl | cases hop
  induction h with
  | last ho hw =>
    intro code hc
    rw [List.mem_singleton.mp hc, ho]
    exact ⟨rfl, hop, hw⟩
  | @cons op code codes ho hw h ih =>
    intro code' hc
    rcases List.mem_cons.mp hc with rfl | hc
    · rw [ho]
      exact ⟨rfl, hop, hw⟩
    · obtain ⟨hs, hl, hw'⟩ := ih (Opcode.carryForm_isLimb _) code' hc
      exact ⟨hs.trans (hform op hop), hl, hw'⟩

/-- **a chain leaves the sum or the difference** of its numbers -/
theorem Chain.total {limbs : List Limb} (hop : op = .adds ∨ op = .subs)
    (h : Chain mem env w op limbs) :
    ∃ last, limbs.getLast? = some last ∧
      IsTotal op w (chainXs limbs) (chainYs limbs) (chainRs limbs) last.after.regs.carry
        last.after.regs.overflow := by
  have hlimb : op.isLimb = true := by
    rcases hop with rfl | rfl <;> rfl
  obtain ⟨first, last, z, hfirst, hlast, hcols, hz⟩ := h.columns hlimb
  have hall := h.codes.subtracts hlimb
  have hmem : ∀ l ∈ limbs, l.code.insn.op.subtracts = op.subtracts ∧ l.code.insn.width = w := by
    intro l hl
    obtain ⟨hs, -, hw⟩ := hall l.code (List.mem_map_of_mem hl)
    exact ⟨hs, hw⟩
  have hxs : Limbs.xs (limbs.map Limb.column) = chainXs limbs := by
    unfold Limbs.xs chainXs
    rw [List.map_map]
    rfl
  have hrs : Limbs.rs (limbs.map Limb.column) = chainRs limbs := by
    unfold Limbs.rs chainRs
    rw [List.map_map]
    rfl
  refine ⟨last, hlast, ?_, ?_⟩
  · rintro rfl
    have hys : Limbs.ys (limbs.map Limb.column) = chainYs limbs := by
      unfold Limbs.ys chainYs
      rw [List.map_map]
      apply List.map_congr_left
      intro l hl
      show l.code.added l.before.regs = _
      unfold Coded.added
      rw [(hmem l hl).1]
      rfl
    rw [← hxs, ← hys, ← hrs]
    exact columns_isSum hcols hz
  · rintro rfl
    have hys : Limbs.ys (limbs.map Limb.column) = (chainYs limbs).map fun y => 2 ^ w.bits - 1 - y := by
      unfold Limbs.ys chainYs
      rw [List.map_map, List.map_map]
      apply List.map_congr_left
      intro l hl
      show l.code.added l.before.regs = 2 ^ w.bits - 1 - l.code.y l.before.regs
      unfold Coded.added
      rw [(hmem l hl).1, (hmem l hl).2]
      rfl
    have hlt : ∀ y ∈ chainYs limbs, y < 2 ^ w.bits := by
      intro y hy
      obtain ⟨l, hl, rfl⟩ := List.mem_map.mp hy
      rw [← (hmem l hl).2]
      exact l.code.y_lt (hall l.code (List.mem_map_of_mem hl)).2.1 l.before.regs
    rw [← hxs, ← hrs]
    exact columns_isDifference hcols hlt hys hz

/-! ## straight-line code -/

/-- no instruction reads or overwrites a register an earlier one has written -/
def RegistersApart (codes : List Coded) : Prop :=
  codes.Pairwise fun c c' => c.rd ≠ 31 →
    c'.rd ≠ c.rd ∧ fieldRn c'.word ≠ c.rd ∧ fieldRm c'.word ≠ c.rd

/-- a limb above the lowest reads two general registers -/
theorem carryForm_reads {code : Coded} (hop : code.insn.op = .adcs ∨ code.insn.op = .sbcs)
    {r r' : Regs} (hn : ∀ w, r.read (fieldRn code.word) w = r'.read (fieldRn code.word) w)
    (hm : ∀ w, r.read (fieldRm code.word) w = r'.read (fieldRm code.word) w) :
    code.x r = code.x r' ∧ code.y r = code.y r' := by
  obtain ⟨word, pc, insn, h⟩ := code
  have hdata : insn.op.family = .data := by
    rcases hop with ho | ho <;> rw [ho] <;> rfl
  have hgroup : insn.op.group = .carry := by
    rcases hop with ho | ho <;> rw [ho] <;> rfl
  have hrouted := decode_routed h hdata
  have hsrc := decode_source h hdata
  rw [hgroup] at hsrc
  cases hsrc with
  | carry hc hd =>
    have hsp := (decodeAddsubCarry_fields hd).2
    have hplain : decide (SpSrc word) = false := hrouted.src.symm.trans hsp
    constructor
    · unfold Coded.x firstOperand
      dsimp only
      rw [hplain]
      exact congrArg (uval insn.width) (hn _)
    · unfold Coded.y namedOperand
      dsimp only
      rw [if_neg (by rw [hc]; decide), if_neg (by rw [hc]; decide), if_neg (by rw [hc]; decide),
        if_neg (by rw [hc]; decide), hm]

/-- a chain whose states follow each other, run from a state -/
structure StraightLine (mem : Memops σ) (env : Option (EnvOps σ ε)) (w : RegWidth) (op : Opcode)
    (codes : List Coded) (cpu : Cpu) (s : σ × ε) (limbs : List Limb) (cpu' : Cpu) : Prop where
  map_code : limbs.map Limb.code = codes
  chain : Chain mem env w op limbs
  first : limbs.head?.map Limb.before = some cpu
  last : limbs.getLast?.map Limb.after = some cpu'
  ran : execAll mem env (codes.map Coded.insn) cpu s = some ((.ok, cpu'), s)
  frame : ∀ n w', (∀ c ∈ codes, c.rd ≠ 31 → c.rd ≠ n) → cpu'.regs.read n w' = cpu.regs.read n w'
  xs : chainXs limbs = codes.map (fun c => c.x cpu.regs)
  ys : chainYs limbs = codes.map (fun c => c.y cpu.regs)
  rs : List.Forall₂ (fun c r => c.rd ≠ 31 → (cpu'.regs.read c.rd w).toNat = r) codes
    (chainRs limbs)

theorem Coded.runs (code : Coded) (hop : code.insn.op.isLimb = true) (cpu : Cpu) (s : σ × ε) :
    ∃ cpu', dispatchBus mem env cpu code.insn s = some ((.ok, cpu'), s) ∧
      (∀ n w', (code.rd ≠ 31 → code.rd ≠ n) → cpu'.regs.read n w' = cpu.regs.read n w') ∧
      (code.rd ≠ 31 → (cpu'.regs.read code.rd code.insn.width).toNat =
        (code.result cpu.regs).value.toNat) := by
  have hdata : code.insn.op.family = .data := by
    cases ho : code.insn.op <;> rw [ho] at hop <;> first | rfl | cases hop
  refine ⟨_, dispatchBus_data mem env cpu s hdata (limb_runs hop cpu.regs), ?_, ?_⟩
  · intro n w' hne
    show (cpu.regs.write code.rd code.insn.width _).read n w' = _
    by_cases h31 : code.rd = 31
    · have hnone : Regs.index code.rd = none := by
        rw [h31]
        rfl
      unfold Regs.write
      rw [hnone]
    · exact read_write_ne _ (Ne.symm (hne h31)) _ _ _
  · intro h31
    show ((cpu.regs.write code.rd code.insn.width _).read code.rd _).toNat = _
    rw [read_write_self _ h31]
    unfold Coded.result
    rw [toNat_truncate, addWithCarry_value, Nat.mod_mod]

theorem Follows.carry {codes : List Coded} (h : Follows w op codes)
    (hop : op = .adcs ∨ op = .sbcs) :
    ∀ c ∈ codes, c.insn.op = .adcs ∨ c.insn.op = .sbcs := by
  induction h with
  | last ho _ =>
    intro c hc
    rw [List.mem_singleton.mp hc, ho]
    exact hop
  | @cons op code codes ho _ _ ih =>
    intro c hc
    rcases List.mem_cons.mp hc with rfl | hc
    · rw [ho]
      exact hop
    · refine ih ?_ c hc
      rcases hop with rfl | rfl
      · exact .inl rfl
      · exact .inr rfl

theorem Opcode.carryForm_cases (op : Opcode) : op.carryForm = .adcs ∨ op.carryForm = .sbcs := by
  cases op <;> first | exact .inl rfl | exact .inr rfl

/-- **straight-line code** is a chain -/
theorem straightLine_exists {codes : List Coded} (hop : op.isLimb = true) (h : Follows w op codes)
    (hapart : RegistersApart codes) (cpu : Cpu) (s : σ × ε) :
    ∃ limbs cpu', StraightLine mem env w op codes cpu s limbs cpu' := by
  induction h generalizing cpu with
  | @last op code ho hw =>
    subst ho hw
    obtain ⟨cpu', hrun, hframe, hres⟩ := @Coded.runs _ _ mem env code hop cpu s
    refine ⟨[⟨code, cpu, cpu'⟩], cpu', rfl, ⟨.last rfl rfl, ?_, .singleton _⟩, rfl, rfl,
      execAll_cons hrun [], ?_, rfl, rfl, .cons hres .nil⟩
    · intro l hl
      rw [List.mem_singleton.mp hl]
      exact ⟨s, s, hrun⟩
    · intro n w' hne
      exact hframe n w' (hne code List.mem_cons_self)
  | @cons op code codes ho hw hf ih =>
    subst ho hw
    obtain ⟨hhead, htail⟩ := List.pairwise_cons.mp hapart
    obtain ⟨cpu₁, hrun, hframe, hres⟩ := @Coded.runs _ _ mem env code hop cpu s
    obtain ⟨limbs, cpu', hl⟩ := ih (Opcode.carryForm_isLimb _) htail cpu₁
    cases limbs with
    | nil => cases hl.first
    | cons l limbs =>
      have hbefore : l.before = cpu₁ := Option.some.inj hl.first
      have hreads : ∀ c ∈ codes, c.x cpu₁.regs = c.x cpu.regs ∧ c.y cpu₁.regs = c.y cpu.regs := by
        intro c hc
        refine carryForm_reads (hf.carry (Opcode.carryForm_cases _) c hc) ?_ ?_
        · intro w'
          exact hframe _ w' fun h31 => ((hhead c hc h31).2.1).symm
        · intro w'
          exact hframe _ w' fun h31 => ((hhead c hc h31).2.2).symm
      refine ⟨⟨code, cpu, cpu₁⟩ :: l :: limbs, cpu', ?_, ⟨?_, ?_, ?_⟩, rfl, hl.last, ?_, ?_, ?_,
        ?_, ?_⟩
      · exact congrArg (code :: ·) hl.map_code
      · refine .cons rfl rfl ?_
        show Follows _ _ ((l :: limbs).map Limb.code)
        rw [hl.map_code]
        exact hf
      · intro m hm
        rcases List.mem_cons.mp hm with rfl | hm
        · exact ⟨s, s, hrun⟩
        · exact hl.chain.ran m hm
      · exact .cons_cons (by rw [hbefore]) hl.chain.kept
      · rw [List.map_cons, execAll_cons hrun]
        exact hl.ran
      · intro n w' hne
        rw [hl.frame n w' fun c hc => hne c (List.mem_cons_of_mem _ hc)]
        exact hframe n w' (hne code List.mem_cons_self)
      · show code.x cpu.regs :: chainXs (l :: limbs) = _
        rw [hl.xs, List.map_cons, List.map_congr_left fun c hc => (hreads c hc).1]
      · show code.y cpu.regs :: chainYs (l :: limbs) = _
        rw [hl.ys, List.map_cons, List.map_congr_left fun c hc => (hreads c hc).2]
      · refine .cons ?_ hl.rs
        intro h31
        rw [hl.frame code.rd _ fun c hc _ => (hhead c hc h31).1]
        exact hres h31

/-! ## the law -/

/-- the destinations of a chain hold some digits -/
def Lands (w : RegWidth) (limbs : List Limb) (rs : List Nat) : Prop :=
  List.Forall₂ (fun l r => l.code.rd ≠ 31 → (l.after.regs.read l.code.rd w).toNat = r) limbs rs

theorem Chain.lands {limbs : List Limb} (hop : op.isLimb = true) (h : Chain mem env w op limbs) :
    Lands w limbs (chainRs limbs) := by
  have hall := h.codes.subtracts hop
  have hran := h.ran
  clear h
  induction limbs with
  | nil => exact .nil
  | cons l limbs ih =>
    obtain ⟨-, hlimb, hw⟩ := hall l.code List.mem_cons_self
    refine .cons ?_ (ih (fun c hc => hall c (List.mem_cons_of_mem _ hc))
      fun m hm => hran m (List.mem_cons_of_mem _ hm))
    intro h31
    rw [Limb.after_regs hlimb (hran l List.mem_cons_self), ← hw]
    show ((l.before.regs.write l.code.rd l.code.insn.width _).read l.code.rd _).toNat =
      (l.code.result l.before.regs).value.toNat
    rw [read_write_self _ h31]
    unfold Coded.result
    rw [toNat_truncate, addWithCarry_value, Nat.mod_mod]

/-- **arithmetic on several words**: a chain of `ADDS` and `ADCS` leaves the digits of the sum of
two numbers of any length, its carry and its signed overflow, and `SUBS` and `SBCS` those of the
difference; straight-line code runs to its end and leaves them in the registers it names -/
theorem multiword (hop : op = .adds ∨ op = .subs) :
    (∀ limbs : List Limb, Chain mem env w op limbs →
      ∃ last rs, limbs.getLast? = some last ∧ Lands w limbs rs ∧
        IsTotal op w (chainXs limbs) (chainYs limbs) rs last.after.regs.carry
          last.after.regs.overflow) ∧
    (∀ codes : List Coded, Follows w op codes → RegistersApart codes → ∀ (cpu : Cpu) (s : σ × ε),
      ∃ cpu' rs, execAll mem env (codes.map Coded.insn) cpu s = some ((.ok, cpu'), s) ∧
        List.Forall₂ (fun c r => c.rd ≠ 31 → (cpu'.regs.read c.rd w).toNat = r) codes rs ∧
        IsTotal op w (codes.map fun c => c.x cpu.regs) (codes.map fun c => c.y cpu.regs) rs
          cpu'.regs.carry cpu'.regs.overflow) := by
  have hlimb : op.isLimb = true := by
    rcases hop with rfl | rfl <;> rfl
  constructor
  · intro limbs h
    obtain ⟨last, hlast, htotal⟩ := h.total hop
    exact ⟨last, chainRs limbs, hlast, h.lands hlimb, htotal⟩
  · intro codes h hapart cpu s
    obtain ⟨limbs, cpu', hl⟩ := @straightLine_exists _ _ mem env _ _ _ hlimb h hapart cpu s
    obtain ⟨last, hlast, htotal⟩ := hl.chain.total hop
    have hend : last.after = cpu' := by
      have e := hl.last
      rw [hlast] at e
      exact Option.some.inj e
    rw [hl.xs, hl.ys, hend] at htotal
    exact ⟨cpu', chainRs limbs, hl.ran, hl.rs, htotal⟩

/-- `ADDS X0, X0, X2` and `ADCS X1, X1, X3` -/
def add128 : List Coded :=
  [⟨0xAB020000, 0, _, rfl⟩, ⟨0xBA030021, 4, _, rfl⟩]

/-- all ones in `X1:X0` and one in `X3:X2` -/
def onesCpu : Cpu :=
  (((Cpu.init 0 0).writeG 0 false .w64 (BitVec.allOnes 64)).writeG 1 false .w64
    (BitVec.allOnes 64)).writeG 2 false .w64 1

/-- the carry goes through both limbs -/
theorem multiword_add128 : ∃ cpu' rs,
    execAll Memory.memops (none : Option (EnvOps Memory Unit)) (add128.map Coded.insn) onesCpu
      (codeMemory 0xAB020000, ()) = some ((.ok, cpu'), (codeMemory 0xAB020000, ())) ∧
    List.Forall₂ (fun c r => c.rd ≠ 31 → (cpu'.regs.read c.rd .w64).toNat = r) add128 rs ∧
    Limbs.number 64 rs = 0 ∧ cpu'.regs.carry = true := by
  obtain ⟨cpu', rs, hrun, hrs, htotal⟩ :=
    (multiword (.inl rfl)).2 add128 (.cons rfl rfl (.last rfl rfl))
      (by unfold RegistersApart; decide) onesCpu (codeMemory 0xAB020000, ())
  have hsum := htotal.1 rfl
  have hx : add128.map (fun c => c.x onesCpu.regs) = [2 ^ 64 - 1, 2 ^ 64 - 1] := by decide +kernel
  have hy : add128.map (fun c => c.y onesCpu.regs) = [1, 0] := by decide +kernel
  rw [hx, hy] at hsum
  exact ⟨cpu', rs, hrun, hrs, hsum.value, hsum.carry.mpr (by decide)⟩

end Oemu
