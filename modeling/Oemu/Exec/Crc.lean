import Oemu.Exec.ByteReverse
import Oemu.Exec.Multiword
import Oemu.Lib.Gf2

/-!
# Cyclic redundancy checks

`crc32` is a reflected register that takes the bytes of its operand lowest first, so what it leaves
is the remainder of a division by the generator.

* `crc32_run`       the loops of the executor are the register;
* `crc_laws`        remainder, splitting and linearity;
* `CrcChain.runs`   instructions in a row, whatever their widths, absorb their bytes one by one;
* `crc32_division`  all of it.
-/

namespace Oemu

open Polynomial

/-! ## the register -/

/-- the low bytes of an operand, lowest first -/
def byteList (data : W64) (n : Nat) : List (BitVec 8) := (List.range n).map (byteAt data)

theorem byteList_length (data : W64) (n : Nat) : (byteList data n).length = n := by
  unfold byteList
  rw [List.length_map, List.length_range]

/-- a polynomial without its top coefficient -/
def crcWord (castagnoli : Bool) : W32 := if castagnoli then 0x1EDC6F41 else 0x04C11DB7

noncomputable def crcPolynomial (castagnoli : Bool) : (ZMod 2)[X] :=
  Gf2.poly (if castagnoli then 0x11EDC6F41#33 else 0x104C11DB7#33)

theorem crcPolynomial_eq (castagnoli : Bool) :
    crcPolynomial castagnoli = Gf2.generator (crcWord castagnoli) := by
  unfold Gf2.generator
  rw [← Gf2.poly_one_append]
  cases castagnoli <;> rfl

theorem crcBit_step (castagnoli : Bool) (crc : W32) :
    crcBit (if castagnoli then 0x82F63B78 else 0xEDB88320) crc =
      Gf2.step (crcWord castagnoli) crc := by
  have hbit : crc &&& 1 ≠ 0 ↔ crc.getLsbD 0 = true := by
    have hone : ∀ i, (crc &&& 1).getLsbD i = (decide (i = 0) && crc.getLsbD i) := by
      intro i
      rw [BitVec.getLsbD_and, show (1 : W32) = BitVec.twoPow 32 0 by decide, BitVec.getLsbD_twoPow]
      cases i <;> simp
    constructor
    · intro hne
      obtain ⟨i, -, hset⟩ := exists_bit hne
      rw [hone, Bool.and_eq_true, decide_eq_true_iff] at hset
      rw [← hset.1]
      exact hset.2
    · intro hset hz
      have h0 := hone 0
      rw [hz, hset] at h0
      cases h0
  have hpoly : (if castagnoli then 0x82F63B78 else 0xEDB88320 : W32) =
      (crcWord castagnoli).reverse := by
    apply BitVec.eq_of_getLsbD_eq
    intro i hi
    rw [BitVec.getLsbD_reverse, BitVec.getMsbD_eq_getLsbD, decide_eq_true hi, Bool.true_and]
    revert i
    cases castagnoli <;> decide
  unfold crcBit Gf2.step
  rw [hpoly]
  by_cases hc : crc.getLsbD 0 = true
  · rw [if_pos (hbit.mpr hc), if_pos hc]
  · rw [if_neg (mt hbit.mp hc), if_neg hc]

theorem shifted_byte (data : W64) (i : Nat) :
    ((data >>> (8 * i)) &&& 0xFF).setWidth 32 = (byteAt data i).setWidth 32 := by
  apply BitVec.eq_of_getLsbD_eq
  intro j hj
  rw [BitVec.getLsbD_setWidth, BitVec.getLsbD_setWidth, low_mask_bit (n := 8) 0xFF (by decide),
    BitVec.getLsbD_ushiftRight]
  by_cases h8 : j < 8
  · rw [byteAt_bit _ _ h8, decide_eq_true h8, Bool.true_and]
  · rw [decide_eq_false h8, Bool.false_and, BitVec.getLsbD_of_ge _ j (Nat.le_of_not_lt h8)]

/-- **the executor's loops** are the register with the bytes of the operand -/
theorem crc32_run (seed : W32) (data : W64) (n : Nat) (castagnoli : Bool) :
    crc32 seed data n castagnoli = Gf2.run (crcWord castagnoli) (byteList data n) seed := by
  have hstep : crcBit (if castagnoli then 0x82F63B78 else 0xEDB88320) =
      Gf2.step (crcWord castagnoli) := by
    funext crc
    exact crcBit_step castagnoli crc
  unfold crc32 Gf2.run byteList
  dsimp only
  rw [List.foldl_map]
  congr 1
  funext crc i
  rw [hstep, shifted_byte]
  rfl

theorem crc32_byte (seed : W32) (b : BitVec 8) (castagnoli : Bool) :
    crc32 seed (b.setWidth 64) 1 castagnoli = Gf2.absorb (crcWord castagnoli) b seed := by
  have hb : byteList (b.setWidth 64) 1 = [b] := by
    show [byteAt (b.setWidth 64) 0] = [b]
    congr 1
    apply BitVec.eq_of_getLsbD_eq
    intro i hi
    rw [byteAt_bit _ _ hi, BitVec.getLsbD_setWidth, Nat.mul_zero, Nat.zero_add,
      decide_eq_true (by omega), Bool.true_and]
  rw [crc32_run, hb]
  rfl

theorem crc32_bytes (castagnoli : Bool) (bs : List (BitVec 8)) (seed : W32) :
    bs.foldl (fun c b => crc32 c (b.setWidth 64) 1 castagnoli) seed =
      Gf2.run (crcWord castagnoli) bs seed := by
  unfold Gf2.run
  congr 1
  funext c b
  exact crc32_byte c b castagnoli

theorem byteAt_xor (d d' : W64) (i : Nat) :
    byteAt (d ^^^ d') i = byteAt d i ^^^ byteAt d' i := by
  apply BitVec.eq_of_getLsbD_eq
  intro b hb
  rw [BitVec.getLsbD_xor, byteAt_bit _ _ hb, byteAt_bit _ _ hb, byteAt_bit _ _ hb,
    BitVec.getLsbD_xor]

theorem byteList_xor (d d' : W64) (n : Nat) :
    byteList (d ^^^ d') n = List.zipWith (· ^^^ ·) (byteList d n) (byteList d' n) := by
  unfold byteList
  rw [List.zipWith_map, List.zipWith_self]
  congr 1
  funext i
  exact byteAt_xor d d' i

/-- what a check computes -/
structure CrcLaws (castagnoli : Bool) : Prop where
  remainder : ∀ (seed : W32) (data : W64) (n : Nat),
    crc32 seed data n castagnoli = (Gf2.word 32 ((Gf2.poly seed.reverse * X ^ (8 * n) +
      Gf2.message (byteList data n) * X ^ 32) %ₘ crcPolynomial castagnoli)).reverse
  split : ∀ (seed : W32) (pieces : List (W64 × Nat)),
    pieces.foldl (fun c p => crc32 c p.1 p.2 castagnoli) seed =
      (pieces.flatMap fun p => byteList p.1 p.2).foldl
        (fun c b => crc32 c (b.setWidth 64) 1 castagnoli) seed
  linear : ∀ (seed seed' : W32) (data data' : W64) (n : Nat),
    crc32 (seed ^^^ seed') (data ^^^ data') n castagnoli =
      crc32 seed data n castagnoli ^^^ crc32 seed' data' n castagnoli

theorem crc_laws (castagnoli : Bool) : CrcLaws castagnoli where
  remainder := by
    intro seed data n
    have h := Gf2.run_eq (crcWord castagnoli) (by decide : 8 ≤ 32) (byteList data n) seed
    rw [byteList_length, ← crcPolynomial_eq] at h
    exact (crc32_run seed data n castagnoli).trans h
  split := by
    intro seed pieces
    rw [crc32_bytes]
    induction pieces generalizing seed with
    | nil => rfl
    | cons p pieces ih =>
      rw [List.foldl_cons, List.flatMap_cons, Gf2.run_append, ← crc32_run]
      exact ih _
  linear := by
    intro seed seed' data data' n
    rw [crc32_run, crc32_run, crc32_run, byteList_xor]
    exact Gf2.run_xor _ (by rw [byteList_length, byteList_length]) _ _

/-! ## the instructions -/

def crcOpcode (castagnoli : Bool) : Opcode := if castagnoli then .crc32c else .crc32

/-- how many bytes an instruction takes -/
def crcCount (word : W32) : Nat := 2 ^ bits word 10 2

theorem crcCount_cases (word : W32) : crcCount word ∈ [1, 2, 4, 8] := by
  have h := bits_lt word 10 2
  unfold crcCount
  generalize bits word 10 2 = k at h
  interval_cases k <;> decide

theorem crcOpcode_data (castagnoli : Bool) : (crcOpcode castagnoli).family = .data ∧
    (crcOpcode castagnoli).group = .twoSource ∧ (crcOpcode castagnoli).hasRm = true := by
  cases castagnoli <;> exact ⟨rfl, rfl, rfl⟩

theorem decodeDp2source_crc {word : W32} {insn : Insn} (h : decodeDp2source word = .ok insn)
    {castagnoli : Bool} (hop : insn.op = crcOpcode castagnoli) :
    insn.uimm.toNat % 2 ^ 32 = crcCount word ∧ castagnoli = decide (bit word 12 = 1) := by
  have hlow : bits word 10 6 % 4 = bits word 10 2 := by
    unfold bits
    omega
  have hbit : 0x10 ≤ bits word 10 6 ∧ bits word 10 6 ≤ 0x17 →
      (bits word 10 6 ≥ 0x14 ↔ bit word 12 = 1) := by
    unfold bit bits
    simp only [Nat.shiftRight_eq_div_pow]
    omega
  have hcount : ((1 : W64) <<< (bits word 10 6 % 4)).toNat % 2 ^ 32 = crcCount word := by
    have hlt := bits_lt word 10 2
    unfold crcCount
    rw [hlow]
    generalize bits word 10 2 = k at hlt
    interval_cases k <;> decide
  unfold decodeDp2source at h
  dsimp only at h
  split at h
  · cases h
  · repeat' split at h
    all_goals cases h
    all_goals first
      | (cases castagnoli <;> cases hop; done)
      | skip
    · rename_i hrange hc
      refine ⟨hcount, ?_⟩
      rw [decide_eq_true ((hbit hrange).mp hc)]
      cases castagnoli
      · cases hop
      · rfl
    · rename_i hrange hc
      refine ⟨hcount, ?_⟩
      rw [decide_eq_false (mt (hbit hrange).mpr hc)]
      cases castagnoli
      · rfl
      · cases hop

theorem decode_crc {word : W32} {pc : W64} {insn : Insn} (h : decode word pc = .ok insn)
    {castagnoli : Bool} (hop : insn.op = crcOpcode castagnoli) :
    insn.uimm.toNat % 2 ^ 32 = crcCount word ∧ castagnoli = decide (bit word 12 = 1) := by
  obtain ⟨hdata, hgroup, -⟩ := crcOpcode_data castagnoli
  rw [← hop] at hdata hgroup
  have hs := decode_source h hdata
  rw [hgroup] at hs
  cases hs with
  | twoSource hs => exact decodeDp2source_crc hs hop

/-- the registers an instruction leaves -/
def crcRegs (word : W32) (castagnoli : Bool) (r : Regs) : Regs :=
  r.write (fieldRd word) .w32 ((crc32 ((r.read (fieldRn word) .w32).setWidth 32)
    (r.read (fieldRm word) .w64) (crcCount word) castagnoli).setWidth 64)

theorem crc32_result {word : W32} {pc : W64} {insn : Insn} (h : decode word pc = .ok insn)
    {castagnoli : Bool} (hop : insn.op = crcOpcode castagnoli) (r : Regs) :
    dataProcessing r insn = some (.ok, crcRegs word castagnoli r) := by
  obtain ⟨hdata, -, hm⟩ := crcOpcode_data castagnoli
  rw [← hop] at hdata hm
  obtain ⟨hrd, hrn, hrm, -⟩ := hasRm_regs h hdata hm
  have hcount := (decode_crc h hop).1
  have hrun : dataProcessing r insn = some (.ok, doCrc32 r insn) := by
    unfold dataProcessing
    rw [hop]
    cases castagnoli <;> rfl
  have hc : decide (insn.op = .crc32c) = castagnoli := by
    rw [hop]
    cases castagnoli <;> rfl
  rw [hrun]
  unfold doCrc32
  dsimp only
  rw [hcount, hc, hrd, hrn, hrm]
  rfl

/-! ## instructions in a row -/

/-- the instructions of a message: each goes on from the register the last one left -/
structure CrcChain (castagnoli : Bool) (acc : BitVec 5) (codes : List Coded) : Prop where
  op : ∀ c ∈ codes, c.insn.op = crcOpcode castagnoli
  rd : ∀ c ∈ codes, fieldRd c.word = acc
  rn : ∀ c ∈ codes, fieldRn c.word = acc
  rm : ∀ c ∈ codes, fieldRm c.word ≠ acc

/-- the bytes the instructions take, in order -/
def crcMessage (r : Regs) (codes : List Coded) : List (BitVec 8) :=
  codes.flatMap fun c => byteList (r.read (fieldRm c.word) .w64) (crcCount c.word)

section Chain

variable {σ ε : Type} {mem : Memops σ} {env : Option (EnvOps σ ε)} {castagnoli : Bool}
  {acc : BitVec 5}

theorem CrcChain.tail {c : Coded} {codes : List Coded} (h : CrcChain castagnoli acc (c :: codes)) :
    CrcChain castagnoli acc codes where
  op := fun c' hc => h.op c' (List.mem_cons_of_mem _ hc)
  rd := fun c' hc => h.rd c' (List.mem_cons_of_mem _ hc)
  rn := fun c' hc => h.rn c' (List.mem_cons_of_mem _ hc)
  rm := fun c' hc => h.rm c' (List.mem_cons_of_mem _ hc)

/-- the message does not change while it is taken in -/
theorem crcMessage_congr {r r' : Regs} {codes : List Coded}
    (h : ∀ c ∈ codes, r'.read (fieldRm c.word) .w64 = r.read (fieldRm c.word) .w64) :
    crcMessage r' codes = crcMessage r codes := by
  unfold crcMessage
  rw [List.flatMap_def, List.flatMap_def]
  congr 1
  apply List.map_congr_left
  intro c hc
  rw [h c hc]

/-- **any split of a message** into instructions leaves what its bytes leave one by one -/
theorem CrcChain.runs (hacc : acc ≠ 31) {codes : List Coded} (h : CrcChain castagnoli acc codes)
    (cpu : Cpu) (s : σ × ε) :
    ∃ cpu', execAll mem env (codes.map Coded.insn) cpu s = some ((.ok, cpu'), s) ∧
      (cpu'.regs.read acc .w32).setWidth 32 = (crcMessage cpu.regs codes).foldl
        (fun c b => crc32 c (b.setWidth 64) 1 castagnoli)
        ((cpu.regs.read acc .w32).setWidth 32) := by
  induction codes generalizing cpu with
  | nil => exact ⟨cpu, rfl, rfl⟩
  | cons c codes ih =>
    have hop := h.op c List.mem_cons_self
    have hdata : c.insn.op.family = .data := by
      rw [hop]
      exact (crcOpcode_data castagnoli).1
    have hstep := dispatchBus_data mem env cpu s hdata (crc32_result c.decoded hop cpu.regs)
    obtain ⟨cpu', hrun, hacc'⟩ := ih h.tail
      { cpu with regs := (crcRegs c.word castagnoli cpu.regs).advancePc }
    refine ⟨cpu', (execAll_cons hstep _).trans hrun, hacc'.trans ?_⟩
    have hsame : ∀ c' ∈ codes,
        (crcRegs c.word castagnoli cpu.regs).advancePc.read (fieldRm c'.word) .w64 =
          cpu.regs.read (fieldRm c'.word) .w64 := by
      intro c' hc
      refine read_write_ne cpu.regs ?_ _ _ _
      rw [h.rd c List.mem_cons_self]
      exact h.rm c' (List.mem_cons_of_mem _ hc)
    have hread : ((crcRegs c.word castagnoli cpu.regs).advancePc.read acc .w32).setWidth 32 =
        crc32 ((cpu.regs.read acc .w32).setWidth 32) (cpu.regs.read (fieldRm c.word) .w64)
          (crcCount c.word) castagnoli := by
      unfold crcRegs
      rw [h.rd c List.mem_cons_self, h.rn c List.mem_cons_self]
      refine (congrArg (BitVec.setWidth 32) (read_write_self cpu.regs hacc _ _)).trans ?_
      exact (low_truncate .w32 _).trans (low_setWidth .w32 _)
    dsimp only
    rw [crcMessage_congr hsame, hread, crc32_run, crc32_bytes, crc32_bytes, ← Gf2.run_append]
    rfl

end Chain

/-- **the checks**: remainders of a division, at every width; a message in any pieces; sums of
messages; and the instructions, alone and in a row -/
theorem crc32_division {σ ε : Type} (mem : Memops σ) (env : Option (EnvOps σ ε))
    (castagnoli : Bool) :
    CrcLaws castagnoli ∧
      (∀ (word : W32) (pc : W64) (insn : Insn) (cpu : Cpu) (s : σ × ε),
        decode word pc = .ok insn → insn.op = crcOpcode castagnoli →
        crcCount word ∈ [1, 2, 4, 8] ∧ castagnoli = decide (bit word 12 = 1) ∧
          dispatchBus mem env cpu insn s = some ((.ok, { cpu with
            regs := (crcRegs word castagnoli cpu.regs).advancePc }), s)) ∧
      ∀ (acc : BitVec 5) (codes : List Coded) (cpu : Cpu) (s : σ × ε), acc ≠ 31 →
        CrcChain castagnoli acc codes →
        ∃ cpu', execAll mem env (codes.map Coded.insn) cpu s = some ((.ok, cpu'), s) ∧
          (cpu'.regs.read acc .w32).setWidth 32 = (crcMessage cpu.regs codes).foldl
            (fun c b => crc32 c (b.setWidth 64) 1 castagnoli)
            ((cpu.regs.read acc .w32).setWidth 32) := by
  refine ⟨crc_laws castagnoli, ?_, fun acc codes cpu s hacc h => h.runs hacc cpu s⟩
  intro word pc insn cpu s h hop
  have hdata : insn.op.family = .data := by
    rw [hop]
    exact (crcOpcode_data castagnoli).1
  exact ⟨crcCount_cases word, (decode_crc h hop).2,
    dispatchBus_data mem env cpu s hdata (crc32_result h hop cpu.regs)⟩

end Oemu
