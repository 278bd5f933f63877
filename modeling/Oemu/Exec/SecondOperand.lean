import Oemu.Exec.Shifter

/-!
# The second operand of a word

What an addition or a subtraction adds is named by its word: twelve bits and their place, a shifted
or an extended register, or, with a carry, a register.

* `operand2_named`       the executor takes the operand the word names;
* `compare_conditions`   the flags of a comparison with it.
-/

namespace Oemu

variable {word : W32} {pc : W64} {insn : Insn}

/-- the second operand: the field at bit 10, twelve bits up where bit 22 is set, or the register -/
def namedOperand (word : W32) (r : Regs) : BitVec (widthFromSf word).bits :=
  if bits word 24 5 = 0x11 then
    BitVec.ofNat (widthFromSf word).bits (bits word 10 12 * 2 ^ (12 * bit word 22))
  else if bits word 24 5 = 0x0B then
    if bit word 21 = 0 then shiftedRm word r else extendedRm word r
  else low (widthFromSf word) (r.read (fieldRm word) (widthFromSf word))

theorem low_immediate (w : RegWidth) {n sh : Nat} (hn : n < 2 ^ 12) (hs : sh = 0 ∨ sh = 1) :
    low w (if sh ≠ 0 then BitVec.ofNat 64 n <<< 12 else BitVec.ofNat 64 n) =
      BitVec.ofNat w.bits (n * 2 ^ (12 * sh)) := by
  apply BitVec.eq_of_toNat_eq
  unfold low
  rw [BitVec.toNat_setWidth, BitVec.toNat_ofNat]
  rcases hs with rfl | rfl
  · rw [if_neg (by decide), BitVec.toNat_ofNat, Nat.mod_eq_of_lt (by omega : n < 2 ^ 64),
      Nat.mul_zero, Nat.pow_zero, Nat.mul_one]
  · rw [if_pos (by decide), BitVec.toNat_shiftLeft, BitVec.toNat_ofNat, Nat.shiftLeft_eq,
      Nat.mod_eq_of_lt (by omega : n < 2 ^ 64), Nat.mod_eq_of_lt (by omega : n * 2 ^ 12 < 2 ^ 64)]

theorem operand2_named (h : decode word pc = .ok insn)
    (hg : insn.op.group = .addsub ∨ insn.op.group = .carry) (r : Regs) :
    low (widthFromSf word) (operand2 r insn).2.1 = namedOperand word r := by
  have hdata : insn.op.family = .data := by
    revert hg
    cases insn.op <;> decide
  have hs := decode_source h hdata
  rcases hg with hg | hg <;> rw [hg] at hs
  · cases hs with
    | addsubImm h5 hd =>
      have hlt := bits_lt word 10 12
      unfold decodeAddsubImm at hd
      dsimp only at hd
      split at hd
      · cases hd
      · case _ hsh =>
        cases hd
        have h22 : bits word 22 2 = bit word 22 := by
          have e : bits word 22 2 = bit word 22 + 2 * bits word 23 1 := bits_append word 22 1 1
          omega
        unfold namedOperand operand2
        rw [if_pos h5]
        dsimp only
        rw [h22]
        exact low_immediate (widthFromSf word) hlt (bit_cases word 22)
    | addsubShifted hc hd =>
      obtain ⟨h5, h21⟩ := hc
      obtain ⟨hw, hrm, ht, ham, hk, hlt, -⟩ := decodeAddsubShifted_fields hd
      rw [(operand2_shifted r hw hrm ht ham hk hlt).2, low_setWidth]
      unfold namedOperand
      rw [if_neg (by rw [h5]; decide), if_pos h5, if_pos h21]
      rfl
    | addsubExtended hc hd =>
      obtain ⟨h5, h21⟩ := hc
      obtain ⟨-, hrm, ht, ham, hk, -, -⟩ := decodeAddsubExtended_fields hd
      have hval : (operand2 r insn).2.1 = extendOperand (r.read (fieldRm word) .w64)
          (toExtendType (bits word 13 3)) (bits word 10 3) := by
        unfold operand2
        rw [hk, hrm, ht, ham]
        rfl
      rw [hval, extendOperand_extendReg, extendReg_of]
      unfold namedOperand
      rw [if_neg (by rw [h5]; decide), if_pos h5, if_neg (by rw [h21]; decide)]
      rfl
  · cases hs with
    | carry h5 hd =>
      unfold decodeAddsubCarry at hd
      dsimp only at hd
      split at hd <;> cases hd
      unfold namedOperand operand2
      rw [if_neg (by rw [h5]; decide), if_neg (by rw [h5]; decide)]
      rfl

/-! ## comparisons -/

theorem uval_low (w : RegWidth) (v : W64) : uval w v = (low w v).toNat := by
  rw [uval_eq]
  exact (BitVec.toNat_setWidth _ _).symm

theorem uval_setWidth (w : RegWidth) (x : BitVec w.bits) : uval w (x.setWidth 64) = x.toNat := by
  rw [uval_low, low_setWidth]

theorem operand2_value (h : decode word pc = .ok insn)
    (hg : insn.op.group = .addsub ∨ insn.op.group = .carry) (r : Regs) :
    truncate (operand2 r insn).2.1 (widthFromSf word) = (namedOperand word r).setWidth 64 := by
  rw [truncate_low, operand2_named h hg]

/-- **comparisons and conditions**: after `SUBS` each condition holds when its relation of the
operands does, `ADDS` leaves the flags of the exact sum, and `CCMP` and `CCMN` do the same where
their condition holds and leave their immediate where it does not -/
theorem compare_conditions {σ ε : Type} (h : decode word pc = .ok insn)
    (hop : insn.op = .subs ∨ insn.op = .adds ∨ insn.op = .ccmp ∨ insn.op = .ccmn)
    (mem : Memops σ) (env : Option (EnvOps σ ε)) (cpu : Cpu) (s : σ × ε) :
    ∃ r, dispatchBus mem env cpu insn s = some ((.ok, { cpu with regs := r }), s) ∧
      Compared word insn cpu.regs ((namedOperand word cpu.regs).setWidth 64) r.nzcv.bits := by
  have hdata : insn.op.family = .data := by
    rcases hop with ho | ho | ho | ho <;> rw [ho] <;> rfl
  by_cases hcc : insn.op = .ccmp ∨ insn.op = .ccmn
  · have hrun : dataProcessing cpu.regs insn = some (.ok, doCcmp cpu.regs insn) := by
      unfold dataProcessing
      rcases hcc with ho | ho <;> rw [ho]
    have hgroup : insn.op.group = .condCompare := by
      rcases hcc with ho | ho <;> rw [ho] <;> rfl
    have hsrc := decode_source h hdata
    rw [hgroup] at hsrc
    cases hsrc with
    | condCompare hd =>
      exact ⟨(doCcmp cpu.regs insn).advancePc, dispatchBus_data mem env cpu s hdata hrun,
        doCcmp_compared hd hcc cpu.regs _⟩
  · have has : insn.op = .adds ∨ insn.op = .subs := by
      rcases hop with ho | ho | ho | ho
      · exact .inr ho
      · exact .inl ho
      · exact absurd (.inl ho) hcc
      · exact absurd (.inr ho) hcc
    have hrun : dataProcessing cpu.regs insn = some (.ok, doAddSub cpu.regs insn) := by
      unfold dataProcessing
      rcases has with ho | ho <;> rw [ho]
    have hgroup : insn.op.group = .addsub := by
      rcases has with ho | ho <;> rw [ho] <;> rfl
    refine ⟨(doAddSub cpu.regs insn).advancePc, dispatchBus_data mem env cpu s hdata hrun, ?_⟩
    rw [← operand2_value h (.inl hgroup)]
    exact (doAddSub_compared h has cpu.regs).truncate

/-- `CMP X0, #1` -/
theorem compare_conditions_cmp : ∃ insn, decode 0xF100041F 0 = .ok insn ∧ insn.op = .subs ∧
    ∀ cpu, ∃ r, dispatchBus Memory.memops (none : Option (EnvOps Memory Unit)) cpu insn
      (codeMemory 0xF100041F, ()) = some ((.ok, { cpu with regs := r }), (codeMemory 0xF100041F, ())) ∧
      Compares .w64 (cpu.regs.read 0 .w64) 1 r.nzcv.bits := by
  refine ⟨_, rfl, rfl, fun cpu => ?_⟩
  obtain ⟨r, hrun, hr⟩ := @compare_conditions 0xF100041F 0 _ Memory Unit rfl (.inl rfl)
    Memory.memops none cpu (codeMemory 0xF100041F, ())
  exact ⟨r, hrun, hr.subs rfl⟩

end Oemu
