import Oemu.Decode.Family
import Oemu.Exec.System
import Oemu.Vcpu.Step

/-!
# Which register a move reaches

A register move carries fifteen bits of selector: the low bit of `op0`, and `op1:CRn:CRm:op2` below
it.  Both accessors cut the low bit of `op0` off before they look the register up, in the table in
system mode and in the whitelist in user mode.

* `sel_of_move`      the selector looked up, from the word;
* `doMrs_entry`, `doMsr_entry`  the whitelist is what the user-mode accessors accept;
* `separate_iff`     two words of the two spaces reach different registers exactly when their
                     `op1:CRn:CRm:op2` differ, or name no register at all.
-/

namespace Oemu

/-- the row a move reaches in system mode -/
def rowOf (insn : Insn) : Option Row := sysregFind insn.sel

/-- the registers a user-mode read and a user-mode write accept -/
def whitelist (op : Opcode) : List W32 :=
  if op = .mrs then
    [sysregCurrentEl, sysregSpEl0, sysregNzcv, sysregTpidrurEl0, sysregTpidrroEl0]
  else [sysregSpEl0, sysregNzcv, sysregTpidrurEl0]

/-- the whitelist entry a move reaches in user mode -/
def entryOf (insn : Insn) : Option W32 := (whitelist insn.op).find? (· == insn.sel)

theorem rowOf_sel {insn : Insn} {row : Row} (h : rowOf insn = some row) : row.sel = insn.sel := by
  have hb := List.find?_some (show kRows.find? (fun row => row.sel == insn.sel) = some row from h)
  exact eq_of_beq hb

theorem entryOf_sel {insn : Insn} {e : W32} (h : entryOf insn = some e) : e = insn.sel := by
  have hb := List.find?_some
    (show (whitelist insn.op).find? (fun e => e == insn.sel) = some e from h)
  exact eq_of_beq hb

theorem entryOf_isSome {insn : Insn} : (entryOf insn).isSome ↔ insn.sel ∈ whitelist insn.op := by
  unfold entryOf
  rw [List.find?_isSome]
  constructor
  · rintro ⟨e, he, hb⟩
    rwa [← eq_of_beq hb]
  · intro h
    exact ⟨_, h, beq_self_eq_true _⟩

theorem doMrs_entry (cpu : Cpu) {insn : Insn} (hop : insn.op = .mrs) :
    (doMrs cpu insn).1 = .ok ↔ (entryOf insn).isSome := by
  rw [entryOf_isSome, whitelist, if_pos hop]
  simp only [List.mem_cons, List.not_mem_nil, or_false]
  unfold doMrs
  dsimp only
  by_cases h1 : insn.sel = sysregCurrentEl
  · rw [if_pos h1]
    exact ⟨fun _ => .inl h1, fun _ => rfl⟩
  rw [if_neg h1]
  by_cases h2 : insn.sel = sysregSpEl0
  · rw [if_pos h2]
    exact ⟨fun _ => .inr (.inl h2), fun _ => rfl⟩
  rw [if_neg h2]
  by_cases h3 : insn.sel = sysregNzcv
  · rw [if_pos h3]
    exact ⟨fun _ => .inr (.inr (.inl h3)), fun _ => rfl⟩
  rw [if_neg h3]
  by_cases h4 : insn.sel = sysregTpidrurEl0
  · rw [if_pos h4]
    exact ⟨fun _ => .inr (.inr (.inr (.inl h4))), fun _ => rfl⟩
  rw [if_neg h4]
  by_cases h5 : insn.sel = sysregTpidrroEl0
  · rw [if_pos h5]
    exact ⟨fun _ => .inr (.inr (.inr (.inr h5))), fun _ => rfl⟩
  rw [if_neg h5]
  refine ⟨fun h => absurd h Status.noConfusion, ?_⟩
  rintro (h | h | h | h | h)
  · exact absurd h h1
  · exact absurd h h2
  · exact absurd h h3
  · exact absurd h h4
  · exact absurd h h5

theorem doMsr_entry (cpu : Cpu) {insn : Insn} (hop : insn.op = .msr) :
    (doMsr cpu insn).1 = .ok ↔ (entryOf insn).isSome := by
  rw [entryOf_isSome, whitelist, if_neg (by rw [hop]; exact Opcode.noConfusion)]
  simp only [List.mem_cons, List.not_mem_nil, or_false]
  unfold doMsr
  dsimp only
  by_cases h1 : insn.sel = sysregSpEl0
  · rw [if_pos h1]
    exact ⟨fun _ => .inl h1, fun _ => rfl⟩
  rw [if_neg h1]
  by_cases h2 : insn.sel = sysregNzcv
  · rw [if_pos h2]
    exact ⟨fun _ => .inr (.inl h2), fun _ => rfl⟩
  rw [if_neg h2]
  by_cases h3 : insn.sel = sysregTpidrurEl0
  · rw [if_pos h3]
    exact ⟨fun _ => .inr (.inr h3), fun _ => rfl⟩
  rw [if_neg h3]
  refine ⟨fun h => absurd h Status.noConfusion, ?_⟩
  rintro (h | h | h)
  · exact absurd h h1
  · exact absurd h h2
  · exact absurd h h3

/-! ## the selector of a word -/

/-- `op0` of a word -/
def op0Of (word : W32) : Nat := bits word 19 2

/-- `op1:CRn:CRm:op2` of a word -/
def registerFields (word : W32) : Nat := bits word 5 14

variable {w w' : W32} {pc pc' : W64} {i i' : Insn}

/-- the selector looked up drops the low bit of `op0` -/
theorem sel_of_move (h : decode w pc = .ok i) (hop : i.op.family = .move) :
    i.sel = BitVec.ofNat 32 (registerFields w) := by
  obtain ⟨-, hs, -⟩ := decode_move h hop
  unfold Insn.sel
  rw [hs]
  apply BitVec.eq_of_toNat_eq
  have hmask : sysregMask.toNat = 2 ^ 14 - 1 := rfl
  have h15 : bits w 5 15 < 2 ^ 15 := Nat.mod_lt _ (by decide)
  have h14 : registerFields w < 2 ^ 14 := Nat.mod_lt _ (by decide)
  rw [BitVec.toNat_and, BitVec.toNat_ofNat, BitVec.toNat_ofNat, hmask, Nat.and_two_pow_sub_one_eq_mod,
    Nat.mod_eq_of_lt (Nat.lt_trans h15 (by decide)), Nat.mod_eq_of_lt (Nat.lt_trans h14 (by decide))]
  exact Nat.mod_mod_of_dvd _ (by decide)

theorem sel_eq_iff (h : decode w pc = .ok i) (h' : decode w' pc' = .ok i')
    (hop : i.op.family = .move) (hop' : i'.op.family = .move) :
    i.sel = i'.sel ↔ registerFields w = registerFields w' := by
  rw [sel_of_move h hop, sel_of_move h' hop']
  refine ⟨fun he => ?_, congrArg _⟩
  have hw : registerFields w < 2 ^ 14 := Nat.mod_lt _ (by decide)
  have hw' : registerFields w' < 2 ^ 14 := Nat.mod_lt _ (by decide)
  have := congrArg BitVec.toNat he
  rwa [BitVec.toNat_ofNat, BitVec.toNat_ofNat, Nat.mod_eq_of_lt (Nat.lt_trans hw (by decide)),
    Nat.mod_eq_of_lt (Nat.lt_trans hw' (by decide))] at this

/-- two moves that never reach the same row, nor the same whitelist entry -/
def Separate (i i' : Insn) : Prop :=
  (∀ row, rowOf i = some row → rowOf i' ≠ some row) ∧
    ∀ e, entryOf i = some e → entryOf i' ≠ some e

/-- **two moves in the same direction, of the debug space and of the system space among them, are
separate exactly when their `op1:CRn:CRm:op2` differ, or no register has it** -/
theorem separate_iff (h : decode w pc = .ok i) (h' : decode w' pc' = .ok i') (hop : i.op = i'.op)
    (hmove : i.op = .mrs ∨ i.op = .msr) :
    Separate i i' ↔
      registerFields w ≠ registerFields w' ∨ rowOf i = none ∧ entryOf i = none := by
  have hf : i.op.family = .move := by
    rcases hmove with hm | hm <;> rw [hm] <;> rfl
  have hf' : i'.op.family = .move := by
    rw [← hop]
    exact hf
  have hsel := sel_eq_iff h h' hf hf'
  constructor
  · intro hsep
    by_cases he : registerFields w = registerFields w'
    · refine .inr ?_
      have hs := hsel.mpr he
      have hrow : rowOf i' = rowOf i := by rw [rowOf, rowOf, hs]
      have hent : entryOf i' = entryOf i := by rw [entryOf, entryOf, hs, hop]
      constructor
      · cases hr : rowOf i with
        | none => rfl
        | some row => exact absurd (hrow.trans hr) (hsep.1 row hr)
      · cases hr : entryOf i with
        | none => rfl
        | some e => exact absurd (hent.trans hr) (hsep.2 e hr)
    · exact .inl he
  · intro hcond
    rcases hcond with hne | ⟨hrow, hent⟩
    · constructor
      · intro row hr hr'
        exact hne (hsel.mp ((rowOf_sel hr).symm.trans (rowOf_sel hr')))
      · intro e hr hr'
        exact hne (hsel.mp ((entryOf_sel hr).symm.trans (entryOf_sel hr')))
    · constructor
      · intro row hr
        rw [hrow] at hr
        cases hr
      · intro e hr
        rw [hent] at hr
        cases hr

/-- `MSR S2_0_C1_C0_0, X0` of the debug space reaches `SCTLR_EL1`, and writes it -/
theorem debug_write_reaches_sctlr :
    (¬ ∀ (w w' : W32) (pc pc' : W64) (i i' : Insn), decode w pc = .ok i → decode w' pc' = .ok i' →
      i.op = i'.op → (i.op = .mrs ∨ i.op = .msr) → op0Of w ≠ op0Of w' → Separate i i') ∧
    op0Of 0xD5101000 = 2 ∧ (codeVcpu 0xD5101000 .el1 1).stepped.sr.val .sctlrEl1 = 1 := by
  refine ⟨?_, by decide, by decide +kernel⟩
  intro h
  obtain ⟨i, hi, hop, hrow⟩ : ∃ i, decode 0xD5101000 0 = .ok i ∧ i.op = .msr ∧
      (rowOf i).map (·.name) = some "SCTLR_EL1" := ⟨_, rfl, rfl, by decide +kernel⟩
  obtain ⟨i', hi', hop', hrow'⟩ : ∃ i, decode 0xD5181000 0 = .ok i ∧ i.op = .msr ∧
      (rowOf i).map (·.name) = some "SCTLR_EL1" := ⟨_, rfl, rfl, by decide +kernel⟩
  have hsep := h _ _ _ _ i i' hi hi' (hop.trans hop'.symm) (.inr hop) (by decide)
  have hs : i.sel = i'.sel :=
    (sel_eq_iff hi hi' (by rw [hop]; rfl) (by rw [hop']; rfl)).mpr (by decide)
  cases hr : rowOf i with
  | none =>
    rw [hr] at hrow
    cases hrow
  | some row => exact hsep.1 row hr (by rw [rowOf, ← hs]; exact hr)

/-- `MSR S2_0_C1_C0_0, X0` and `MSR TTBR0_EL1, X0` are separate -/
theorem separate_sctlr_ttbr0 :
    ∃ i i', decode 0xD5101000 0 = .ok i ∧ decode 0xD5182000 0 = .ok i' ∧
      op0Of 0xD5101000 ≠ op0Of 0xD5182000 ∧ Separate i i' :=
  ⟨_, _, rfl, rfl, by decide, (@separate_iff 0xD5101000 0xD5182000 0 0 _ _ rfl rfl rfl
    (.inr rfl)).mpr (.inl (by decide))⟩

end Oemu
