import Oemu.Exec.System
import Oemu.Fw.Psci

/-!
# The contract of the firmware conduit

A call names its function in `W0`, the low half of `x0`.  `psciDispatch` classifies a call by the two
bytes of the identifier that lie in the low half, but then looks the whole of `x0` up among the calls
it knows.

* `psciOwns_iff`, `smcccFeatures_iff`   the identifiers that are answered, by class and owner;
* `psciDispatch_known`, `psciDispatch_other`  a call that is looked up, and one that is not;
* `psciDispatch_power`  the two calls that move the power state;
* `psci_contract_iff`   the contract holds of a call exactly when the upper half of `x0` is clear, or the
  identifier is none of the four that are looked up.
-/

namespace Oemu

/-- the function identifier: the low half of `x0` -/
def fnidOf (x : W64) : W64 := (x.setWidth 32).setWidth 64

/-- the identifiers looked up in the whole of `x0` -/
def psciKnown : List W64 := [psciFnVersion, psciFnFeatures, psciFnSystemOff, psciFnSystemReset]

/-- the class and the owner of an identifier: bits 31:24 and 23:16 -/
def fnidClass (x : W64) : Nat := x.toNat / 2 ^ 24 % 2 ^ 8

def fnidOwner (x : W64) : Nat := x.toNat / 2 ^ 16 % 2 ^ 8

/-- the PSCI service with the Arm-standard owner beside it, and the fast space -/
def InService (x : W64) : Prop :=
  (fnidClass x = 0x84 ∨ fnidClass x = 0xC4) ∧ (fnidOwner x = 0 ∨ fnidOwner x = 0x47) ∨
    (fnidClass x = 0x80 ∨ fnidClass x = 0xC0) ∧ fnidOwner x = 0

/-- the version query of the calling convention, in either width -/
def VersionQuery (x : W64) : Prop := fnidOf x = 0x80000000 ∨ fnidOf x = 0xC0000000

/-- what is asked of the answer to a call with `x` in `x0` -/
structure PsciContract (psci : Psci) (x : W64) (answer : Option W64 × Psci) : Prop where
  /-- the answer is that to the identifier alone -/
  low : answer = psciDispatch psci (fnidOf x)
  halted : answer.2.halted = (psci.halted || decide (fnidOf x = psciFnSystemOff))
  reset : answer.2.reset = (psci.reset || decide (fnidOf x = psciFnSystemReset))
  other : answer.1 ≠ none → fnidOf x ∉ psciKnown → ¬ VersionQuery x →
    answer = (some psciRetNotSupported, { psci with calls := psci.calls + 1 })
  foreign : ¬ InService x → answer = (none, psci)

variable {psci : Psci} {x : W64}

/-! ## the classification -/

theorem fnidOf_bit (x : W64) (i : Nat) :
    (fnidOf x).getLsbD i = (decide (i < 32) && x.getLsbD i) := by
  unfold fnidOf
  rw [BitVec.getLsbD_setWidth, BitVec.getLsbD_setWidth]
  by_cases h : i < 32
  · rw [decide_eq_true (show i < 64 by omega), Bool.true_and]
  · rw [decide_eq_false h, Bool.false_and, Bool.and_false]

theorem fnidOf_fnidOf (x : W64) : fnidOf (fnidOf x) = fnidOf x := by
  apply BitVec.eq_of_getLsbD_eq
  intro i _
  rw [fnidOf_bit, fnidOf_bit, ← Bool.and_assoc, Bool.and_self]

/-- a field that ends below bit 32 is one of the identifier -/
theorem fnidOf_field (x m : W64) {k : Nat} (hm : ∀ i, m.getLsbD i = true → k + i < 32) :
    (fnidOf x >>> k) &&& m = (x >>> k) &&& m := by
  apply BitVec.eq_of_getLsbD_eq
  intro i _
  rw [BitVec.getLsbD_and, BitVec.getLsbD_and, BitVec.getLsbD_ushiftRight,
    BitVec.getLsbD_ushiftRight, fnidOf_bit]
  cases hb : m.getLsbD i with
  | false => rw [Bool.and_false, Bool.and_false]
  | true => rw [decide_eq_true (hm i hb), Bool.true_and]

theorem byteMask_bit {i : Nat} (h : (0xFF : W64).getLsbD i = true) : i < 8 := by
  have hall : ∀ i : Fin 64, (0xFF : W64).getLsbD i.val = true → i.val < 8 := by decide
  by_cases hi : i < 64
  · exact hall ⟨i, hi⟩ h
  · rw [BitVec.getLsbD_of_ge _ _ (by omega)] at h
    cases h

theorem halfMask_bit {i : Nat} (h : (0xFFFF : W64).getLsbD i = true) : i < 16 := by
  have hall : ∀ i : Fin 64, (0xFFFF : W64).getLsbD i.val = true → i.val < 16 := by decide
  by_cases hi : i < 64
  · exact hall ⟨i, hi⟩ h
  · rw [BitVec.getLsbD_of_ge _ _ (by omega)] at h
    cases h

theorem class_low (x : W64) : (fnidOf x >>> 24) &&& (0xFF : W64) = (x >>> 24) &&& 0xFF :=
  fnidOf_field x 0xFF fun i h => by
    have := byteMask_bit h
    omega

theorem owner_low (x : W64) : (fnidOf x >>> 16) &&& (0xFF : W64) = (x >>> 16) &&& 0xFF :=
  fnidOf_field x 0xFF fun i h => by
    have := byteMask_bit h
    omega

theorem ordinal_low (x : W64) : fnidOf x &&& (0xFFFF : W64) = x &&& 0xFFFF := by
  have h := @fnidOf_field x 0xFFFF 0 fun i h => by
    have := halfMask_bit h
    omega
  rwa [BitVec.ushiftRight_zero, BitVec.ushiftRight_zero] at h

theorem psciOwns_low (x : W64) : psciOwns (fnidOf x) = psciOwns x := by
  unfold psciOwns
  rw [class_low, owner_low]

theorem smcccFeatures_low (x : W64) : smcccFeatures (fnidOf x) = smcccFeatures x := by
  unfold smcccFeatures
  rw [class_low, owner_low, ordinal_low]

/-- a byte the code takes out of `x0`, as a number -/
theorem idByte_iff (x : W64) (k : Nat) (y : W64) :
    (x >>> k) &&& (0xFF : W64) = y ↔ x.toNat / 2 ^ k % 2 ^ 8 = y.toNat := by
  rw [← BitVec.toNat_inj, BitVec.toNat_and, BitVec.toNat_ushiftRight, Nat.shiftRight_eq_div_pow,
    show (0xFF : W64).toNat = 2 ^ 8 - 1 from rfl, Nat.and_two_pow_sub_one_eq_mod]

theorem psciOwns_iff (x : W64) : psciOwns x = true ↔ InService x := by
  simp only [psciOwns, InService, fnidClass, fnidOwner, Bool.or_eq_true, Bool.and_eq_true,
    beq_iff_eq, idByte_iff]
  rw [show (0x84 : W64).toNat = 0x84 from rfl, show (0xC4 : W64).toNat = 0xC4 from rfl,
    show (0x80 : W64).toNat = 0x80 from rfl, show (0xC0 : W64).toNat = 0xC0 from rfl,
    show (0 : W64).toNat = 0 from rfl, show smcccOwnerArmStd.toNat = 0x47 from rfl]
  tauto

theorem smcccFeatures_iff (x : W64) : smcccFeatures x = true ↔ VersionQuery x := by
  have hord : x &&& (0xFFFF : W64) = 0 ↔ x.toNat % 2 ^ 16 = 0 := by
    rw [← BitVec.toNat_inj, BitVec.toNat_and, show (0xFFFF : W64).toNat = 2 ^ 16 - 1 from rfl,
      Nat.and_two_pow_sub_one_eq_mod]
    rfl
  have hid : ∀ y : W64, fnidOf x = y ↔ x.toNat % 2 ^ 32 = y.toNat := by
    intro y
    have hlt : x.toNat % 2 ^ 32 < 2 ^ 64 := by omega
    rw [← BitVec.toNat_inj, fnidOf, BitVec.toNat_setWidth, BitVec.toNat_setWidth,
      Nat.mod_eq_of_lt hlt]
  simp only [smcccFeatures, VersionQuery, Bool.or_eq_true, Bool.and_eq_true, beq_iff_eq,
    idByte_iff, hord, hid]
  rw [show (0x80 : W64).toNat = 0x80 from rfl, show (0xC0 : W64).toNat = 0xC0 from rfl,
    show (0 : W64).toNat = 0 from rfl, show (0x80000000 : W64).toNat = 0x80000000 from rfl,
    show (0xC0000000 : W64).toNat = 0xC0000000 from rfl]
  omega

/-! ## the answers -/

theorem psciDispatch_foreign (h : psciOwns x = false) : psciDispatch psci x = (none, psci) := by
  unfold psciDispatch
  rw [h]
  rfl

theorem psciDispatch_features (ho : psciOwns x = true) (h : smcccFeatures x = true) :
    psciDispatch psci x = (some smcccVersion, { psci with calls := psci.calls + 1 }) := by
  unfold psciDispatch
  rw [ho, h]
  rfl

/-- a call that is not looked up is not supported -/
theorem psciDispatch_other (ho : psciOwns x = true) (hf : smcccFeatures x = false)
    (h : x ∉ psciKnown) :
    psciDispatch psci x =
      (some psciRetNotSupported, { psci with calls := psci.calls + 1 }) := by
  have hne : ∀ y ∈ psciKnown, x ≠ y := fun y hy he => h (he ▸ hy)
  unfold psciDispatch
  rw [ho, hf, if_neg (by decide), if_neg (by decide),
    if_neg (hne psciFnVersion (by simp [psciKnown])),
    if_neg (hne psciFnFeatures (by simp [psciKnown])),
    if_neg (hne psciFnSystemOff (by simp [psciKnown])),
    if_neg (hne psciFnSystemReset (by simp [psciKnown]))]

theorem psciKnown_owned {y : W64} (hy : y ∈ psciKnown) :
    psciOwns y = true ∧ smcccFeatures y = false ∧ fnidOf y = y := by
  simp only [psciKnown, List.mem_cons, List.not_mem_nil, or_false] at hy
  rcases hy with rfl | rfl | rfl | rfl
  · exact ⟨by decide, by decide, by decide⟩
  · exact ⟨by decide, by decide, by decide⟩
  · exact ⟨by decide, by decide, by decide⟩
  · exact ⟨by decide, by decide, by decide⟩

/-- a call that is looked up: two of the four move the power state -/
theorem psciDispatch_known (psci : Psci) {y : W64} (hy : y ∈ psciKnown) :
    ∃ ret, ret ≠ psciRetNotSupported ∧ psciDispatch psci y = (some ret,
      { halted := psci.halted || decide (y = psciFnSystemOff)
        reset := psci.reset || decide (y = psciFnSystemReset)
        calls := psci.calls + 1 }) := by
  obtain ⟨ho, hf, -⟩ := psciKnown_owned hy
  unfold psciDispatch
  rw [ho, hf, if_neg (by decide), if_neg (by decide)]
  simp only [psciKnown, List.mem_cons, List.not_mem_nil, or_false] at hy
  rcases hy with rfl | rfl | rfl | rfl
  · rw [if_pos rfl, decide_eq_false (by decide), decide_eq_false (by decide), Bool.or_false,
      Bool.or_false]
    exact ⟨psciVersion, by decide, rfl⟩
  · rw [if_neg (by decide), if_pos rfl, decide_eq_false (by decide), decide_eq_false (by decide),
      Bool.or_false, Bool.or_false]
    exact ⟨0, by decide, rfl⟩
  · rw [if_neg (by decide), if_neg (by decide), if_pos rfl, decide_eq_true rfl,
      decide_eq_false (by decide), Bool.or_true, Bool.or_false]
    exact ⟨psciRetSuccess, by decide, rfl⟩
  · rw [if_neg (by decide), if_neg (by decide), if_neg (by decide), if_pos rfl,
      decide_eq_false (by decide), decide_eq_true rfl, Bool.or_false, Bool.or_true]
    exact ⟨psciRetSuccess, by decide, rfl⟩

theorem power_other (h : x ∉ psciKnown) :
    decide (x = psciFnSystemOff) = false ∧ decide (x = psciFnSystemReset) = false :=
  ⟨decide_eq_false fun he => h (by simp [psciKnown, he]),
    decide_eq_false fun he => h (by simp [psciKnown, he])⟩

theorem psciDispatch_power (psci : Psci) (x : W64) :
    (psciDispatch psci x).2.halted = (psci.halted || decide (x = psciFnSystemOff)) ∧
      (psciDispatch psci x).2.reset = (psci.reset || decide (x = psciFnSystemReset)) := by
  by_cases hx : x ∈ psciKnown
  · obtain ⟨ret, -, hd⟩ := psciDispatch_known psci hx
    rw [hd]
    exact ⟨rfl, rfl⟩
  · obtain ⟨hoff, hreset⟩ := power_other hx
    rw [hoff, hreset, Bool.or_false, Bool.or_false]
    cases ho : psciOwns x with
    | false =>
      rw [psciDispatch_foreign ho]
      exact ⟨rfl, rfl⟩
    | true =>
      cases hf : smcccFeatures x with
      | true =>
        rw [psciDispatch_features ho hf]
        exact ⟨rfl, rfl⟩
      | false =>
        rw [psciDispatch_other ho hf hx]
        exact ⟨rfl, rfl⟩

/-! ## the law -/

theorem psciContract_low (psci : Psci) (x : W64) :
    PsciContract psci x (psciDispatch psci (fnidOf x)) where
  low := rfl
  halted := (psciDispatch_power psci (fnidOf x)).1
  reset := (psciDispatch_power psci (fnidOf x)).2
  other := by
    intro hc hx hq
    have hf : smcccFeatures (fnidOf x) = false := by
      rw [smcccFeatures_low]
      exact Bool.eq_false_of_not_eq_true (mt (smcccFeatures_iff x).mp hq)
    refine psciDispatch_other ?_ hf hx
    by_contra ho
    rw [psciDispatch_foreign (Bool.eq_false_of_not_eq_true ho)] at hc
    exact hc rfl
  foreign := by
    intro h
    have ho : psciOwns (fnidOf x) = false := by
      rw [psciOwns_low]
      exact Bool.eq_false_of_not_eq_true (mt (psciOwns_iff x).mp h)
    exact psciDispatch_foreign ho

/-- the whole of `x0` answers as the identifier does -/
def LooksUpLow (x : W64) : Prop := fnidOf x = x ∨ fnidOf x ∉ psciKnown

theorem psciDispatch_low (h : LooksUpLow x) : psciDispatch psci x = psciDispatch psci (fnidOf x) := by
  rcases h with h | h
  · rw [h]
  · have hx : x ∉ psciKnown := by
      intro hx
      rw [(psciKnown_owned hx).2.2] at h
      exact h hx
    cases ho : psciOwns x with
    | false => rw [psciDispatch_foreign ho, psciDispatch_foreign ((psciOwns_low x).trans ho)]
    | true =>
      cases hf : smcccFeatures x with
      | true =>
        rw [psciDispatch_features ho hf, psciDispatch_features ((psciOwns_low x).trans ho)
          ((smcccFeatures_low x).trans hf)]
      | false =>
        rw [psciDispatch_other ho hf hx, psciDispatch_other ((psciOwns_low x).trans ho)
          ((smcccFeatures_low x).trans hf) h]

/-- **a call over either conduit meets the contract exactly when the upper half of `x0` is clear or its
identifier is none of those looked up** -/
theorem psci_contract_iff {τ : Type} (psci : Psci) (r : Regs) (insn : Insn) :
    PsciContract psci (r.read 0 .w64)
        (firmwareAnswer (some (@psciEnvops τ)) r insn psci) ↔
      LooksUpLow (r.read 0 .w64) := by
  show PsciContract psci (r.read 0 .w64) (psciDispatch psci (r.read 0 .w64)) ↔ _
  generalize r.read 0 .w64 = x
  constructor
  · intro h
    by_contra hbad
    obtain ⟨hne, hknown⟩ := not_or.mp hbad
    have hid := not_not.mp hknown
    obtain ⟨ho, hf, -⟩ := psciKnown_owned hid
    have hx : x ∉ psciKnown := fun hx => hne (psciKnown_owned hx).2.2
    obtain ⟨ret, hret, hans⟩ := psciDispatch_known psci hid
    rw [← h.low, psciDispatch_other ((psciOwns_low x).symm.trans ho)
      ((smcccFeatures_low x).symm.trans hf) hx] at hans
    exact hret (Option.some.inj (Prod.mk.inj hans).1).symm
  · intro h
    rw [psciDispatch_low h]
    exact psciContract_low psci x

/-- a clear power state, and `SYSTEM_OFF` with a bit set above it in `x0`: the call is answered
`NOT_SUPPORTED`, and the machine does not halt -/
theorem system_off_missed :
    fnidOf 0x184000008 = psciFnSystemOff ∧
      firmwareAnswer (some (@psciEnvops Unit)) ((Regs.init 0 0).write 0 .w64 0x184000008) (.reset 0)
        .init = (some psciRetNotSupported, { Psci.init with calls := 1 }) ∧
      ¬ PsciContract .init 0x184000008 (some psciRetNotSupported, { Psci.init with calls := 1 }) := by
  refine ⟨by decide, by decide, ?_⟩
  intro h
  have hoff := h.halted
  rw [show fnidOf 0x184000008 = psciFnSystemOff by decide] at hoff
  exact absurd hoff (by decide)

end Oemu
