import Oemu.Decode.PcRelative

/-!
# The words that reach the event register

A hint and a prefetch share one opcode, told apart by an immediate that each decode path fills in its
own way.  `Insn.note` is what a record does to the event register.

* `HintForm`, `hintWord`   the bits the decoder checks of a hint, and the hint as it is assembled;
* `PrefetchForm`           a prefetch with an unscaled offset;
* `decode_note`            a record moves the register exactly if its word is one of these.
-/

namespace Oemu

/-! ## records and words -/

/-- what a record does to the event register: set it, clear it, or neither -/
def Insn.note (insn : Insn) : Option Bool :=
  if insn.op = .hint ∧ (insn.uimm = 4 ∨ insn.uimm = 5) then some true
  else if insn.op = .wfe then some false
  else none

theorem Insn.note_sets {insn : Insn} (h : insn.op = .hint) (hu : insn.uimm = 4 ∨ insn.uimm = 5) :
    insn.note = some true := if_pos ⟨h, hu⟩

theorem Insn.note_hint {insn : Insn} (h : insn.op = .hint)
    (hu : ¬ (insn.uimm = 4 ∨ insn.uimm = 5)) : insn.note = none := by
  unfold Insn.note
  rw [if_neg (fun hc => hu hc.2), if_neg (by rw [h]; exact Opcode.noConfusion)]

theorem Insn.note_quiet {insn : Insn} (h1 : insn.op ≠ .hint) (h2 : insn.op ≠ .wfe) :
    insn.note = none := by
  unfold Insn.note
  rw [if_neg (fun hc => h1 hc.1), if_neg h2]

/-- hint `n` as it is assembled -/
def hintWord (n : Nat) : W32 := BitVec.ofNat 32 (0xD503201F + 32 * n)

/-- the space of hints and barriers, by the bits the decoder checks -/
def SystemSpace (word : W32) : Prop :=
  bits word 24 8 = 0xD5 ∧ bits word 19 3 = 0 ∧ bits word 0 5 = 31

/-- hint `n`, by the bits the decoder checks -/
def HintForm (n : Nat) (word : W32) : Prop :=
  SystemSpace word ∧ bits word 12 4 = 2 ∧ bits word 5 7 = n

/-- a prefetch at an unscaled offset, in any of the four forms -/
def PrefetchForm (offset : Nat) (word : W32) : Prop :=
  bits word 21 11 = 0x7C4 ∧ bits word 12 9 = offset

instance (word : W32) : Decidable (SystemSpace word) := inferInstanceAs (Decidable (_ ∧ _))

instance (n : Nat) (word : W32) : Decidable (HintForm n word) := inferInstanceAs (Decidable (_ ∧ _))

instance (n : Nat) (word : W32) : Decidable (PrefetchForm n word) :=
  inferInstanceAs (Decidable (_ ∧ _))

def Sets (word : W32) : Prop :=
  HintForm 4 word ∨ HintForm 5 word ∨ PrefetchForm 4 word ∨ PrefetchForm 5 word

instance (word : W32) : Decidable (Sets word) := inferInstanceAs (Decidable (_ ∨ _))

def wordNote (word : W32) : Option Bool :=
  if Sets word then some true else if HintForm 2 word then some false else none

/-- an accepted record does `n` -/
def Notes (n : Option Bool) (x : Except Status Insn) : Prop := ∀ insn, x = .ok insn → insn.note = n

section Rules

variable {n : Option Bool} {x y : Except Status Insn}

theorem Notes.error (st : Status) : Notes n (.error st) := by
  intro insn h
  cases h

theorem Notes.ok {insn : Insn} (h : insn.note = n) : Notes n (.ok insn) := by
  intro insn' h'
  cases h'
  exact h

theorem Notes.ite {c : Prop} [Decidable c] (hx : c → Notes n x) (hy : ¬ c → Notes n y) :
    Notes n (if c then x else y) := by
  by_cases hc : c
  · rw [if_pos hc]
    exact hx hc
  · rw [if_neg hc]
    exact hy hc

/-- a record that is neither a hint nor a wait -/
theorem Notes.quiet (h : ∀ insn, x = .ok insn → insn.op ≠ .hint ∧ insn.op ≠ .wfe) :
    Notes none x := by
  intro insn hx
  obtain ⟨h1, h2⟩ := h insn hx
  exact Insn.note_quiet h1 h2

theorem Notes.data (h : ∀ insn, x = .ok insn → insn.op.family = .data) : Notes none x := by
  refine .quiet fun insn hx => ?_
  have hf := h insn hx
  constructor <;> intro ho <;> rw [ho] at hf <;> cases hf

end Rules

variable {word : W32} {pc : W64}

/-! ## the class of a word -/

theorem systemClass_iff :
    bits word 24 8 = 0xD5 ↔ bits word 25 4 = 10 ∧ bits word 29 3 = 6 ∧ bit word 24 = 1 := by
  have h8 : bits word 24 8 = bits word 24 1 + 2 * bits word 25 7 := bits_append word 24 1 7
  have h7 : bits word 25 7 = bits word 25 4 + 16 * bits word 29 3 := bits_append word 25 4 3
  have ha := bits_lt word 24 1
  have hb := bits_lt word 25 4
  unfold bit
  omega

theorem HintForm.class {n : Nat} (h : HintForm n word) : bits word 25 4 = 10 :=
  (systemClass_iff.mp h.1.1).1

theorem PrefetchForm.class {n : Nat} (h : PrefetchForm n word) :
    bits word 25 4 = 12 ∧ bits word 28 2 = 3 ∧ bits word 30 2 = 3 ∧ bits word 22 2 = 2 ∧
      bit word 21 = 0 ∧ bit word 24 = 0 ∧ bit word 26 = 0 := by
  have h11 : bits word 21 11 = bits word 21 1 + 2 * bits word 22 10 := bits_append word 21 1 10
  have h10 : bits word 22 10 = bits word 22 2 + 4 * bits word 24 8 := bits_append word 22 2 8
  have h8 : bits word 24 8 = bits word 24 1 + 2 * bits word 25 7 := bits_append word 24 1 7
  have h7 : bits word 25 7 = bits word 25 4 + 16 * bits word 29 3 := bits_append word 25 4 3
  have h3 : bits word 29 3 = bits word 29 1 + 2 * bits word 30 2 := bits_append word 29 1 2
  have h4 : bits word 25 4 = bits word 25 1 + 2 * bits word 26 3 := bits_append word 25 1 3
  have h4' : bits word 26 3 = bits word 26 1 + 2 * bits word 27 2 := bits_append word 26 1 2
  have h4'' : bits word 27 2 = bits word 27 1 + 2 * bits word 28 1 := bits_append word 27 1 1
  have h2 : bits word 28 2 = bits word 28 1 + 2 * bits word 29 1 := bits_append word 28 1 1
  have ha := bits_lt word 21 1
  have hb := bits_lt word 22 2
  have hc := bits_lt word 24 1
  have hd := bits_lt word 25 4
  have he := bits_lt word 29 1
  have hf := bits_lt word 25 1
  have hg := bits_lt word 26 1
  have hi := bits_lt word 27 1
  have hj := h.1
  unfold bit
  omega

theorem wordNote_none (h : ¬ Sets word) (h2 : ¬ HintForm 2 word) : wordNote word = none := by
  unfold wordNote
  rw [if_neg h, if_neg h2]

theorem wordNote_class (hh : bits word 25 4 ≠ 10) (hp : bits word 25 4 ≠ 12) :
    wordNote word = none := by
  refine wordNote_none ?_ (fun h => hh h.class)
  rintro (h | h | h | h)
  · exact hh h.class
  · exact hh h.class
  · exact hp h.class.1
  · exact hp h.class.1

/-! ## hints -/

theorem hintNumber_eq : (ufield word 8 4 <<< 3) ||| ufield word 5 3 = ufield word 5 7 := by
  have h7 : bits word 5 7 = bits word 5 3 + 8 * bits word 8 4 := bits_append word 5 3 4
  have ha := bits_lt word 5 3
  have hb := bits_lt word 8 4
  unfold ufield
  rw [h7]
  generalize bits word 5 3 = a at *
  generalize bits word 8 4 = b at *
  interval_cases a <;> interval_cases b <;> rfl

theorem ufield_inj (word : W32) (lsb : Nat) {n k : Nat} (hn : n ≤ 64) (hk : k < 2 ^ n) :
    ufield word lsb n = BitVec.ofNat 64 k ↔ bits word lsb n = k := by
  have hb := bits_lt word lsb n
  have hp : 2 ^ n ≤ 2 ^ 64 := Nat.pow_le_pow_right (by decide) hn
  unfold ufield
  constructor
  · intro h
    have := congrArg BitVec.toNat h
    rwa [BitVec.toNat_ofNat, BitVec.toNat_ofNat, Nat.mod_eq_of_lt (by omega),
      Nat.mod_eq_of_lt (by omega)] at this
  · intro h
    rw [h]

theorem decodeHintsAndBarriers_notes (hs : SystemSpace word) :
    Notes (wordNote word) (decodeHintsAndBarriers word) := by
  have hform : ∀ n, HintForm n word ↔ bits word 12 4 = 2 ∧ bits word 5 7 = n :=
    fun n => ⟨fun h => h.2, fun h => ⟨hs, h⟩⟩
  have hnp : ∀ n, ¬ PrefetchForm n word := by
    intro n hp
    have h10 := (systemClass_iff.mp hs.1).1
    rw [hp.class.1] at h10
    cases h10
  have hsets : Sets word ↔ bits word 12 4 = 2 ∧ (bits word 5 7 = 4 ∨ bits word 5 7 = 5) := by
    unfold Sets
    simp only [hform, hnp, or_false, and_or_left]
  have h7 : bits word 5 7 = bits word 5 3 + 8 * bits word 8 4 := bits_append word 5 3 4
  have ha := bits_lt word 5 3
  unfold decodeHintsAndBarriers
  dsimp only
  refine .ite (fun hc => ?_) (fun hc => ?_)
  · rw [hintNumber_eq]
    have h4 : ufield word 5 7 = 4 ↔ bits word 5 7 = 4 := ufield_inj word 5 (by decide) (by decide)
    have h5 : ufield word 5 7 = 5 ↔ bits word 5 7 = 5 := ufield_inj word 5 (by decide) (by decide)
    have h0 : ufield word 5 7 = 0 ↔ bits word 5 7 = 0 := ufield_inj word 5 (by decide) (by decide)
    refine .ite (fun hw => ?_) (fun hw => .ite (fun hw' => ?_) (fun hw' => ?_))
    · refine .ok ?_
      unfold wordNote
      rw [if_neg, if_pos ((hform 2).mpr ⟨hc, by omega⟩)]
      · rfl
      · rw [hsets]
        omega
    · refine .ok ?_
      rw [wordNote_none]
      · rfl
      · rw [hsets]
        omega
      · rw [hform]
        omega
    · by_cases hz : ufield word 5 7 = 0
      · rw [wordNote_none]
        · refine .ok (Insn.note_quiet ?_ ?_) <;> dsimp only <;> rw [if_pos hz] <;>
            exact Opcode.noConfusion
        · rw [hsets, h0.mp hz]
          omega
        · rw [hform, h0.mp hz]
          omega
      · by_cases hn : bits word 5 7 = 4 ∨ bits word 5 7 = 5
        · refine .ok ((Insn.note_sets (if_neg hz) (by rwa [← h4, ← h5] at hn)).trans ?_)
          exact (if_pos (hsets.mpr ⟨hc, hn⟩)).symm
        · refine .ok ((Insn.note_hint (if_neg hz) (by rwa [← h4, ← h5] at hn)).trans ?_)
          refine (wordNote_none (fun h => hn (hsets.mp h).2) ?_).symm
          rw [hform]
          omega
  · rw [wordNote_none (fun h => hc (hsets.mp h).1) (fun h => hc h.2.1)]
    refine .quiet fun insn h => ?_
    repeat' split at h
    all_goals cases h
    all_goals exact ⟨Opcode.noConfusion, Opcode.noConfusion⟩

theorem decodeSystem_notes (h8 : bits word 24 8 = 0xD5) :
    Notes (wordNote word) (decodeSystem word) := by
  have h3 : bits word 19 3 = bits word 19 2 + 4 * bits word 21 1 := bits_append word 19 2 1
  have h2 := bits_lt word 19 2
  have hrd : fieldRd word = 31 ↔ bits word 0 5 = 31 := by
    unfold fieldRd field
    constructor
    · intro h
      have := congrArg BitVec.toNat h
      rwa [BitVec.toNat_ofNat, Nat.mod_eq_of_lt (bits_lt word 0 5)] at this
    · intro h
      rw [h]
      rfl
  have hother : ¬ SystemSpace word → wordNote word = none := by
    intro hs
    refine wordNote_none ?_ (fun h => hs h.1)
    have hp : ∀ n, ¬ PrefetchForm n word := by
      intro n hp
      have h10 := (systemClass_iff.mp h8).1
      rw [hp.class.1] at h10
      cases h10
    rintro (h | h | h | h)
    · exact hs h.1
    · exact hs h.1
    · exact hp 4 h
    · exact hp 5 h
  unfold decodeSystem
  dsimp only
  refine .ite (fun h0 => ?_) (fun h0 => ?_)
  · refine .ite (fun _ => .error _) (fun hr => .ite (fun _ => .error _) (fun hl => ?_))
    refine decodeHintsAndBarriers_notes ⟨h8, ?_, hrd.mp (not_not.mp hr)⟩
    unfold bit at hl
    omega
  · rw [hother (fun hs => h0 (by have := hs.2.1; omega))]
    refine .ite (fun _ => .ok rfl) (fun _ => .ok ?_)
    refine Insn.note_quiet ?_ ?_ <;> dsimp only <;> split <;> exact Opcode.noConfusion

theorem decodeBranchSystem_notes (pc : W64) (hc : bits word 25 4 = 10 ∨ bits word 25 4 = 11) :
    Notes (wordNote word) (decodeBranchSystem word pc) := by
  have hquiet : ∀ {x : Except Status Insn}, bits word 24 8 ≠ 0xD5 → Notes none x →
      Notes (wordNote word) x := by
    intro x h8 hx
    rw [wordNote_none]
    · exact hx
    · rintro (h | h | h | h)
      · exact h8 h.1.1
      · exact h8 h.1.1
      · have := h.class.1
        omega
      · have := h.class.1
        omega
    · exact fun h => h8 h.1.1
  have hne : bits word 29 3 ≠ 6 → bits word 24 8 ≠ 0xD5 := fun h h8 =>
    h (systemClass_iff.mp h8).2.1
  have hcompare : Notes none (decodeCompareBranch word pc) := by
    refine .quiet fun insn h => ?_
    cases h
    dsimp only
    split <;> exact ⟨Opcode.noConfusion, Opcode.noConfusion⟩
  have htest : Notes none (decodeTestBranch word pc) := by
    refine .quiet fun insn h => ?_
    cases h
    dsimp only
    split <;> exact ⟨Opcode.noConfusion, Opcode.noConfusion⟩
  have himm : Notes none (decodeUncondBranchImm word pc) := by
    refine .quiet fun insn h => ?_
    cases h
    dsimp only
    split <;> exact ⟨Opcode.noConfusion, Opcode.noConfusion⟩
  have hreg : Notes none (decodeUncondBranchReg word) := by
    refine .quiet fun insn h => ?_
    unfold decodeUncondBranchReg at h
    dsimp only at h
    repeat' split at h
    all_goals cases h
    all_goals exact ⟨Opcode.noConfusion, Opcode.noConfusion⟩
  have hexc : Notes none (decodeException word) := by
    refine .quiet fun insn h => ?_
    unfold decodeException at h
    dsimp only at h
    repeat' split at h
    all_goals cases h
    all_goals exact ⟨Opcode.noConfusion, Opcode.noConfusion⟩
  have h4 : bits word 25 4 = bits word 25 1 + 2 * bits word 26 3 := bits_append word 25 1 3
  have h1 := bits_lt word 24 1
  have h25 := bits_lt word 25 1
  have hn := bits_lt word 29 3
  unfold decodeBranchSystem
  generalize h29 : bits word 29 3 = n at hn
  interval_cases n
  · exact hquiet (hne (by omega)) himm
  · exact hquiet (hne (by omega)) (.ite (fun _ => hcompare) (fun _ => htest))
  · exact .ite (fun _ => .error _) (fun _ => hquiet (hne (by omega))
      (.ite (fun _ => .error _) (fun _ => .ok rfl)))
  · exact .error _
  · exact hquiet (hne (by omega)) himm
  · exact hquiet (hne (by omega)) (.ite (fun _ => hcompare) (fun _ => htest))
  · refine .ite (fun hb => ?_) (fun hb => .ite (fun hb' => ?_) (fun hb' => ?_))
    · refine hquiet (fun h8 => ?_) hreg
      have := (systemClass_iff.mp h8).1
      unfold bit at hb
      omega
    · refine hquiet (fun h8 => ?_) hexc
      have := (systemClass_iff.mp h8).2.2
      omega
    · refine decodeSystem_notes (systemClass_iff.mpr ⟨?_, h29, ?_⟩)
      · unfold bit at hb
        omega
      · unfold bit at *
        omega
  · exact .error _

/-! ## loads and stores -/

theorem sfield_nine (word : W32) (lsb : Nat) {k : Nat} (hk : k < 256) :
    sfield word lsb 9 = BitVec.ofNat 64 k ↔ bits word lsb 9 = k := by
  have hx : (word.extractLsb' lsb 9).toNat = bits word lsb 9 := by
    rw [BitVec.extractLsb'_toNat]
    rfl
  have hb := bits_lt word lsb 9
  rw [sfield_simm word lsb (by decide) (by decide), ← hx, ← BitVec.toInt_inj]
  unfold simm
  rw [BitVec.toInt_signExtend_of_le (by decide), BitVec.toInt_ofNat', BitVec.toInt_eq_toNat_cond]
  rw [← hx] at hb
  have hmod : (k : Int).bmod (2 ^ 64) = k := by
    rw [Int.bmod_def]
    omega
  rw [hmod]
  split <;> omega

theorem scaled_ne (x : W64) : ¬ (x <<< 3 = 4 ∨ x <<< 3 = 5) := by
  rintro (h | h) <;>
  · have := congrArg (fun y => BitVec.getLsbD y 2) h
    simp at this

theorem ldstSingle_hint {insn : Insn} (h : ldstSingle word = .ok insn) :
    (insn.op = .hint ↔ bits word 30 2 = 3 ∧ bits word 22 2 = 2) ∧ insn.op ≠ .wfe ∧
      insn.memSize = toMemSize (bits word 30 2) ∧ insn.uimm = 0 := by
  have h4 := bits_two word 30
  have hsize : toMemSize (bits word 30 2) = .dword ↔ bits word 30 2 = 3 := by
    rcases h4 with h | h | h | h <;> rw [h] <;> decide
  unfold ldstSingle classifyLoadStore at h
  dsimp only at h
  split at h
  · case _ h0 =>
    cases h
    refine ⟨⟨Opcode.noConfusion, fun hc => ?_⟩, Opcode.noConfusion, rfl, rfl⟩
    omega
  · split at h
    · case _ h1 =>
      cases h
      refine ⟨⟨Opcode.noConfusion, fun hc => ?_⟩, Opcode.noConfusion, rfl, rfl⟩
      omega
    · split at h
      · case _ hd =>
        split at h
        · case _ h2 =>
          cases h
          exact ⟨⟨fun _ => ⟨hsize.mp hd, h2⟩, fun _ => rfl⟩, Opcode.noConfusion, rfl, rfl⟩
        · cases h
      · case _ hd =>
        split at h
        · cases h
        · cases h
          exact ⟨⟨Opcode.noConfusion, fun hc => absurd (hsize.mpr hc.1) hd⟩, Opcode.noConfusion,
            rfl, rfl⟩

/-- the loads and stores that are no prefetch at an unscaled offset -/
theorem ldstOther_quiet {x : Except Status Insn} (h : ∀ insn, x = .ok insn →
    (insn.op = .hint → ¬ (insn.uimm = 4 ∨ insn.uimm = 5)) ∧ insn.op ≠ .wfe) : Notes none x := by
  intro insn hx
  obtain ⟨hu, hw⟩ := h insn hx
  by_cases ho : insn.op = .hint
  · exact Insn.note_hint ho (hu ho)
  · exact Insn.note_quiet ho hw

theorem decodeLdstUnsignedImm_notes : Notes none (decodeLdstUnsignedImm word) := by
  refine ldstOther_quiet fun insn h => ?_
  unfold decodeLdstUnsignedImm at h
  split at h
  · cases h
  · case _ i hs =>
    cases h
    obtain ⟨hop, hw, hm, -⟩ := ldstSingle_hint hs
    refine ⟨fun ho => ?_, hw⟩
    have h3 : i.memSize.log2 = 3 := by
      rw [hm, (hop.mp ho).1]
      rfl
    dsimp only
    rw [h3]
    exact scaled_ne _

theorem decodeLdstRegOffset_notes : Notes none (decodeLdstRegOffset word) := by
  refine ldstOther_quiet fun insn h => ?_
  unfold decodeLdstRegOffset at h
  dsimp only at h
  split at h
  · cases h
  · split at h
    · cases h
    · case _ i hs =>
      cases h
      obtain ⟨-, hw, -, hu⟩ := ldstSingle_hint hs
      refine ⟨fun _ => ?_, hw⟩
      dsimp only
      rw [hu]
      decide

theorem decodeLdstLiteral_notes (pc : W64) : Notes none (decodeLdstLiteral word pc) := by
  unfold decodeLdstLiteral
  dsimp only
  refine .ite (fun _ => .ok rfl) (fun _ => .ok (Insn.note_quiet ?_ ?_)) <;>
  · dsimp only
    split <;> exact Opcode.noConfusion

theorem decodeLdstImmUnscaled_notes :
    Notes (if (bits word 30 2 = 3 ∧ bits word 22 2 = 2) ∧
      (bits word 12 9 = 4 ∨ bits word 12 9 = 5) then some true else none)
      (decodeLdstImmUnscaled word) := by
  intro insn h
  have h4 : sfield word 12 9 = 4 ↔ bits word 12 9 = 4 := sfield_nine word 12 (by decide)
  have h5 : sfield word 12 9 = 5 ↔ bits word 12 9 = 5 := sfield_nine word 12 (by decide)
  unfold decodeLdstImmUnscaled at h
  split at h
  · cases h
  · case _ i hs =>
    cases h
    obtain ⟨hop, hw, -, -⟩ := ldstSingle_hint hs
    by_cases ho : i.op = .hint
    · by_cases hn : bits word 12 9 = 4 ∨ bits word 12 9 = 5
      · rw [if_pos ⟨hop.mp ho, hn⟩]
        exact Insn.note_sets ho (by rwa [← h4, ← h5] at hn)
      · rw [if_neg (fun hc => hn hc.2)]
        exact Insn.note_hint ho (by rwa [← h4, ← h5] at hn)
    · rw [if_neg (fun hc => ho (hop.mpr hc.1))]
      exact Insn.note_quiet ho hw

theorem decodeLoadStore_notes (pc : W64) (hc : bits word 25 4 = 4 ∨ bits word 25 4 = 6 ∨
    bits word 25 4 = 12 ∨ bits word 25 4 = 14) :
    Notes (wordNote word) (decodeLoadStore word pc) := by
  have hhint : ∀ n, ¬ HintForm n word := by
    intro n h
    have := h.class
    omega
  have hsets : Sets word ↔ PrefetchForm 4 word ∨ PrefetchForm 5 word := by
    unfold Sets
    simp only [hhint, false_or]
  have hquiet : ∀ {x : Except Status Insn}, (∀ n, ¬ PrefetchForm n word) → Notes none x →
      Notes (wordNote word) x := by
    intro x hp hx
    rw [wordNote_none]
    · exact hx
    · rw [hsets]
      rintro (h | h)
      · exact hp 4 h
      · exact hp 5 h
    · exact hhint 2
  have hexcl : Notes none (decodeLdstExclusive word) := by
    unfold decodeLdstExclusive
    dsimp only
    refine .ite (fun _ => .error _) (fun _ => .ite (fun _ => .ok (Insn.note_quiet ?_ ?_))
      (fun _ => .ite (fun _ => .error _) (fun _ => .ok (Insn.note_quiet ?_ ?_)))) <;>
    · dsimp only
      split <;> exact Opcode.noConfusion
  have hpair : Notes none (decodeLdstPair word) := by
    unfold decodeLdstPair
    dsimp only
    refine .ite (fun _ => .error _) (fun _ => .ite (fun _ => .ite (fun _ => .error _)
      (fun _ => .ok rfl)) (fun _ => .ok (Insn.note_quiet ?_ ?_))) <;>
    · dsimp only
      split <;> exact Opcode.noConfusion
  have hvector : Notes none (decodeLdstVector word) := by
    refine .quiet fun insn h => ?_
    unfold decodeLdstVector at h
    dsimp only at h
    repeat' split at h
    all_goals cases h
    all_goals exact ⟨Opcode.noConfusion, Opcode.noConfusion⟩
  have hpairVector : Notes none (decodeLdstPairVector word) := by
    refine .quiet fun insn h => ?_
    unfold decodeLdstPairVector at h
    dsimp only at h
    split at h <;> cases h
    dsimp only
    split <;> exact ⟨Opcode.noConfusion, Opcode.noConfusion⟩
  unfold decodeLoadStore
  dsimp only
  refine .ite (fun hb => ?_) (fun h26 => .ite (fun hb => ?_) (fun h0 => .ite (fun hb => ?_)
    (fun h1 => .ite (fun hb => ?_) (fun h2 => .ite (fun hb => ?_) (fun h24 =>
      .ite (fun hb => ?_) (fun h21 => ?_))))))
  · refine hquiet (fun n hp => hb hp.class.2.2.2.2.2.2) ?_
    exact .ite (fun _ => hvector) (fun _ => .ite (fun _ => hpairVector) (fun _ => .error _))
  · refine hquiet (fun n hp => ?_) (.ite (fun _ => .error _) (fun _ => hexcl))
    have := hp.class
    omega
  · refine hquiet (fun n hp => ?_) (.ite (fun _ => .error _) (fun _ => decodeLdstLiteral_notes pc))
    have := hp.class
    omega
  · refine hquiet (fun n hp => ?_) hpair
    have := hp.class
    omega
  · exact hquiet (fun n hp => hb hp.class.2.2.2.2.2.1) decodeLdstUnsignedImm_notes
  · exact hquiet (fun n hp => hb hp.class.2.2.2.2.1) decodeLdstRegOffset_notes
  · have hp : ∀ n, PrefetchForm n word ↔
        (bits word 30 2 = 3 ∧ bits word 22 2 = 2) ∧ bits word 12 9 = n := by
      intro n
      refine ⟨fun h => ⟨⟨h.class.2.2.1, h.class.2.2.2.1⟩, h.2⟩, fun h => ⟨?_, h.2⟩⟩
      have e11 : bits word 21 11 = bits word 21 1 + 2 * bits word 22 10 := bits_append word 21 1 10
      have e10 : bits word 22 10 = bits word 22 2 + 4 * bits word 24 8 := bits_append word 22 2 8
      have e8 : bits word 24 8 = bits word 24 1 + 2 * bits word 25 7 := bits_append word 24 1 7
      have e7 : bits word 25 7 = bits word 25 3 + 8 * bits word 28 4 := bits_append word 25 3 4
      have e4 : bits word 28 4 = bits word 28 2 + 4 * bits word 30 2 := bits_append word 28 2 2
      have e3 : bits word 25 3 = bits word 25 2 + 4 * bits word 27 1 := bits_append word 25 2 1
      have e2 : bits word 25 2 = bits word 25 1 + 2 * bits word 26 1 := bits_append word 25 1 1
      have e4' : bits word 25 4 = bits word 25 3 + 8 * bits word 28 1 := bits_append word 25 3 1
      have e2' : bits word 28 2 = bits word 28 1 + 2 * bits word 29 1 := bits_append word 28 1 1
      have l1 := bits_lt word 25 1
      have l2 := bits_lt word 27 1
      have l3 := bits_lt word 28 2
      have l4 := bits_lt word 28 1
      have l5 := bits_lt word 29 1
      obtain ⟨⟨h30, h22⟩, -⟩ := h
      unfold bit at *
      omega
    have e : wordNote word = if (bits word 30 2 = 3 ∧ bits word 22 2 = 2) ∧
        (bits word 12 9 = 4 ∨ bits word 12 9 = 5) then some true else none := by
      unfold wordNote
      rw [if_neg (hhint 2)]
      refine if_congr ?_ rfl rfl
      rw [hsets, hp, hp, ← and_or_left]
    rw [e]
    exact decodeLdstImmUnscaled_notes

/-! ## the tree -/

/-- **what an accepted word does to the event register is read off the word** -/
theorem decode_note {insn : Insn} (h : decode word pc = .ok insn) : insn.note = wordNote word := by
  have hnone : ∀ {x : Except Status Insn}, bits word 25 4 ≠ 10 → bits word 25 4 ≠ 12 →
      Notes none x → Notes (wordNote word) x := by
    intro x h1 h2 hx
    rw [wordNote_class h1 h2]
    exact hx
  have hvector : Notes none (if isVecDup word then decodeVecDup word else .error .unsupported) :=
    .ite (fun _ => .ok rfl) (fun _ => .error _)
  have herr : ∀ c : Prop, ∀ [Decidable c], Notes none
      (if c then .error .unsupported else .error .decode) :=
    fun _ => .ite (fun _ => .error _) (fun _ => .error _)
  have hreg : Notes none (decodeDpRegister word) := .data fun _ h => decodeDpRegister_family h
  have himm : Notes none (decodeDpImmediate word pc) := .data fun _ h => decodeDpImmediate_family h
  suffices hd : Notes (wordNote word) (decode word pc) from hd insn h
  have hn := bits_lt word 25 4
  unfold decode
  generalize hk : bits word 25 4 = n at hn
  interval_cases n
  · exact hnone (by omega) (by omega) (herr _)
  · exact hnone (by omega) (by omega) (herr _)
  · exact hnone (by omega) (by omega) (herr _)
  · exact hnone (by omega) (by omega) (herr _)
  · exact decodeLoadStore_notes pc (by omega)
  · exact hnone (by omega) (by omega) hreg
  · exact decodeLoadStore_notes pc (by omega)
  · exact hnone (by omega) (by omega) hvector
  · exact hnone (by omega) (by omega) himm
  · exact hnone (by omega) (by omega) himm
  · exact decodeBranchSystem_notes pc (by omega)
  · exact decodeBranchSystem_notes pc (by omega)
  · exact decodeLoadStore_notes pc (by omega)
  · exact hnone (by omega) (by omega) hreg
  · exact decodeLoadStore_notes pc (by omega)
  · exact hnone (by omega) (by omega) hvector

/-! ## assembled words -/

/-- a hint as it is assembled, and no other word, has the fields the decoder does not check -/
theorem hintWord_iff {n : Nat} (hn : n < 128) :
    word = hintWord n ↔ HintForm n word ∧ bits word 16 3 = 3 ∧ bits word 22 2 = 0 := by
  have hw : word = hintWord n ↔ word.toNat = 0xD503201F + 32 * n := by
    rw [← BitVec.toNat_inj]
    unfold hintWord
    rw [BitVec.toNat_ofNat, Nat.mod_eq_of_lt (by omega)]
  have hlt := word.isLt
  rw [hw]
  unfold HintForm SystemSpace bits
  simp only [Nat.shiftRight_eq_div_pow]
  omega

/-- the words that move the register and are neither `sev`, `sevl` nor `wfe`: a prefetch at offset 4
or 5, and a hint with a field the decoder does not check -/
def Stray (word : W32) : Prop :=
  PrefetchForm 4 word ∨ PrefetchForm 5 word ∨
    (HintForm 2 word ∨ HintForm 4 word ∨ HintForm 5 word) ∧
      (bits word 16 3 ≠ 3 ∨ bits word 22 2 ≠ 0)

instance (word : W32) : Decidable (Stray word) := inferInstanceAs (Decidable (_ ∨ _))

theorem HintForm.number {n k : Nat} (h : HintForm n word) (h' : HintForm k word) : n = k :=
  h.2.2.symm.trans h'.2.2

theorem HintForm.not_prefetch {n k : Nat} (h : HintForm n word) : ¬ PrefetchForm k word := by
  intro hp
  have := hp.class.1
  rw [h.class] at this
  cases this

theorem wordNote_steady (h : ¬ Stray word) :
    (wordNote word = some true ↔ word = hintWord 4 ∨ word = hintWord 5) ∧
      (wordNote word = some false ↔ word = hintWord 2) := by
  unfold Stray at h
  push Not at h
  obtain ⟨hp4, hp5, hh⟩ := h
  have hsets : Sets word ↔ word = hintWord 4 ∨ word = hintWord 5 := by
    unfold Sets
    rw [hintWord_iff (by decide), hintWord_iff (by decide)]
    constructor
    · rintro (h | h | h | h)
      · exact .inl ⟨h, hh (.inr (.inl h))⟩
      · exact .inr ⟨h, hh (.inr (.inr h))⟩
      · exact absurd h hp4
      · exact absurd h hp5
    · rintro (h | h)
      · exact .inl h.1
      · exact .inr (.inl h.1)
  have hwfe : HintForm 2 word ↔ word = hintWord 2 := by
    rw [hintWord_iff (by decide)]
    exact ⟨fun h => ⟨h, hh (.inl h)⟩, fun h => h.1⟩
  unfold wordNote
  by_cases hs : Sets word
  · rw [if_pos hs]
    refine ⟨⟨fun _ => hsets.mp hs, fun _ => rfl⟩, ⟨fun h => (by cases h), fun h => ?_⟩⟩
    rcases hsets.mp hs with h' | h' <;> exact absurd (h.symm.trans h') (by decide)
  · rw [if_neg hs]
    by_cases hw : HintForm 2 word
    · rw [if_pos hw]
      exact ⟨⟨fun h => (by cases h), fun h => absurd (hsets.mpr h) hs⟩,
        ⟨fun _ => hwfe.mp hw, fun _ => rfl⟩⟩
    · rw [if_neg hw]
      exact ⟨⟨fun h => (by cases h), fun h => absurd (hsets.mpr h) hs⟩,
        ⟨fun h => (by cases h), fun h => absurd (hwfe.mpr h) hw⟩⟩

/-- what a stray word does, though it is none of the three -/
theorem wordNote_stray (h : Stray word) :
    (wordNote word = some true ∧ word ≠ hintWord 4 ∧ word ≠ hintWord 5) ∨
      wordNote word = some false ∧ word ≠ hintWord 2 := by
  have hne : ∀ n < 128, (∃ k, PrefetchForm k word) ∨ bits word 16 3 ≠ 3 ∨ bits word 22 2 ≠ 0 →
      word ≠ hintWord n := by
    intro n hn hc he
    obtain ⟨hf, h16, h22⟩ := (hintWord_iff hn).mp he
    rcases hc with ⟨k, hp⟩ | hc | hc
    · exact hf.not_prefetch hp
    · exact hc h16
    · exact hc h22
  have hset : Sets word → (∃ k, PrefetchForm k word) ∨ bits word 16 3 ≠ 3 ∨ bits word 22 2 ≠ 0 →
      (wordNote word = some true ∧ word ≠ hintWord 4 ∧ word ≠ hintWord 5) ∨
      wordNote word = some false ∧ word ≠ hintWord 2 := by
    intro hs hc
    exact .inl ⟨if_pos hs, hne 4 (by decide) hc, hne 5 (by decide) hc⟩
  rcases h with h | h | ⟨h | h | h, hc⟩
  · exact hset (.inr (.inr (.inl h))) (.inl ⟨4, h⟩)
  · exact hset (.inr (.inr (.inr h))) (.inl ⟨5, h⟩)
  · refine .inr ⟨?_, hne 2 (by decide) (.inr hc)⟩
    unfold wordNote
    rw [if_neg, if_pos h]
    rintro (h' | h' | h' | h')
    · exact absurd (h.number h') (by decide)
    · exact absurd (h.number h') (by decide)
    · exact h.not_prefetch h'
    · exact h.not_prefetch h'
  · exact hset (.inl h) (.inr hc)
  · exact hset (.inr (.inl h)) (.inr hc)

end Oemu
