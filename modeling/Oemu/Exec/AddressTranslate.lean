import Oemu.Decode.Operand
import Oemu.Exec.System
import Oemu.Mmu.Frame
import Oemu.Mmu.Served
import Oemu.Mmu.Restrict

/-!
# Address translation instructions

`AT S1E1R`, `S1E1W`, `S1E0R` and `S1E0W` publish in `PAR_EL1` what a read or a write of an address
would translate to, at the level the instruction names.  The executor translates at the level it
runs at, whatever the instruction names; and the row of `PAR_EL1` shows a guest none of its bits, so
what a guest reads is zero, whatever was stored.

* `decode_at`          the four words, decoded;
* `translate_level`    how the two levels differ on one mapping;
* `answered_zero_iff`  which accesses are answered with page zero, as a guest reads of every one;
* `at_published_iff`   which executions publish the right verdict, and what all of them leave alone.
-/

namespace Oemu

/-! ## the words -/

/-- `AT S1E1R`, `S1E1W`, `S1E0R` or `S1E0W` of a register -/
def AtWord (word : W32) : Prop := bits word 7 25 = 0x1AA10F0

instance (word : W32) : Decidable (AtWord word) := inferInstanceAs (Decidable (_ = _))

/-- the level an address translation names -/
def atLevel (word : W32) : El := if bit word 6 = 0 then .el1 else .el0

theorem AtWord.fields {word : W32} (h : AtWord word) :
    bits word 25 4 = 10 ∧ bits word 29 3 = 6 ∧ bits word 19 2 = 1 ∧ bit word 24 = 1 ∧
      bit word 25 = 0 ∧ bits word 5 14 = 960 + bits word 5 2 := by
  have h7 : bits word 5 14 = bits word 5 2 + 4 * bits word 7 12 := bits_append word 5 2 12
  have hw := word.isLt
  unfold AtWord bits at h
  unfold bit bits at *
  simp only [Nat.shiftRight_eq_div_pow] at *
  omega

theorem sysAction_at : ∀ k, k < 4 → sysAction (BitVec.ofNat 32 (960 + k) &&& sysregMask) = .at := by
  decide

theorem decode_at {word : W32} (h : AtWord word) (pc : W64) :
    ∃ insn, decode word pc = .ok insn ∧ insn.op = .sys ∧ insn.rd = fieldRd word ∧
      sysAction insn.sel = .at := by
  obtain ⟨hgroup, hclass, hop0, h24, h25, hsel⟩ := h.fields
  have hd : decode word pc = decodeSystem word := by
    unfold decode
    rw [hgroup]
    show decodeBranchSystem word pc = _
    unfold decodeBranchSystem
    rw [hclass]
    show (if bit word 25 ≠ 0 then decodeUncondBranchReg word
      else if bit word 24 = 0 then decodeException word else decodeSystem word) = _
    rw [if_neg (not_not.mpr h25), if_neg (by rw [h24]; decide)]
  rw [hd]
  unfold decodeSystem
  rw [hop0, if_neg (by decide), if_pos rfl]
  refine ⟨_, rfl, rfl, rfl, ?_⟩
  show sysAction (BitVec.ofNat 32 (bits word 5 14) &&& sysregMask) = .at
  rw [hsel]
  exact sysAction_at _ (bits_lt word 5 2)

/-! ## one mapping, two levels -/

variable {σ ε τ : Type} {sr : Sysregs} {phys : Memops σ} {w : MmuWorld σ} {va : W64}

/-- the mapping an access at EL1 or EL0 meets: the line the TLB holds, or else the one the walk
produces.  There is none where stage 1 is off, and none where the walk finds no leaf. -/
def meets (sr : Sysregs) (phys : Memops σ) (w : MmuWorld σ) (va : W64) : Option Line :=
  if sctlrM (sr.val .sctlrEl1) then
    match (epochCheck w.mmu sr).line (walkVa (sr.val .tcrEl1) va) with
    | some l => some l
    | none => walkLine sr phys w.phys (pageBase (walkVa (sr.val .tcrEl1) va))
  else none

theorem cacheable_low {cur : El} (h : cur ≠ .el3) :
    cacheable sr cur = sctlrM (sr.val .sctlrEl1) := by
  unfold cacheable
  rw [bne_iff_ne.mpr h, Bool.and_true]

theorem translate_meets {cur : El} (hcur : cur ≠ .el3) {l : Line} (h : meets sr phys w va = some l)
    (isWrite : Bool) :
    (translate sr phys w va cur isWrite false).1 =
      l.serve (walkVa (sr.val .tcrEl1) va) cur isWrite false := by
  unfold meets at h
  by_cases hm : sctlrM (sr.val .sctlrEl1) = true
  · rw [if_pos hm] at h
    have hc : cacheable sr cur = true := (cacheable_low hcur).trans hm
    rw [translate_eq, if_pos hc]
    cases hl : (epochCheck w.mmu sr).line (walkVa (sr.val .tcrEl1) va) with
    | some l' =>
      rw [hl] at h
      cases h
      rfl
    | none =>
      rw [hl] at h
      have hw := walk_of_line isWrite false hc h
      dsimp only
      rw [← hw]
      unfold translateMiss
      dsimp only
      rcases walk sr phys va cur isWrite false w.phys with ⟨r, p⟩
      cases r <;> rfl
  · rw [if_neg hm] at h
    cases h

/-- where stage 1 is on and no mapping is met, no access is answered -/
theorem translate_unmet {cur : El} (hcur : cur ≠ .el3) (hm : sctlrM (sr.val .sctlrEl1) = true)
    (h : meets sr phys w va = none) (isWrite : Bool) (pa : W64) :
    (translate sr phys w va cur isWrite false).1 ≠ .ok pa := by
  intro hok
  have hc : cacheable sr cur = true := (cacheable_low hcur).trans hm
  unfold meets at h
  rw [if_pos hm] at h
  rw [translate_eq, if_pos hc] at hok
  cases hl : (epochCheck w.mmu sr).line (walkVa (sr.val .tcrEl1) va) with
  | some l =>
    rw [hl] at h
    cases h
  | none =>
    rw [hl] at h hok
    dsimp only at h hok
    unfold translateMiss at hok
    dsimp only at hok
    rcases hw : walk sr phys va cur isWrite false w.phys with ⟨r, p⟩
    have hr : (walk sr phys va cur isWrite false w.phys).1 = r := by rw [hw]
    rw [hw] at hok
    cases r with
    | identity pa' => exact walk_not_identity hc w.phys hr
    | fault f => cases hok
    | leaf l =>
      rw [(walk_leaf_line hr).1] at h
      cases h

/-- where no mapping is met the level does not matter -/
theorem translate_unmapped (h : meets sr phys w va = none) (isWrite : Bool) (pa : W64) :
    (translate sr phys w va .el0 isWrite false).1 = .ok pa ↔
      (translate sr phys w va .el1 isWrite false).1 = .ok pa := by
  have h01 : El.el0 ≠ .el3 ∧ El.el1 ≠ .el3 := ⟨by decide, by decide⟩
  by_cases hm : sctlrM (sr.val .sctlrEl1) = true
  · have hfault := fun (cur : El) (hcur : cur ≠ .el3) => translate_unmet hcur hm h isWrite pa
    exact ⟨fun hok => absurd hok (hfault _ h01.1), fun hok => absurd hok (hfault _ h01.2)⟩
  · have hc : ∀ cur : El, cur ≠ .el3 → cacheable sr cur = false := by
      intro cur hcur
      rw [cacheable_low hcur]
      exact Bool.not_eq_true _ ▸ hm
    have hid : ∀ cur : El, cur ≠ .el3 →
        (translate sr phys w va cur isWrite false).1 = .ok va := by
      intro cur hcur
      rw [translate_eq, if_neg (by rw [hc cur hcur]; decide)]
      unfold translateMiss
      rw [walk_identity (hc cur hcur)]
    rw [hid _ h01.1, hid _ h01.2]

/-- a mapping gives EL0 all the reads, or writes, it gives EL1 -/
def Line.SharedWithEl0 (l : Line) (isWrite : Bool) : Prop :=
  l.ap.getLsbD 0 = true ∨ isWrite = true ∧ l.ap.getLsbD 1 = true

theorem sharedWithEl0_iff (l : Line) (isWrite : Bool) :
    l.SharedWithEl0 isWrite ↔
      (permits l.ap l.xn l.pxn false isWrite false = true →
        permits l.ap l.xn l.pxn true isWrite false = true) := by
  unfold Line.SharedWithEl0 permits
  dsimp only
  generalize l.ap.getLsbD 0 = user
  generalize l.ap.getLsbD 1 = ro
  generalize l.xn = xn
  generalize l.pxn = pxn
  revert user ro xn pxn isWrite
  decide

theorem serve_ok_iff (l : Line) (a : W64) (cur : El) (isWrite : Bool) (pa : W64) :
    l.serve a cur isWrite false = .ok pa ↔
      permits l.ap l.xn l.pxn (cur == .el0) isWrite false = true ∧
        pa = l.pa ||| (a &&& pageMask) := by
  unfold Line.serve
  by_cases hp : permits l.ap l.xn l.pxn (cur == .el0) isWrite false = true
  · rw [if_pos hp]
    constructor
    · intro h
      cases h
      exact ⟨hp, rfl⟩
    · intro h
      rw [h.2]
  · rw [if_neg hp]
    constructor
    · intro h
      cases h
    · intro h
      exact absurd h.1 hp

/-- **how the two levels differ on one mapping**: what EL0 is given EL1 is given, and the other way
round unless the mapping is closed to EL0 and open to EL1 -/
theorem translate_level (isWrite : Bool) :
    (∀ pa, (translate sr phys w va .el0 isWrite false).1 = .ok pa →
      (translate sr phys w va .el1 isWrite false).1 = .ok pa) ∧
    ((∀ pa, (translate sr phys w va .el1 isWrite false).1 = .ok pa →
      (translate sr phys w va .el0 isWrite false).1 = .ok pa) ↔
      ∀ l, meets sr phys w va = some l → l.SharedWithEl0 isWrite) := by
  cases hl : meets sr phys w va with
  | none =>
    have h := translate_unmapped hl isWrite
    refine ⟨fun pa => (h pa).mp, fun _ l hl' => ?_, fun _ pa => (h pa).mpr⟩
    cases hl'
  | some l =>
    rw [translate_meets (show El.el0 ≠ .el3 by decide) hl isWrite,
      translate_meets (show El.el1 ≠ .el3 by decide) hl isWrite]
    refine ⟨fun pa h0 => ?_, ?_⟩
    · rw [serve_ok_iff] at h0 ⊢
      exact ⟨permits_el1_of_el0 l.ap l.xn l.pxn isWrite h0.1, h0.2⟩
    · constructor
      · intro h l' hl'
        cases hl'
        rw [sharedWithEl0_iff]
        intro hp
        exact ((serve_ok_iff _ _ _ _ _).mp
          (h _ ((serve_ok_iff _ _ _ _ _).mpr ⟨hp, rfl⟩))).1
      · intro h pa h1
        rw [serve_ok_iff] at h1 ⊢
        exact ⟨(sharedWithEl0_iff l isWrite).mp (h l rfl) h1.1, h1.2⟩

/-! ## the published verdict -/

/-- the F bit is clear exactly where the access is answered, and `PA[47:12]` is then its page -/
def Publishes (par : W64) (answer : Except MmuFault W64) : Prop :=
  (par.getLsbD 0 = false ↔ ∃ pa, answer = .ok pa) ∧
    ∀ pa, answer = .ok pa → par.extractLsb' 12 36 = pa.extractLsb' 12 36

theorem publishes_parOf (answer : Except MmuFault W64) : Publishes (parOf answer) answer := by
  cases answer with
  | error f =>
    constructor
    · constructor
      · intro h
        have h1 : (1 : W64).getLsbD 0 = true := by decide
        exact absurd (h1.symm.trans h) (by decide)
      · rintro ⟨pa, h⟩
        cases h
    · intro pa h
      cases h
  | ok a =>
    constructor
    · constructor
      · intro _
        exact ⟨a, rfl⟩
      · intro _
        show (a &&& ~~~(1 : W64)).getLsbD 0 = false
        rw [BitVec.getLsbD_and]
        exact Bool.and_false _
    · intro pa h
      cases h
      show (a &&& ~~~(1 : W64)).extractLsb' 12 36 = a.extractLsb' 12 36
      apply BitVec.eq_of_getLsbD_eq
      intro i hi
      rw [BitVec.getLsbD_extractLsb', BitVec.getLsbD_extractLsb', BitVec.getLsbD_and,
        BitVec.getLsbD_not, show BitVec.getLsbD (1 : W64) (12 + i) = false by
          simp [BitVec.getLsbD_one]]
      simp [show 12 + i < 64 by omega]

/-- the verdict on one access stands for another that is answered only where it is -/
theorem publishes_parOf_iff {answer named : Except MmuFault W64}
    (h : ∀ pa, named = .ok pa → answer = .ok pa) :
    Publishes (parOf answer) named ↔ ∀ pa, answer = .ok pa → named = .ok pa := by
  have hself := publishes_parOf answer
  constructor
  · intro hp pa hok
    obtain ⟨pa', hnamed⟩ := hp.1.mp (hself.1.mpr ⟨pa, hok⟩)
    have hpa := h pa' hnamed
    rw [hok] at hpa
    cases hpa
    exact hnamed
  · intro hback
    refine ⟨?_, fun pa hok => hself.2 pa (h pa hok)⟩
    rw [hself.1]
    constructor
    · rintro ⟨pa, hok⟩
      exact ⟨pa, hback pa hok⟩
    · rintro ⟨pa, hok⟩
      exact ⟨pa, h pa hok⟩

theorem publishes_level (word : W32) (isWrite : Bool) :
    Publishes (parOf (translate sr phys w va .el1 isWrite false).1)
        (translate sr phys w va (atLevel word) isWrite false).1 ↔
      atLevel word = .el1 ∨ ∀ l, meets sr phys w va = some l → l.SharedWithEl0 isWrite := by
  by_cases h6 : bit word 6 = 0
  · have hlevel : atLevel word = .el1 := if_pos h6
    rw [hlevel]
    exact ⟨fun _ => .inl rfl, fun _ => publishes_parOf _⟩
  · have hlevel : atLevel word = .el0 := if_neg h6
    obtain ⟨hdown, hup⟩ := @translate_level σ sr phys w va isWrite
    rw [hlevel, publishes_parOf_iff hdown, hup]
    constructor
    · exact .inr
    · rintro (h | h)
      · cases h
      · exact h

variable {mem : Memops (MmuWorld σ)} {env : Option (EnvOps τ ε)}

theorem dispatchSystem_at (cpu : Cpu) (sr : Sysregs) {insn : Insn} {word : W32}
    (hop : insn.op = .sys) (hact : sysAction insn.sel = .at) (w : MmuWorld σ) (e : ε) :
    dispatchSystem mem phys env cpu sr insn word (w, e) =
      some ((.ok, { cpu with regs := cpu.regs.advancePc },
          sr.set .parEl1 (parOf (mmuTranslate sr phys w (readG cpu.regs insn.rd false .w64)
            (atWrite word) false).1)),
        ((mmuTranslate sr phys w (readG cpu.regs insn.rd false .w64) (atWrite word) false).2,
          e)) := by
  unfold dispatchSystem doSys
  rw [hop, hact]
  rfl

/-! ## what a guest reads -/

def selParEl1 : W32 := 0x03A0

/-- the row of `PAR_EL1` masks every bit of a read -/
theorem sysregRead_par (r : Regs) {sr : Sysregs} (hel : sr.el = .el1) :
    sysregRead r sr selParEl1 = some 0 := by
  have e : sysregRead r sr selParEl1 =
      if decide (1 ≤ sr.el.num) = true then some (sr.val .parEl1 &&& 0) else none := rfl
  rw [e, hel]
  exact congrArg some BitVec.and_zero

/-- the access meets a mapping that grants it and leads to a page whose address bits 47:12 are zero;
where stage 1 is off those bits of the address itself are -/
def AnswersPageZero (sr : Sysregs) (phys : Memops σ) (w : MmuWorld σ) (va : W64) (cur : El)
    (isWrite : Bool) : Prop :=
  if sctlrM (sr.val .sctlrEl1) then
    ∃ l, meets sr phys w va = some l ∧ permits l.ap l.xn l.pxn (cur == .el0) isWrite false = true ∧
      l.pa.extractLsb' 12 36 = 0
  else va.extractLsb' 12 36 = 0

/-- the offset in a page does not reach the page number -/
theorem page_number (pa a : W64) : (pa ||| (a &&& pageMask)).extractLsb' 12 36 =
    pa.extractLsb' 12 36 := by
  apply BitVec.eq_of_getLsbD_eq
  intro i hi
  have hmask : pageMask.getLsbD (12 + i) = false := by
    rw [show pageMask = BitVec.ofNat 64 (2 ^ 12 - 1) from rfl, BitVec.getLsbD_ofNat,
      Nat.testBit_two_pow_sub_one]
    simp
  rw [BitVec.getLsbD_extractLsb', BitVec.getLsbD_extractLsb', BitVec.getLsbD_or,
    BitVec.getLsbD_and, hmask, Bool.and_false, Bool.or_false]

theorem answered_zero_iff {cur : El} (hcur : cur ≠ .el3) (isWrite : Bool) :
    (∃ pa, (translate sr phys w va cur isWrite false).1 = .ok pa ∧ pa.extractLsb' 12 36 = 0) ↔
      AnswersPageZero sr phys w va cur isWrite := by
  unfold AnswersPageZero
  by_cases hm : sctlrM (sr.val .sctlrEl1) = true
  · rw [if_pos hm]
    cases hl : meets sr phys w va with
    | none =>
      constructor
      · rintro ⟨pa, hok, -⟩
        exact absurd hok (translate_unmet hcur hm hl isWrite pa)
      · rintro ⟨l, h, -⟩
        cases h
    | some l =>
      rw [translate_meets hcur hl isWrite]
      constructor
      · rintro ⟨pa, hok, hz⟩
        obtain ⟨hp, rfl⟩ := (serve_ok_iff _ _ _ _ _).mp hok
        rw [page_number] at hz
        exact ⟨l, rfl, hp, hz⟩
      · rintro ⟨l', h, hp, hz⟩
        cases h
        exact ⟨_, (serve_ok_iff _ _ _ _ _).mpr ⟨hp, rfl⟩, (page_number _ _).trans hz⟩
  · rw [if_neg hm]
    have hid : (translate sr phys w va cur isWrite false).1 = .ok va := by
      have hc : cacheable sr cur = false := by
        rw [cacheable_low hcur]
        exact Bool.not_eq_true _ ▸ hm
      rw [translate_eq, if_neg (by rw [hc]; decide)]
      unfold translateMiss
      rw [walk_identity hc]
    rw [hid]
    constructor
    · rintro ⟨pa, hok, hz⟩
      cases hok
      exact hz
    · intro hz
      exact ⟨va, rfl, hz⟩

/-- zero is the verdict on an access that page zero answers -/
theorem publishes_zero_iff (answer : Except MmuFault W64) :
    Publishes 0 answer ↔ ∃ pa, answer = .ok pa ∧ pa.extractLsb' 12 36 = 0 := by
  constructor
  · intro h
    obtain ⟨pa, hok⟩ := h.1.mp rfl
    exact ⟨pa, hok, (h.2 pa hok).symm⟩
  · rintro ⟨pa, hok, hz⟩
    refine ⟨⟨fun _ => ⟨pa, hok⟩, fun _ => rfl⟩, ?_⟩
    intro pa' hok'
    rw [hok] at hok'
    cases hok'
    exact hz.symm

/-- **which address translations publish the right verdict**: all complete, write `PAR_EL1` and
nothing else, touch the memory by reads only and leave the pending record alone.  The verdict that
is stored is that of the access the instruction names except where it names EL0 and the mapping is
closed to EL0 and open to EL1; the one a guest reads back is right for an access that page zero
answers, and for no other. -/
theorem at_published_iff (phys : Memops σ) (f₀ : MmuFault) (env : Option (EnvOps τ ε)) (cpu : Cpu)
    (sr : Sysregs) (w : MmuWorld σ) (e : ε) (word : W32) (hel : sr.el = .el1) (hat : AtWord word) :
    ∃ insn par w' v, decode word cpu.regs.pc = .ok insn ∧
      dispatchSystem (mmuMemops sr phys f₀) phys env cpu sr insn word (w, e) =
        some ((.ok, { cpu with regs := cpu.regs.advancePc }, sr.set .parEl1 par), (w', e)) ∧
      (∀ R, Reads phys R → R w.phys w'.phys) ∧
      w'.mmu.fault = w.mmu.fault ∧ w'.mmu.faultValid = w.mmu.faultValid ∧
      (Publishes par (translate sr phys w (readG cpu.regs (fieldRd word) false .w64) (atLevel word)
          (atWrite word) false).1 ↔
        atLevel word = .el1 ∨
          ∀ l, meets sr phys w (readG cpu.regs (fieldRd word) false .w64) = some l →
            l.SharedWithEl0 (atWrite word)) ∧
      sysregRead cpu.regs.advancePc (sr.set .parEl1 par) selParEl1 = some v ∧
      (Publishes v (translate sr phys w (readG cpu.regs (fieldRd word) false .w64) (atLevel word)
          (atWrite word) false).1 ↔
        AnswersPageZero sr phys w (readG cpu.regs (fieldRd word) false .w64) (atLevel word)
          (atWrite word)) := by
  obtain ⟨insn, hdec, hop, hrd, hact⟩ := decode_at hat cpu.regs.pc
  refine ⟨insn, _, _, 0, hdec, dispatchSystem_at cpu sr hop hact w e, ?_⟩
  have hcur : ∀ va, mmuTranslate sr phys w va (atWrite word) false =
      translate sr phys w va .el1 (atWrite word) false := by
    intro va
    unfold mmuTranslate
    rw [hel]
  have hlevel : atLevel word ≠ .el3 := by
    unfold atLevel
    split <;> decide
  rw [hrd, hcur]
  have hpend := translate_pending sr phys w (readG cpu.regs (fieldRd word) false .w64) .el1
    (atWrite word) false
  refine ⟨fun R hR => hR.translate sr w _ _ _ _, hpend.1, hpend.2, publishes_level word _,
    sysregRead_par _ ?_, ?_⟩
  · rw [← hel]
    unfold Sysregs.el
    rw [show (sr.set .parEl1 _).pstate = sr.pstate from Sysregs.set_val_of_ne _ _ nofun]
  · exact (publishes_zero_iff _).trans (answered_zero_iff hlevel (atWrite word))

/-- one page of tables: a level-2 entry at `0x1000` and the level-3 entry of page 0 -/
def onePageTables (low high : BitVec 8) : Memory :=
  ⟨[⟨0x1000, 0x2000, permRead, 0x1000, false⟩], 1, fun i =>
    if i = 0x1000 then 0x03 else if i = 0x1001 then 0x20
    else if i = 0x2000 then low else if i = 0x2001 then high else 0⟩

/-- `AT S1E1R` of a page that is mapped to page 0: what the guest reads is right -/
theorem at_published_iff_s1e1r :
    ∃ insn par w' v, decode 0xD5087800 0 = .ok insn ∧
      dispatchSystem (mmuMemops openRegs Memory.memops ⟨0, 0⟩) Memory.memops
          (none : Option (EnvOps Unit Unit)) (Cpu.init 0 0) openRegs insn 0xD5087800
          (⟨Mmu.init, onePageTables 0x03 0x04⟩, ()) =
        some ((.ok, { Cpu.init 0 0 with regs := (Cpu.init 0 0).regs.advancePc },
          openRegs.set .parEl1 par), (w', ())) ∧
      sysregRead (Cpu.init 0 0).regs.advancePc (openRegs.set .parEl1 par) selParEl1 = some v ∧
      Publishes v (translate openRegs Memory.memops ⟨Mmu.init, onePageTables 0x03 0x04⟩ 0 .el1
        false false).1 := by
  obtain ⟨insn, par, w', v, hdec, hrun, -, -, -, -, hv, hpar⟩ :=
    at_published_iff Memory.memops ⟨0, 0⟩ (none : Option (EnvOps Unit Unit))
      (Cpu.init 0 0) openRegs ⟨Mmu.init, onePageTables 0x03 0x04⟩ () 0xD5087800 rfl rfl
  have hok : (translate openRegs Memory.memops ⟨Mmu.init, onePageTables 0x03 0x04⟩ 0 .el1 false
      false).1.toOption = some 0 := by decide +kernel
  refine ⟨insn, par, w', v, hdec, hrun, hv, hpar.mpr ((answered_zero_iff (by decide) _).mp ?_)⟩
  show ∃ pa, (translate openRegs Memory.memops ⟨Mmu.init, onePageTables 0x03 0x04⟩ 0 .el1 false
      false).1 = .ok pa ∧ pa.extractLsb' 12 36 = 0
  cases hr : (translate openRegs Memory.memops ⟨Mmu.init, onePageTables 0x03 0x04⟩ 0 .el1 false
      false).1 with
  | error f =>
    rw [hr] at hok
    cases hok
  | ok pa =>
    rw [hr] at hok
    cases hok
    exact ⟨0, rfl, rfl⟩

/-- `AT S1E1R` of an address with no mapping: the read faults, F is stored, and the guest reads
zero -/
theorem at_s1e1r_unmapped :
    ∃ insn w', decode 0xD5087800 0 = .ok insn ∧
      dispatchSystem (mmuMemops openRegs Memory.memops ⟨0, 0⟩) Memory.memops
          (none : Option (EnvOps Unit Unit)) (Cpu.init 0 0) openRegs insn 0xD5087800
          (⟨Mmu.init, onePageTables 0 0⟩, ()) =
        some ((.ok, { Cpu.init 0 0 with regs := (Cpu.init 0 0).regs.advancePc },
          openRegs.set .parEl1 1), (w', ())) ∧
      (translate openRegs Memory.memops ⟨Mmu.init, onePageTables 0 0⟩ 0 .el1 false
        false).1.toOption = none ∧
      sysregRead (Cpu.init 0 0).regs.advancePc (openRegs.set .parEl1 1) selParEl1 = some 0 ∧
      ¬ Publishes 0 (translate openRegs Memory.memops ⟨Mmu.init, onePageTables 0 0⟩ 0 .el1 false
        false).1 := by
  have hdenied : (translate openRegs Memory.memops ⟨Mmu.init, onePageTables 0 0⟩ 0 .el1 false
      false).1.toOption = none := by decide +kernel
  have hpar : parOf (mmuTranslate openRegs Memory.memops ⟨Mmu.init, onePageTables 0 0⟩ 0 false
      false).1 = 1 := by decide +kernel
  obtain ⟨insn, hdec, hop, hrd, hact⟩ := decode_at (show AtWord 0xD5087800 by decide) 0
  have hrun : dispatchSystem (mmuMemops openRegs Memory.memops ⟨0, 0⟩) Memory.memops
      (none : Option (EnvOps Unit Unit)) (Cpu.init 0 0) openRegs insn 0xD5087800
      (⟨Mmu.init, onePageTables 0 0⟩, ()) = _ := dispatchSystem_at _ _ hop hact _ _
  rw [hrd, show parOf (mmuTranslate openRegs Memory.memops ⟨Mmu.init, onePageTables 0 0⟩
    (readG (Cpu.init 0 0).regs (fieldRd 0xD5087800) false .w64) (atWrite 0xD5087800) false).1 = 1
    from hpar] at hrun
  refine ⟨insn, _, hdec, hrun, hdenied, sysregRead_par _ rfl, ?_⟩
  rw [publishes_zero_iff]
  rintro ⟨pa, hok, -⟩
  rw [hok] at hdenied
  cases hdenied

/-- `AT S1E0R` of a page open to EL1 only stores an address that EL0 is refused -/
theorem at_s1e0r_kernelPage :
    AtWord 0xD5087840 ∧ atLevel 0xD5087840 = .el0 ∧
      parOf (mmuTranslate openRegs Memory.memops ⟨Mmu.init, onePageTables 0x03 0x54⟩ 0 false
        false).1 = 0x5000 ∧
      (translate openRegs Memory.memops ⟨Mmu.init, onePageTables 0x03 0x54⟩ 0 .el0 false
        false).1.toOption = none := by
  refine ⟨by decide, by decide, by decide +kernel, by decide +kernel⟩

end Oemu
