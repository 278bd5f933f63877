import Oemu.Mmu.Parity

/-!
# Memory attributes of `TCR_EL1` and translation

Two values of `TCR_EL1` that differ only in the cacheability and shareability fields, bits 8-13 and
24-29, should translate alike.  The layer reads top-byte-ignore for the low region at bit 24 and
the output size at bits 32:27, inside the fields of the high region, so they do exactly when those
two readings agree, or when the output size is never consulted: `translateAlike_iff`.
-/

namespace Oemu

def AttrOnly (t t' : W64) : Prop :=
  ∀ i < 64, t.getLsbD i ≠ t'.getLsbD i → (8 ≤ i ∧ i ≤ 13) ∨ (24 ≤ i ∧ i ≤ 29)

/-- a state of the layer some run leads to, with no edit awaiting its flush -/
def MmuReachable {σ : Type} (phys : Memops σ) (sr : Sysregs) (w : MmuWorld σ) : Prop :=
  ∃ sr₀ p₀ l, Lts.Run (MmuStep phys) (.init sr₀ p₀) l ⟨sr, w, false⟩

/-- every translation of every address, at every level and for every kind of access, over every
memory, is the same under the two values -/
def TranslateAlike (t t' : W64) : Prop :=
  ∀ (σ : Type) (phys : Memops σ), ReadPure phys → ∀ (sr : Sysregs) (w w' : MmuWorld σ),
    MmuReachable phys (sr.set .tcrEl1 t) w → MmuReachable phys (sr.set .tcrEl1 t') w' →
    w.phys = w'.phys → ∀ (va : W64) (isWrite isFetch : Bool),
      (mmuTranslate (sr.set .tcrEl1 t) phys w va isWrite isFetch).1 =
        (mmuTranslate (sr.set .tcrEl1 t') phys w' va isWrite isFetch).1

/-- can a walk of a region reach a table at all -/
def Walkable (t : W64) (ttbr1 : Bool) : Prop :=
  (16 ≤ regionTsz t ttbr1 ∧ regionTsz t ttbr1 ≤ 39) ∧ regionEpd t ttbr1 = false

/-! ## the fields the attribute bits leave alone -/

theorem AttrOnly.bit {t t' : W64} (h : AttrOnly t t') {i : Nat} (hi : i < 64)
    (h1 : ¬ (8 ≤ i ∧ i ≤ 13)) (h2 : ¬ (24 ≤ i ∧ i ≤ 29)) : t.getLsbD i = t'.getLsbD i := by
  by_contra hne
  rcases h i hi hne with h | h
  · exact h1 h
  · exact h2 h

theorem field_congr {t t' : W64} (s n : Nat)
    (h : ∀ i < n, t.getLsbD (s + i) = t'.getLsbD (s + i)) :
    (t.toNat >>> s) % 2 ^ n = (t'.toNat >>> s) % 2 ^ n := by
  have e : t.extractLsb' s n = t'.extractLsb' s n := by
    apply BitVec.eq_of_getLsbD_eq
    intro i hi
    simp [hi, h i hi]
  have := congrArg BitVec.toNat e
  simpa [BitVec.extractLsb'_toNat] using this

theorem AttrOnly.regionTsz {t t' : W64} (h : AttrOnly t t') (r : Bool) :
    regionTsz t r = regionTsz t' r := by
  have h0 : tcrT0sz t = tcrT0sz t' := by
    have := field_congr 0 6
      (fun i hi => h.bit (by omega) (by omega) (by omega))
    simpa [tcrT0sz] using this
  have h1 : tcrT1sz t = tcrT1sz t' :=
    field_congr 16 6 (fun i hi => h.bit (by omega) (by omega) (by omega))
  unfold Oemu.regionTsz
  rw [h0, h1]

theorem AttrOnly.regionEpd {t t' : W64} (h : AttrOnly t t') (r : Bool) :
    regionEpd t r = regionEpd t' r := by
  have h0 : tcrEpd0 t = tcrEpd0 t' := h.bit (by decide) (by decide) (by decide)
  have h1 : tcrEpd1 t = tcrEpd1 t' := h.bit (by decide) (by decide) (by decide)
  unfold Oemu.regionEpd
  rw [h0, h1]

theorem AttrOnly.tagged {t t' : W64} (h : AttrOnly t t') (hb : tcrTbi0 t = tcrTbi0 t') (va : W64) :
    tagged t va = tagged t' va := by
  have h1 : tcrTbi1 t = tcrTbi1 t' := h.bit (by decide) (by decide) (by decide)
  unfold Oemu.tagged
  rw [hb, h1]

theorem outBits_eq (t : W64) : outBits t = if tcrPs t = 0 then 32 else 36 := by
  unfold outBits paRangeId
  by_cases h0 : tcrPs t = 0
  · simp [h0, pamaxMap]
  · by_cases h1 : tcrPs t = 1
    · simp [h1, pamaxMap]
    · have h2 : 1 < tcrPs t := by omega
      simp [h0, h2, pamaxMap]

theorem startLevel_isSome {n : Nat} : (startLevel n).isSome ↔ 25 ≤ n ∧ n ≤ 48 := by
  unfold startLevel
  split <;> simp <;> omega

theorem regionTsz_lt (t : W64) (r : Bool) : regionTsz t r < 64 := by
  unfold regionTsz tcrT0sz tcrT1sz
  split <;> omega

theorem walkStage1_not_walkable {σ : Type} {sr : Sysregs} {va : W64}
    (h : ¬ Walkable (sr.val .tcrEl1) (useTtbr1 va)) (phys : Memops σ) (p : σ) :
    walkStage1 sr phys va p =
      (.error ⟨.translation,
        ((startLevel (64 - regionTsz (sr.val .tcrEl1) (useTtbr1 va))).getD 0 : Nat),
        walkVa (sr.val .tcrEl1) va⟩, p) := by
  unfold walkStage1
  dsimp only
  cases hs : startLevel (64 - regionTsz (sr.val .tcrEl1) (useTtbr1 va)) with
  | none => rfl
  | some level =>
    have hsz := startLevel_isSome.mp (by rw [hs]; rfl)
    have he : regionEpd (sr.val .tcrEl1) (useTtbr1 va) = true := by
      by_contra hne
      refine h ⟨⟨?_, ?_⟩, by simpa using hne⟩
      · omega
      · omega
    dsimp only
    split
    · rfl
    · rfl

theorem walkStage1_alike {σ : Type} {t t' : W64} (h : AttrOnly t t')
    (hb : tcrTbi0 t = tcrTbi0 t')
    (hp : (tcrPs t = 0 ↔ tcrPs t' = 0) ∨ ∀ r, ¬ Walkable t r)
    (sr : Sysregs) (phys : Memops σ) (va : W64) (p : σ) :
    walkStage1 (sr.set .tcrEl1 t) phys va p = walkStage1 (sr.set .tcrEl1 t') phys va p := by
  have hwv : walkVa t va = walkVa t' va := by
    unfold walkVa
    rw [h.tagged hb]
  rcases hp with hp | hp
  · have ho : outBits t = outBits t' := by
      rw [outBits_eq, outBits_eq]
      simp only [hp]
    have ht : ∀ r, regionTtbr (sr.set .tcrEl1 t) r = regionTtbr (sr.set .tcrEl1 t') r := by
      intro r
      unfold regionTtbr
      simp
    unfold walkStage1
    simp only [Sysregs.set_val_self, ht, ho, hwv, h.tagged hb, h.regionTsz, h.regionEpd]
  · have hp' : ∀ r, ¬ Walkable t' r := by
      intro r hr
      refine hp r ?_
      unfold Walkable at hr ⊢
      rwa [h.regionTsz, h.regionEpd]
    rw [walkStage1_not_walkable (by rw [Sysregs.set_val_self]; exact hp _),
      walkStage1_not_walkable (by rw [Sysregs.set_val_self]; exact hp' _)]
    simp only [Sysregs.set_val_self, h.regionTsz, hwv]

theorem MmuReachable.coherent {σ : Type} {phys : Memops σ} (hp : ReadPure phys) {sr : Sysregs}
    {w : MmuWorld σ} (h : MmuReachable phys sr w) : Coherent phys w := by
  obtain ⟨sr₀, p₀, l, hrun⟩ := h
  have hc := hrun.invariant (I := fun s => s.stale = false → Coherent phys s.world)
    (A := fun _ => True) (mmuStep_coherent hp) (fun _ _ => trivial)
    (fun _ => coherent_init phys p₀)
  exact hc rfl

/-! ## a memory that backs nothing tells the readings apart -/

/-- no region at all -/
def emptyMemory : Memory := ⟨[], 0, fun _ => 0⟩

theorem walkTable_unbacked (va : W64) (out rem : Nat) (base : W64) (tattrs : BitVec 5) :
    walkTable Memory.memops va out rem base tattrs emptyMemory =
      (.error ⟨.translationNoWalk, -1, va⟩, emptyMemory) := by
  cases rem <;> rfl

theorem walkStage1_unbacked (sr : Sysregs) (va : W64) :
    ∃ f, (walkStage1 sr Memory.memops va emptyMemory).1 = .error f ∧
      f.far = walkVa (sr.val .tcrEl1) va := by
  unfold walkStage1
  dsimp only
  split
  · exact ⟨_, rfl, rfl⟩
  · split
    · exact ⟨_, rfl, rfl⟩
    · split
      · exact ⟨_, rfl, rfl⟩
      · split
        · exact ⟨_, rfl, rfl⟩
        · rw [walkTable_unbacked]
          exact ⟨_, rfl, rfl⟩

/-- translation on at EL1, with both tables at `ttbr` -/
def probeRegs (ttbr : W64) : Sysregs where
  val
    | .sctlrEl1 => 1
    | .ttbr0El1 => ttbr
    | .ttbr1El1 => ttbr
    | .pstate => 0x3C5
    | _ => 0
  taken := []

/-- the answer of a fresh layer over the empty memory -/
theorem translate_probe (ttbr t va : W64) {f : WalkFault}
    (h : (walkStage1 ((probeRegs ttbr).set .tcrEl1 t) Memory.memops va emptyMemory).1 = .error f) :
    (mmuTranslate ((probeRegs ttbr).set .tcrEl1 t) Memory.memops ⟨Mmu.init, emptyMemory⟩ va false
      false).1 = .error (f.record .el1 false false) := by
  have hs := translate_spec readPure_memory (coherent_init Memory.memops emptyMemory)
    ((probeRegs ttbr).set .tcrEl1 t) va .el1 false false
  have e : ((probeRegs ttbr).set .tcrEl1 t).el = .el1 := by
    unfold Sysregs.el Sysregs.pstate
    rw [Sysregs.set_val_of_ne _ _ (by decide)]
    show pstateEl 0x3C5 = .el1
    decide
  unfold mmuTranslate
  rw [e, hs.1]
  unfold walk
  have hm : sctlrM (((probeRegs ttbr).set .tcrEl1 t).val .sctlrEl1) = true := by
    simp [probeRegs, sctlrM]
  simp only [hm]
  rcases hw : walkStage1 ((probeRegs ttbr).set .tcrEl1 t) Memory.memops va emptyMemory with ⟨r, p⟩
  rw [hw] at h
  dsimp only at h
  subst h
  rfl

theorem TranslateAlike.probe {t t' : W64} (h : TranslateAlike t t') (ttbr va : W64)
    {f f' : WalkFault}
    (hf : (walkStage1 ((probeRegs ttbr).set .tcrEl1 t) Memory.memops va emptyMemory).1 = .error f)
    (hf' : (walkStage1 ((probeRegs ttbr).set .tcrEl1 t') Memory.memops va emptyMemory).1
      = .error f') :
    f.record .el1 false false = f'.record .el1 false false := by
  have := h Memory Memory.memops readPure_memory (probeRegs ttbr) ⟨Mmu.init, emptyMemory⟩
    ⟨Mmu.init, emptyMemory⟩ ⟨_, _, _, .nil _⟩ ⟨_, _, _, .nil _⟩ rfl va false false
  rw [translate_probe ttbr t va hf, translate_probe ttbr t' va hf'] at this
  simpa using this

/-- the tag bit shows in the fault address of a tagged pointer -/
theorem TranslateAlike.tbi0 {t t' : W64} (h : TranslateAlike t t') : tcrTbi0 t = tcrTbi0 t' := by
  obtain ⟨f, hf, hfar⟩ := walkStage1_unbacked ((probeRegs 0).set .tcrEl1 t) ((1 : W64) <<< 56)
  obtain ⟨f', hf', hfar'⟩ := walkStage1_unbacked ((probeRegs 0).set .tcrEl1 t') ((1 : W64) <<< 56)
  have hr := congrArg MmuFault.far (h.probe 0 _ hf hf')
  simp only [WalkFault.record, hfar, hfar', Sysregs.set_val_self] at hr
  have hu : useTtbr1 ((1 : W64) <<< 56) = false := by decide
  have hs : stripTag ((1 : W64) <<< 56) = 0 := by decide
  have hne : (1 : W64) <<< 56 ≠ 0 := by decide
  simp only [walkVa, tagged, hu, hs, if_false, Bool.false_eq_true] at hr
  cases ht : tcrTbi0 t <;> cases ht' : tcrTbi0 t' <;> simp_all

/-- an address in the middle of a region, whatever its size -/
def probeVa (r : Bool) : W64 := if r then BitVec.allOnes 64 else 0

theorem useTtbr1_probeVa (r : Bool) : useTtbr1 (probeVa r) = r := by
  cases r <;> decide

theorem getLsbD_probeVa (r : Bool) {i : Nat} (hi : i < 64) : (probeVa r).getLsbD i = r := by
  unfold probeVa
  cases r with
  | false => simp
  | true => rw [if_pos rfl, BitVec.getLsbD_allOnes, decide_eq_true hi]

theorem regionOk_probeVa (t : W64) (r : Bool) {n : Nat} (hn : 25 ≤ n) :
    regionOk (walkVa t (probeVa r)) n (addrSize (tagged t (probeVa r))) r = true := by
  rw [regionOk_iff _ (by omega) (by unfold addrSize; split <;> omega)]
  intro i h1 h2
  cases ht : tagged t (probeVa r) with
  | false =>
    have e : walkVa t (probeVa r) = probeVa r := by
      unfold walkVa
      rw [ht]
      rfl
    rw [ht] at h2
    rw [e, getLsbD_probeVa r h2]
  | true =>
    have e : walkVa t (probeVa r) = stripTag (probeVa r) := by
      unfold walkVa
      rw [ht]
      rfl
    rw [ht] at h2
    have h56 : i < 56 := h2
    rw [e, getLsbD_stripTag _ (by omega), getLsbD_probeVa r (by omega)]
    simp [h56]

/-- the fault of a walk whose table base has bit 33 set: the output size decides it -/
theorem walkStage1_probe {t : W64} {r : Bool} (hw : Walkable t r) :
    (walkStage1 ((probeRegs ((1 : W64) <<< 33)).set .tcrEl1 t) Memory.memops (probeVa r)
        emptyMemory).1 =
      .error ⟨if tcrPs t = 0 then .addressSize else .translationNoWalk, -1,
        walkVa t (probeVa r)⟩ := by
  obtain ⟨⟨h1, h2⟩, hepd⟩ := hw
  have hlt := regionTsz_lt t r
  obtain ⟨level, hl⟩ : ∃ level, startLevel (64 - regionTsz t r) = some level :=
    Option.isSome_iff_exists.mp (startLevel_isSome.mpr (by omega))
  have hok := regionOk_probeVa t r (n := 64 - regionTsz t r) (by omega)
  have hbase : ttbrBase (regionTtbr ((probeRegs ((1 : W64) <<< 33)).set .tcrEl1 t) r) =
      (1 : W64) <<< 33 := by
    cases r <;> simp [regionTtbr, probeRegs] <;> decide
  unfold walkStage1
  simp only [Sysregs.set_val_self, useTtbr1_probeVa, hl, hok, hepd, hbase, outBits_eq]
  by_cases h0 : tcrPs t = 0
  · simp only [h0, if_true]
    rfl
  · simp only [h0, if_false]
    have e : (((1 : W64) <<< 33) >>> 36 ≠ 0) = False := by decide
    simp only [e, if_false, walkTable_unbacked, Bool.not_true, Bool.false_eq_true]

/-- the output size shows in the fault of a table base above 32 bits -/
theorem TranslateAlike.ps {t t' : W64} (ha : AttrOnly t t') (h : TranslateAlike t t') {r : Bool}
    (hw : Walkable t r) : tcrPs t = 0 ↔ tcrPs t' = 0 := by
  have hw' : Walkable t' r := by
    unfold Walkable at hw ⊢
    rwa [← ha.regionTsz, ← ha.regionEpd]
  have hr := congrArg MmuFault.esr (h.probe _ _ (walkStage1_probe hw) (walkStage1_probe hw'))
  simp only [WalkFault.record] at hr
  have hne : composeEsr .el1 false false .addressSize (-1) ≠
      composeEsr .el1 false false .translationNoWalk (-1) := by decide
  by_cases h0 : tcrPs t = 0 <;> by_cases h0' : tcrPs t' = 0
  · simp [h0, h0']
  · simp only [h0, h0', if_true, if_false] at hr
    exact absurd hr hne
  · simp only [h0, h0', if_true, if_false] at hr
    exact absurd hr.symm hne
  · simp [h0, h0']

/-! ## when attributes do not interfere -/

/-- **two values that differ in attributes only translate alike exactly when the bit read as
top-byte-ignore is the same and, unless no region can be walked, the field read as the output size
is zero in both or in neither** -/
theorem translateAlike_iff (t t' : W64) (h : AttrOnly t t') :
    TranslateAlike t t' ↔
      tcrTbi0 t = tcrTbi0 t' ∧ ((tcrPs t = 0 ↔ tcrPs t' = 0) ∨ ∀ r, ¬ Walkable t r) := by
  constructor
  · intro ha
    refine ⟨ha.tbi0, ?_⟩
    by_cases hw : ∃ r, Walkable t r
    · obtain ⟨r, hr⟩ := hw
      exact .inl (ha.ps h hr)
    · exact .inr (not_exists.mp hw)
  · rintro ⟨hb, hp⟩ σ phys hpure sr w w' hw hw' hphys va iw ifx
    have h1 := (translate_spec hpure (hw.coherent hpure) (sr.set .tcrEl1 t) va sr.el iw ifx).1
    have h2 := (translate_spec hpure (hw'.coherent hpure) (sr.set .tcrEl1 t') va sr.el iw ifx).1
    have e : ∀ v, (sr.set .tcrEl1 v).el = sr.el := by
      intro v
      unfold Sysregs.el Sysregs.pstate
      simp
    unfold mmuTranslate
    rw [e, e, h1, h2, hphys]
    have hwv : walkVa t va = walkVa t' va := by
      unfold walkVa
      rw [h.tagged hb]
    unfold walk
    simp only [walkStage1_alike h hb hp]
    simp [hwv]

theorem translateAlike_iff_sh0 :
    AttrOnly 0x19 0x3F19 ∧ TranslateAlike 0x19 0x3F19 := by
  have ha : AttrOnly 0x19 0x3F19 := by
    intro i hi
    revert i
    decide
  refine ⟨ha, (translateAlike_iff 0x19 0x3F19 ha).mpr ⟨by decide, .inl (by decide)⟩⟩

/-- inner cacheability of the high region, bit 24, changes what a tagged pointer reports -/
theorem translateAlike_irgn1 : AttrOnly 0x19 0x1000019 ∧ ¬ TranslateAlike 0x19 0x1000019 := by
  refine ⟨?_, ?_⟩
  · intro i hi
    revert i
    decide
  · intro h
    exact absurd h.tbi0 (by decide)

end Oemu
