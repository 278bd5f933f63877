import Oemu.Mmu.Integrity
import Oemu.Mmu.Twin

/-!
# Memory out of the sight of EL0

`UserVisible` are the bytes in the pages the tables grant EL0 for any access, and those of the
descriptors a walk reads.  Two worlds whose RAM differs elsewhere only are related for good: the
translated bus answers EL0 alike in both.

* `Confined.still`     a translation over fenced tables changes nothing below the cache;
* `indistinct_twin`    the translated bus at EL0 cannot tell such worlds apart.
-/

namespace Oemu

variable {σ δ : Type}

/-! ## walks that leave the bus as it is -/

section

variable {phys : Memops σ} {p : σ}

theorem walkTable_still (va : W64) (out rem : Nat) : ∀ (base : W64) (tattrs : BitVec 5),
    (∀ a ∈ tableReads phys va out rem base p, (phys.read p a .dword false).2.2 = p) →
      (walkTable phys va out rem base tattrs p).2 = p := by
  induction rem with
  | zero =>
    intro base tattrs h
    have hq := h (base ||| tableIndex va 3) (by simp [tableReads])
    unfold walkTable
    rcases hr : phys.read p (base ||| tableIndex va 3) .dword false with ⟨st, raw, q⟩
    rw [hr] at hq
    cases st <;> exact hq
  | succ rem ih =>
    intro base tattrs h
    have hq := h (base ||| tableIndex va (2 - rem)) (by simp [tableReads])
    unfold tableReads at h
    unfold walkTable
    dsimp only at h ⊢
    rcases hr : phys.read p (base ||| tableIndex va (2 - rem)) .dword false with ⟨st, raw, q⟩
    rw [hr] at h hq
    dsimp only at h hq
    subst hq
    cases st <;> try rfl
    dsimp only at h ⊢
    by_cases ht : (decodeDesc raw).table = true
    · by_cases ho : (decodeDesc raw).address >>> out = 0
      · rw [if_pos ⟨ht, ho⟩] at h
        rw [if_pos ht, if_neg (not_not_intro ho)]
        exact ih _ _ fun a ha => h a (List.mem_cons_of_mem _ ha)
      · rw [if_pos ht, if_pos ho]
    · rw [if_neg ht]

theorem walkStage1_still {sr : Sysregs} {va : W64}
    (h : ∀ a ∈ walkReads sr phys va p, (phys.read p a .dword false).2.2 = p) :
    (walkStage1 sr phys va p).2 = p := by
  unfold walkReads at h
  unfold walkStage1
  dsimp only at h ⊢
  cases hs : startLevel (64 - regionTsz (sr.val .tcrEl1) (useTtbr1 va)) with
  | none => rfl
  | some level =>
    rw [hs] at h
    dsimp only at h ⊢
    split
    · rfl
    · split
      · rfl
      · split
        · rfl
        · rename_i h1 h2 h3
          rw [if_pos ⟨by simpa using h1, h2, not_not.mp h3⟩] at h
          exact walkTable_still _ _ _ _ _ h

theorem translate_still {sr : Sysregs} {va : W64} {m : Mmu}
    (h : ∀ a ∈ walkReads sr phys va p, (phys.read p a .dword false).2.2 = p) (cur : El)
    (isWrite isFetch : Bool) : (translate sr phys ⟨m, p⟩ va cur isWrite isFetch).2.phys = p := by
  have hwalk : (walk sr phys va cur isWrite isFetch p).2 = p := by
    have hs := walkStage1_still h
    unfold walk
    split
    · rfl
    · split
      · rfl
      · rcases hr : walkStage1 sr phys va p with ⟨r, q⟩
        rw [hr] at hs
        cases r <;> exact hs
  have hmiss : ∀ m' : Mmu, (translateMiss sr phys ⟨m', p⟩ va cur isWrite isFetch).2.phys = p := by
    intro m'
    unfold translateMiss
    dsimp only
    rcases hr : walk sr phys va cur isWrite isFetch p with ⟨r, q⟩
    rw [hr] at hwalk
    cases r <;> exact hwalk
  rw [translate_eq]
  split
  · dsimp only
    cases (epochCheck m sr).line (walkVa (sr.val .tcrEl1) va) with
    | some l => rfl
    | none => exact hmiss _
  · exact hmiss _

end

/-! ## accesses to two address spaces -/

namespace Aspace

variable {W : Nat → Prop} {as as' : Aspace δ}

theorem Fenced.still {a : W64} (hf : Fenced W as a) : (as.read a .dword false).2.2 = as := by
  cases hr : as.find a (BitVec.ofNat 64 MemSize.dword.bytes) permRead with
  | none =>
    unfold Aspace.read
    rw [hr]
  | some r =>
    obtain ⟨-, hm, -, hcov⟩ := (find_iff hf.ok _ _ _ _).mp hr
    have hcov : r.span.Covers a.toNat 8 := hcov
    obtain ⟨host, owned, hb⟩ := hf.off r hm (hcov.sub (Nat.le_refl _) (by omega))
    rw [read_view hf.ok hr hb]

theorem AgreeOff.load (h : AgreeOff W as as') (hok : as.Ok) (hd : as'.dev = as.dev) {pa : W64}
    {n : MemSize} (hW : ∀ i < n.bytes, ¬ W (pa.toNat + i)) (sx : Bool) :
    (as.read pa n sx).1 = (as'.read pa n sx).1 ∧
      (as.read pa n sx).2.1 = (as'.read pa n sx).2.1 ∧
        (as'.read pa n sx).2.2.dev = (as.read pa n sx).2.2.dev := by
  have hfind := h.find pa (BitVec.ofNat 64 n.bytes) permRead
  cases hr : as.find pa (BitVec.ofNat 64 n.bytes) permRead with
  | none =>
    unfold Aspace.read
    rw [hfind, hr]
    exact ⟨rfl, rfl, hd⟩
  | some r =>
    rw [hr] at hfind
    cases hb : r.backing with
    | ram host owned =>
      rw [read_view hok hr hb, read_view (h.ok hok) hfind hb,
        disassemble_congr fun i hi => (h.view _ (hW i hi)).symm]
      exact ⟨rfl, rfl, hd⟩
    | device ops =>
      unfold Aspace.read
      rw [hfind, hr]
      dsimp only
      rw [hb]
      dsimp only
      split
      · exact ⟨rfl, rfl, hd⟩
      · rw [hd]
        rcases ops.read as.dev (pa - r.pa) n with ⟨st, value, dev⟩
        cases st <;> exact ⟨rfl, rfl, rfl⟩

theorem AgreeOff.store (h : AgreeOff W as as') (hs : as.Separate) (hd : as'.dev = as.dev)
    (pa : W64) (n : MemSize) (value : W64) :
    (as.write pa n value).1 = (as'.write pa n value).1 ∧
      AgreeOff W (as.write pa n value).2 (as'.write pa n value).2 ∧
        (as'.write pa n value).2.dev = (as.write pa n value).2.dev := by
  have hs' := h.separate hs
  have hfind := h.find pa (BitVec.ofNat 64 n.bytes) permWrite
  have hst : (as.write pa n value).1 = (as'.write pa n value).1 ∧
      (as'.write pa n value).2.dev = (as.write pa n value).2.dev := by
    unfold Aspace.write
    rw [hfind, hd]
    cases as.find pa (BitVec.ofNat 64 n.bytes) permWrite with
    | none => exact ⟨rfl, hd⟩
    | some r =>
      dsimp only
      rcases r.backing with ⟨host, owned⟩ | ops
      · exact ⟨rfl, rfl⟩
      · dsimp only
        split
        · exact ⟨rfl, hd⟩
        · exact ⟨rfl, rfl⟩
  refine ⟨hst.1, ⟨?_, ?_, ?_⟩, hst.2⟩
  · rw [write_regions, write_regions]
    exact h.regions
  · rw [(as.write_table pa n value).2, (as'.write_table pa n value).2]
    exact h.capacity
  · intro x hx
    have hram : as'.OnRam pa.toNat ↔ as.OnRam pa.toNat := by
      unfold OnRam
      rw [h.regions]
    by_cases hw : (as.write pa n value).1 = .ok ∧ as.OnRam pa.toNat
    · rw [write_view hs hw.1 hw.2, write_view hs' (hst.1.symm.trans hw.1) (hram.mpr hw.2)]
      unfold assemble
      rw [h.view x hx]
    · rw [write_elsewhere hs pa value n hw,
        write_elsewhere hs' pa value n (by rw [← hst.1, hram]; exact hw)]
      exact h.view x hx

theorem AgreeOff.fetch (h : AgreeOff W as as') (hok : as.Ok) {pa : W64}
    (hW : pa.toNat % 4 = 0 → ∀ i < 4, ¬ W (pa.toNat + i)) : as.fetch32 pa = as'.fetch32 pa := by
  unfold Aspace.fetch32
  rw [h.find]
  by_cases ha : pa.toNat % 4 = 0
  · rw [if_neg (not_not_intro ha), if_neg (not_not_intro ha)]
    cases hr : as.find pa 4 permExec with
    | none => rfl
    | some r =>
      dsimp only
      cases hb : r.backing with
      | device ops => rfl
      | ram host owned =>
        obtain ⟨-, hm, -, hcov⟩ := (find_iff hok _ _ _ _).mp hr
        have hcov : r.span.Covers pa.toNat 4 := hcov
        have hle : r.pa.toNat ≤ pa.toNat := hcov.1
        have hbytes : ∀ i < 4, as.heap (host + (pa - r.pa).toNat + i) =
            as'.heap (host + (pa - r.pa).toNat + i) := by
          intro i hi
          have hv := h.view (pa.toNat + i) (hW ha i hi)
          have hci := hcov.sub (show pa.toNat ≤ pa.toNat + i by omega)
            (show pa.toNat + i + 1 ≤ pa.toNat + 4 by omega)
          rw [view_at hok hm hb hci, view_at (h.ok hok) (h.regions ▸ hm) hb hci] at hv
          rw [BitVec.toNat_sub_of_le hle]
          rw [show host + (pa.toNat - r.pa.toNat) + i = host + (pa.toNat + i - r.pa.toNat) by omega]
          exact hv.symm
        dsimp only
        rw [disassemble_congr hbytes]
  · rw [if_pos ha, if_pos ha]

end Aspace

/-! ## what EL0 sees -/

/-- the bytes in the pages the tables grant EL0 for some access -/
def UserPage (sr : Sysregs) (as : Aspace δ) (x : Nat) : Prop :=
  ∃ va pa isWrite isFetch,
    (walk sr Aspace.memops va .el0 isWrite isFetch as).1.answer .el0 isWrite isFetch = .ok pa ∧
      x / 4096 = pa.toNat / 4096

/-- and the bytes of the descriptors that decide it -/
def UserVisible (sr : Sysregs) (as : Aspace δ) (x : Nat) : Prop :=
  UserPage sr as x ∨
    ∃ va, ∃ a ∈ walkReads sr Aspace.memops va as, a.toNat ≤ x ∧ x < a.toNat + 8

/-- two worlds EL0 has come to, the one from the physical state `as`: one cache, the same devices,
and the same RAM as far as EL0 sees it -/
structure Indistinct (sr : Sysregs) (as : Aspace δ) (w w' : MmuWorld (Aspace δ)) : Prop where
  mmu : w'.mmu = w.mmu
  dev : w'.phys.dev = w.phys.dev
  agree : Aspace.AgreeOff (fun x => ¬ UserVisible sr as x) w.phys w'.phys
  confined : Confined sr as w

variable {sr : Sysregs} {as : Aspace δ} {w w' : MmuWorld (Aspace δ)}

theorem Confined.reads (hf : TablesFenced sr as) (h : Confined sr as w) (va : W64) :
    walkReads sr Aspace.memops va as = walkReads sr Aspace.memops va w.phys :=
  (walkStage1_sameTables (Aspace.sameTables _) sr va h.agree (hf va)).2

theorem Confined.visible (hf : TablesFenced sr as) (h : Confined sr as w) (va : W64) :
    ∀ a ∈ walkReads sr Aspace.memops va w.phys,
      Aspace.Fenced (fun x => ¬ UserVisible sr as x) w.phys a := by
  intro a ha
  rw [← h.reads hf va] at ha
  have hfe := hf va a ha
  refine Aspace.Fenced.congr h.agree ⟨hfe.ok, hfe.off, ?_⟩
  intro i hi hout
  exact hout (.inr ⟨va, a, ha, by omega, by omega⟩)

namespace Indistinct

theorem walk (hf : TablesFenced sr as) (h : Indistinct sr as w w') (va : W64) (cur : El)
    (isWrite isFetch : Bool) :
    (Oemu.walk sr Aspace.memops va cur isWrite isFetch w.phys).1 =
      (Oemu.walk sr Aspace.memops va cur isWrite isFetch w'.phys).1 :=
  walk_sameTables (Aspace.sameTables _) h.agree (h.confined.visible hf va) cur isWrite isFetch

theorem still (hf : TablesFenced sr as) (h : Indistinct sr as w w') (va : W64) (cur : El)
    (isWrite isFetch : Bool) :
    (Oemu.translate sr Aspace.memops w va cur isWrite isFetch).2.phys = w.phys ∧
      (Oemu.translate sr Aspace.memops w' va cur isWrite isFetch).2.phys = w'.phys := by
  have hv := h.confined.visible hf va
  have hreads := (walkStage1_sameTables (Aspace.sameTables _) sr va h.agree hv).2
  refine ⟨translate_still (m := w.mmu) (fun a ha => (hv a ha).still) cur isWrite isFetch, ?_⟩
  refine translate_still (m := w'.mmu) (fun a ha => ?_) cur isWrite isFetch
  rw [← hreads] at ha
  exact ((hv a ha).congr h.agree).still

theorem translate (hf : TablesFenced sr as) (h : Indistinct sr as w w') (va : W64) (cur : El)
    (isWrite isFetch : Bool) :
    Txn.Alike (Indistinct sr as) (Oemu.translate sr Aspace.memops w va cur isWrite isFetch)
      (Oemu.translate sr Aspace.memops w' va cur isWrite isFetch) := by
  obtain ⟨h1, h2⟩ := translate_sameTables (m := w.mmu) (h.walk hf va cur isWrite isFetch)
  obtain ⟨hq, hq'⟩ := h.still hf va cur isWrite isFetch
  have hw' : (⟨w.mmu, w'.phys⟩ : MmuWorld (Aspace δ)) = w' := by rw [← h.mmu]
  rw [hw'] at h1 h2
  refine ⟨h1, h2.symm, ?_, ?_, (h.confined.translate hf va cur isWrite isFetch).2⟩
  · rw [hq, hq']
    exact h.dev
  · rw [hq, hq']
    exact h.agree

theorem answer (hf : TablesFenced sr as) (h : Indistinct sr as w w') {va pa : W64}
    {isWrite isFetch : Bool} (hg : Granted sr w.mmu .el0 isWrite isFetch va pa) :
    (Oemu.walk sr Aspace.memops va .el0 isWrite isFetch as).1.answer .el0 isWrite isFetch = .ok pa :=
  (h.confined.translate hf va .el0 isWrite isFetch).1.symm.trans (hg.translate _ w).1

/-- the bytes of an aligned access EL0 is granted are bytes it sees -/
theorem visible (hf : TablesFenced sr as) (h : Indistinct sr as w w') {va pa : W64} {k : Nat}
    {isWrite isFetch : Bool} (hk : k ∣ 4096) (hal : pa.toNat % k = 0)
    (hg : Granted sr w.mmu .el0 isWrite isFetch va pa) :
    ∀ i < k, UserVisible sr as (pa.toNat + i) := by
  intro i hi
  refine .inl ⟨va, pa, isWrite, isFetch, h.answer hf hg, ?_⟩
  obtain ⟨m, hm⟩ := hk
  obtain ⟨j, hj⟩ := Nat.dvd_of_mod_eq_zero hal
  have hpage : ∀ x, x / k / m = x / 4096 := fun x => by rw [Nat.div_div_eq_div_mul, hm]
  have hsame : (k * j + i) / k = j := by
    rw [Nat.mul_add_div (by omega), Nat.div_eq_of_lt hi, Nat.add_zero]
  rw [← hpage, ← hpage, hj, hsame, Nat.mul_div_cancel_left j (by omega)]

theorem aligned (hf : TablesFenced sr as) (h : Indistinct sr as w w') {va pa : W64} {n : MemSize}
    {isWrite isFetch : Bool} (hal : misaligned va n = false)
    (hg : Granted sr w.mmu .el0 isWrite isFetch va pa) : pa.toNat % n.bytes = 0 := by
  have hplace := walk_place (h.answer hf hg)
  have hva : va.toNat % n.bytes = 0 := by
    by_contra hne
    rw [misaligned_iff.mpr hne] at hal
    cases hal
  rw [← Nat.mod_mod_of_dvd pa.toNat n.bytes_dvd_page, hplace, Nat.mod_mod_of_dvd _ n.bytes_dvd_page]
  exact hva

/-! ## the physical bus -/

theorem validate (h : Indistinct sr as w w') (a n : W64) (perms : W32) :
    w'.phys.validate a n perms = w.phys.validate a n perms := by
  unfold Aspace.validate
  rw [h.agree.find]

theorem read (hs : as.Separate) (hf : TablesFenced sr as) (h : Indistinct sr as w w') {va pa : W64}
    {n : MemSize} (hal : misaligned va n = false) (hg : Granted sr w.mmu .el0 false false va pa) :
    (w.phys.read pa n false).1 = (w'.phys.read pa n false).1 ∧
      (w.phys.read pa n false).2.1 = (w'.phys.read pa n false).2.1 ∧
        Indistinct sr as ⟨w.mmu, (w.phys.read pa n false).2.2⟩
          ⟨w'.mmu, (w'.phys.read pa n false).2.2⟩ := by
  have hsep := h.confined.agree.separate hs
  have hin : ∀ i < n.bytes, ¬ ¬ UserVisible sr as (pa.toNat + i) := fun i hi hout =>
    hout (h.visible hf n.bytes_dvd_page (h.aligned hf hal hg) hg i hi)
  obtain ⟨h1, h2, h3⟩ := h.agree.load hsep.ok h.dev hin false
  refine ⟨h1, h2, h.mmu, h3, ?_, worldStep_confined hs hf h.confined (.probe _ (.read pa n false))⟩
  exact ((Aspace.AgreeOff.read _ _ _ _).symm.trans h.agree).trans (.read _ _ _ _)

theorem write (hs : as.Separate) (hf : TablesFenced sr as) (h : Indistinct sr as w w') {va pa : W64}
    {n : MemSize} (value : W64) (hal : misaligned va n = false)
    (hg : Granted sr w.mmu .el0 true false va pa) :
    (w.phys.write pa n value).1 = (w'.phys.write pa n value).1 ∧
      Indistinct sr as ⟨w.mmu, (w.phys.write pa n value).2⟩
        ⟨w'.mmu, (w'.phys.write pa n value).2⟩ := by
  obtain ⟨h1, h2, h3⟩ := h.agree.store (h.confined.agree.separate hs) h.dev pa n value
  refine ⟨h1, h.mmu, h3, h2, ?_⟩
  exact worldStep_confined hs hf h.confined (.write va pa n value hal (hg.translate _ w).1)

theorem fetch (hs : as.Separate) (hf : TablesFenced sr as) (h : Indistinct sr as w w') {va pa : W64}
    (hg : Granted sr w.mmu .el0 false true va pa) : w.phys.fetch32 pa = w'.phys.fetch32 pa :=
  h.agree.fetch (h.confined.agree.separate hs).ok fun hal i hi hout =>
    hout (h.visible hf (by decide) hal hg i hi)

end Indistinct

/-- **the translated bus at EL0 cannot tell them apart** -/
theorem indistinct_twin (hs : as.Separate) (hf : TablesFenced sr as) :
    Twin sr Aspace.memops Aspace.memops .el0 (Indistinct (δ := δ) sr as) where
  mmu h := h.mmu
  pend h f := ⟨by simp [MmuWorld.pend, h.mmu], h.dev, h.agree,
    worldStep_confined hs hf h.confined (.pend f)⟩
  take h := ⟨by simp [h.mmu], h.dev, h.agree, worldStep_confined hs hf h.confined .take⟩
  flush h := ⟨by simp [h.mmu], h.dev, h.agree, worldStep_confined hs hf h.confined .flush⟩
  translate h va isWrite isFetch := h.translate hf va .el0 isWrite isFetch
  validate h a n perms :=
    .of_iff (iff_of_eq (congrArg (· = Status.ok) (h.validate a n perms).symm)) h h
  read h va pa n hal _ hg := by
    obtain ⟨h1, h2, h3⟩ := h.read hs hf hal hg
    exact .of_iff (iff_of_eq (congrArg (· = Status.ok) h1)) ⟨h2, h3⟩ h3
  write h va pa n value hal _ hg := by
    obtain ⟨h1, h2⟩ := h.write hs hf value hal hg
    exact .of_iff (iff_of_eq (congrArg (· = Status.ok) h1)) h2 h2
  fetch32 h va pa hg := by
    have hfetch := h.fetch hs hf hg
    refine .of_iff (iff_of_eq (congrArg (·.1 = Status.ok) hfetch)) ⟨?_, h⟩ h
    exact congrArg (·.2) hfetch

/-! ## the registers that matter -/

theorem UserVisible.congr {sr' : Sysregs} (he : tlbEpochRead sr' = tlbEpochRead sr) :
    UserVisible sr' as = UserVisible sr as := by
  funext x
  unfold UserVisible UserPage
  simp only [walk_congr_epoch he, walkReads_congr he]

theorem Indistinct.congr {sr' : Sysregs} (he : tlbEpochRead sr' = tlbEpochRead sr) :
    Indistinct sr' as = Indistinct sr as := by
  funext w w'
  apply propext
  constructor
  · intro h
    exact ⟨h.mmu, h.dev, by rw [← UserVisible.congr he]; exact h.agree, h.confined.congr he.symm⟩
  · intro h
    exact ⟨h.mmu, h.dev, by rw [UserVisible.congr he]; exact h.agree, h.confined.congr he⟩

end Oemu
