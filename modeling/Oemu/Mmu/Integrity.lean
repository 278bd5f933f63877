import Oemu.Mmu.SameTables
import Oemu.Mmu.RamBus
import Oemu.Aspace.View

/-!
# Memory out of the reach of EL0

Fix the control registers and let `UserWritable` be the bytes in the pages the tables grant EL0 to
write.  As long as the descriptors of every walk lie in RAM outside those pages, no operation EL0
makes through the translated bus changes a byte outside them: the tables keep their contents, so the
set of pages stays as it was, and the cache goes on answering from the tables.

* `worldStep_confined`   one step of the translation layer at EL0;
* `Confined.reach`       any number of them.
-/

namespace Oemu

variable {δ : Type}

namespace Aspace

/-! ## agreement outside a set of addresses -/

/-- one region table, and the same bytes of RAM outside `W` -/
structure AgreeOff (W : Nat → Prop) (as as' : Aspace δ) : Prop where
  regions : as'.regions = as.regions
  capacity : as'.capacity = as.capacity
  view : ∀ x, ¬ W x → as'.view x = as.view x

variable {W : Nat → Prop} {as as' : Aspace δ}

theorem AgreeOff.refl (as : Aspace δ) : AgreeOff W as as := ⟨rfl, rfl, fun _ _ => rfl⟩

theorem AgreeOff.symm (h : AgreeOff W as as') : AgreeOff W as' as :=
  ⟨h.regions.symm, h.capacity.symm, fun x hx => (h.view x hx).symm⟩

theorem AgreeOff.trans {as'' : Aspace δ} (h : AgreeOff W as as') (h' : AgreeOff W as' as'') :
    AgreeOff W as as'' :=
  ⟨h'.regions.trans h.regions, h'.capacity.trans h.capacity,
    fun x hx => (h'.view x hx).trans (h.view x hx)⟩

theorem AgreeOff.of_ram (h : as'.ram = as.ram) : AgreeOff W as as' := by
  obtain ⟨hr, hrest⟩ := Prod.mk.inj h
  obtain ⟨hc, hh⟩ := Prod.mk.inj hrest
  refine ⟨hr, hc, fun x _ => ?_⟩
  unfold Aspace.view cell
  rw [hr, hh]

theorem AgreeOff.read (as : Aspace δ) (a : W64) (n : MemSize) (sx : Bool) :
    AgreeOff W as (as.read a n sx).2.2 := .of_ram (read_ram as a n sx)

theorem AgreeOff.ok (h : AgreeOff W as as') (hok : as.Ok) : as'.Ok := by
  unfold Ok
  rw [h.regions, h.capacity]
  exact hok

theorem AgreeOff.separate (h : AgreeOff W as as') (hs : as.Separate) : as'.Separate where
  ok := h.ok hs.ok
  buffers := by
    unfold NonAliased
    rw [h.regions]
    exact hs.buffers

theorem AgreeOff.find (h : AgreeOff W as as') (pa n : W64) (perms : W32) :
    as'.find pa n perms = as.find pa n perms := by
  unfold Aspace.find
  rw [h.regions]

/-- no device answers at an address -/
def OffDevice (as : Aspace δ) (x : Nat) : Prop :=
  ∀ r ∈ as.regions, r.span.Covers x 1 → ∃ host owned, r.backing = .ram host owned

/-- a descriptor address in RAM, or nowhere, and outside `W` -/
structure Fenced (W : Nat → Prop) (as : Aspace δ) (a : W64) : Prop where
  ok : as.Ok
  off : as.OffDevice a.toNat
  out : ∀ i < 8, ¬ W (a.toNat + i)

theorem Fenced.congr {V : Nat → Prop} {a : W64} (h : AgreeOff V as as') (hf : Fenced W as a) :
    Fenced W as' a where
  ok := h.ok hf.ok
  off := by
    unfold OffDevice
    rw [h.regions]
    exact hf.off
  out := hf.out

/-- a load from a RAM region is a load of the bytes seen there -/
theorem read_view (hok : as.Ok) {a : W64} {size : MemSize} {r : AspaceRegion δ}
    (hf : as.find a (BitVec.ofNat 64 size.bytes) permRead = some r) {host : Nat} {owned : Bool}
    (hb : r.backing = .ram host owned) (sx : Bool) :
    as.read a size sx =
      (.ok, extend (disassemble (fun i => as.view (a.toNat + i)) size.bytes) size.bytes sx, as) := by
  obtain ⟨-, hr, -, hcov⟩ := (find_iff hok _ _ _ _).mp hf
  rw [size.toNat_bytes] at hcov
  have hle : r.pa.toNat ≤ a.toNat := hcov.1
  unfold Aspace.read
  rw [hf]
  dsimp only
  rw [hb]
  dsimp only
  have hbytes : ∀ i < size.bytes, as.heap (host + (a - r.pa).toNat + i) = as.view (a.toNat + i) := by
    intro i hi
    rw [view_at hok hr hb (hcov.sub (show a.toNat ≤ a.toNat + i by omega) (by omega)),
      BitVec.toNat_sub_of_le hle]
    congr 1
    omega
  rw [disassemble_congr hbytes]

theorem Fenced.read (h : AgreeOff W as as') {a : W64} (hf : Fenced W as a) :
    (as.read a .dword false).1 = (as'.read a .dword false).1 ∧
      (as.read a .dword false).2.1 = (as'.read a .dword false).2.1 := by
  have hfind := h.find a (BitVec.ofNat 64 MemSize.dword.bytes) permRead
  cases hr : as.find a (BitVec.ofNat 64 MemSize.dword.bytes) permRead with
  | none =>
    unfold Aspace.read
    rw [hfind, hr]
    exact ⟨rfl, rfl⟩
  | some r =>
    obtain ⟨-, hm, -, hcov⟩ := (find_iff hf.ok _ _ _ _).mp hr
    have hcov : r.span.Covers a.toNat 8 := hcov
    obtain ⟨host, owned, hb⟩ := hf.off r hm (hcov.sub (Nat.le_refl _) (by omega))
    rw [hr] at hfind
    rw [read_view hf.ok hr hb, read_view (h.ok hf.ok) hfind hb]
    refine ⟨rfl, ?_⟩
    have hbytes : ∀ i < MemSize.dword.bytes, as.view (a.toNat + i) = as'.view (a.toNat + i) :=
      fun i hi => (h.view _ (hf.out i hi)).symm
    rw [disassemble_congr hbytes]

/-- states that agree outside `W` hold the same tables where those are fenced off -/
theorem sameTables (W : Nat → Prop) :
    SameTables (Aspace.memops : Memops (Aspace δ)) (AgreeOff W) (Fenced W) where
  refl := .refl
  trans _ _ _ h h' := h.trans h'
  read := .read
  symm _ _ h := h.symm
  stable _ _ _ h hf := hf.congr h
  status _ _ _ h hf := (hf.read h).1
  value _ _ _ h hf := (hf.read h).2

/-- a write that is refused or goes to a device changes no byte of RAM -/
theorem write_elsewhere (h : as.Separate) (pa value : W64) (size : MemSize)
    (hw : ¬ ((as.write pa size value).1 = .ok ∧ as.OnRam pa.toNat)) :
    (as.write pa size value).2.view = as.view := by
  have hregs := write_regions as pa size value
  funext x
  by_cases hst : (as.write pa size value).1 = .ok
  · have hram : ¬ as.OnRam pa.toNat := fun hram => hw ⟨hst, hram⟩
    obtain ⟨r, hf, ⟨host, owned, hb, -⟩ | ⟨ops, -, hheap⟩⟩ := write_ok hst
    · obtain ⟨-, hr, -, hcov⟩ := (find_iff h.ok _ _ _ _).mp hf
      rw [size.toNat_bytes] at hcov
      have hpos := size.bytes_pos
      exact absurd ⟨r, hr, hcov.sub (Nat.le_refl _) (by omega), host, owned, hb⟩ hram
    · unfold view cell
      rw [hregs, hheap]
  · have hr := call_failed (c := .write pa size value) hst
    have he : AgreeOff (fun _ => False) as (as.write pa size value).2 := .of_ram hr
    exact he.view x not_false

theorem write_off (h : as.Separate) (pa value : W64) (size : MemSize) {x : Nat}
    (hx : ¬ (pa.toNat ≤ x ∧ x < pa.toNat + size.bytes)) :
    (as.write pa size value).2.view x = as.view x := by
  by_cases hw : (as.write pa size value).1 = .ok ∧ as.OnRam pa.toNat
  · rw [write_view h hw.1 hw.2]
    exact if_neg hx
  · rw [write_elsewhere h pa value size hw]

theorem AgreeOff.write (h : as.Separate) {pa : W64} {size : MemSize}
    (hW : ∀ i < size.bytes, W (pa.toNat + i)) (value : W64) :
    AgreeOff W as (as.write pa size value).2 where
  regions := write_regions as pa size value
  capacity := (as.write_table pa size value).2
  view x hx := by
    refine write_off h pa value size ?_
    rintro ⟨hlo, hhi⟩
    have := hW (x - pa.toNat) (by omega)
    rw [Nat.add_sub_cancel' hlo] at this
    exact hx this

end Aspace

/-! ## what EL0 may write -/

/-- the bytes in the pages the tables grant EL0 to write -/
def UserWritable (sr : Sysregs) (as : Aspace δ) (x : Nat) : Prop :=
  ∃ va pa, (walk sr Aspace.memops va .el0 true false as).1.answer .el0 true false = .ok pa ∧
    x / 4096 = pa.toNat / 4096

/-- every descriptor of every walk lies outside them -/
def TablesFenced (sr : Sysregs) (as : Aspace δ) : Prop :=
  ∀ va, ∀ a ∈ walkReads sr Aspace.memops va as, Aspace.Fenced (UserWritable sr as) as a

/-- a world EL0 has come to from the physical state `as`: nothing changed outside the pages EL0 may
write, and the cache answers from the tables of `as` -/
structure Confined (sr : Sysregs) (as : Aspace δ) (w : MmuWorld (Aspace δ)) : Prop where
  agree : Aspace.AgreeOff (UserWritable sr as) as w.phys
  cache : Coherent Aspace.memops ⟨w.mmu, as⟩

variable {sr : Sysregs} {as : Aspace δ} {w w' : MmuWorld (Aspace δ)}

/-- an answered walk keeps the place in the page -/
theorem walk_place {va pa : W64} {cur : El} {isWrite isFetch : Bool}
    (h : (walk sr Aspace.memops va cur isWrite isFetch as).1.answer cur isWrite isFetch = .ok pa) :
    pa.toNat % 4096 = va.toNat % 4096 := by
  have hc := (coherent_init (Aspace.memops : Memops (Aspace δ)) as).translate_kept sr va cur
    isWrite isFetch
  refine translate_place (w := (⟨Mmu.init, as⟩ : MmuWorld (Aspace δ))) ?_ (hc.1.trans h)
  have hpaged : Mmu.Reached (Aspace.memops : Memops (Aspace δ)) Mmu.init := .init
  exact hpaged.paged

theorem Confined.walk (hf : TablesFenced sr as) (h : Confined sr as w) (va : W64) (cur : El)
    (isWrite isFetch : Bool) :
    (Oemu.walk sr Aspace.memops va cur isWrite isFetch w.phys).1 =
      (Oemu.walk sr Aspace.memops va cur isWrite isFetch as).1 :=
  (walk_sameTables (Aspace.sameTables _) h.agree (hf va) cur isWrite isFetch).symm

theorem Confined.translate (hf : TablesFenced sr as) (h : Confined sr as w) (va : W64) (cur : El)
    (isWrite isFetch : Bool) :
    (Oemu.translate sr Aspace.memops w va cur isWrite isFetch).1 =
        (Oemu.walk sr Aspace.memops va cur isWrite isFetch as).1.answer cur isWrite isFetch ∧
      Confined sr as (Oemu.translate sr Aspace.memops w va cur isWrite isFetch).2 := by
  obtain ⟨h1, h2⟩ := translate_sameTables (m := w.mmu) (h.walk hf va cur isWrite isFetch)
  obtain ⟨h3, h4⟩ := h.cache.translate_kept sr va cur isWrite isFetch
  refine ⟨h1.trans h3, ?_, ?_⟩
  · exact h.agree.trans ((Aspace.sameTables _).toReads.translate sr w va cur isWrite isFetch)
  · rw [show (Oemu.translate sr Aspace.memops w va cur isWrite isFetch).2.mmu = _ from h2]
    exact h4

/-- a granted write at EL0 lands in the pages EL0 may write -/
theorem Confined.granted (hf : TablesFenced sr as) (h : Confined sr as w) {va pa : W64}
    {n : MemSize} (hm : misaligned va n = false)
    (hg : (Oemu.translate sr Aspace.memops w va .el0 true false).1 = .ok pa) :
    ∀ i < n.bytes, UserWritable sr as (pa.toNat + i) := by
  intro i hi
  have hans := (h.translate hf va .el0 true false).1.symm.trans hg
  refine ⟨va, pa, hans, ?_⟩
  have hplace := walk_place hans
  have hmod : va.toNat % n.bytes = 0 := by
    by_contra hne
    rw [misaligned_iff.mpr hne] at hm
    cases hm
  cases n <;> simp only [MemSize.bytes, MemSize.log2] at hmod hi <;> omega

/-- the table of a cache that neither forgets its epoch nor gains a line -/
theorem Coherent.of_tlb {phys : Memops (Aspace δ)} {m m' : Mmu} (h : Coherent phys ⟨m, as⟩)
    (ht : m'.tlb = m.tlb) (hv : m'.epochValid = m.epochValid) (he : m'.epoch = m.epoch) :
    Coherent phys ⟨m', as⟩ where
  memo hv' sr' he' := by
    rw [lines_congr ht]
    exact h.memo (hv ▸ hv') sr' (he ▸ he')
  fresh hv' := by
    rw [lines_congr ht]
    exact h.fresh (hv ▸ hv')

/-- **one step of the translation layer at EL0** leaves everything outside the pages EL0 may write -/
theorem worldStep_confined (hs : as.Separate) (hf : TablesFenced sr as) (h : Confined sr as w)
    (hstep : WorldStep sr Aspace.memops .el0 w w') : Confined sr as w' := by
  cases hstep with
  | probe p hp =>
    refine ⟨h.agree.trans ?_, h.cache⟩
    cases hp with
    | read a n sx => exact .read _ a n sx
    | validate => exact .refl _
    | fetch32 => exact .refl _
  | translate va isWrite isFetch => exact (h.translate hf va .el0 isWrite isFetch).2
  | pend f => exact ⟨h.agree, h.cache.of_tlb rfl rfl rfl⟩
  | take =>
    refine ⟨h.agree, ?_⟩
    unfold Mmu.takeFault
    split
    · exact h.cache.of_tlb rfl rfl rfl
    · exact h.cache
  | flush => exact ⟨h.agree, coherent_flush _ _ _⟩
  | write va pa n value hm hg =>
    refine ⟨h.agree.trans ?_, h.cache⟩
    exact .write (h.agree.separate hs) (h.granted hf hm hg) value

/-- **any number of them** -/
theorem Confined.reach (hs : as.Separate) (hf : TablesFenced sr as) (h : Confined sr as w)
    (hr : Reach sr Aspace.memops .el0 w w') : Confined sr as w' := by
  induction hr with
  | refl => exact h
  | tail _ hstep ih => exact worldStep_confined hs hf ih hstep

/-! ## the registers that matter -/

theorem walk_congr_epoch {sr' : Sysregs} (he : tlbEpochRead sr' = tlbEpochRead sr)
    (phys : Memops (Aspace δ)) (va : W64) (cur : El) (isWrite isFetch : Bool) (p : Aspace δ) :
    walk sr' phys va cur isWrite isFetch p = walk sr phys va cur isWrite isFetch p := by
  have hsctlr : sr'.val .sctlrEl1 = sr.val .sctlrEl1 := congrArg Epoch.sctlr he
  have htcr : sr'.val .tcrEl1 = sr.val .tcrEl1 := congrArg Epoch.tcr he
  unfold walk
  rw [hsctlr, htcr, walkStage1_congr he]

theorem UserWritable.congr {sr' : Sysregs} (he : tlbEpochRead sr' = tlbEpochRead sr) :
    UserWritable sr' as = UserWritable sr as := by
  funext x
  unfold UserWritable
  simp only [walk_congr_epoch he]

theorem walkReads_congr {sr' : Sysregs} (he : tlbEpochRead sr' = tlbEpochRead sr)
    (phys : Memops (Aspace δ)) (va : W64) (p : Aspace δ) :
    walkReads sr' phys va p = walkReads sr phys va p := by
  have htcr : sr'.val .tcrEl1 = sr.val .tcrEl1 := congrArg Epoch.tcr he
  have ht0 : sr'.val .ttbr0El1 = sr.val .ttbr0El1 := congrArg Epoch.ttbr0 he
  have ht1 : sr'.val .ttbr1El1 = sr.val .ttbr1El1 := congrArg Epoch.ttbr1 he
  unfold walkReads regionTtbr
  rw [htcr, ht0, ht1]

theorem TablesFenced.congr {sr' : Sysregs} (he : tlbEpochRead sr' = tlbEpochRead sr)
    (hf : TablesFenced sr as) : TablesFenced sr' as := by
  intro va a ha
  rw [UserWritable.congr he]
  rw [walkReads_congr he] at ha
  exact hf va a ha

theorem Confined.congr {sr' : Sysregs} (he : tlbEpochRead sr' = tlbEpochRead sr)
    (h : Confined sr as w) : Confined sr' as w :=
  ⟨by rw [UserWritable.congr he]; exact h.agree, h.cache⟩

end Oemu
