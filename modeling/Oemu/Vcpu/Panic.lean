import Oemu.Exec.Panic
import Oemu.Mmu.Ready
import Oemu.Vcpu.Isolation

/-!
# When a guest takes the host down

The executor aborts the host when the bus refuses an access that it has validated, and when an
exception has no level to be delivered to.  Over an address space whose devices answer, the first
happens on one occasion only: the checks of a load or store passed, one of its accesses is
misaligned, and the alignment policy of the moment refuses misaligned accesses, which no check looks
at.  The second is a return at EL2 that is refused.

* `Aspace.firm`         RAM and devices that answer make a firm bus;
* `Firm.run_panics`     a load or store;
* `Firm.doDcZva`        `DC ZVA` never does;
* `Firm.step_panics`    a step of the virtual CPU;
* `vcpu_panics_iff`     in every state a run can reach.
-/

namespace Oemu

/-! ## RAM and devices that answer -/

namespace Aspace

variable {δ : Type}

/-- every device answers the accesses of a bus -/
def Serving (as : Aspace δ) : Prop :=
  ∀ r ∈ as.regions, ∀ ops, r.backing = .device ops → ∀ dev offset size, size.bytes ≤ 8 →
    (ops.read dev offset size).1 = .ok ∧ ∀ value, (ops.write dev offset size value).1 = .ok

/-- a sound table whose devices answer -/
structure Sound (as : Aspace δ) : Prop where
  ok : as.Ok
  serving : as.Serving

variable {as as' : Aspace δ}

def table (as : Aspace δ) : List (AspaceRegion δ) × Nat := (as.regions, as.capacity)

theorem Sound.congr (hs : as.Sound) (h : as'.table = as.table) : as'.Sound where
  ok := by
    obtain ⟨hr, hc⟩ := Prod.mk.inj h
    have hok := hs.ok
    unfold Ok at hok ⊢
    rw [hr, hc]
    exact hok
  serving := by
    intro r hr
    rw [show as'.regions = as.regions from congrArg Prod.fst h] at hr
    exact hs.serving r hr

theorem steady_of_table (h : as'.table = as.table) : Steady memops Sound as as' := by
  refine fun hs => ⟨hs.congr h, fun pa size perms => ?_⟩
  show as'.validate pa size perms = as.validate pa size perms
  unfold validate find
  rw [show as'.regions = as.regions from congrArg Prod.fst h]

theorem validate_found {pa size : W64} {perms : W32} (h : as.validate pa size perms = .ok) :
    ∃ r, as.find pa size perms = some r :=
  Option.isSome_iff_exists.mp (validate_ok.mp h)

theorem aligned_mod {pa : W64} {size : MemSize} (h : misaligned pa size = false) :
    pa.toNat % size.bytes = 0 := by
  by_contra hne
  exact Bool.false_ne_true (h.symm.trans (misaligned_iff.mpr hne))

theorem read_served (hs : as.Sound) {pa : W64} {size : MemSize} {r : AspaceRegion δ}
    (hal : misaligned pa size = false) (h8 : size.bytes ≤ 8)
    (hf : as.find pa (BitVec.ofNat 64 size.bytes) permRead = some r) (sx : Bool) :
    (as.read pa size sx).1 = .ok := by
  have hr : r ∈ as.regions := ((find_iff hs.ok _ _ _ _).mp hf).2.1
  unfold read
  rw [hf]
  dsimp only
  cases hb : r.backing with
  | ram host owned => rfl
  | device ops =>
    obtain ⟨hread, -⟩ := hs.serving r hr ops hb as.dev (pa - r.pa) size h8
    dsimp only
    rw [if_neg (not_not_intro (aligned_mod hal))]
    revert hread
    rcases ops.read as.dev (pa - r.pa) size with ⟨st, v, d⟩
    intro hread
    obtain rfl : st = .ok := hread
    rfl

theorem write_served (hs : as.Sound) {pa : W64} {size : MemSize} {r : AspaceRegion δ}
    (hal : misaligned pa size = false) (h8 : size.bytes ≤ 8)
    (hf : as.find pa (BitVec.ofNat 64 size.bytes) permWrite = some r) (value : W64) :
    (as.write pa size value).1 = .ok := by
  have hr : r ∈ as.regions := ((find_iff hs.ok _ _ _ _).mp hf).2.1
  unfold write
  rw [hf]
  dsimp only
  cases hb : r.backing with
  | ram host owned => rfl
  | device ops =>
    obtain ⟨-, hwrite⟩ := hs.serving r hr ops hb as.dev (pa - r.pa) size h8
    dsimp only
    rw [if_neg (not_not_intro (aligned_mod hal))]
    exact hwrite (extend value size.bytes false)

/-- **RAM and devices that answer make a firm bus** for aligned accesses -/
theorem firm :
    Firm (memops : Memops (Aspace δ)) Sound fun pa size => misaligned pa size = false where
  refl _ := steady_of_table rfl
  trans a b c hab hbc ha := by
    obtain ⟨hb, h1⟩ := hab ha
    obtain ⟨hc, h2⟩ := hbc hb
    exact ⟨hc, fun x n perms => (h2 x n perms).trans (h1 x n perms)⟩
  read as pa size sx := by
    have hram := read_ram as pa size sx
    have hr : (as.read pa size sx).2.2.regions = as.regions := congrArg Prod.fst hram
    have hc : (as.read pa size sx).2.2.capacity = as.capacity := congrArg (fun t => t.2.1) hram
    exact steady_of_table (Prod.ext hr hc)
  validate _ _ _ _ := steady_of_table rfl
  fetch32 _ _ := steady_of_table rfl
  write as pa size value := by
    obtain ⟨hr, hc⟩ := write_table as pa size value
    exact steady_of_table (Prod.ext hr hc)
  sub as pa n perms hs hv j k hk hjk := by
    obtain ⟨r, hf⟩ := validate_found hv
    have hlt := n.isLt
    have hj : (BitVec.ofNat 64 j).toNat = j := by
      rw [BitVec.toNat_ofNat, Nat.mod_eq_of_lt (by omega)]
    have hk' : (BitVec.ofNat 64 k).toNat = k := by
      rw [BitVec.toNat_ofNat, Nat.mod_eq_of_lt (by omega)]
    have hk0 : BitVec.ofNat 64 k ≠ 0 := by
      intro h0
      rw [h0] at hk'
      simp at hk'
      omega
    refine validate_ok.mpr (Option.isSome_iff_exists.mpr ⟨r, ?_⟩)
    exact (find_sub hs.ok hf _ _ hk0 (by omega)).1
  serves as pa size hs hal h8 := by
    constructor
    · intro hv sx
      obtain ⟨r, hf⟩ := validate_found hv
      exact read_served hs hal h8 hf sx
    · intro hv value
      obtain ⟨r, hf⟩ := validate_found hv
      exact write_served hs hal h8 hf value

end Aspace

/-! ## the checks of an instruction -/

section

variable {cpu : Cpu} {insn : Insn}

theorem memPlan_perm {t : Plan} (h : memPlan cpu insn = some t) :
    ∀ c ∈ t.checks, ∃ b, c.perm = accessPerm b := by
  have hr : ∃ b, permRead = accessPerm b := ⟨false, rfl⟩
  have hw : ∃ b, permWrite = accessPerm b := ⟨true, rfl⟩
  rcases memPlan_shape h with ⟨-, rfl⟩ | ⟨-, rfl | ⟨-, -, -, rfl⟩ | rfl | rfl⟩
  · unfold exclusivePlan
    dsimp only
    split
    · exact List.forall_mem_singleton.mpr hr
    · split <;> exact List.forall_mem_singleton.mpr hw
  · unfold singlePlan
    dsimp only
    split
    · exact List.forall_mem_singleton.mpr hw
    · exact List.forall_mem_singleton.mpr hr
  · unfold singleVectorPlan
    dsimp only
    split
    · exact List.forall_mem_cons.mpr ⟨hw, List.forall_mem_singleton.mpr hw⟩
    · exact List.forall_mem_cons.mpr ⟨hr, List.forall_mem_singleton.mpr hr⟩
  · unfold pairPlan
    dsimp only
    split
    · exact List.forall_mem_cons.mpr ⟨hw, List.forall_mem_singleton.mpr hw⟩
    · exact List.forall_mem_cons.mpr ⟨hr, List.forall_mem_singleton.mpr hr⟩
  · unfold pairVectorPlan
    dsimp only
    split
    · exact List.forall_mem_map.mpr fun a _ => hw
    · exact List.forall_mem_map.mpr fun a _ => hr

end

/-- a check within so many bytes of an address -/
def Check.Placed (a : W64) (n : Nat) (c : Check) : Prop :=
  ∃ d b, c.addr = a + BitVec.ofNat 64 d ∧ d + c.size.toNat ≤ n ∧ c.perm = accessPerm b

theorem Plan.Near.placed {t : Plan} {n : Nat} (h : t.Near n)
    (hp : ∀ c ∈ t.checks, ∃ b, c.perm = accessPerm b) : ∃ a, ∀ c ∈ t.checks, c.Placed a n := by
  obtain ⟨a, ha⟩ := h
  refine ⟨a, fun c hc => ?_⟩
  obtain ⟨d, haddr, hd⟩ := ha c hc
  obtain ⟨b, hb⟩ := hp c hc
  exact ⟨d, b, haddr, hd, hb⟩

/-! ## checks that stand -/

section

variable {σ : Type} {sr : Sysregs} {phys : Memops σ} {f₀ : MmuFault} {I : σ → Prop}
  {A : W64 → MemSize → Prop} {w w' : MmuWorld σ} {a : W64} {n : Nat} {c : Check}

/-- a sound bus under a cache that walks have filled -/
structure Settled (phys : Memops σ) (I : σ → Prop) (w : MmuWorld σ) : Prop where
  bus : I w.phys
  reached : Mmu.Reached phys w.mmu

theorem Settled.calm (h : Settled phys I w) (hc : Calm sr phys I a w w') : Settled phys I w' :=
  ⟨(hc.bus h.bus).1, hc.reached h.reached⟩

/-- a check whose range is ready -/
def Check.Stands (sr : Sysregs) (phys : Memops σ) (a : W64) (n : Nat) (c : Check)
    (w : MmuWorld σ) : Prop :=
  ∃ d b, c.addr = a + BitVec.ofNat 64 d ∧ d + c.size.toNat ≤ n ∧ c.perm = accessPerm b ∧
    Ready sr phys b (a + BitVec.ofNat 64 d) c.size.toNat w

theorem Check.Stands.calm (h : c.Stands sr phys a n w) (hc : Calm sr phys I a w w') (hI : I w.phys)
    (hn : n ≤ 4096) : c.Stands sr phys a n w' := by
  obtain ⟨d, b, ha, hd, hp, hr⟩ := h
  exact ⟨d, b, ha, hd, hp, hr.near hc hI (by omega)⟩

theorem accessPerm_inj {b b' : Bool} (h : accessPerm b = accessPerm b') : b = b' := by
  revert h
  cases b <;> cases b' <;> decide

variable (hf : Firm phys I A)

include hf

/-- a check leaves the others standing -/
theorem Firm.check_calm (sr : Sysregs) (f₀ : MmuFault) (hc : c.Placed a n)
    (hn : n ≤ 4096) (w : MmuWorld σ) :
    Calm sr phys I a w ((busOps (mmuMemops sr phys f₀)).check c w).2 := by
  obtain ⟨d, b, ha, hd, -⟩ := hc
  show Calm sr phys I a w (mmuValidate sr phys w c.addr c.size c.perm).2
  rw [ha]
  exact validateLoop_calm hf (by omega) c.perm _ 0 w

theorem Firm.check_stands (hc : c.Placed a n) (hn : n ≤ 4096) (hs : Settled phys I w)
    (hok : (busOps (mmuMemops sr phys f₀)).check c w = (true, w')) : c.Stands sr phys a n w' := by
  obtain ⟨d, b, ha, hd, hb⟩ := hc
  obtain ⟨hv, rfl⟩ := Prod.mk.inj hok
  refine ⟨d, b, ha, hd, hb, ?_⟩
  have hv' : (mmuValidate sr phys w c.addr c.size c.perm).1 = .ok := of_decide_eq_true hv
  have hsize : c.size = BitVec.ofNat 64 c.size.toNat := by
    rw [BitVec.ofNat_toNat, BitVec.setWidth_eq]
  show Ready sr phys b _ _ (mmuValidate sr phys w c.addr c.size c.perm).2
  rw [ha, hb] at hv' ⊢
  rw [hsize] at hv' ⊢
  rw [toNat_small (show c.size.toNat ≤ 4096 by omega)]
  exact mmuValidate_ready hf (by omega) hs.bus hs.reached hv'

/-- an access whose check stands is made, unless the policy refuses it -/
theorem Firm.access_served (f₀ : MmuFault) (hA : ServesAligned A) {i : Access}
    (h8 : i.size.bytes ≤ 8) (hs : Settled phys I w)
    (hst : Check.Stands sr phys a n ⟨i.addr, i.size.count, i.perm⟩ w) (hn : n ≤ 4096)
    (hp : ¬ Forbidden sr i.addr i.size) :
    ∃ v w', (busOps (mmuMemops sr phys f₀)).act i w = some (v, w') ∧ Calm sr phys I a w w' := by
  obtain ⟨d, b, ha, hd, hperm, hr⟩ := hst
  dsimp only at ha hd hperm hr
  rw [toNat_count] at hd hr
  cases i with
  | read addr size sx =>
    obtain rfl : b = false := (accessPerm_inj (b := false) hperm).symm
    obtain rfl : addr = a + BitVec.ofNat 64 d := ha
    obtain ⟨hok, hc⟩ := mmuRead_ready hf hA hr (by omega) h8 hs.bus hs.reached hp sx
    exact ⟨_, _, if_pos hok, hc⟩
  | write addr size value =>
    obtain rfl : b = true := (accessPerm_inj (b := true) hperm).symm
    obtain rfl : addr = a + BitVec.ofNat 64 d := ha
    obtain ⟨hok, hc⟩ := mmuWrite_ready hf hA hr (by omega) h8 hs.bus hs.reached hp value
    exact ⟨_, _, if_pos hok, hc⟩

omit hf in
theorem access_forbidden {i : Access} (hp : Forbidden sr i.addr i.size) :
    (busOps (mmuMemops sr phys f₀)).act i w = none := by
  cases i with
  | read addr size sx => exact if_neg (mmuRead_forbidden hp sx)
  | write addr size value => exact if_neg (mmuWrite_forbidden hp value)

/-- **a load or store takes the host down** where its checks pass and the policy refuses one of its
accesses -/
theorem Firm.run_panics (hA : ServesAligned A) {t : Plan} (hcov : t.Covered)
    (hpl : ∀ c ∈ t.checks, c.Placed a n) (hn : n ≤ 4096) (h8 : ∀ i ∈ t.acts, i.size.bytes ≤ 8)
    (hs : Settled phys I w) (refused : Status × Cpu) :
    Txn.run (busOps (mmuMemops sr phys f₀)) refused t w = none ↔
      (Txn.checkAll (busOps (mmuMemops sr phys f₀)) t.checks w).1 = true ∧
        ∃ i ∈ t.acts, Forbidden sr i.addr i.size := by
  refine @Txn.run_eq_none_iff _ _ _ _ _ (busOps (mmuMemops sr phys f₀)) (Settled phys I)
    (Check.Stands sr phys a n) (fun i => Forbidden sr i.addr i.size) refused t w ?_ ?_ ?_ ?_ ?_ hs
  · intro c hc w hw
    exact hw.calm (hf.check_calm sr f₀ (hpl c hc) hn w)
  · intro c hc w w' hw hok
    exact hf.check_stands (hpl c hc) hn hw hok
  · intro c hc c' w hw hst
    exact hst.calm (hf.check_calm sr f₀ (hpl c hc) hn w) hw.bus hn
  · intro i hi hp w hw hst
    obtain ⟨v, w', hact, hc⟩ := hf.access_served f₀ hA (h8 i hi) hw (hst _ (hcov i hi)) hn hp
    exact ⟨v, w', hact, hw.calm hc, fun c hcm => (hst c hcm).calm hc hw.bus hn⟩
  · intro i _ hp w _
    exact access_forbidden hp

/-! ## instructions -/

theorem Firm.plan_panics (sr : Sysregs) (f₀ : MmuFault) (hA : ServesAligned A)
    (hs : Settled phys I w) {cpu : Cpu} {insn : Insn} (hwf : insn.WellFormed) {t : Plan}
    (hp : memPlan cpu insn = some t) (refused : Status × Cpu) :
    Txn.run (busOps (mmuMemops sr phys f₀)) refused t w = none ↔
      (Txn.checkAll (busOps (mmuMemops sr phys f₀)) t.checks w).1 = true ∧
        ∃ i ∈ t.acts, Forbidden sr i.addr i.size := by
  obtain ⟨a, ha⟩ := (memPlan_near hwf hp).placed (memPlan_perm hp)
  exact hf.run_panics hA (memPlan_covered hp) ha (by decide)
    (fun i hi => ((memPlan_sized cpu hwf hp).2 i hi).bytes_le) hs refused

omit hf in
theorem lineOf_aligned (addr : W64) (i : Nat) :
    misaligned (lineOf addr + BitVec.ofNat 64 (8 * i)) .dword = false := by
  have hmask : (~~~(cacheLine - 1)).toNat % 2 ^ 6 = 0 := by decide
  have hline : (lineOf addr).toNat % 2 ^ 6 = 0 := by
    unfold lineOf
    rw [BitVec.toNat_and, Nat.and_mod_two_pow, hmask, Nat.and_zero]
  refine Bool.eq_false_of_not_eq_true fun h => misaligned_iff.mp h ?_
  rw [BitVec.toNat_add, BitVec.toNat_ofNat, show MemSize.dword.bytes = 8 from rfl]
  omega

omit hf in
theorem Check.Stands.word (h : Check.Stands sr phys a 64 ⟨a, cacheLine, permWrite⟩ w) {i : Nat}
    (hi : i < 8) :
    Check.Stands sr phys a 64 ⟨a + BitVec.ofNat 64 (8 * i), MemSize.dword.count, permWrite⟩ w := by
  obtain ⟨d, b, ha, hd, hb, hr⟩ := h
  have h64 : cacheLine.toNat = 64 := rfl
  have h8 : MemSize.dword.count.toNat = 8 := rfl
  dsimp only at ha hd hb hr
  rw [h64] at hd hr
  obtain rfl : d = 0 := by omega
  rw [← ha] at hr
  refine ⟨8 * i, b, rfl, ?_, hb, ?_⟩
  · show 8 * i + MemSize.dword.count.toNat ≤ 64
    omega
  · show Ready sr phys b (a + BitVec.ofNat 64 (8 * i)) MemSize.dword.count.toNat w
    rw [h8]
    exact hr.sub (by omega)

theorem Firm.zeroLine (f₀ : MmuFault) (hA : ServesAligned A) (hs : Settled phys I w) (addr : W64)
    (hst : Check.Stands sr phys (lineOf addr) 64 ⟨lineOf addr, cacheLine, permWrite⟩ w) :
    ∃ q, Oemu.zeroLine (mmuMemops sr phys f₀) (lineOf addr) w = some q := by
  have hacts : Txn.actAll (busOps (mmuMemops sr phys f₀)) (zeroActs (lineOf addr)) w ≠ none := by
    intro hnone
    have hiff := @Txn.actAll_eq_none_iff _ _ _ _ (busOps (mmuMemops sr phys f₀)) (Settled phys I)
      (Check.Stands sr phys (lineOf addr) 64) (fun _ => False)
      [⟨lineOf addr, cacheLine, permWrite⟩] (zeroActs (lineOf addr)) w ?_ (fun _ _ h => h.elim) hs
      (List.forall_mem_singleton.mpr hst)
    · obtain ⟨i, -, hbad⟩ := hiff.mp hnone
      exact hbad
    · intro i hi _ w hw hG
      obtain ⟨k, hk, rfl⟩ := List.mem_map.mp hi
      have hst := hG _ List.mem_cons_self
      obtain ⟨v, w', hact, hc⟩ := hf.access_served f₀ hA
        (i := .write (lineOf addr + BitVec.ofNat 64 (8 * k)) .dword 0) (Nat.le_refl 8) hw
        (hst.word (List.mem_range.mp hk)) (by decide)
        fun h => Bool.false_ne_true ((lineOf_aligned addr k).symm.trans h.1)
      refine ⟨v, w', hact, hw.calm hc, List.forall_mem_singleton.mpr ?_⟩
      exact hst.calm hc hw.bus (by decide)
  obtain ⟨q, hq⟩ := Option.ne_none_iff_exists'.mp hacts
  exact ⟨(PUnit.unit, q.2), by rw [zeroLine_apply, hq]; rfl⟩

/-- **`DC ZVA` never takes the host down** -/
theorem Firm.doDcZva (hA : ServesAligned A) (hs : Settled phys I w) (cpu : Cpu) (insn : Insn) :
    ∃ q, Oemu.doDcZva (mmuMemops sr phys f₀) cpu sr insn w = some q := by
  obtain ⟨addr, haddr⟩ : ∃ addr, addr = readG cpu.regs insn.rd false .w64 := ⟨_, rfl⟩
  have hpl : Check.Placed (lineOf addr) 64 ⟨lineOf addr, cacheLine, permWrite⟩ :=
    ⟨0, true, (BitVec.add_zero _).symm, Nat.le_refl 64, rfl⟩
  unfold Oemu.doDcZva
  rw [← haddr]
  split
  · exact ⟨_, rfl⟩
  · rw [Prog.bind_apply, busValidate_apply]
    simp only [Option.bind_some]
    rcases hc : (mmuMemops sr phys f₀).validate w (lineOf addr) cacheLine permWrite with ⟨st, w'⟩
    dsimp only
    split
    · exact ⟨_, rfl⟩
    · rename_i hst
      have hok : (busOps (mmuMemops sr phys f₀)).check ⟨lineOf addr, cacheLine, permWrite⟩ w =
          (true, w') := by
        unfold busOps
        dsimp only
        rw [hc, decide_eq_true (not_not.mp hst)]
      have hcalm := hf.check_calm sr f₀ hpl (by decide) w
      rw [hok] at hcalm
      obtain ⟨q, hq⟩ := hf.zeroLine f₀ hA (hs.calm hcalm) addr
        (hf.check_stands hpl (by decide) hs hok)
      rw [Prog.bind_apply, hq]
      exact ⟨_, rfl⟩

omit hf in
/-- **the occasion**: the checks of a load or store pass, and the policy refuses one of its
accesses -/
def Trips (sr : Sysregs) (phys : Memops σ) (f₀ : MmuFault) (cpu : Cpu) (insn : Insn)
    (w : MmuWorld σ) : Prop :=
  ∃ t, memPlan cpu insn = some t ∧
    (Txn.checkAll (busOps (mmuMemops sr phys f₀)) t.checks w).1 = true ∧
      ∃ i ∈ t.acts, Forbidden sr i.addr i.size

omit hf in
/-- **the other**: a return that is refused at EL2 -/
def Stranded (sr : Sysregs) (insn : Insn) : Prop :=
  insn.op = .eret ∧ sr.el = .el2 ∧ ReturnRefused sr

omit hf in
theorem not_trips {cpu : Cpu} {insn : Insn} (h : memPlan cpu insn = none) :
    ¬ Trips sr phys f₀ cpu insn w := by
  rintro ⟨t, ht, -⟩
  rw [h] at ht
  cases ht

theorem Firm.shared_panics (hA : ServesAligned A) (hs : Settled phys I w) (cpu : Cpu) {insn : Insn}
    (hwf : insn.WellFormed) :
    Oemu.dispatchShared (mmuMemops sr phys f₀) cpu insn w = none ↔
      Trips sr phys f₀ cpu insn w := by
  rw [dispatchShared_eq]
  cases hp : memPlan cpu insn with
  | none => exact iff_of_false nofun (not_trips hp)
  | some t =>
    have hrun := hf.plan_panics sr f₀ hA hs hwf hp (Status.fault, cpu)
    have harm : armOf (mmuMemops sr phys f₀) cpu t w = none ↔
        Txn.run (busOps (mmuMemops sr phys f₀)) (Status.fault, cpu) t w = none := by
      show (Txn.run _ (Status.fault, cpu) t w).bind _ = none ↔ _
      cases Txn.run (busOps (mmuMemops sr phys f₀)) (Status.fault, cpu) t w with
      | none => exact iff_of_true rfl rfl
      | some q => exact iff_of_false nofun nofun
    rw [harm, hrun]
    constructor
    · intro h
      exact ⟨t, hp, h⟩
    · rintro ⟨t', ht', h⟩
      obtain rfl := Option.some.inj (hp.symm.trans ht')
      exact h

theorem Firm.guest_panics (hA : ServesAligned A) (hs : Settled phys I w) (cpu : Cpu) {insn : Insn}
    (hwf : insn.WellFormed) (word : W32) :
    Oemu.dispatchGuest (mmuMemops sr phys f₀) cpu sr insn word w = none ↔
      Trips sr phys f₀ cpu insn w := by
  rw [← hf.shared_panics hA hs cpu hwf]
  unfold Oemu.dispatchGuest
  rw [Prog.bind_apply]
  cases Oemu.dispatchShared (mmuMemops sr phys f₀) cpu insn w with
  | none => exact iff_of_true rfl rfl
  | some q =>
    refine iff_of_false ?_ nofun
    simp only [Option.bind_some]
    split
    · nofun
    · split <;> nofun

/-- **an instruction** -/
theorem Firm.system_panics (sr : Sysregs) (f₀ : MmuFault) (hA : ServesAligned A)
    (hs : Settled phys I w) {ε τ : Type}
    (env : Option (EnvOps τ ε)) (cpu : Cpu) {insn : Insn} (hwf : insn.WellFormed) (word : W32)
    (e : ε) :
    Oemu.dispatchSystem (mmuMemops sr phys f₀) phys env cpu sr insn word (w, e) = none ↔
      Trips sr phys f₀ cpu insn w ∨ Stranded sr insn := by
  by_cases heret : insn.op = .eret
  · have hplan : memPlan cpu insn = none := by
      unfold memPlan
      rw [heret]
    rw [dispatchSystem_eret heret, Option.map_eq_none_iff, excEret_eq_none]
    constructor
    · intro h
      exact .inr ⟨heret, h⟩
    · rintro (h | ⟨-, h⟩)
      · exact absurd h (not_trips hplan)
      · exact h
  rw [or_iff_left fun h => heret h.1]
  have hguest : onBus (Oemu.dispatchGuest (mmuMemops sr phys f₀) cpu sr insn word) (w, e) = none ↔
      Trips sr phys f₀ cpu insn w := by
    rw [← hf.guest_panics hA hs cpu hwf word]
    unfold onBus
    rw [Option.map_eq_none_iff]
  have hnot : memPlan cpu insn = none → ∀ {q : (Status × Cpu × Sysregs) × MmuWorld σ × ε}
      {m : Option ((Status × Cpu × Sysregs) × MmuWorld σ × ε)}, m = some q →
      (m = none ↔ Trips sr phys f₀ cpu insn w) := by
    rintro hp q m rfl
    exact iff_of_false nofun (not_trips hp)
  unfold Oemu.dispatchSystem
  cases hop : insn.op <;> first
    | exact hguest
    | exact absurd hop heret
    | exact hnot (by unfold memPlan; rw [hop]) rfl
    | skip
  obtain ⟨q, hq⟩ : ∃ q, Oemu.doSys (mmuMemops sr phys f₀) phys cpu sr insn word w = some q := by
    unfold Oemu.doSys
    cases ha : sysAction insn.sel with
    | dcZva => exact hf.doDcZva hA hs cpu insn
    | _ => exact ⟨_, rfl⟩
  refine hnot (by unfold memPlan; rw [hop]) (q := ((intercept q.1), q.2, e)) ?_
  show (onBus (intercept <$> Oemu.doSys (mmuMemops sr phys f₀) phys cpu sr insn word) (w, e)) = _
  unfold onBus
  show ((Oemu.doSys (mmuMemops sr phys f₀) phys cpu sr insn word w).bind _).map _ = _
  rw [hq]
  rfl

/-! ## a step -/

theorem Firm.reach {cur : El} (h : Reach sr phys cur w w') (hI : I w.phys) : I w'.phys := by
  induction h with
  | refl => exact hI
  | tail _ hstep ih =>
    cases hstep with
    | probe p hp =>
      cases hp with
      | read a n sx => exact (hf.read _ a n sx ih).1
      | validate a n perms => exact (hf.validate _ a n perms ih).1
      | fetch32 a => exact (hf.fetch32 _ a ih).1
    | translate va isWrite isFetch => exact (hf.translate sr _ va cur isWrite isFetch ih).1
    | pend f => exact ih
    | take => exact ih
    | flush => exact ih
    | write va pa n value => exact (hf.write _ pa n value ih).1

theorem Firm.settled {cur : El} (h : Reach sr phys cur w w') (hs : Settled phys I w) :
    Settled phys I w' :=
  ⟨hf.reach h hs.bus, hs.reached.reach h⟩

theorem Firm.fetch_settled {ε : Type} {v : Vcpu σ ε} (hs : Settled phys I v.world) :
    Settled phys I (v.fetch phys).2.2 :=
  hf.settled (reach_mmuFetch32 v.tick.sr phys v.world v.cpu.regs.pc) hs

omit hf in
theorem step_waits {ε τ : Type} {env : Option (EnvOps τ ε)} {v : Vcpu σ ε} {insn : Insn}
    (hr : v.Reaches phys insn)
    (hwait : (insn.op = .wfi ∨ insn.op = .wfe) ∧ v.wakes insn.op = false) :
    vcpuStep phys f₀ env v ≠ none := by
  have hok := hr.fetched
  have hd := hr.decoded
  rw [vcpuStep_quiet hr.quantum hr.quiet]
  unfold Vcpu.fetched
  have hfe : v.fetch phys = mmuFetch32 v.tick.sr phys v.tick.world v.tick.cpu.regs.pc := rfl
  rw [← hfe]
  rcases h : v.fetch phys with ⟨fst, word, w⟩
  rw [h] at hok hd
  obtain rfl : fst = .ok := hok
  have hd' : decode word v.tick.cpu.regs.pc = .ok insn := hd
  have hw : (insn.op = .wfi ∨ insn.op = .wfe) ∧ (!v.wakes insn.op) = true := by
    rw [hwait.2]
    exact ⟨hwait.1, rfl⟩
  unfold Vcpu.decoded
  dsimp only
  rw [hd']
  dsimp only
  rw [if_pos]
  · nofun
  · exact hw

/-- **a step takes the host down** at a load or store that trips, at a return that is refused at
EL2, and at nothing else -/
theorem Firm.step_panics (hA : ServesAligned A) {ε τ : Type} (env : Option (EnvOps τ ε))
    {v : Vcpu σ ε} (hs : Settled phys I v.world) :
    vcpuStep phys f₀ env v = none ↔
      ∃ insn, v.Reaches phys insn ∧
        (Trips v.tick.sr phys f₀ v.cpu insn (v.fetch phys).2.2 ∨ Stranded v.tick.sr insn) := by
  by_cases hq : v.insnsLeft = 0
  · rw [vcpuStep_timeout hq]
    exact iff_of_false nofun fun ⟨_, hr, _⟩ => hr.quantum hq
  cases hp : v.pending with
  | some kind =>
    have hp' : pendingKind v.tick.sr.pstate v.tick.irqLevel v.tick.fiqLevel = some kind := by
      rw [Vcpu.tick_pstate]
      exact hp
    refine iff_of_false ?_ fun ⟨_, hr, _⟩ => nomatch hp.symm.trans hr.quiet
    unfold vcpuStep Vcpu.takePending
    rw [if_neg hq, hp']
    nofun
  | none =>
    by_cases hrefused : (v.fetch phys).1 = .ok →
        ∃ st, decode (v.fetch phys).2.1 v.cpu.regs.pc = .error st
    · obtain ⟨v', esr, far, hv, -⟩ := @vcpuStep_refused σ ε τ phys f₀ env v hq hp hrefused
      rw [hv]
      refine iff_of_false nofun ?_
      rintro ⟨insn, hr, -⟩
      obtain ⟨st, hd⟩ := hrefused hr.fetched
      rw [hr.decoded] at hd
      cases hd
    · obtain ⟨hok, hdec⟩ := Classical.not_imp.mp hrefused
      cases hd : decode (v.fetch phys).2.1 v.cpu.regs.pc with
      | error st => exact absurd ⟨st, hd⟩ hdec
      | ok insn =>
        have hreach : v.Reaches phys insn := ⟨hq, hp, hok, hd⟩
        have hiff := hf.system_panics v.tick.sr f₀ hA (hf.fetch_settled hs) env
          v.cpu (decode_wellFormed hd) (v.fetch phys).2.1 v.env
        have hstep : vcpuStep phys f₀ env v = none ↔
            Trips v.tick.sr phys f₀ v.cpu insn (v.fetch phys).2.2 ∨ Stranded v.tick.sr insn := by
          by_cases hwait : (insn.op = .wfi ∨ insn.op = .wfe) ∧ v.wakes insn.op = false
          · refine iff_of_false (step_waits hreach hwait) (not_or.mpr ⟨not_trips ?_, ?_⟩)
            · unfold memPlan
              rcases hwait.1 with hop | hop <;> rw [hop]
            · rintro ⟨heret, -⟩
              rcases hwait.1 with hop | hop <;> cases heret.symm.trans hop
          · rw [vcpuStep_awake hq hp hok hd hwait, ← hiff]
            obtain ⟨b, hb⟩ :=
              Vcpu.noteEvent_eq (v := { v.tick with world := (v.fetch phys).2.2 }) insn
            rw [hb]
            unfold Vcpu.execute
            exact Option.map_eq_none_iff
        rw [hstep]
        constructor
        · intro h
          exact ⟨insn, hreach, h⟩
        · rintro ⟨insn', hr, h⟩
          obtain rfl := Except.ok.inj (hd.symm.trans hr.decoded)
          exact h

/-! ## runs -/

theorem Firm.machine_settled {ε τ : Type} {env : Option (EnvOps τ ε)} {v v' : Vcpu σ ε} {i : Label}
    (hs : Settled phys I v.world) (hm : Machine phys f₀ env v i v')
    (hhost : i = .host → I v'.world.phys) : Settled phys I v'.world := by
  cases hm with
  | step st v' hv => exact hf.settled (step_reach hv) hs
  | irq level => exact hs
  | fiq level => exact hs
  | rearm => exact hs
  | host p e => exact ⟨hhost rfl, hs.reached⟩

end

section

variable {ε τ δ : Type}

/-- the core and what goes on beside it: steps, the pins, the quantum, and the devices, which change
no region -/
def BoardMachine (f₀ : MmuFault) (env : Option (EnvOps τ ε)) (v : Vcpu (Aspace δ) ε) (i : Label)
    (v' : Vcpu (Aspace δ) ε) : Prop :=
  Machine Aspace.memops f₀ env v i v' ∧ (i = .host → v'.world.phys.table = v.world.phys.table)

theorem Settled.move {f₀ : MmuFault} {env : Option (EnvOps τ ε)} {v v' : Vcpu (Aspace δ) ε}
    {i : Label} (h : Settled Aspace.memops Aspace.Sound v.world)
    (hm : BoardMachine f₀ env v i v') : Settled Aspace.memops Aspace.Sound v'.world :=
  Aspace.firm.machine_settled h hm.1 fun hi => h.bus.congr (hm.2 hi)

/-- a run from where the bus is sound and the cache filled by walks -/
theorem Settled.run_panics {f₀ : MmuFault} {v u : Vcpu (Aspace δ) ε}
    (h : Settled Aspace.memops Aspace.Sound v.world) (env : Option (EnvOps τ ε))
    {l : List Label} (hrun : Lts.Run (BoardMachine f₀ env) v l u) :
    vcpuStep Aspace.memops f₀ env u = none ↔
      ∃ insn, u.Reaches Aspace.memops insn ∧
        (Trips u.tick.sr Aspace.memops f₀ u.cpu insn (u.fetch Aspace.memops).2.2 ∨
          Stranded u.tick.sr insn) := by
  have hu : Settled Aspace.memops Aspace.Sound u.world :=
    hrun.invariant (I := fun v => Settled Aspace.memops Aspace.Sound v.world)
      (A := fun _ => True) (fun _ _ _ h _ hmove => h.move hmove)
      (fun _ _ => trivial) h
  exact Aspace.firm.step_panics (fun _ _ hal => hal) env hu

/-- **when a guest takes the host down**: in every state a run can reach, a step does so if and only
if it reaches a load or store that trips, or a return that is refused at EL2 -/
theorem vcpu_panics_iff (f₀ : MmuFault) (env : Option (EnvOps τ ε)) {v u : Vcpu (Aspace δ) ε}
    (hs : v.world.phys.Sound) (hm : Mmu.Reached (Aspace.memops : Memops (Aspace δ)) v.world.mmu)
    {l : List Label} (hrun : Lts.Run (BoardMachine f₀ env) v l u) :
    vcpuStep Aspace.memops f₀ env u = none ↔
      ∃ insn, u.Reaches Aspace.memops insn ∧
        (Trips u.tick.sr Aspace.memops f₀ u.cpu insn (u.fetch Aspace.memops).2.2 ∨
          Stranded u.tick.sr insn) := by
  exact Settled.run_panics ⟨hs, hm⟩ env hrun

/-- a page with a program that asks for aligned accesses and then loads from an odd address -/
def tripBus : Aspace Unit where
  regions := [⟨0x1000, 0x1000, 7, .ram 0 true⟩]
  capacity := 1
  heap i := match i with
    | 1 => 0x10
    | 2 => 0x18
    | 3 => 0xD5
    | 4 => 0x22
    | 6 => 0x40
    | 7 => 0xF9
    | _ => 0
  dev := ()

def tripGuest : Vcpu (Aspace Unit) Unit :=
  let v := Vcpu.init tripBus () .el1 0x1000 0 10
  { v with cpu := { v.cpu with
      regs := (v.cpu.regs.write 0 .w64 2).write 1 .w64 0x1801 } }

theorem tripBus_sound : tripBus.Sound where
  ok := Span.Table.single (by decide) (by decide) (by decide) (by decide)
  serving := by
    intro r hr ops hb
    rw [List.mem_singleton.mp hr] at hb
    cases hb

/-- it does, after one step -/
theorem vcpu_panics_trip :
    ∃ u, Lts.Run (BoardMachine ⟨0, 0⟩ (none : Option (EnvOps Unit Unit))) tripGuest [.step .ok] u ∧
      ∃ insn, u.Reaches Aspace.memops insn ∧
        (Trips u.tick.sr Aspace.memops ⟨0, 0⟩ u.cpu insn (u.fetch Aspace.memops).2.2 ∨
          Stranded u.tick.sr insn) := by
  have hstep : (vcpuStep Aspace.memops ⟨0, 0⟩ (none : Option (EnvOps Unit Unit)) tripGuest).map
      (fun q => (q.1, (vcpuStep Aspace.memops ⟨0, 0⟩ (none : Option (EnvOps Unit Unit))
        q.2).isNone)) = some (.ok, true) := by decide +kernel
  cases h : vcpuStep Aspace.memops ⟨0, 0⟩ (none : Option (EnvOps Unit Unit)) tripGuest with
  | none =>
    rw [h] at hstep
    cases hstep
  | some q =>
    rw [h] at hstep
    obtain ⟨st, u⟩ := q
    obtain ⟨hst, hnone⟩ := Prod.mk.inj (Option.some.inj hstep)
    obtain rfl : st = .ok := hst
    have hrun : Lts.Run (BoardMachine ⟨0, 0⟩ (none : Option (EnvOps Unit Unit))) tripGuest
        [.step .ok] u := .cons ⟨.step .ok u h, nofun⟩ (.nil _)
    exact ⟨u, hrun, (vcpu_panics_iff _ _ tripBus_sound .init hrun).mp
      (Option.isNone_iff_eq_none.mp hnone)⟩

end

end Oemu
