import Oemu.Mmu.Split
import Oemu.Mmu.Transparent

/-!
# Split accesses over RAM

Over a bus of RAM regions an access through the translation layer is an access to host bytes, one
for each byte of the access, at the address that byte translates to.

* `mmuReadBytes`, `mmuWriteBytes`  the byte-by-byte path, for any alignment;
* `split_access`  reads gather the bytes, writes store them all or none, and the aligned path does
  the same wherever one region holds the range.
-/

namespace Oemu

variable {δ : Type}

namespace Aspace

/-- a bus without devices -/
def RamOnly (as : Aspace δ) : Prop := ∀ r ∈ as.regions, ∃ host owned, r.backing = .ram host owned

theorem find_mem {as : Aspace δ} {pa size : W64} {perms : W32} {r : AspaceRegion δ}
    (h : as.find pa size perms = some r) : r ∈ as.regions := by
  unfold find at h
  by_cases h0 : size = 0
  · rw [if_pos h0] at h
    cases h
  · rw [if_neg h0] at h
    exact List.mem_of_find?_eq_some h

theorem validate_fault {as : Aspace δ} {pa n : W64} {perms : W32} (h0 : n ≠ 0)
    (h : as.find pa n perms = none) : as.validate pa n perms = .fault := by
  unfold validate
  rw [if_neg h0, h]

theorem inert_ram : Inert (Aspace.memops : Memops (Aspace δ)) RamOnly where
  read as a size sx h := by
    show (as.read a size sx).2.2 = as
    unfold read
    cases hf : as.find a (BitVec.ofNat 64 size.bytes) permRead with
    | none => rfl
    | some r =>
      obtain ⟨host, owned, hb⟩ := h r (find_mem hf)
      dsimp only
      rw [hb]
  validate _ _ _ _ _ := rfl

/-- the host byte behind an address -/
def hostAt (as : Aspace δ) (pa : W64) : Option Nat :=
  (as.find pa 1 0).bind fun r => r.window.map fun s => s.base + (pa - r.pa).toNat

/-- a range that lies in one RAM region is a run of host bytes -/
theorem hostAt_found {as : Aspace δ} (hok : as.Ok) {pa : W64} {n : Nat} (hn : n ≤ 16) {perms : W32}
    {r : AspaceRegion δ} (hf : as.find pa (BitVec.ofNat 64 n) perms = some r) {host : Nat}
    {owned : Bool} (hb : r.backing = .ram host owned) {i : Nat} (hi : i < n) :
    as.find (pa + BitVec.ofNat 64 i) 1 perms = some r ∧
      as.hostAt (pa + BitVec.ofNat 64 i) = some (host + (pa - r.pa).toNat + i) := by
  have hcast : ∀ m : Nat, m ≤ 16 → (BitVec.ofNat 64 m).toNat = m := by
    intro m hm
    rw [BitVec.toNat_ofNat]
    exact Nat.mod_eq_of_lt (by omega)
  obtain ⟨hfi, hadd⟩ := find_sub hok hf (BitVec.ofNat 64 i) 1 (by decide) (by
    rw [hcast i (by omega), hcast n hn, show (1 : W64).toNat = 1 from rfl]
    omega)
  obtain ⟨-, hr, -, hcov⟩ := (find_iff hok _ _ _ _).mp hf
  obtain ⟨h1, -, hp1, hcov1⟩ := (find_iff hok _ _ _ _).mp hfi
  have hle : r.pa.toNat ≤ pa.toNat := hcov.1
  have hzero : as.find (pa + BitVec.ofNat 64 i) 1 0 = some r :=
    (find_iff hok _ _ _ _).mpr ⟨h1, hr, BitVec.and_zero, hcov1⟩
  refine ⟨hfi, ?_⟩
  unfold hostAt AspaceRegion.window
  rw [hzero, Option.bind_some, hb, hcast i (by omega)] at *
  show some (host + (pa + BitVec.ofNat 64 i - r.pa).toNat) = _
  rw [BitVec.toNat_sub_of_le (by rw [BitVec.le_def, hadd]; omega), hadd,
    BitVec.toNat_sub_of_le hle]
  congr 1
  omega

/-- where no two regions are backed by one buffer, no two addresses are backed by one byte -/
theorem hostAt_inj {as : Aspace δ} (hok : as.Ok) (hna : ∀ r ∈ as.regions, as.NonAliased r)
    {a b : W64} {x : Nat} (ha : as.hostAt a = some x) (hb : as.hostAt b = some x) : a = b := by
  unfold hostAt at ha hb
  obtain ⟨r, hr, hx⟩ := Option.bind_eq_some_iff.mp ha
  obtain ⟨s, hs, hy⟩ := Option.bind_eq_some_iff.mp hb
  obtain ⟨u, hu, hux⟩ := Option.map_eq_some_iff.mp hx
  obtain ⟨t, ht, htx⟩ := Option.map_eq_some_iff.mp hy
  obtain ⟨-, hr, -, hcr⟩ := (find_iff hok _ _ _ _).mp hr
  obtain ⟨-, hs, -, hcs⟩ := (find_iff hok _ _ _ _).mp hs
  have hru : u.size = r.size.toNat := by
    unfold AspaceRegion.window at hu
    cases hback : r.backing with
    | ram host owned =>
      rw [hback] at hu
      cases hu
      rfl
    | device ops =>
      rw [hback] at hu
      cases hu
  have hst : t.size = s.size.toNat := by
    unfold AspaceRegion.window at ht
    cases hback : s.backing with
    | ram host owned =>
      rw [hback] at ht
      cases ht
      rfl
    | device ops =>
      rw [hback] at ht
      cases ht
  have h1 : r.pa.toNat ≤ a.toNat ∧ a.toNat + 1 ≤ r.pa.toNat + r.size.toNat := hcr
  have h2 : s.pa.toNat ≤ b.toNat ∧ b.toNat + 1 ≤ s.pa.toNat + s.size.toNat := hcs
  have ea : (a - r.pa).toNat = a.toNat - r.pa.toNat := BitVec.toNat_sub_of_le h1.1
  have eb : (b - s.pa).toNat = b.toNat - s.pa.toNat := BitVec.toNat_sub_of_le h2.1
  rw [ea] at hux
  rw [eb] at htx
  by_cases hrs : s = r
  · subst hrs
    rw [hu] at ht
    cases ht
    exact BitVec.eq_of_toNat_eq (by omega)
  · have hap : u.base + u.size ≤ t.base ∨ t.base + t.size ≤ u.base :=
      hna r hr s hs hrs u hu t ht
    omega

theorem read_byte {as : Aspace δ} (hok : as.Ok) (hram : as.RamOnly) {pa : W64} {x : Nat}
    (hf : (as.find pa 1 permRead).isSome = true) (hx : as.hostAt pa = some x) :
    as.read pa .byte false = (.ok, (as.heap x).setWidth 64, as) := by
  obtain ⟨r, hr⟩ := Option.isSome_iff_exists.mp hf
  obtain ⟨host, owned, hb⟩ := hram r (find_mem hr)
  have hat := (hostAt_found hok (n := 1) (by omega) hr hb (i := 0) (by omega)).2
  have hzero : pa + BitVec.ofNat 64 0 = pa := BitVec.add_zero pa
  rw [hzero, hx, Nat.add_zero] at hat
  cases hat
  rw [read_loaded (show MemSize.byte.bytes ≤ 8 by decide) false hr hb]
  have hone : loaded (disassemble (fun j => as.heap (host + (pa - r.pa).toNat + j)) 1) 1 false =
      (as.heap (host + (pa - r.pa).toNat)).setWidth 64 := by
    show lowBytes (disassemble _ 1) 1 = _
    rw [lowBytes_disassemble]
    show (0#64) ||| ((as.heap _).setWidth 64 <<< 0) = _
    rw [BitVec.shiftLeft_zero, BitVec.zero_or, Nat.add_zero]
  exact congrArg (fun v => ((Status.ok, v, as) : Status × W64 × Aspace δ)) hone

/-- a byte stored in host memory -/
def putByte (heap : Nat → BitVec 8) (x : Nat) (b : BitVec 8) : Nat → BitVec 8 :=
  fun y => if y = x then b else heap y

theorem write_byte {as : Aspace δ} (hok : as.Ok) (hram : as.RamOnly) {pa : W64} {x : Nat}
    (hf : (as.find pa 1 permWrite).isSome = true) (hx : as.hostAt pa = some x) (value : W64) :
    as.write pa .byte value = (.ok, { as with heap := putByte as.heap x (value.setWidth 8) }) := by
  obtain ⟨r, hr⟩ := Option.isSome_iff_exists.mp hf
  obtain ⟨host, owned, hb⟩ := hram r (find_mem hr)
  have hat := (hostAt_found hok (n := 1) (by omega) hr hb (i := 0) (by omega)).2
  have hzero : pa + BitVec.ofNat 64 0 = pa := BitVec.add_zero pa
  rw [hzero, hx, Nat.add_zero] at hat
  cases hat
  have hr' : as.find pa (BitVec.ofNat 64 MemSize.byte.bytes) permWrite = some r := hr
  unfold write
  rw [hr']
  dsimp only
  rw [hb]
  dsimp only
  have hheap : assemble as.heap (host + (pa - r.pa).toNat) MemSize.byte.bytes value =
      putByte as.heap (host + (pa - r.pa).toNat) (value.setWidth 8) := by
    funext y
    unfold assemble putByte
    by_cases hy : y = host + (pa - r.pa).toNat
    · subst hy
      rw [if_pos ⟨Nat.le_refl _, Nat.lt_succ_self _⟩, if_pos rfl, Nat.sub_self, Nat.mul_zero,
        BitVec.ushiftRight_zero]
    · rw [if_neg (by rw [show MemSize.byte.bytes = 1 from rfl]; omega), if_neg hy]
  rw [hheap]

end Aspace

/-- byte `i` of a value -/
def byteOf (value : W64) (i : Nat) : BitVec 8 := (value >>> (8 * i)).setWidth 8

theorem byteOf_and (value : W64) (i : Nat) :
    ((value >>> (i * 8)) &&& 0xFF).setWidth 8 = byteOf value i := by
  unfold byteOf
  apply BitVec.eq_of_getLsbD_eq
  intro k hk
  have hmask := mask_bit (show 8 < 64 by decide) k
  rw [show ((1 : W64) <<< 8) - 1 = 0xFF from rfl] at hmask
  rw [BitVec.getLsbD_setWidth, BitVec.getLsbD_and, hmask, BitVec.getLsbD_setWidth, Nat.mul_comm]
  simp [hk]

/-- bytes stored at host bytes, in order: the last of those that share one stays -/
structure Stores (heap heap' : Nat → BitVec 8) (x : Nat → Nat) (value : W64) (i n : Nat) :
    Prop where
  bytes : ∀ j, i ≤ j → j < n → (∀ l, j < l → l < n → x l ≠ x j) → heap' (x j) = byteOf value j
  others : ∀ y, (∀ j, i ≤ j → j < n → x j ≠ y) → heap' y = heap y

theorem Stores.cons {heap heap' : Nat → BitVec 8} {x : Nat → Nat} {value : W64} {i n : Nat}
    (hi : i < n)
    (h : Stores (Aspace.putByte heap (x i) (byteOf value i)) heap' x value (i + 1) n) :
    Stores heap heap' x value i n where
  bytes j hij hj hlast := by
    rcases Nat.eq_or_lt_of_le hij with rfl | hlt
    · rw [h.others (x i) (fun l hl hln => hlast l hl hln)]
      unfold Aspace.putByte
      rw [if_pos rfl]
    · exact h.bytes j hlt hj hlast
  others y hy := by
    rw [h.others y (fun j hij hj => hy j (by omega) hj)]
    unfold Aspace.putByte
    rw [if_neg (fun he => hy i (Nat.le_refl i) hi he.symm)]

theorem writesAt_ram {pa : Nat → W64} {x : Nat → Nat} (value : W64) (k : Nat) :
    ∀ (i : Nat) (as : Aspace δ), as.Ok → as.RamOnly →
      (∀ j, i ≤ j → j < i + k → (as.find (pa j) 1 permWrite).isSome = true ∧
        as.hostAt (pa j) = some (x j)) →
      ∃ heap', writesAt Aspace.memops pa value k i as = (true, { as with heap := heap' }) ∧
        Stores as.heap heap' x value i (i + k) := by
  induction k with
  | zero =>
    intro i as _ _ _
    exact ⟨as.heap, rfl, fun j hij hj => absurd hj (by omega), fun _ _ => rfl⟩
  | succ k ih =>
    intro i as hok hram hat
    obtain ⟨hf, hx⟩ := hat i (Nat.le_refl i) (by omega)
    have hwrite := Aspace.write_byte hok hram hf hx ((value >>> (i * 8)) &&& 0xFF)
    rw [byteOf_and] at hwrite
    obtain ⟨heap', hrun, hstores⟩ := ih (i + 1)
      { as with heap := Aspace.putByte as.heap (x i) (byteOf value i) } hok hram
      (fun j hij hj => hat j (by omega) (by omega))
    refine ⟨heap', ?_, Stores.cons (by omega) ?_⟩
    · unfold writesAt
      rw [show (Aspace.memops : Memops (Aspace δ)).write as (pa i) .byte
        ((value >>> (i * 8)) &&& 0xFF) = _ from hwrite]
      exact hrun
    · rw [show i + (k + 1) = i + 1 + k by omega]
      exact hstores

/-! ## the byte-by-byte path -/

section

variable {σ : Type}

def mmuReadBytes (sr : Sysregs) (phys : Memops σ) (f₀ : MmuFault) (w : MmuWorld σ) (va : W64)
    (size : MemSize) (sx : Bool) : Status × W64 × MmuWorld σ :=
  match translate sr phys w va sr.el false false with
  | (.error f, w) => (.fault, 0, w.pend f)
  | (.ok _, w) =>
    match splitCheck sr phys f₀ va sr.el false size.bytes 0 w with
    | (some f, w) => (.fault, 0, w.pend f)
    | (none, w) =>
      match splitRead sr phys va sr.el size.bytes 0 0 w with
      | (some value, w) => (.ok, if sx then mmuSignExtend value size.bytes else value, w)
      | (none, w) =>
        (.fault, 0, w.pend (refuseRecord sr.el false false .translationNoWalk (-1) va))

def mmuWriteBytes (sr : Sysregs) (phys : Memops σ) (f₀ : MmuFault) (w : MmuWorld σ) (va : W64)
    (size : MemSize) (value : W64) : Status × MmuWorld σ :=
  match translate sr phys w va sr.el true false with
  | (.error f, w) => (.fault, w.pend f)
  | (.ok _, w) =>
    match splitCheck sr phys f₀ va sr.el true size.bytes 0 w with
    | (some f, w) => (.fault, w.pend f)
    | (none, w) =>
      match splitWrite sr phys va sr.el value size.bytes 0 w with
      | (true, w) => (.ok, w)
      | (false, w) => (.fault, w.pend (refuseRecord sr.el false true .translationNoWalk (-1) va))

variable {sr : Sysregs} {phys : Memops σ} {f₀ : MmuFault} {w : MmuWorld σ} {va : W64}
  {size : MemSize}

theorem mmuRead_misaligned (hmis : misaligned va size = true)
    (hpol : alignmentRequired sr (sr.el == .el0) = false) (sx : Bool) :
    mmuRead sr phys f₀ w va size sx = mmuReadBytes sr phys f₀ w va size sx := by
  unfold mmuRead mmuReadBytes mmuReadPhys
  dsimp only
  rw [hmis, hpol]
  rcases translate sr phys w va sr.el false false with ⟨f | pa, w₁⟩
  · rfl
  · dsimp only
    rw [if_neg (by decide), if_pos rfl]
    rcases splitCheck sr phys f₀ va sr.el false size.bytes 0 w₁ with ⟨_ | f, w₂⟩
    · dsimp only
      rcases splitRead sr phys va sr.el size.bytes 0 0 w₂ with ⟨_ | value, w₃⟩
      · rfl
      · rfl
    · rfl

theorem mmuWrite_misaligned (hmis : misaligned va size = true)
    (hpol : alignmentRequired sr (sr.el == .el0) = false) (value : W64) :
    mmuWrite sr phys f₀ w va size value = mmuWriteBytes sr phys f₀ w va size value := by
  unfold mmuWrite mmuWriteBytes
  dsimp only
  rw [hmis, hpol]
  rcases translate sr phys w va sr.el true false with ⟨f | pa, w₁⟩
  · rfl
  · dsimp only
    exact (if_neg (by decide)).trans (if_pos rfl)

end

variable {sr : Sysregs} {f₀ : MmuFault} {mmu : Mmu} {as : Aspace δ} {va : W64} {size : MemSize}

/-- the host byte that byte `i` of an access stands for -/
def HostByte (sr : Sysregs) (w : MmuWorld (Aspace δ)) (isWrite : Bool) (va : W64) (i x : Nat) :
    Prop :=
  ∃ pa, byteAddr sr Aspace.memops w sr.el isWrite va i = .ok pa ∧ w.phys.hostAt pa = some x

theorem ByteServed.host {isWrite : Bool} {w : MmuWorld (Aspace δ)} (hok : w.phys.Ok)
    (hram : w.phys.RamOnly) {i : Nat} (h : ByteServed sr Aspace.memops w sr.el isWrite va i) :
    ∃ pa x, byteAddr sr Aspace.memops w sr.el isWrite va i = .ok pa ∧
      (w.phys.find pa 1 (accessPerm isWrite)).isSome = true ∧ w.phys.hostAt pa = some x := by
  obtain ⟨pa, hpa, hv⟩ := h
  have hf : (w.phys.find pa 1 (accessPerm isWrite)).isSome = true := Aspace.validate_ok.mp hv
  obtain ⟨r, hr⟩ := Option.isSome_iff_exists.mp hf
  obtain ⟨host, owned, hb⟩ := hram r (Aspace.find_mem hr)
  have hat := (Aspace.hostAt_found hok (n := 1) (by omega) hr hb (i := 0) (by omega)).2
  rw [show pa + BitVec.ofNat 64 0 = pa from BitVec.add_zero pa] at hat
  exact ⟨pa, _, hpa, hf, hat⟩

theorem served_bytes {isWrite : Bool} {w : MmuWorld (Aspace δ)} (hok : w.phys.Ok)
    (hram : w.phys.RamOnly) {n : Nat}
    (h : ∀ i < n, ByteServed sr Aspace.memops w sr.el isWrite va i) :
    ∃ (pa : Nat → W64) (x : Nat → Nat), ∀ i < n,
      byteAddr sr Aspace.memops w sr.el isWrite va i = .ok (pa i) ∧
        (w.phys.find (pa i) 1 (accessPerm isWrite)).isSome = true ∧
        w.phys.hostAt (pa i) = some (x i) := by
  have hex : ∀ i, ∃ (pa : W64) (x : Nat), i < n →
      byteAddr sr Aspace.memops w sr.el isWrite va i = .ok pa ∧
        (w.phys.find pa 1 (accessPerm isWrite)).isSome = true ∧ w.phys.hostAt pa = some x := by
    intro i
    by_cases hi : i < n
    · obtain ⟨pa, x, hx⟩ := (h i hi).host hok hram
      exact ⟨pa, x, fun _ => hx⟩
    · exact ⟨0, 0, fun hi' => absurd hi' hi⟩
  choose pa x hx using hex
  exact ⟨pa, x, hx⟩

theorem byteAddr_zero (phys : Memops (Aspace δ)) (w : MmuWorld (Aspace δ)) (isWrite : Bool) :
    byteAddr sr phys w sr.el isWrite va 0 = (translate sr phys w va sr.el isWrite false).1 := by
  unfold byteAddr
  rw [show va + BitVec.ofNat 64 0 = va from BitVec.add_zero va]

theorem access_start (sr : Sysregs) (mmu : Mmu) (hram : as.RamOnly) (va : W64) (isWrite : Bool) :
    SameAddrs sr Aspace.memops sr.el isWrite va ⟨mmu, as⟩
      (translate sr Aspace.memops ⟨mmu, as⟩ va sr.el isWrite false).2 := by
  have h := Aspace.inert_ram.sameAddrs (w := (⟨mmu, as⟩ : MmuWorld (Aspace δ))) hram sr sr.el
    isWrite va (show 0 < 4096 by decide)
  rwa [show va + BitVec.ofNat 64 0 = va from BitVec.add_zero va] at h

/-- **bytes that are all served are read** -/
theorem mmuReadBytes_served (f₀ : MmuFault) (mmu : Mmu) (hok : as.Ok)
    (hram : as.RamOnly) (h8 : size.bytes ≤ 8) (sx : Bool)
    (h : ∀ i < size.bytes, ByteServed sr Aspace.memops ⟨mmu, as⟩ sr.el false va i)
    {pa : Nat → W64} {x : Nat → Nat}
    (hx : ∀ i < size.bytes, byteAddr sr Aspace.memops ⟨mmu, as⟩ sr.el false va i = .ok (pa i) ∧
      (as.find (pa i) 1 permRead).isSome = true ∧ as.hostAt (pa i) = some (x i)) :
    ∃ w', mmuReadBytes sr Aspace.memops f₀ ⟨mmu, as⟩ va size sx =
      (.ok, loaded (disassemble (fun i => as.heap (x i)) size.bytes) size.bytes sx, w') ∧
      w'.phys = as := by
  have h16 := size.bytes_le
  have h0 := (hx 0 size.bytes_pos).1
  rw [byteAddr_zero] at h0
  have hsame := access_start sr mmu hram va false
  unfold mmuReadBytes
  rcases hr : translate sr Aspace.memops ⟨mmu, as⟩ va sr.el false false with ⟨t, w₁⟩
  rw [hr] at h0 hsame
  dsimp only at h0 hsame
  subst h0
  have hI₁ : Aspace.RamOnly w₁.phys := by
    rw [hsame.below]
    exact hram
  obtain ⟨hcheck, hsame₂⟩ := splitCheck_bytes Aspace.inert_ram sr f₀ va sr.el false
    size.bytes 0 w₁ hI₁ (by omega)
  have hnone := hcheck.mpr (fun j _ hj => (hsame.served (by omega)).mpr (h j (by omega)))
  dsimp only
  rcases hs : splitCheck sr Aspace.memops f₀ va sr.el false size.bytes 0 w₁ with ⟨f, w₂⟩
  rw [hs] at hnone hsame₂
  dsimp only at hnone hsame₂
  subst hnone
  have hboth := hsame.trans hsame₂
  have hphys : w₂.phys = as := hboth.below
  obtain ⟨hread, hsame₃⟩ := splitRead_bytes Aspace.inert_ram sr va sr.el
    (fun i => as.heap (x i)) size.bytes 0 w₂ (by rw [hphys]; exact hram) (by omega) (by
      intro j _ hj
      obtain ⟨hpa, hf, hhost⟩ := hx j (by omega)
      refine ⟨pa j, (as.heap (x j)).setWidth 64, ?_, ?_, setWidth_and_byte _⟩
      · rw [hboth.addr j (by omega)]
        exact hpa
      · rw [hphys]
        exact Aspace.read_byte hok hram hf hhost)
  rw [Nat.zero_add] at hread
  rw [show disassemble (fun i => as.heap (x i)) 0 = 0 from rfl] at hread hsame₃
  dsimp only
  rcases hq : splitRead sr Aspace.memops va sr.el size.bytes 0 0 w₂ with ⟨value, w₃⟩
  rw [hq] at hread hsame₃
  dsimp only at hread hsame₃
  subst hread
  refine ⟨w₃, ?_, hsame₃.below.trans hphys⟩
  have hvalue : (if sx then mmuSignExtend (disassemble (fun i => as.heap (x i)) size.bytes)
      size.bytes else disassemble (fun i => as.heap (x i)) size.bytes) =
      loaded (disassemble (fun i => as.heap (x i)) size.bytes) size.bytes sx := by
    cases sx with
    | false => exact (lowBytes_disassemble _ _).symm
    | true =>
      rw [if_pos rfl, ← mmuSignExtend_loaded _ size.bytes_pos h8]
      show _ = mmuSignExtend (lowBytes _ _) _
      rw [lowBytes_disassemble]
  dsimp only
  rw [hvalue]

theorem mmuReadBytes_refused (f₀ : MmuFault) (mmu : Mmu) (hram : as.RamOnly) (sx : Bool)
    (h : ¬ ∀ i < size.bytes, ByteServed sr Aspace.memops ⟨mmu, as⟩ sr.el false va i) :
    ∃ w', mmuReadBytes sr Aspace.memops f₀ ⟨mmu, as⟩ va size sx = (.fault, 0, w') ∧
      w'.phys = as := by
  have h16 := size.bytes_le
  have hsame := access_start sr mmu hram va false
  unfold mmuReadBytes
  rcases hr : translate sr Aspace.memops ⟨mmu, as⟩ va sr.el false false with ⟨f | pa, w₁⟩
  · rw [hr] at hsame
    exact ⟨_, rfl, hsame.below⟩
  · rw [hr] at hsame
    dsimp only at hsame ⊢
    obtain ⟨hcheck, hsame₂⟩ := splitCheck_bytes Aspace.inert_ram sr f₀ va sr.el false
      size.bytes 0 w₁ (by rw [hsame.below]; exact hram) (by omega)
    rcases hs : splitCheck sr Aspace.memops f₀ va sr.el false size.bytes 0 w₁ with ⟨_ | f, w₂⟩
    · rw [hs] at hcheck
      have hall := hcheck.mp rfl
      exact absurd (fun i hi => (hsame.served (by omega)).mp (hall i (Nat.zero_le i) (by omega))) h
    · rw [hs] at hsame₂
      exact ⟨_, rfl, (hsame.trans hsame₂).below⟩

/-- **bytes that are all served are written** -/
theorem mmuWriteBytes_served (f₀ : MmuFault) (mmu : Mmu) (hok : as.Ok)
    (hram : as.RamOnly) (value : W64)
    (h : ∀ i < size.bytes, ByteServed sr Aspace.memops ⟨mmu, as⟩ sr.el true va i)
    {pa : Nat → W64} {x : Nat → Nat}
    (hx : ∀ i < size.bytes, byteAddr sr Aspace.memops ⟨mmu, as⟩ sr.el true va i = .ok (pa i) ∧
      (as.find (pa i) 1 permWrite).isSome = true ∧ as.hostAt (pa i) = some (x i)) :
    ∃ w', mmuWriteBytes sr Aspace.memops f₀ ⟨mmu, as⟩ va size value = (.ok, w') ∧
      w'.phys = (writesAt Aspace.memops pa value size.bytes 0 as).2 := by
  have h16 := size.bytes_le
  have h0 := (hx 0 size.bytes_pos).1
  rw [byteAddr_zero] at h0
  have hsame := access_start sr mmu hram va true
  unfold mmuWriteBytes
  rcases hr : translate sr Aspace.memops ⟨mmu, as⟩ va sr.el true false with ⟨t, w₁⟩
  rw [hr] at h0 hsame
  dsimp only at h0 hsame
  subst h0
  have hI₁ : Aspace.RamOnly w₁.phys := by
    rw [hsame.below]
    exact hram
  obtain ⟨hcheck, hsame₂⟩ := splitCheck_bytes Aspace.inert_ram sr f₀ va sr.el true
    size.bytes 0 w₁ hI₁ (by omega)
  have hnone := hcheck.mpr (fun j _ hj => (hsame.served (by omega)).mpr (h j (by omega)))
  have hgrant := splitCheck_grantedAt Aspace.inert_ram sr f₀ va sr.el true
    (show size.bytes ≤ 4096 by omega) hI₁ hnone pa
    (fun i hi => (hsame.addr i (by omega)).trans (hx i hi).1)
  dsimp only
  rcases hs : splitCheck sr Aspace.memops f₀ va sr.el true size.bytes 0 w₁ with ⟨f, w₂⟩
  rw [hs] at hnone hsame₂ hgrant
  dsimp only at hnone hsame₂ hgrant
  subst hnone
  have hphys : w₂.phys = as := (hsame.trans hsame₂).below
  obtain ⟨hdone, hheap⟩ := splitWrite_granted Aspace.memops value (show size.bytes ≤ 4096 by omega)
    size.bytes 0 w₂ (by omega) hgrant
  obtain ⟨heap', hrun, -⟩ := writesAt_ram value size.bytes 0 as hok hram
    (fun j _ hj => (hx j (by omega)).2)
  rw [hphys] at hdone hheap
  rw [hrun] at hdone
  dsimp only
  rcases hq : splitWrite sr Aspace.memops va sr.el value size.bytes 0 w₂ with ⟨done, w₃⟩
  rw [hq] at hdone hheap
  dsimp only at hdone hheap
  subst hdone
  exact ⟨w₃, rfl, hheap⟩

/-- a byte that is not served refuses the write, and nothing is written -/
theorem mmuWriteBytes_refused (f₀ : MmuFault) (mmu : Mmu) (hram : as.RamOnly) (value : W64)
    (h : ¬ ∀ i < size.bytes, ByteServed sr Aspace.memops ⟨mmu, as⟩ sr.el true va i) :
    ∃ w', mmuWriteBytes sr Aspace.memops f₀ ⟨mmu, as⟩ va size value = (.fault, w') ∧
      w'.phys = as := by
  have h16 := size.bytes_le
  have hsame := access_start sr mmu hram va true
  unfold mmuWriteBytes
  rcases hr : translate sr Aspace.memops ⟨mmu, as⟩ va sr.el true false with ⟨f | pa, w₁⟩
  · rw [hr] at hsame
    exact ⟨_, rfl, hsame.below⟩
  · rw [hr] at hsame
    dsimp only at hsame ⊢
    obtain ⟨hcheck, hsame₂⟩ := splitCheck_bytes Aspace.inert_ram sr f₀ va sr.el true
      size.bytes 0 w₁ (by rw [hsame.below]; exact hram) (by omega)
    rcases hs : splitCheck sr Aspace.memops f₀ va sr.el true size.bytes 0 w₁ with ⟨_ | f, w₂⟩
    · rw [hs] at hcheck
      have hall := hcheck.mp rfl
      exact absurd (fun i hi => (hsame.served (by omega)).mp (hall i (Nat.zero_le i) (by omega))) h
    · rw [hs] at hsame₂
      exact ⟨_, rfl, (hsame.trans hsame₂).below⟩

/-! ## the aligned path -/

/-- every byte of the range lies in some region, but no region holds them all -/
def Straddles (sr : Sysregs) (mmu : Mmu) (as : Aspace δ) (isWrite : Bool) (va : W64) (n : Nat) :
    Prop :=
  ∃ pa, (translate sr Aspace.memops ⟨mmu, as⟩ va sr.el isWrite false).1 = .ok pa ∧
    as.Bytewise pa n (accessPerm isWrite) ∧
    as.find pa (BitVec.ofNat 64 n) (accessPerm isWrite) = none

theorem aligned_on_page (h8 : size.bytes ≤ 8) (hal : misaligned va size = false) {i : Nat}
    (hi : i < size.bytes) : va.toNat % 4096 + i < 4096 := by
  have hmod : va.toNat % size.bytes = 0 := by
    by_contra hne
    rw [misaligned_iff.mpr hne] at hal
    cases hal
  cases size with
  | m128 => exact absurd h8 (by decide)
  | _ =>
    simp only [MemSize.bytes, MemSize.log2] at hmod hi
    omega

theorem aligned_bytes (hm : mmu.Paged) (h8 : size.bytes ≤ 8) (hal : misaligned va size = false)
    {isWrite : Bool} {pa : W64}
    (h : (translate sr Aspace.memops ⟨mmu, as⟩ va sr.el isWrite false).1 = .ok pa) {i : Nat}
    (hi : i < size.bytes) :
    byteAddr sr Aspace.memops ⟨mmu, as⟩ sr.el isWrite va i = .ok (pa + BitVec.ofNat 64 i) :=
  translate_offset (w := (⟨mmu, as⟩ : MmuWorld (Aspace δ))) hm h (aligned_on_page h8 hal hi)

theorem aligned_served (hm : mmu.Paged) (h8 : size.bytes ≤ 8) (hal : misaligned va size = false)
    {isWrite : Bool} {pa : W64}
    (h : (translate sr Aspace.memops ⟨mmu, as⟩ va sr.el isWrite false).1 = .ok pa) :
    (∀ i < size.bytes, ByteServed sr Aspace.memops ⟨mmu, as⟩ sr.el isWrite va i) ↔
      as.Bytewise pa size.bytes (accessPerm isWrite) := by
  constructor
  · intro hs i hi
    obtain ⟨pa', hpa, hv⟩ := hs i hi
    rw [aligned_bytes hm h8 hal h hi] at hpa
    cases hpa
    exact Aspace.validate_ok.mp hv
  · intro hb i hi
    exact ⟨_, aligned_bytes hm h8 hal h hi, Aspace.validate_ok.mpr (hb i hi)⟩

theorem aligned_places (hok : as.Ok) (hm : mmu.Paged) (h8 : size.bytes ≤ 8)
    (hal : misaligned va size = false) (isWrite : Bool) {pa : W64}
    (h : (translate sr Aspace.memops ⟨mmu, as⟩ va sr.el isWrite false).1 = .ok pa)
    {r : AspaceRegion δ}
    (hf : as.find pa (BitVec.ofNat 64 size.bytes) (accessPerm isWrite) = some r) {host : Nat}
    {owned : Bool} (hb : r.backing = .ram host owned) :
    ∀ i < size.bytes,
      byteAddr sr Aspace.memops ⟨mmu, as⟩ sr.el isWrite va i = .ok (pa + BitVec.ofNat 64 i) ∧
        (as.find (pa + BitVec.ofNat 64 i) 1 (accessPerm isWrite)).isSome = true ∧
        as.hostAt (pa + BitVec.ofNat 64 i) = some (host + (pa - r.pa).toNat + i) := by
  intro i hi
  obtain ⟨hfi, hat⟩ := Aspace.hostAt_found hok size.bytes_le hf hb hi
  exact ⟨aligned_bytes hm h8 hal h hi, by rw [hfi]; rfl, hat⟩

/-- the same status, value and memory -/
structure SameRead (a b : Status × W64 × MmuWorld (Aspace δ)) : Prop where
  status : a.1 = b.1
  value : a.2.1 = b.2.1
  memory : a.2.2.phys = b.2.2.phys

structure SameWrite (a b : Status × MmuWorld (Aspace δ)) : Prop where
  status : a.1 = b.1
  memory : a.2.phys = b.2.phys

/-- **an aligned read** is the read of its bytes, unless they straddle two regions -/
theorem mmuRead_aligned (sr : Sysregs) (f₀ : MmuFault) (hok : as.Ok) (hram : as.RamOnly)
    (hm : mmu.Paged) (h8 : size.bytes ≤ 8) (hal : misaligned va size = false) (sx : Bool) :
    (Straddles sr mmu as false va size.bytes →
      ∃ w', mmuRead sr Aspace.memops f₀ ⟨mmu, as⟩ va size sx = (.fault, 0, w') ∧ w'.phys = as) ∧
    (¬ Straddles sr mmu as false va size.bytes →
      SameRead (mmuRead sr Aspace.memops f₀ ⟨mmu, as⟩ va size sx)
        (mmuReadBytes sr Aspace.memops f₀ ⟨mmu, as⟩ va size sx)) := by
  have hsame := access_start sr mmu hram va false
  cases ht : (translate sr Aspace.memops ⟨mmu, as⟩ va sr.el false false).1 with
  | error f =>
    constructor
    · rintro ⟨pa, hpa, -⟩
      rw [ht] at hpa
      cases hpa
    · intro _
      unfold mmuRead mmuReadBytes
      dsimp only
      rcases hr : translate sr Aspace.memops ⟨mmu, as⟩ va sr.el false false with ⟨t, w₁⟩
      rw [hr] at ht
      dsimp only at ht
      subst ht
      exact ⟨rfl, rfl, rfl⟩
  | ok pa =>
    rcases hr : translate sr Aspace.memops ⟨mmu, as⟩ va sr.el false false with ⟨t, w₁⟩
    have htr := hr
    rw [hr] at hsame ht
    dsimp only at hsame ht
    subst ht
    have hphys : w₁.phys = as := hsame.below
    have ht : (translate sr Aspace.memops ⟨mmu, as⟩ va sr.el false false).1 = .ok pa := by rw [hr]
    cases hf : as.find pa (BitVec.ofNat 64 size.bytes) permRead with
    | none =>
      have hv : (Aspace.memops : Memops (Aspace δ)).validate w₁.phys pa
          (BitVec.ofNat 64 size.bytes) permRead = (.fault, as) := by
        rw [hphys]
        exact congrArg (·, as) (Aspace.validate_fault size.ofNat_ne_zero hf)
      have hfault : ∃ w', mmuRead sr Aspace.memops f₀ ⟨mmu, as⟩ va size sx = (.fault, 0, w') ∧
          w'.phys = as := ⟨_, mmuRead_refused f₀ hal sx htr hv (by decide), rfl⟩
      refine ⟨fun _ => hfault, ?_⟩
      intro hns
      obtain ⟨w', hw, hp⟩ := hfault
      obtain ⟨w'', hw', hp'⟩ := mmuReadBytes_refused f₀ mmu hram sx (fun hall =>
        hns ⟨pa, ht, (aligned_served hm h8 hal ht).mp hall, hf⟩)
      rw [hw, hw']
      exact ⟨rfl, rfl, hp.trans hp'.symm⟩
    | some r =>
      obtain ⟨host, owned, hb⟩ := hram r (Aspace.find_mem hf)
      constructor
      · rintro ⟨pa', hpa, -, hnone⟩
        rw [ht] at hpa
        cases hpa
        rw [show accessPerm false = permRead from rfl, hf] at hnone
        cases hnone
      · intro _
        have hv : (Aspace.memops : Memops (Aspace δ)).validate w₁.phys pa
            (BitVec.ofNat 64 size.bytes) permRead = (.ok, as) := by
          rw [hphys]
          exact congrArg (·, as) (Aspace.validate_ok.mpr (by rw [hf]; rfl))
        have hw := mmuRead_one f₀ hal sx htr hv (Aspace.read_loaded h8 false hf hb)
        have hplaces := aligned_places hok hm h8 hal false ht hf hb
        obtain ⟨w'', hw', hp'⟩ := mmuReadBytes_served f₀ mmu hok hram h8 sx
          (fun i hi => ⟨_, (hplaces i hi).1, Aspace.validate_ok.mpr (hplaces i hi).2.1⟩) hplaces
        rw [hw, hw']
        refine ⟨rfl, ?_, hp'.symm⟩
        dsimp only
        cases sx with
        | false => rfl
        | true => rw [if_pos rfl, mmuSignExtend_loaded _ size.bytes_pos h8]

theorem writesAt_row {σ : Type} (phys : Memops σ) (pa value : W64) (k : Nat) :
    ∀ (i : Nat) (p : σ),
      writesAt phys (fun i => pa + BitVec.ofNat 64 i) value k i p =
        byteWrites phys pa value k i p := by
  induction k with
  | zero =>
    intro i p
    rfl
  | succ k ih =>
    intro i p
    unfold writesAt byteWrites
    rcases phys.write p (pa + BitVec.ofNat 64 i) .byte ((value >>> (i * 8)) &&& 0xFF) with ⟨st, p'⟩
    cases st <;> first | exact ih (i + 1) p' | rfl

/-- **an aligned write** is the write of its bytes, unless they straddle two regions -/
theorem mmuWrite_aligned (sr : Sysregs) (f₀ : MmuFault) (hok : as.Ok) (hram : as.RamOnly)
    (hm : mmu.Paged) (h8 : size.bytes ≤ 8) (hal : misaligned va size = false) (value : W64) :
    (Straddles sr mmu as true va size.bytes →
      ∃ w', mmuWrite sr Aspace.memops f₀ ⟨mmu, as⟩ va size value = (.fault, w') ∧ w'.phys = as) ∧
    (¬ Straddles sr mmu as true va size.bytes →
      SameWrite (mmuWrite sr Aspace.memops f₀ ⟨mmu, as⟩ va size value)
        (mmuWriteBytes sr Aspace.memops f₀ ⟨mmu, as⟩ va size value)) := by
  have hsame := access_start sr mmu hram va true
  cases ht : (translate sr Aspace.memops ⟨mmu, as⟩ va sr.el true false).1 with
  | error f =>
    constructor
    · rintro ⟨pa, hpa, -⟩
      rw [ht] at hpa
      cases hpa
    · intro _
      unfold mmuWrite mmuWriteBytes
      dsimp only
      rcases hr : translate sr Aspace.memops ⟨mmu, as⟩ va sr.el true false with ⟨t, w₁⟩
      rw [hr] at ht
      dsimp only at ht
      subst ht
      exact ⟨rfl, rfl⟩
  | ok pa =>
    rcases hr : translate sr Aspace.memops ⟨mmu, as⟩ va sr.el true false with ⟨t, w₁⟩
    have htr := hr
    rw [hr] at hsame ht
    dsimp only at hsame ht
    subst ht
    have hphys : w₁.phys = as := hsame.below
    have ht : (translate sr Aspace.memops ⟨mmu, as⟩ va sr.el true false).1 = .ok pa := by rw [hr]
    cases hf : as.find pa (BitVec.ofNat 64 size.bytes) permWrite with
    | none =>
      have hv : (Aspace.memops : Memops (Aspace δ)).validate w₁.phys pa
          (BitVec.ofNat 64 size.bytes) permWrite = (.fault, as) := by
        rw [hphys]
        exact congrArg (·, as) (Aspace.validate_fault size.ofNat_ne_zero hf)
      have hfault : ∃ w', mmuWrite sr Aspace.memops f₀ ⟨mmu, as⟩ va size value = (.fault, w') ∧
          w'.phys = as := ⟨_, mmuWrite_refused f₀ hal value htr hv (by decide), rfl⟩
      refine ⟨fun _ => hfault, ?_⟩
      intro hns
      obtain ⟨w', hw, hp⟩ := hfault
      obtain ⟨w'', hw', hp'⟩ := mmuWriteBytes_refused f₀ mmu hram value
        (fun hall => hns ⟨pa, ht, (aligned_served hm h8 hal ht).mp hall, hf⟩)
      rw [hw, hw']
      exact ⟨rfl, hp.trans hp'.symm⟩
    | some r =>
      obtain ⟨host, owned, hb⟩ := hram r (Aspace.find_mem hf)
      constructor
      · rintro ⟨pa', hpa, -, hnone⟩
        rw [ht] at hpa
        cases hpa
        rw [show accessPerm true = permWrite from rfl, hf] at hnone
        cases hnone
      · intro _
        have hstore : as.write pa size value = (.ok, { as with
            heap := assemble as.heap (host + (pa - r.pa).toNat) size.bytes value }) := by
          unfold Aspace.write
          rw [hf]
          dsimp only
          rw [hb]
        have hv : (Aspace.memops : Memops (Aspace δ)).validate w₁.phys pa
            (BitVec.ofNat 64 size.bytes) permWrite = (.ok, as) := by
          rw [hphys]
          exact congrArg (·, as) (Aspace.validate_ok.mpr (by rw [hf]; rfl))
        have hw := mmuWrite_one f₀ hal value htr hv hstore
        have hplaces := aligned_places hok hm h8 hal true ht hf hb
        obtain ⟨w'', hw', hp'⟩ := mmuWriteBytes_served f₀ mmu hok hram value
          (fun i hi => ⟨_, (hplaces i hi).1, Aspace.validate_ok.mpr (hplaces i hi).2.1⟩) hplaces
        have hrow := byteWrites_ram value hok hf hb size.bytes 0 (by omega)
        have hnothing : assemble as.heap (host + (pa - r.pa).toNat) 0 value = as.heap := by
          funext y
          exact assemble_outside _ _ _ _ (by omega)
        rw [hnothing, Nat.zero_add] at hrow
        rw [writesAt_row, hrow] at hp'
        rw [hw, hw']
        exact ⟨rfl, hp'.symm⟩

/-! ## the accesses of the layer -/

/-- an access through the layer is an access to the host bytes behind its bytes -/
structure BytewiseAccess (sr : Sysregs) (f₀ : MmuFault) (mmu : Mmu) (as : Aspace δ) (va : W64)
    (size : MemSize) : Prop where
  /-- a read gathers them, little-endian, with the extension asked for -/
  read : ∀ sx v w', mmuRead sr Aspace.memops f₀ ⟨mmu, as⟩ va size sx = (.ok, v, w') →
    w'.phys = as ∧ ∃ x : Nat → Nat,
      (∀ i < size.bytes, HostByte sr ⟨mmu, as⟩ false va i (x i)) ∧
      v = loaded (disassemble (fun i => as.heap (x i)) size.bytes) size.bytes sx
  /-- a write stores to them and to nothing else -/
  write : ∀ value w', mmuWrite sr Aspace.memops f₀ ⟨mmu, as⟩ va size value = (.ok, w') →
    ∃ (x : Nat → Nat) (heap' : Nat → BitVec 8),
      (∀ i < size.bytes, HostByte sr ⟨mmu, as⟩ true va i (x i)) ∧
      w'.phys = { as with heap := heap' } ∧ Stores as.heap heap' x value 0 size.bytes ∧
      ((∀ r ∈ as.regions, as.NonAliased r) →
        ∀ i < size.bytes, ∀ k < size.bytes, x i = x k → i = k)
  /-- a write that fails stores nothing -/
  refused : ∀ value st w', mmuWrite sr Aspace.memops f₀ ⟨mmu, as⟩ va size value = (st, w') →
    st ≠ .ok → w'.phys = as
  /-- the aligned path does what the bytes would, unless they straddle two regions -/
  alignedRead : misaligned va size = false → ∀ sx,
    ¬ Straddles sr mmu as false va size.bytes →
      SameRead (mmuRead sr Aspace.memops f₀ ⟨mmu, as⟩ va size sx)
        (mmuReadBytes sr Aspace.memops f₀ ⟨mmu, as⟩ va size sx)
  alignedWrite : misaligned va size = false → ∀ value,
    ¬ Straddles sr mmu as true va size.bytes →
      SameWrite (mmuWrite sr Aspace.memops f₀ ⟨mmu, as⟩ va size value)
        (mmuWriteBytes sr Aspace.memops f₀ ⟨mmu, as⟩ va size value)
  /-- bytes that straddle two regions are refused to the aligned path -/
  straddlingRead : misaligned va size = false → Straddles sr mmu as false va size.bytes → ∀ sx,
    (mmuRead sr Aspace.memops f₀ ⟨mmu, as⟩ va size sx).1 = .fault
  straddlingWrite : misaligned va size = false → Straddles sr mmu as true va size.bytes →
    ∀ value, (mmuWrite sr Aspace.memops f₀ ⟨mmu, as⟩ va size value).1 = .fault

theorem mmuRead_bytes (hok : as.Ok) (hram : as.RamOnly) (hm : mmu.Paged) (h8 : size.bytes ≤ 8)
    (hpol : alignmentRequired sr (sr.el == .el0) = false) (sx : Bool) {v : W64}
    {w' : MmuWorld (Aspace δ)}
    (h : mmuRead sr Aspace.memops f₀ ⟨mmu, as⟩ va size sx = (.ok, v, w')) :
    SameRead ((.ok, v, w') : Status × W64 × MmuWorld (Aspace δ))
      (mmuReadBytes sr Aspace.memops f₀ ⟨mmu, as⟩ va size sx) := by
  rw [← h]
  cases hmis : misaligned va size with
  | true =>
    rw [mmuRead_misaligned hmis hpol]
    exact ⟨rfl, rfl, rfl⟩
  | false =>
    obtain ⟨hstraddle, hsame⟩ := mmuRead_aligned sr f₀ hok hram hm h8 hmis sx
    refine hsame (fun hs => ?_)
    obtain ⟨w'', hw, -⟩ := hstraddle hs
    rw [h] at hw
    cases hw

theorem mmuWrite_bytes (sr : Sysregs) (f₀ : MmuFault) (va : W64) (hok : as.Ok)
    (hram : as.RamOnly) (hm : mmu.Paged) (h8 : size.bytes ≤ 8)
    (hpol : alignmentRequired sr (sr.el == .el0) = false) (value : W64) :
    SameWrite (mmuWrite sr Aspace.memops f₀ ⟨mmu, as⟩ va size value)
        (mmuWriteBytes sr Aspace.memops f₀ ⟨mmu, as⟩ va size value) ∨
      (mmuWrite sr Aspace.memops f₀ ⟨mmu, as⟩ va size value).1 = .fault ∧
        (mmuWrite sr Aspace.memops f₀ ⟨mmu, as⟩ va size value).2.phys = as := by
  cases hmis : misaligned va size with
  | true =>
    rw [mmuWrite_misaligned hmis hpol]
    exact .inl ⟨rfl, rfl⟩
  | false =>
    obtain ⟨hstraddle, hsame⟩ := mmuWrite_aligned sr f₀ hok hram hm h8 hmis value
    by_cases hs : Straddles sr mmu as true va size.bytes
    · obtain ⟨w', hw, hp⟩ := hstraddle hs
      rw [hw]
      exact .inr ⟨rfl, hp⟩
    · exact .inl (hsame hs)

/-- different bytes of an access stand for different host bytes, unless regions are aliased -/
theorem hostBytes_distinct (hok : as.Ok) (hm : mmu.Paged) (hna : ∀ r ∈ as.regions, as.NonAliased r)
    {isWrite : Bool} {n : Nat} (hn : n ≤ 4096) {x : Nat → Nat}
    (hx : ∀ i < n, HostByte sr ⟨mmu, as⟩ isWrite va i (x i)) :
    ∀ i < n, ∀ k < n, x i = x k → i = k := by
  intro i hi k hk he
  obtain ⟨a, ha, hxa⟩ := hx i hi
  obtain ⟨b, hb, hxb⟩ := hx k hk
  rw [he] at hxa
  cases Aspace.hostAt_inj hok hna hxa hxb
  have hplace : ∀ j, (va + BitVec.ofNat 64 j).toNat = (va.toNat + j) % 2 ^ 64 := by
    intro j
    rw [BitVec.toNat_add, BitVec.toNat_ofNat, Nat.add_mod_mod]
  have h1 := translate_place (w := (⟨mmu, as⟩ : MmuWorld (Aspace δ))) hm ha
  have h2 := translate_place (w := (⟨mmu, as⟩ : MmuWorld (Aspace δ))) hm hb
  rw [hplace] at h1 h2
  omega

/-- **split accesses are bytewise and all or nothing**: over every RAM bus that calls and accesses
lead to, from every reachable state of the layer and with the alignment policy off -/
theorem split_access {heap : Nat → BitVec 8} {dev : δ} {table : Bool} {capacity : Nat}
    {as₀ as : Aspace δ} {l : List (Aspace.Call δ ⊕ BusOp)}
    (hinit : Aspace.init heap dev table capacity = .ok as₀) (hrun : Lts.Run Aspace.Move as₀ l as)
    (hram : as.RamOnly) {mmu : Mmu} (hm : Mmu.Reached (Aspace.memops : Memops (Aspace δ)) mmu)
    (sr : Sysregs) (hpol : alignmentRequired sr (sr.el == .el0) = false) (f₀ : MmuFault) (va : W64)
    {size : MemSize} (h8 : size.bytes ≤ 8) : BytewiseAccess sr f₀ mmu as va size where
  read sx v w' h := by
    have hok := Aspace.ok_moves hinit hrun
    obtain ⟨hst, hv, hp⟩ := mmuRead_bytes hok hram hm.paged h8 hpol sx h
    by_cases hall : ∀ i < size.bytes, ByteServed sr Aspace.memops ⟨mmu, as⟩ sr.el false va i
    · obtain ⟨pa, x, hx⟩ := served_bytes hok hram hall
      obtain ⟨w'', hrd, hp'⟩ := mmuReadBytes_served f₀ mmu hok hram h8 sx hall hx
      rw [hrd] at hv hp
      exact ⟨hp.trans hp', x, fun i hi => ⟨pa i, (hx i hi).1, (hx i hi).2.2⟩, hv⟩
    · obtain ⟨w'', hrd, -⟩ := mmuReadBytes_refused f₀ mmu hram sx hall
      rw [hrd] at hst
      cases hst
  write value w' h := by
    have hok := Aspace.ok_moves hinit hrun
    rcases mmuWrite_bytes sr f₀ va hok hram hm.paged h8 hpol value with
      ⟨hst, hp⟩ | ⟨hst, -⟩
    · rw [h] at hst hp
      by_cases hall : ∀ i < size.bytes, ByteServed sr Aspace.memops ⟨mmu, as⟩ sr.el true va i
      · obtain ⟨pa, x, hx⟩ := served_bytes hok hram hall
        obtain ⟨w'', hwr, hp'⟩ := mmuWriteBytes_served f₀ mmu hok hram value hall hx
        obtain ⟨heap', hstores, hs⟩ := writesAt_ram value size.bytes 0 as hok hram
          (fun j _ hj => (hx j (by omega)).2)
        rw [Nat.zero_add] at hs
        rw [hwr] at hp
        rw [hstores] at hp'
        have hhost : ∀ i < size.bytes, HostByte sr ⟨mmu, as⟩ true va i (x i) :=
          fun i hi => ⟨pa i, (hx i hi).1, (hx i hi).2.2⟩
        have h16 := size.bytes_le
        exact ⟨x, heap', hhost, hp.trans hp', hs, fun hna =>
          hostBytes_distinct hok hm.paged hna (by omega) hhost⟩
      · obtain ⟨w'', hwr, -⟩ := mmuWriteBytes_refused f₀ mmu hram value hall
        rw [hwr] at hst
        cases hst
    · rw [h] at hst
      cases hst
  refused value st w' h hne := by
    have hok := Aspace.ok_moves hinit hrun
    rcases mmuWrite_bytes sr f₀ va hok hram hm.paged h8 hpol value with
      ⟨hst, hp⟩ | ⟨-, hp⟩
    · rw [h] at hst hp
      by_cases hall : ∀ i < size.bytes, ByteServed sr Aspace.memops ⟨mmu, as⟩ sr.el true va i
      · obtain ⟨pa, x, hx⟩ := served_bytes hok hram hall
        obtain ⟨w'', hwr, -⟩ := mmuWriteBytes_served f₀ mmu hok hram value hall hx
        rw [hwr] at hst
        exact absurd hst hne
      · obtain ⟨w'', hwr, hp'⟩ := mmuWriteBytes_refused f₀ mmu hram value hall
        rw [hwr] at hp
        exact hp.trans hp'
    · rw [h] at hp
      exact hp
  alignedRead hal sx :=
    (mmuRead_aligned sr f₀ (Aspace.ok_moves hinit hrun) hram hm.paged h8 hal sx).2
  alignedWrite hal value :=
    (mmuWrite_aligned sr f₀ (Aspace.ok_moves hinit hrun) hram hm.paged h8 hal value).2
  straddlingRead hal hs sx := by
    obtain ⟨w', hw, -⟩ :=
      (mmuRead_aligned sr f₀ (Aspace.ok_moves hinit hrun) hram hm.paged h8 hal sx).1 hs
    rw [hw]
  straddlingWrite hal hs value := by
    obtain ⟨w', hw, -⟩ :=
      (mmuWrite_aligned sr f₀ (Aspace.ok_moves hinit hrun) hram hm.paged h8 hal value).1 hs
    rw [hw]

/-! two pages that are apart in memory -/

/-- a level-2 table at `0x1000` whose first entry is the table at `0x2000`; the first two entries of
that one are the pages `0x5000` and `0x3000`, and the third is empty -/
def emptyPages : Aspace Unit := ⟨[], 1, fun i =>
    if i = 0 then 0x03 else if i = 1 then 0x20
    else if i = 0x1000 then 0x43 else if i = 0x1001 then 0x54
    else if i = 0x1008 then 0x43 else if i = 0x1009 then 0x34 else 0, ()⟩

def pagesRam : Aspace.Call Unit := .mapRamAlias 0x1000 (some 0) 0x8000 7

def pagesBus : Aspace Unit := (emptyPages.call pagesRam).2

/-- translation on, 25-bit regions, tables at `0x1000` -/
def pagesRegs : Sysregs where
  val
    | .sctlrEl1 => 1
    | .tcrEl1 => 39
    | .ttbr0El1 => 0x1000
    | .pstate => 0x3C5
    | _ => 0
  taken := []

theorem pagesBus_ram : pagesBus.RamOnly := by
  intro r hr
  obtain rfl := List.mem_singleton.mp (show r ∈ [⟨0x1000, 0x8000, 7, .ram 0 false⟩] from hr)
  exact ⟨0, false, rfl⟩

def pagesWrite (va : W64) : Status × MmuWorld (Aspace Unit) :=
  mmuWrite pagesRegs Aspace.memops ⟨0, 0⟩ ⟨Mmu.init, pagesBus⟩ va .word 0x11223344

/-- a store across the pages lands on both of them, and one that ends in the empty page on neither -/
theorem split_access_pages :
    BytewiseAccess pagesRegs ⟨0, 0⟩ Mmu.init pagesBus 0xFFE .word ∧
      BytewiseAccess pagesRegs ⟨0, 0⟩ Mmu.init pagesBus 0x1FFE .word ∧
      (pagesWrite 0xFFE).1 = .ok ∧
      [0x4FFE, 0x4FFF, 0x2000, 0x2001].map (pagesWrite 0xFFE).2.phys.heap =
        [0x44, 0x33, 0x22, 0x11] ∧
      (pagesWrite 0x1FFE).1 = .fault ∧ (pagesWrite 0x1FFE).2.phys = pagesBus := by
  have hrun : Lts.Run Aspace.Move emptyPages [.inl pagesRam] pagesBus := .cons (.call _ _) (.nil _)
  have hbytes : ∀ va, BytewiseAccess pagesRegs ⟨0, 0⟩ Mmu.init pagesBus va .word := fun va =>
    split_access (show Aspace.init emptyPages.heap () true 1 = .ok emptyPages from rfl) hrun
      pagesBus_ram .init pagesRegs (by decide) ⟨0, 0⟩ va (show MemSize.word.bytes ≤ 8 by decide)
  have hfault : (pagesWrite 0x1FFE).1 = .fault := by decide +kernel
  refine ⟨hbytes _, hbytes _, by decide +kernel, by decide +kernel, hfault, ?_⟩
  refine (hbytes 0x1FFE).refused 0x11223344 (pagesWrite 0x1FFE).1 (pagesWrite 0x1FFE).2 rfl ?_
  rw [hfault]
  decide

/-! two regions that meet inside a doubleword -/

/-- room for two regions -/
def emptyPair : Aspace Unit := ⟨[], 2, fun i => BitVec.ofNat 8 i, ()⟩

def lowRam : Aspace.Call Unit := .mapRam (some 0) 0x1000 4 7

def highRam : Aspace.Call Unit := .mapRam (some 4) 0x1004 0xFFC 7

def pairBus : Aspace Unit := ((emptyPair.call lowRam).2.call highRam).2

theorem pairBus_run : Lts.Run Aspace.Move emptyPair [.inl lowRam, .inl highRam] pairBus :=
  .cons (.call _ _) (.cons (.call _ _) (.nil _))

theorem pairBus_ram : pairBus.RamOnly := by
  intro r hr
  have hmem : r = ⟨0x1000, 4, 7, .ram 0 true⟩ ∨ r = ⟨0x1004, 0xFFC, 7, .ram 4 true⟩ := by
    have h : r ∈ [⟨0x1000, 4, 7, .ram 0 true⟩, ⟨0x1004, 0xFFC, 7, .ram 4 true⟩] := hr
    simpa using h
  rcases hmem with rfl | rfl
  · exact ⟨0, true, rfl⟩
  · exact ⟨4, true, rfl⟩

/-- an aligned doubleword that straddles the boundary is refused, though its bytes are not -/
theorem aligned_straddles :
    ¬ ∀ (as₀ as : Aspace Unit) (l : List (Aspace.Call Unit ⊕ BusOp)),
        Aspace.init (fun i => BitVec.ofNat 8 i) () true 2 = .ok as₀ → Lts.Run Aspace.Move as₀ l as →
        as.RamOnly → ∀ (sr : Sysregs), alignmentRequired sr (sr.el == .el0) = false →
        ∀ (va : W64) (size : MemSize), size.bytes ≤ 8 → misaligned va size = false → ∀ sx,
        SameRead (mmuRead sr Aspace.memops ⟨0, 0⟩ ⟨Mmu.init, as⟩ va size sx)
          (mmuReadBytes sr Aspace.memops ⟨0, 0⟩ ⟨Mmu.init, as⟩ va size sx) := by
  intro h
  have hsame := (h emptyPair pairBus _ rfl pairBus_run pairBus_ram resetSysregs (by decide) 0x1000
    .dword (by decide) (by decide) false).status
  revert hsame
  decide +kernel

end Oemu
