import Oemu.Boot.Loop
import Oemu.Boot.Patch
import Oemu.Dev.VirtDtb
import Oemu.Exec.Width
import Oemu.Kernel.Place
import Oemu.Mmu.Flat

/-!
# From power-on to the first instruction

Boot builds a tree of the machine, sets the machine up, loads the kernel at the base of RAM and then
writes, byte by byte, the tree at the half of RAM and the ramdisk at three quarters of it.  The tree
was built before anything was placed, from where the ramdisk was going to lie.

* `bootTree`, `bootMachine`, `bootFiles`, `bootStart`   the steps, and all of them;
* `placeBytes_ok`      what the byte loop leaves;
* `bootFiles_ok`       the files always find their place;
* `files_handOver`     tree and ramdisk are whole and apart, and the tree says where things are;
* `boot_power_on`      when boot reaches the guest, and what the guest finds.
-/

namespace Oemu

open LittleEndian

def bootRamBase : W64 := 0x40000000

def bootInitrdMargin : W64 := 16 <<< 20

def bootUartBase : W64 := 0x09000000

def bootUartSize : W64 := 0x00001000

def bootGicDistBase : W64 := 0x08000000

def bootGicDistSize : W64 := 0x00010000

def bootGicCpuBase : W64 := 0x08010000

def bootGicCpuSize : W64 := 0x00010000

/-- the files and settings boot is given.  No file is half as long as the address space. -/
structure BootOpts where
  kernel : Image
  initrd : Option Image
  cmdline : Option CStr
  rngSeed : Option Blob32
  entry : W64
  ramMib : Nat
  ramMib_pos : 0 < ramMib
  ramMib_le : ramMib ≤ 2 ^ 32
  seed_length : ∀ b, rngSeed = some b → b.bytes.length = 32
  initrd_lt : ∀ f, initrd = some f → f.bytes.length < 2 ^ 63

/-- the three-quarter mark of RAM; zero if the ramdisk does not fit there -/
def bootInitrdAddr (ram len : W64) : W64 :=
  let base := bootRamBase + ram / 4 * 3
  if base + len + bootInitrdMargin > bootRamBase + ram then 0 else base

namespace BootOpts

variable (o : BootOpts)

def ram : W64 := BitVec.ofNat 64 o.ramMib * BitVec.ofNat 64 (2 ^ 20)

def initrdLen : W64 :=
  match o.initrd with
  | some f => f.size
  | none => 0

def dtbPa : W64 := bootRamBase + o.ram / 2

/-- where the ramdisk goes; `none` when boot gives up -/
def initrdPa : Option W64 :=
  match o.initrd with
  | some f =>
    let pa := bootInitrdAddr o.ram f.size
    if pa = 0 then none else some pa
  | none => some 0

def params (pa : W64) : VirtDtb.Params :=
  ⟨bootRamBase, o.ram, pa, pa + o.initrdLen, o.cmdline, o.rngSeed⟩

end BootOpts

/-- the generated tree, and where the ramdisk will lie.  `scratchOk` and `blobOk` are what the
allocator answers; `none` is a boot given up. -/
def bootTree (o : BootOpts) (scratchOk blobOk : Bool) : Option (W64 × List Byte) :=
  match Fdt.init bootDtbMax scratchOk with
  | some (.ok, f) =>
    o.initrdPa.bind fun pa =>
      match VirtDtb.virtDtbBuild (o.params pa) f blobOk with
      | (.ok, f) => f.data.map fun b => (pa, b)
      | _ => none
  | _ => none

section

variable {δ : Type}

def placeBytes (as : Aspace δ) (pa : W64) : List Byte → Status × Aspace δ
  | [] => (.ok, as)
  | b :: bs =>
    let (st, as) := as.write pa .byte (b.setWidth 64)
    if st ≠ .ok then (st, as) else placeBytes as (pa + 1) bs

/-- the kernel, the tree and the ramdisk -/
def bootFiles (o : BootOpts) (pa : W64) (tree : List Byte) (as : Aspace δ) :
    Option (Status × Aspace δ) := do
  let (st, _, as) ← Kernel.load Aspace.memops o.kernel.data bootRamBase o.ram default as
  if st ≠ .ok then some (st, as)
  else
    let (st, as) := placeBytes as o.dtbPa tree
    if st ≠ .ok then some (st, as)
    else
      match o.initrd with
      | some f => some (placeBytes as pa f.bytes)
      | none => some (.ok, as)

/-! ## the byte loop -/

/-- bytes laid over the bytes at `a` -/
def laid (view : Nat → Byte) (a : Nat) (bytes : List Byte) : Nat → Byte := fun x =>
  if a ≤ x ∧ x < a + bytes.length then bytes.getD (x - a) 0 else view x

theorem laid_in {view : Nat → Byte} {a i : Nat} {bytes : List Byte} (h : i < bytes.length) :
    laid view a bytes (a + i) = bytes.getD i 0 := by
  unfold laid
  rw [if_pos (by omega), Nat.add_sub_cancel_left]

theorem laid_off {view : Nat → Byte} {a x : Nat} {bytes : List Byte}
    (h : ¬ (a ≤ x ∧ x < a + bytes.length)) : laid view a bytes x = view x := if_neg h

theorem laid_cons (view : Nat → Byte) (a : Nat) (b : Byte) (bytes : List Byte) :
    laid (assemble view a 1 (b.setWidth 64)) (a + 1) bytes = laid view a (b :: bytes) := by
  funext x
  unfold laid
  rw [List.length_cons]
  by_cases hx : a + 1 ≤ x ∧ x < a + 1 + bytes.length
  · rw [if_pos hx, if_pos (by omega), show x - a = x - (a + 1) + 1 by omega, List.getD_cons_succ]
  · rw [if_neg hx]
    unfold assemble
    by_cases ha : x = a
    · subst ha
      rw [if_pos (by omega), if_pos (by omega), Nat.sub_self, List.getD_cons_zero, Nat.mul_zero,
        BitVec.ushiftRight_zero, BitVec.setWidth_setWidth_of_le _ (by decide),
        BitVec.setWidth_eq]
    · rw [if_neg (by omega), if_neg (by omega)]

/-! ## where things go -/

variable {o : BootOpts} {pa : W64} {tree : List Byte}

theorem BootOpts.ram_toNat : o.ram.toNat = o.ramMib * 2 ^ 20 := by
  have hle := o.ramMib_le
  unfold ram
  rw [BitVec.toNat_mul, toNat_ofNat (by omega), toNat_ofNat (by decide),
    Nat.mod_eq_of_lt (by omega)]

theorem BootOpts.dtbPa_toNat : o.dtbPa.toNat = bootRamBase.toNat + o.ramMib * 2 ^ 19 := by
  have hle := o.ramMib_le
  have hbase : bootRamBase.toNat = 0x40000000 := rfl
  have htwo : (2 : W64).toNat = 2 := rfl
  unfold dtbPa
  rw [BitVec.toNat_add, BitVec.toNat_udiv, ram_toNat, hbase, htwo]
  omega

/-- a ramdisk that is placed lies at three quarters of RAM, with room to spare behind it -/
theorem bootInitrdAddr_fits {len : W64} (hlen : len.toNat < 2 ^ 63)
    (h : bootInitrdAddr o.ram len ≠ 0) :
    (bootInitrdAddr o.ram len).toNat = bootRamBase.toNat + o.ramMib * 2 ^ 18 * 3 ∧
      (bootInitrdAddr o.ram len).toNat + len.toNat + 2 ^ 24 ≤
        bootRamBase.toNat + o.ram.toNat := by
  have hle := o.ramMib_le
  have hram := o.ram_toNat
  have hbase : bootRamBase.toNat = 0x40000000 := rfl
  have hfour : (4 : W64).toNat = 4 := rfl
  have hthree : (3 : W64).toNat = 3 := rfl
  have hmargin : bootInitrdMargin.toNat = 2 ^ 24 := rfl
  have hplace : (bootRamBase + o.ram / 4 * 3).toNat =
      bootRamBase.toNat + o.ramMib * 2 ^ 18 * 3 := by
    rw [BitVec.toNat_add, BitVec.toNat_mul, BitVec.toNat_udiv, hram, hbase, hfour, hthree]
    omega
  unfold bootInitrdAddr at h ⊢
  dsimp only at h ⊢
  by_cases hover : bootRamBase + o.ram / 4 * 3 + len + bootInitrdMargin > bootRamBase + o.ram
  · rw [if_pos hover] at h
    exact absurd rfl h
  · rw [if_neg hover]
    have hlast : (bootRamBase + o.ram / 4 * 3 + len).toNat =
        bootRamBase.toNat + o.ramMib * 2 ^ 18 * 3 + len.toNat := by
      rw [BitVec.toNat_add, hplace, hbase, Nat.mod_eq_of_lt (by omega)]
    have hend : (bootRamBase + o.ram / 4 * 3 + len + bootInitrdMargin).toNat =
        bootRamBase.toNat + o.ramMib * 2 ^ 18 * 3 + len.toNat + 2 ^ 24 := by
      rw [BitVec.toNat_add, hlast, hmargin, hbase, Nat.mod_eq_of_lt (by omega)]
    have htop : (bootRamBase + o.ram).toNat = bootRamBase.toNat + o.ram.toNat := by
      rw [BitVec.toNat_add, hram, hbase, Nat.mod_eq_of_lt (by omega)]
    rw [gt_iff_lt, BitVec.lt_def, Nat.not_lt, hend, htop] at hover
    exact ⟨hplace, by rw [hplace]; exact hover⟩

/-- the tree that boot builds, and where it puts the ramdisk -/
structure Prepared (o : BootOpts) (pa : W64) (tree : List Byte) : Prop where
  initrd : ∀ f, o.initrd = some f →
    pa.toNat = bootRamBase.toNat + o.ramMib * 2 ^ 18 * 3 ∧
      pa.toNat + f.bytes.length + 2 ^ 24 ≤ bootRamBase.toNat + o.ram.toNat
  length : tree.length ≤ bootDtbMax + 56
  described : VirtDtb.Described (o.params pa) tree

/-- the tree and the ramdisk have room where they go; an empty ramdisk needs none -/
structure Roomy (o : BootOpts) (pa : W64) (tree : List Byte) : Prop where
  initrd : ∀ f, o.initrd = some f → f.bytes = [] ∨
    (pa.toNat = bootRamBase.toNat + o.ramMib * 2 ^ 18 * 3 ∧
      pa.toNat + f.bytes.length + 2 ^ 24 ≤ bootRamBase.toNat + o.ram.toNat)
  length : tree.length ≤ bootDtbMax + 56

theorem Prepared.roomy (h : Prepared o pa tree) : Roomy o pa tree where
  initrd f hf := .inr (h.initrd f hf)
  length := h.length

theorem initrdPa_fits (h : o.initrdPa = some pa) {f : Image} (hf : o.initrd = some f) :
    pa.toNat = bootRamBase.toNat + o.ramMib * 2 ^ 18 * 3 ∧
      pa.toNat + f.bytes.length + 2 ^ 24 ≤ bootRamBase.toNat + o.ram.toNat := by
  have hlen : f.size.toNat = f.bytes.length := toNat_ofNat f.fits
  unfold BootOpts.initrdPa at h
  rw [hf] at h
  dsimp only at h
  by_cases h0 : bootInitrdAddr o.ram f.size = 0
  · rw [if_pos h0] at h
    cases h
  · rw [if_neg h0] at h
    have hfits := bootInitrdAddr_fits (by rw [hlen]; exact o.initrd_lt f hf) h0
    rw [hlen, Option.some.inj h] at hfits
    exact hfits

/-- what boot needs to build its tree -/
def TreeFits (o : BootOpts) (scratchOk blobOk : Bool) (pa : W64) : Prop :=
  o.initrdPa = some pa ∧ scratchOk = true ∧ blobOk = true ∧
    VirtDtb.treeBytes (o.params pa) ≤ bootDtbMax + 56

theorem bootTree_some {scratchOk blobOk : Bool}
    (h : bootTree o scratchOk blobOk = some (pa, tree)) :
    TreeFits o scratchOk blobOk pa ∧ tree.length = VirtDtb.treeBytes (o.params pa) ∧
      VirtDtb.Described (o.params pa) tree := by
  unfold bootTree at h
  cases scratchOk with
  | false => cases h
  | true =>
    have hinit : Fdt.init bootDtbMax true = _ := Fdt.init_room (by decide) (by decide)
    generalize (⟨some _, [], bootDtbMax, 1, none, false⟩ : Fdt) = f at hinit
    rw [hinit] at h
    dsimp only at h
    obtain ⟨pa', hpa, hbuild⟩ := Option.bind_eq_some_iff.mp h
    by_cases hfit : blobOk = true ∧ VirtDtb.treeBytes (o.params pa') ≤ bootDtbMax + 56
    · obtain ⟨rfl, hroom⟩ := hfit
      obtain ⟨hok, b, hdata, hlength, htold⟩ := VirtDtb.build_fits hinit hroom
      generalize VirtDtb.virtDtbBuild (o.params pa') f true = r at hbuild hok hdata
      obtain ⟨st, g⟩ := r
      cases hok
      dsimp only at hbuild hdata
      rw [hdata] at hbuild
      cases hbuild
      have hmax : bootDtbMax = 65536 := rfl
      exact ⟨⟨hpa, rfl, rfl, hroom⟩, hlength, (htold (by omega)).1⟩
    · obtain ⟨hst, -⟩ := VirtDtb.build_starves hinit hfit
      generalize VirtDtb.virtDtbBuild (o.params pa') f blobOk = r at hbuild hst
      obtain ⟨st, g⟩ := r
      cases hst
      cases hbuild

theorem bootTree_fits {scratchOk blobOk : Bool} (h : TreeFits o scratchOk blobOk pa) :
    ∃ tree, bootTree o scratchOk blobOk = some (pa, tree) := by
  obtain ⟨hpa, rfl, rfl, hroom⟩ := h
  have hinit : Fdt.init bootDtbMax true = _ := Fdt.init_room (by decide) (by decide)
  obtain ⟨hok, b, hdata, -⟩ := VirtDtb.build_fits hinit hroom
  refine ⟨b, ?_⟩
  unfold bootTree
  rw [hinit]
  dsimp only
  rw [hpa, Option.bind_some]
  generalize VirtDtb.virtDtbBuild (o.params pa) _ true = r at hok hdata
  obtain ⟨st, g⟩ := r
  cases hok
  dsimp only at hdata ⊢
  rw [hdata]
  rfl

theorem bootTree_prepared {scratchOk blobOk : Bool}
    (h : bootTree o scratchOk blobOk = some (pa, tree)) : Prepared o pa tree := by
  obtain ⟨⟨hpa, -, -, hroom⟩, hlength, hdescribed⟩ := bootTree_some h
  exact ⟨fun f hf => initrdPa_fits hpa hf, by omega, hdescribed⟩

/-! ## the hand-over -/

/-- RAM of the size the machine was given, and nothing else that is RAM -/
def BootRam (o : BootOpts) (as : Aspace δ) : Prop :=
  ∀ x, as.OnRam x ↔ bootRamBase.toNat ≤ x ∧ x < bootRamBase.toNat + o.ram.toNat

/-- what the guest starts with: the tree and the ramdisk whole, apart and clear of the top of RAM;
of the kernel all that neither covers; and a tree that says where these are, and the devices -/
structure HandsOver (o : BootOpts) (pa : W64) (tree : List Byte) (as : Aspace δ) : Prop where
  dtb : ∀ i < tree.length, as.view (o.dtbPa.toNat + i) = tree.getD i 0
  initrd : ∀ f, o.initrd = some f → ∀ i < f.bytes.length, as.view (pa.toNat + i) = f.octet i
  apart : ∀ f, o.initrd = some f → o.dtbPa.toNat + tree.length ≤ pa.toNat ∧
    pa.toNat + f.bytes.length + 2 ^ 24 ≤ bootRamBase.toNat + o.ram.toNat
  kernel : ∀ x, bootRamBase.toNat + o.kernel.textOffset ≤ x →
    x < bootRamBase.toNat + o.kernel.bytes.length →
    ¬ (o.dtbPa.toNat ≤ x ∧ x < o.dtbPa.toNat + tree.length) →
    (∀ f, o.initrd = some f → ¬ (pa.toNat ≤ x ∧ x < pa.toNat + f.bytes.length)) →
    as.view x = o.kernel.octet (x - bootRamBase.toNat)
  described : VirtDtb.Described (o.params pa) tree
  uart : fdtFind tree (pathOf [.ofText "pl011@9000000"]) (.ofText "reg") =
    .ok ((Value.u64 bootUartBase).wire ++ (Value.u64 bootUartSize).wire)
  gic : fdtFind tree (pathOf [.ofText "interrupt-controller@8000000"]) (.ofText "reg") =
    .ok ((Value.u64 bootGicDistBase).wire ++ (Value.u64 bootGicDistSize).wire ++
      ((Value.u64 bootGicCpuBase).wire ++ (Value.u64 bootGicCpuSize).wire))

/-! ## the files fit -/

section

variable {σ : Type} {mem : Memops σ} {I : σ → Prop} {img : Image} {p n off : Nat} {load : W64}
  {s : σ} (hI : ∀ s a n v, I s → I (mem.write s a n v).2)
include hI

theorem Kernel.copyWords_ok (hs : I s) (hin : p + off + 8 * n ≤ img.bytes.length)
    (hw : ∀ s k word, I s → k < n →
      (mem.write s (load + BitVec.ofNat 64 (off + 8 * k)) .dword word).1 = .ok) :
    ∃ s', Kernel.copyWords mem img p load n off s = some (.ok, s') ∧ I s' := by
  induction n generalizing off s with
  | zero => exact ⟨s, rfl, hs⟩
  | succ n ih =>
    have h0 := hw s 0 (BitVec.ofNat 64 (img.num (p + off) 8)) hs (Nat.succ_pos n)
    rw [Nat.mul_zero, Nat.add_zero] at h0
    have hnext : ∀ s k word, I s → k < n →
        (mem.write s (load + BitVec.ofNat 64 (off + 8 + 8 * k)) .dword word).1 = .ok := by
      intro s k word hs hk
      have h1 := hw s (k + 1) word hs (Nat.succ_lt_succ hk)
      rw [show off + 8 * (k + 1) = off + 8 + 8 * k by omega] at h1
      exact h1
    obtain ⟨s', hc, hs'⟩ := ih (hI _ _ _ _ hs) (by omega) hnext
    refine ⟨s', ?_, hs'⟩
    unfold Kernel.copyWords
    rw [Kernel.imgLe64_eq (by omega), Option.bind_eq_bind, Option.bind_some]
    dsimp only
    rw [if_neg (not_not.mpr h0)]
    exact hc

theorem Kernel.writeText_ok (hs : I s) (hin : p + n ≤ img.bytes.length)
    (hw : ∀ s k word, I s → 8 * k < n →
      (mem.write s (load + BitVec.ofNat 64 (8 * k)) .dword word).1 = .ok) :
    ∃ s', Kernel.writeText mem img p n load s = some (.ok, s') ∧ I s' := by
  have hcopy : ∃ s₁, Kernel.copyWords mem img p load (n / 8) 0 s = some (.ok, s₁) ∧ I s₁ := by
    refine copyWords_ok hI hs (by omega) ?_
    intro s k word hs hk
    rw [Nat.zero_add]
    exact hw s k word hs (by omega)
  obtain ⟨s₁, hc, hs₁⟩ := hcopy
  unfold Kernel.writeText
  rw [hc, Option.bind_eq_bind, Option.bind_some]
  dsimp only
  rw [if_neg (not_not.mpr rfl)]
  by_cases htail : n / 8 * 8 ≠ n
  · have hlast := hw s₁ (n / 8) (BitVec.ofNat 64 (img.num (p + n / 8 * 8) (n - n / 8 * 8))) hs₁
      (by omega)
    rw [Nat.mul_comm 8 (n / 8)] at hlast
    rw [if_pos htail]
    unfold Kernel.tailWord
    rw [if_pos (by omega), Option.bind_eq_bind, Option.bind_some]
    exact ⟨_, congrArg some (Prod.ext hlast rfl), hI _ _ _ _ hs₁⟩
  · rw [if_neg htail]
    exact ⟨s₁, rfl, hs₁⟩

end

/-- the address space boot sets up: RAM of the size it was given, on its own and open to every
access -/
structure BootAspace (o : BootOpts) (as : Aspace δ) : Prop where
  separate : as.Separate
  ram : BootRam o as
  opened : ∃ r ∈ as.regions, r.pa = bootRamBase ∧ r.size = o.ram ∧ r.perms = permAll ∧
    ∃ host owned, r.backing = .ram host owned

section

variable {as : Aspace δ}

theorem BootAspace.write (h : BootAspace o as) (a : W64) (n : MemSize) (v : W64) :
    BootAspace o (as.write a n v).2 where
  separate := h.separate.write a n v
  ram x := (Aspace.OnRam.write a n v).trans (h.ram x)
  opened := by
    rw [Aspace.write_regions]
    exact h.opened

theorem BootAspace.write_ok (h : BootAspace o as) {a : W64} {n : MemSize}
    (hlo : bootRamBase.toNat ≤ a.toNat)
    (hhi : a.toNat + n.bytes ≤ bootRamBase.toNat + o.ram.toNat) (v : W64) :
    (as.write a n v).1 = .ok := by
  obtain ⟨r, hr, hpa, hsize, hperms, host, owned, hb⟩ := h.opened
  have hcov : r.span.Covers a.toNat n.bytes := by
    show r.pa.toNat ≤ a.toNat ∧ a.toNat + n.bytes ≤ r.pa.toNat + r.size.toNat
    rw [hpa, hsize]
    exact ⟨hlo, hhi⟩
  have hf : as.find a (BitVec.ofNat 64 n.bytes) permWrite = some r := by
    refine (Aspace.find_iff h.separate.ok _ _ _ _).mpr ⟨n.ofNat_ne_zero, hr, ?_, ?_⟩
    · rw [hperms]
      decide
    · rw [n.toNat_bytes]
      exact hcov
  unfold Aspace.write
  rw [hf]
  dsimp only
  rw [hb]

/-- **the byte loop**, where all of it lies in RAM, lays its bytes over the memory -/
theorem placeBytes_ok {bytes : List Byte} {a : W64} (h : BootAspace o as)
    (hlo : bootRamBase.toNat ≤ a.toNat)
    (hhi : a.toNat + bytes.length ≤ bootRamBase.toNat + o.ram.toNat) :
    ∃ as', placeBytes as a bytes = (.ok, as') ∧ BootAspace o as' ∧
      as'.regions = as.regions ∧ as'.view = laid as.view a.toNat bytes := by
  induction bytes generalizing as a with
  | nil =>
    refine ⟨as, rfl, h, rfl, ?_⟩
    funext x
    exact (laid_off (by rw [List.length_nil]; omega)).symm
  | cons b bytes ih =>
    rw [List.length_cons] at hhi
    have hok := h.write_ok (n := .byte) hlo (by show a.toNat + 1 ≤ _; omega) (b.setWidth 64)
    have hview := Aspace.write_view h.separate hok ((h.ram _).mpr (by omega))
    have hmib := o.ramMib_le
    have hsize := o.ram_toNat
    have hbase : bootRamBase.toNat = 0x40000000 := rfl
    have hnext : (a + 1).toNat = a.toNat + 1 := by
      have hone : (1 : W64).toNat = 1 := rfl
      rw [BitVec.toNat_add, hone, Nat.mod_eq_of_lt (by omega)]
    obtain ⟨as', hrest, has', hregs, hlaid⟩ := ih (h.write a .byte (b.setWidth 64)) (a := a + 1)
      (by omega) (by omega)
    refine ⟨as', ?_, has', hregs.trans (Aspace.write_regions _ _ _ _), ?_⟩
    · unfold placeBytes
      dsimp only
      rw [if_neg (not_not.mpr hok)]
      exact hrest
    · rw [hlaid, hview, hnext]
      exact laid_cons as.view a.toNat b bytes

theorem kernel_loads (h : BootAspace o as) (hk : o.kernel.Placeable o.ram.toNat) :
    ∃ out as', Kernel.load Aspace.memops o.kernel.data bootRamBase o.ram default as =
      some (.ok, out, as') ∧ BootAspace o as' ∧ as'.regions = as.regions ∧
      ∀ x, bootRamBase.toNat + o.kernel.textOffset ≤ x →
        x < bootRamBase.toNat + o.kernel.bytes.length →
        as'.view x = o.kernel.octet (x - bootRamBase.toNat) := by
  have htext := hk.text
  have hroom := hk.room
  have hoff := hk.boots.textOffset_lt
  have hmib := o.ramMib_le
  have hsize := o.ram_toNat
  have hbase : bootRamBase.toNat = 0x40000000 := rfl
  have hlen : o.kernel.textLen = o.kernel.bytes.length - o.kernel.textOffset := rfl
  have hload : (bootRamBase + BitVec.ofNat 64 o.kernel.textOffset).toNat =
      bootRamBase.toNat + o.kernel.textOffset := by
    rw [BitVec.toNat_add, toNat_ofNat (by omega), hbase, Nat.mod_eq_of_lt (by omega)]
  have haddr : ∀ k, 8 * k < o.kernel.textLen →
      (bootRamBase + BitVec.ofNat 64 o.kernel.textOffset + BitVec.ofNat 64 (8 * k)).toNat =
        bootRamBase.toNat + o.kernel.textOffset + 8 * k := by
    intro k hk
    rw [BitVec.toNat_add, hload, toNat_ofNat (by omega), hbase, Nat.mod_eq_of_lt (by omega)]
  have hwrites : ∀ s k word, BootAspace o s ∧ s.regions = as.regions →
      8 * k < o.kernel.textLen →
      ((Aspace.memops : Memops (Aspace δ)).write s (bootRamBase + BitVec.ofNat 64
        o.kernel.textOffset + BitVec.ofNat 64 (8 * k)) .dword word).1 = .ok := by
    intro s k word hs hk8
    have hpage := hk.boots.offset.1
    refine hs.1.write_ok ?_ ?_ word
    · rw [haddr k hk8]
      omega
    · rw [haddr k hk8]
      show _ + 8 ≤ _
      omega
  have hkeep : ∀ (s : Aspace δ) a n v, BootAspace o s ∧ s.regions = as.regions →
      BootAspace o (s.write a n v).2 ∧ (s.write a n v).2.regions = as.regions :=
    fun s a n v hs => ⟨hs.1.write a n v, (Aspace.write_regions s a n v).trans hs.2⟩
  obtain ⟨as', hw, has', hregs⟩ : ∃ as', Kernel.writeText Aspace.memops o.kernel
      o.kernel.textOffset o.kernel.textLen (bootRamBase + BitVec.ofNat 64 o.kernel.textOffset)
      as = some (.ok, as') ∧ BootAspace o as' ∧ as'.regions = as.regions :=
    Kernel.writeText_ok hkeep ⟨h, rfl⟩ (by omega) hwrites
  have hdata : o.kernel.data = some o.kernel := by
    unfold Image.data
    rw [if_neg]
    intro hnil
    rw [hnil, List.length_nil] at htext
    exact absurd htext (Nat.not_lt_zero _)
  have hdone := @Kernel.load_placed _ Aspace.memops _ bootRamBase _ default as hk
  rw [hw, Option.bind_some] at hdone
  dsimp only at hdone
  rw [if_neg (not_not.mpr rfl)] at hdone
  obtain ⟨-, -, hview⟩ :=
    Kernel.load_view h.separate (fun i hi => (h.ram _).mpr (by omega)) hdone
  rw [hdata]
  refine ⟨_, as', hdone, has', hregs, ?_⟩
  intro x hlo hhi
  rw [hview]
  unfold Image.overlay
  rw [if_pos (by omega)]
  exact congrArg _ (by omega)

/-- **the files of a boot that got that far always find their place**, one written over the other -/
theorem bootFiles_ok (hp : Roomy o pa tree) (h : BootAspace o as)
    (hk : o.kernel.Placeable o.ram.toNat) :
    ∃ as', bootFiles o pa tree as = some (.ok, as') ∧ BootAspace o as' ∧
      as'.regions = as.regions ∧
      ∃ view : Nat → Byte, (∀ x, bootRamBase.toNat + o.kernel.textOffset ≤ x →
          x < bootRamBase.toNat + o.kernel.bytes.length →
          view x = o.kernel.octet (x - bootRamBase.toNat)) ∧
        as'.view = laid (laid view o.dtbPa.toNat tree) pa.toNat
          (o.initrd.elim [] fun f => f.bytes) := by
  have hmib := o.ramMib_pos
  have hsize := o.ram_toNat
  have hdtb := o.dtbPa_toNat
  have hlength := hp.length
  have hmax : bootDtbMax = 65536 := rfl
  obtain ⟨out, as₁, hload, h₁, hregs₁, hkernel⟩ := kernel_loads h hk
  obtain ⟨as₂, htree, h₂, hregs₂, hview₂⟩ : ∃ as', placeBytes as₁ o.dtbPa tree = (.ok, as') ∧
      BootAspace o as' ∧ as'.regions = as₁.regions ∧
      as'.view = laid as₁.view o.dtbPa.toNat tree :=
    placeBytes_ok h₁ (by omega) (by omega)
  unfold bootFiles
  rw [hload, Option.bind_eq_bind, Option.bind_some]
  dsimp only
  rw [if_neg (not_not.mpr rfl), htree]
  dsimp only
  rw [if_neg (not_not.mpr rfl)]
  cases hf : o.initrd with
  | none =>
    refine ⟨as₂, rfl, h₂, hregs₂.trans hregs₁, as₁.view, hkernel, ?_⟩
    rw [hview₂]
    funext x
    exact (laid_off (by rw [Option.elim_none, List.length_nil]; omega)).symm
  | some f =>
    rcases hp.initrd f hf with hnil | ⟨hpa, hend⟩
    · refine ⟨as₂, ?_, h₂, hregs₂.trans hregs₁, as₁.view, hkernel, ?_⟩
      · show some (placeBytes as₂ pa f.bytes) = _
        rw [hnil]
        rfl
      · rw [hview₂, Option.elim_some, hnil]
        funext x
        exact (laid_off (by rw [List.length_nil]; omega)).symm
    obtain ⟨as₃, hlast, h₃, hregs₃, hview₃⟩ : ∃ as', placeBytes as₂ pa f.bytes = (.ok, as') ∧
        BootAspace o as' ∧ as'.regions = as₂.regions ∧
        as'.view = laid as₂.view pa.toNat f.bytes :=
      placeBytes_ok h₂ (by omega) (by omega)
    refine ⟨as₃, congrArg some hlast, h₃, hregs₃.trans (hregs₂.trans hregs₁), as₁.view, hkernel,
      ?_⟩
    rw [hview₃, hview₂]
    rfl

/-- the tree and the ramdisk whole, and of the kernel all that neither covers -/
structure FilesLie (o : BootOpts) (pa : W64) (tree : List Byte) (view : Nat → Byte) : Prop where
  dtb : ∀ i < tree.length, view (o.dtbPa.toNat + i) = tree.getD i 0
  initrd : ∀ f, o.initrd = some f → ∀ i < f.bytes.length, view (pa.toNat + i) = f.octet i
  kernel : ∀ x, bootRamBase.toNat + o.kernel.textOffset ≤ x →
    x < bootRamBase.toNat + o.kernel.bytes.length →
    ¬ (o.dtbPa.toNat ≤ x ∧ x < o.dtbPa.toNat + tree.length) →
    (∀ f, o.initrd = some f → ¬ (pa.toNat ≤ x ∧ x < pa.toNat + f.bytes.length)) →
    view x = o.kernel.octet (x - bootRamBase.toNat)

theorem Roomy.apart (hp : Roomy o pa tree) {f : Image} (hf : o.initrd = some f) :
    f.bytes = [] ∨ o.dtbPa.toNat + tree.length ≤ pa.toNat := by
  have hmib := o.ramMib_pos
  have hdtb := o.dtbPa_toNat
  have hlength := hp.length
  have hmax : bootDtbMax = 65536 := rfl
  refine (hp.initrd f hf).imp_right fun ⟨hpa, _⟩ => ?_
  omega

theorem files_lie {as' : Aspace δ} (hp : Roomy o pa tree) (h : BootAspace o as)
    (hk : o.kernel.Placeable o.ram.toNat) (hfiles : bootFiles o pa tree as = some (.ok, as')) :
    FilesLie o pa tree as'.view := by
  obtain ⟨as₁, hsame, -, -, view, hkernel, hview⟩ := bootFiles_ok hp h hk
  rw [hfiles] at hsame
  cases hsame
  rw [hview]
  refine ⟨?_, ?_, ?_⟩
  · intro i hi
    rw [laid_off, laid_in hi]
    cases hf : o.initrd with
    | none =>
      rw [Option.elim_none, List.length_nil]
      omega
    | some f =>
      rw [Option.elim_some]
      rcases hp.apart hf with hnil | hbefore
      · rw [hnil, List.length_nil]
        omega
      · omega
  · intro f hf i hi
    rw [hf]
    exact laid_in hi
  · intro x hlo hhi htree hinitrd
    rw [laid_off, laid_off htree]
    · exact hkernel x hlo hhi
    · cases hf : o.initrd with
      | none =>
        rw [Option.elim_none, List.length_nil]
        omega
      | some f => exact hinitrd f hf

theorem files_handOver {as' : Aspace δ} (hp : Prepared o pa tree) (h : BootAspace o as)
    (hk : o.kernel.Placeable o.ram.toNat) (hfiles : bootFiles o pa tree as = some (.ok, as')) :
    HandsOver o pa tree as' := by
  obtain ⟨hdtb, hinitrd, hkernel⟩ := files_lie hp.roomy h hk hfiles
  obtain ⟨-, -, -, -, -, huart, hgic⟩ := hp.described
  refine ⟨hdtb, hinitrd, ?_, hkernel, hp.described, huart, hgic⟩
  intro f hf
  have hmib := o.ramMib_pos
  have hhalf := o.dtbPa_toNat
  have hlength := hp.length
  have hmax : bootDtbMax = 65536 := rfl
  obtain ⟨hpa, hend⟩ := hp.initrd f hf
  exact ⟨by omega, hend⟩

end

/-! ## the machine -/

/-- what a call that went well leaves -/
def ifOk {α : Type} : Status × α → Option α
  | (.ok, a) => some a
  | _ => none

theorem ifOk_some {α : Type} {r : Status × α} {a : α} (h : ifOk r = some a) : r = (.ok, a) := by
  obtain ⟨st, b⟩ := r
  cases st with
  | ok =>
    cases h
    rfl
  | _ => cases h

/-- what the host answers, and the devices it lends -/
structure BootHost (δ : Type) where
  heap : Nat → Byte
  dev : δ
  scratch : Bool
  blob : Bool
  table : Bool
  block : Option Nat
  uart : DeviceOps δ
  dist : DeviceOps δ
  cpu : DeviceOps δ

def bootRegionCapacity : Nat := 8

/-- RAM, the UART and the two windows of the GIC -/
def bootMachine (h : BootHost δ) (ram : W64) : Option (Aspace δ) := do
  let as ← (Aspace.init h.heap h.dev h.table bootRegionCapacity).toOption
  let as ← ifOk (as.mapRam h.block bootRamBase ram permAll)
  let as ← ifOk (as.attachDevice bootUartBase bootUartSize h.uart)
  let as ← ifOk (as.attachDevice bootGicDistBase bootGicDistSize h.dist)
  ifOk (as.attachDevice bootGicCpuBase bootGicCpuSize h.cpu)

section

variable {as as' : Aspace δ}

theorem attached {base size : W64} {ops : DeviceOps δ} (hok : as.Ok)
    (h : ifOk (as.attachDevice base size ops) = some as') :
    as'.Ok ∧ as'.regions =
      as.regions ++ [⟨base, size, permRead ||| permWrite, .device ops⟩] := by
  have hcall := ifOk_some h
  have hok' := hok.call (.attachDevice base size (some ops))
  rw [show as.call (.attachDevice base size (some ops)) = as.attachDevice base size ops from rfl,
    hcall] at hok'
  refine ⟨hok', ?_⟩
  unfold Aspace.attachDevice at hcall
  by_cases hbad : size = 0 ∨ size &&& (size - 1) ≠ 0 ∨ base % size ≠ 0
  · rw [if_pos hbad] at hcall
    cases hcall
  · rw [if_neg hbad] at hcall
    cases hc : as.mapCommon base size (permRead ||| permWrite) with
    | ok =>
      rw [hc] at hcall
      cases hcall
      rfl
    | _ =>
      rw [hc] at hcall
      cases hcall

theorem mapped {block : Option Nat} {base size : W64} {perms : W32} (hok : as.Ok)
    (h : ifOk (as.mapRam block base size perms) = some as') :
    as'.Ok ∧ ∃ host, as'.regions = as.regions ++ [⟨base, size, perms, .ram host true⟩] := by
  have hcall := ifOk_some h
  have hok' := hok.call (.mapRam block base size perms)
  rw [show as.call (.mapRam block base size perms) = as.mapRam block base size perms from rfl,
    hcall] at hok'
  refine ⟨hok', ?_⟩
  unfold Aspace.mapRam at hcall
  cases hc : as.mapCommon base size perms with
  | ok =>
    rw [hc] at hcall
    cases block with
    | none => cases hcall
    | some host =>
      cases hcall
      exact ⟨host, rfl⟩
  | _ =>
    rw [hc] at hcall
    cases hcall

theorem AspaceRegion.window_ram {r : AspaceRegion δ} {w : Span} (h : w ∈ r.window) :
    ∃ host owned, r.backing = .ram host owned := by
  unfold AspaceRegion.window at h
  cases hb : r.backing with
  | ram host owned => exact ⟨host, owned, rfl⟩
  | device ops =>
    rw [hb] at h
    cases h

theorem BootAspace.of_regions {blk : Nat} (hok : as.Ok)
    (hmem : ⟨bootRamBase, o.ram, permAll, .ram blk true⟩ ∈ as.regions)
    (honly : ∀ r ∈ as.regions, (∃ host owned, r.backing = .ram host owned) →
      r = ⟨bootRamBase, o.ram, permAll, .ram blk true⟩) : BootAspace o as := by
  refine ⟨⟨hok, ?_⟩, ?_, ⟨_, hmem, rfl, rfl, rfl, blk, true, rfl⟩⟩
  · intro r hr s hs hne w hw u hu
    have hsame := (honly s hs (AspaceRegion.window_ram hu)).trans
      (honly r hr (AspaceRegion.window_ram hw)).symm
    exact absurd hsame hne
  · intro x
    constructor
    · rintro ⟨r, hr, hx, hb⟩
      rw [honly r hr hb] at hx
      have hx : bootRamBase.toNat ≤ x ∧ x + 1 ≤ bootRamBase.toNat + o.ram.toNat := hx
      omega
    · rintro ⟨hlo, hhi⟩
      refine ⟨_, hmem, ?_, blk, true, rfl⟩
      show bootRamBase.toNat ≤ x ∧ x + 1 ≤ bootRamBase.toNat + o.ram.toNat
      omega

theorem init_empty {heap : Nat → Byte} {dev : δ} {table : Bool} {capacity : Nat}
    (h : (Aspace.init heap dev table capacity).toOption = some as) :
    as.regions = [] ∧ as.Ok := by
  unfold Aspace.init at h
  by_cases hc : capacity = 0
  · rw [if_pos hc] at h
    cases h
  rw [if_neg hc] at h
  cases table with
  | false => cases h
  | true =>
    cases h
    exact ⟨rfl, .nil _⟩

theorem bootMachine_regions {host : BootHost δ} {ram : W64} (h : bootMachine host ram = some as) :
    as.Ok ∧ ∃ blk, as.regions = [⟨bootRamBase, ram, permAll, .ram blk true⟩,
      ⟨bootUartBase, bootUartSize, permRead ||| permWrite, .device host.uart⟩,
      ⟨bootGicDistBase, bootGicDistSize, permRead ||| permWrite, .device host.dist⟩,
      ⟨bootGicCpuBase, bootGicCpuSize, permRead ||| permWrite, .device host.cpu⟩] := by
  obtain ⟨as₀, h₀, h⟩ := Option.bind_eq_some_iff.mp h
  obtain ⟨as₁, h₁, h⟩ := Option.bind_eq_some_iff.mp h
  obtain ⟨as₂, h₂, h⟩ := Option.bind_eq_some_iff.mp h
  obtain ⟨as₃, h₃, h₄⟩ := Option.bind_eq_some_iff.mp h
  obtain ⟨hnil, hok₀⟩ := init_empty h₀
  obtain ⟨hok₁, blk, hr₁⟩ := mapped hok₀ h₁
  obtain ⟨hok₂, hr₂⟩ := attached hok₁ h₂
  obtain ⟨hok₃, hr₃⟩ := attached hok₂ h₃
  obtain ⟨hok, hr₄⟩ := attached hok₃ h₄
  rw [hr₃, hr₂, hr₁, hnil] at hr₄
  exact ⟨hok, blk, hr₄⟩

theorem bootMachine_aspace {host : BootHost δ} (h : bootMachine host o.ram = some as) :
    BootAspace o as := by
  obtain ⟨hok, blk, hregs⟩ := bootMachine_regions h
  refine @BootAspace.of_regions _ _ _ blk hok ?_ ?_
  · rw [hregs]
    exact List.mem_cons_self
  · rw [hregs]
    rintro r hr ⟨host, owned, hb⟩
    simp only [List.mem_cons, List.not_mem_nil, or_false] at hr
    obtain rfl | rfl | rfl | rfl := hr
    · rfl
    · cases hb
    · cases hb
    · cases hb

end

/-! ## the first instruction -/

/-- where the guest starts: where it was told to, or at the text of the kernel -/
def bootEntry (o : BootOpts) : Option W64 := do
  let (st, hdr) ← Kernel.parseHeader o.kernel.data default
  if st ≠ .ok then none
  else
    let entry := if o.entry ≠ 0 then o.entry else bootRamBase + hdr.textOffset.setWidth 64
    if entry &&& 3 ≠ 0 then none
    else if entry < bootRamBase ∨ entry ≥ bootRamBase + o.ram then none
    else some entry

/-- a boot, up to its first instruction; `none` when it is given up -/
def bootStart {ε : Type} (o : BootOpts) (host : BootHost δ) (env : ε) :
    Option (Vcpu (Aspace δ) ε) := do
  let (pa, tree) ← bootTree o host.scratch host.blob
  let entry ← bootEntry o
  let as ← bootMachine host o.ram
  let r ← bootFiles o pa tree as
  let as ← ifOk r
  let v := Vcpu.init as env .el1 entry (bootRamBase + o.ram - 16) (BitVec.ofNat 64 bootQuantum)
  some { v with cpu := { v.cpu with regs := v.cpu.regs.write 0 .w64 o.dtbPa } }

/-- a boot from a tree at hand -/
def bootFrom {ε : Type} (source : Option (W64 × List Byte)) (o : BootOpts) (host : BootHost δ)
    (env : ε) : Option (Vcpu (Aspace δ) ε) := do
  let (pa, tree) ← source
  let entry ← bootEntry o
  let as ← bootMachine host o.ram
  let r ← bootFiles o pa tree as
  let as ← ifOk r
  let v := Vcpu.init as env .el1 entry (bootRamBase + o.ram - 16) (BitVec.ofNat 64 bootQuantum)
  some { v with cpu := { v.cpu with regs := v.cpu.regs.write 0 .w64 o.dtbPa } }

structure StartRegs {ε : Type} (o : BootOpts) (v : Vcpu (Aspace δ) ε) : Prop where
  x0 : v.cpu.regs.read 0 .w64 = o.dtbPa
  sp : v.cpu.regs.sp.toNat = bootRamBase.toNat + o.ram.toNat - 16
  el : v.sr.el = .el1
  entry : v.cpu.regs.pc &&& 3 = 0 ∧ bootRamBase.toNat ≤ v.cpu.regs.pc.toNat ∧
    v.cpu.regs.pc.toNat < bootRamBase.toNat + o.ram.toNat

theorem Sysregs.init_el (r : Regs) (el : El) : (Sysregs.init r el).el = el := by
  have hpstate : (Sysregs.init r el).pstate = pstateMode el ||| daifField := by
    have hne : SysField.pstate ≠ .spEl el := SysField.noConfusion
    unfold Sysregs.init Sysregs.pstate
    rw [Sysregs.set_val_of_ne _ _ hne, Sysregs.set_val_self]
  unfold Sysregs.el
  rw [hpstate]
  cases el <;> decide

theorem bootEntry_inside {e : W64} (h : bootEntry o = some e) :
    e &&& 3 = 0 ∧ bootRamBase.toNat ≤ e.toNat ∧ e.toNat < bootRamBase.toNat + o.ram.toNat := by
  obtain ⟨⟨st, hdr⟩, -, h⟩ := Option.bind_eq_some_iff.mp h
  dsimp only at h
  by_cases hst : st ≠ .ok
  · rw [if_pos hst] at h
    cases h
  rw [if_neg hst] at h
  generalize (if o.entry ≠ 0 then o.entry else bootRamBase + hdr.textOffset.setWidth 64) = entry
    at h
  by_cases h3 : entry &&& 3 ≠ 0
  · rw [if_pos h3] at h
    cases h
  rw [if_neg h3] at h
  by_cases hout : entry < bootRamBase ∨ entry ≥ bootRamBase + o.ram
  · rw [if_pos hout] at h
    cases h
  rw [if_neg hout] at h
  cases h
  have hmib := o.ramMib_le
  have hsize := o.ram_toNat
  have hbase : bootRamBase.toNat = 0x40000000 := rfl
  have htop : (bootRamBase + o.ram).toNat = bootRamBase.toNat + o.ram.toNat := by
    rw [BitVec.toNat_add, hsize, hbase, Nat.mod_eq_of_lt (by omega)]
  obtain ⟨hlo, hhi⟩ := not_or.mp hout
  rw [BitVec.lt_def, Nat.not_lt] at hlo
  rw [ge_iff_le, BitVec.le_def, htop, Nat.not_le] at hhi
  exact ⟨not_not.mp h3, hlo, hhi⟩

theorem bootFiles_placeable {as as' : Aspace δ} (h : bootFiles o pa tree as = some (.ok, as')) :
    o.kernel.Placeable o.ram.toNat := by
  by_contra hp
  obtain ⟨⟨st, out, as₁⟩, hload, h⟩ := Option.bind_eq_some_iff.mp h
  have hst : st ≠ .ok := by
    unfold Image.data at hload
    by_cases hnil : o.kernel.bytes = []
    · rw [if_pos hnil] at hload
      cases hload
      exact Status.noConfusion
    · rw [if_neg hnil] at hload
      obtain ⟨st', hst', hl⟩ := @Kernel.load_refused _ Aspace.memops _ bootRamBase _ default as hp
      rw [hl] at hload
      cases hload
      exact hst'
  dsimp only at h
  rw [if_pos hst] at h
  cases h
  exact hst rfl

section

variable {ε : Type} {host : BootHost δ} {env : ε} {v : Vcpu (Aspace δ) ε}

/-- what a boot that is not given up went through -/
theorem bootFrom_some {source : Option (W64 × List Byte)} (h : bootFrom source o host env = some v) :
    ∃ pa tree entry as as', source = some (pa, tree) ∧
      bootEntry o = some entry ∧ bootMachine host o.ram = some as ∧
      bootFiles o pa tree as = some (.ok, as') ∧ v.world = ⟨Mmu.init, as'⟩ ∧ StartRegs o v := by
  obtain ⟨⟨pa, tree⟩, htree, h⟩ := Option.bind_eq_some_iff.mp h
  obtain ⟨entry, hentry, h⟩ := Option.bind_eq_some_iff.mp h
  obtain ⟨as, hmachine, h⟩ := Option.bind_eq_some_iff.mp h
  obtain ⟨r, hfiles, h⟩ := Option.bind_eq_some_iff.mp h
  obtain ⟨as', hr, h⟩ := Option.bind_eq_some_iff.mp h
  rw [ifOk_some hr] at hfiles
  refine ⟨pa, tree, entry, as, as', htree, hentry, hmachine, hfiles, ?_, ?_⟩
  · rw [← Option.some.inj h]
    rfl
  · have hmib := o.ramMib_le
    have hpos := o.ramMib_pos
    have hsize := o.ram_toNat
    have hbase : bootRamBase.toNat = 0x40000000 := rfl
    have h16 : (16 : W64).toNat = 16 := rfl
    have hinside := bootEntry_inside hentry
    rw [← Option.some.inj h]
    refine ⟨?_, ?_, Sysregs.init_el _ .el1, hinside⟩
    · exact read_write_self (n := 0) _ (by decide) .w64 o.dtbPa
    · show (bootRamBase + o.ram - 16).toNat = _
      rw [BitVec.toNat_sub, BitVec.toNat_add, h16, hsize, hbase]
      omega

theorem bootStart_some (h : bootStart o host env = some v) :
    ∃ pa tree entry as as', bootTree o host.scratch host.blob = some (pa, tree) ∧
      bootEntry o = some entry ∧ bootMachine host o.ram = some as ∧
      bootFiles o pa tree as = some (.ok, as') ∧ v.world = ⟨Mmu.init, as'⟩ ∧ StartRegs o v :=
  bootFrom_some (show bootFrom (bootTree o host.scratch host.blob) o host env = some v from h)

theorem bootStart_fits (hfits : TreeFits o host.scratch host.blob pa)
    (hentry : (bootEntry o).isSome) (hmachine : (bootMachine host o.ram).isSome)
    (hk : o.kernel.Placeable o.ram.toNat) (env : ε) : ∃ v, bootStart o host env = some v := by
  obtain ⟨tree, htree⟩ := bootTree_fits hfits
  obtain ⟨entry, hentry⟩ := Option.isSome_iff_exists.mp hentry
  obtain ⟨as, hmachine⟩ := Option.isSome_iff_exists.mp hmachine
  obtain ⟨as', hfiles, -⟩ :=
    bootFiles_ok (bootTree_prepared htree).roomy (bootMachine_aspace hmachine) hk
  unfold bootStart
  rw [htree, Option.bind_eq_bind, Option.bind_some]
  dsimp only
  rw [hentry, Option.bind_eq_bind, Option.bind_some, hmachine, Option.bind_eq_bind,
    Option.bind_some, hfiles]
  exact ⟨_, rfl⟩

end

/-- **power-on**: boot reaches the first instruction of the guest exactly when its tree fits, the
entry lies in RAM, the machine was set up and the kernel passes the checks of the loader; and then
`x0` holds the address of the tree, which is there, whole, and names the ramdisk, which is there,
whole, too -/
theorem boot_power_on {ε : Type} (o : BootOpts) (host : BootHost δ) (env : ε) :
    ((bootStart o host env).isSome ↔ (∃ pa, TreeFits o host.scratch host.blob pa) ∧
      (bootEntry o).isSome ∧ (bootMachine host o.ram).isSome ∧
      o.kernel.Placeable o.ram.toNat) ∧
    ∀ v, bootStart o host env = some v →
      ∃ pa tree, bootTree o host.scratch host.blob = some (pa, tree) ∧
        HandsOver o pa tree v.world.phys ∧ StartRegs o v := by
  refine ⟨⟨?_, ?_⟩, ?_⟩
  · intro h
    obtain ⟨v, hv⟩ := Option.isSome_iff_exists.mp h
    obtain ⟨pa, tree, entry, as, as', htree, hentry, hmachine, hfiles, -⟩ := bootStart_some hv
    rw [hentry, hmachine]
    exact ⟨⟨pa, (bootTree_some htree).1⟩, rfl, rfl, bootFiles_placeable hfiles⟩
  · rintro ⟨⟨pa, hfits⟩, hentry, hmachine, hk⟩
    obtain ⟨v, hv⟩ := bootStart_fits hfits hentry hmachine hk env
    rw [hv]
    rfl
  · intro v hv
    obtain ⟨pa, tree, entry, as, as', htree, -, hmachine, hfiles, hworld, hregs⟩ :=
      bootStart_some hv
    have hbus := bootMachine_aspace hmachine
    refine ⟨pa, tree, htree, ?_, hregs⟩
    rw [hworld]
    exact files_handOver (bootTree_prepared htree) hbus (bootFiles_placeable hfiles) hfiles

end

/-- a gibibyte, a kernel of 64 bytes and a ramdisk of three -/
def gibBoot : BootOpts where
  kernel := Kernel.truncatedKernel
  initrd := some ⟨[1, 2, 3], by decide⟩
  cmdline := none
  rngSeed := none
  entry := 0
  ramMib := 1024
  ramMib_pos := by decide
  ramMib_le := by decide
  seed_length b h := by cases h
  initrd_lt f h := by
    cases h
    decide

/-- a host that grants everything, and devices that answer -/
def gibHost : BootHost Unit :=
  ⟨fun _ => 0, (), true, true, true, some 0, quietDevice, quietDevice, quietDevice⟩

theorem gibBoot_placeable : gibBoot.kernel.Placeable gibBoot.ram.toNat where
  header := by decide
  boots := ⟨by decide +kernel, by decide +kernel, by decide +kernel, by decide +kernel,
    by decide +kernel⟩
  text := by decide +kernel
  room := by decide +kernel

theorem boot_power_on_gib : ∃ v pa tree, bootStart gibBoot gibHost () = some v ∧
    pa = 0x70000000 ∧ HandsOver gibBoot pa tree v.world.phys ∧ StartRegs gibBoot v := by
  have hpa : gibBoot.initrdPa = some 0x70000000 := by decide +kernel
  have hfits : TreeFits gibBoot gibHost.scratch gibHost.blob 0x70000000 :=
    ⟨hpa, rfl, rfl, by decide +kernel⟩
  have hsome := (boot_power_on gibBoot gibHost ()).1.mpr
    ⟨⟨_, hfits⟩, by decide +kernel, by decide +kernel, gibBoot_placeable⟩
  obtain ⟨v, hv⟩ := Option.isSome_iff_exists.mp hsome
  obtain ⟨pa, tree, htree, hover, hregs⟩ := (boot_power_on gibBoot gibHost ()).2 v hv
  have hsame := (bootTree_some htree).1.1.symm.trans hpa
  exact ⟨v, pa, tree, hv, Option.some.inj hsame, hover, hregs⟩

end Oemu
