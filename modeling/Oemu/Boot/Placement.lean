import Oemu.Boot.Start

/-!
# Where boot puts things

A boot builds its tree or is given one with `-dtb`.  A tree that is given is checked and patched: the
command line goes into its boot line, the window of RAM into its memory node.  No ramdisk goes with
it.  Nothing stops a kernel of more than half of RAM, which the tree is written over.

* `bootDtb`, `bootGiven`, `bootWith`   a boot with either tree;
* `bootDtb_patched`     what the file becomes;
* `given_bare`          a tree that is given comes without a ramdisk;
* `boot_placement`      what lies where when the guest starts.
-/

namespace Oemu

variable {δ ε : Type} {o : BootOpts} {host : BootHost δ} {env : ε} {file tree : List Byte}

/-! ## a tree that is given -/

/-- the file with the command line in it, if there is one; `none` where it has no place for it -/
def bootLined (o : BootOpts) (file : List Byte) : Option (List Byte) :=
  match o.cmdline with
  | some c => (dtbPatchBootline file c.bytes).bind fun r => if r.1 then some r.2 else none
  | none => some file

/-- the tree of `-dtb`; `none` is a boot given up, or a patcher outside the file -/
def bootDtb (o : BootOpts) (file : List Byte) : Option (List Byte) :=
  if bootHeaderOk file = false then none
  else (bootLined o file).bind fun blob => (dtbPatchNode blob bootRamBase o.ram).map Prod.snd

/-- the tree, and where the ramdisk goes: with `-dtb` its place is not set -/
def bootGiven (o : BootOpts) (host : BootHost δ) (dtb : Option (List Byte)) :
    Option (W64 × List Byte) :=
  match dtb with
  | some file => (bootDtb o file).map fun tree => (0, tree)
  | none => bootTree o host.scratch host.blob

/-- a boot, up to its first instruction, from the tree of `-dtb` or from its own -/
def bootWith (o : BootOpts) (dtb : Option (List Byte)) (host : BootHost δ) (env : ε) :
    Option (Vcpu (Aspace δ) ε) :=
  bootFrom (bootGiven o host dtb) o host env

/-- the command line is in the file, if there is one to write, and nothing else changed -/
def LineWritten (o : BootOpts) (file blob : List Byte) : Prop :=
  (o.cmdline = none ∧ blob = file) ∨
    ∃ c a, o.cmdline = some c ∧ Rewritten file blob a (bootlineValue c.bytes)

/-- the window of RAM is in the tree, if it has a place for it, and nothing else changed -/
def SizeWritten (o : BootOpts) (blob tree : List Byte) : Prop :=
  tree = blob ∨ ∃ a, Rewritten blob tree a (cellBytes bootRamBase ++ cellBytes o.ram)

/-- a file with what boot writes into it -/
structure FromFile (o : BootOpts) (file tree : List Byte) : Prop where
  header : bootHeaderOk file = true
  patched : ∃ blob, LineWritten o file blob ∧ SizeWritten o blob tree
  length : tree.length = file.length

theorem LineWritten.length {blob : List Byte} (h : LineWritten o file blob) :
    blob.length = file.length := by
  rcases h with ⟨-, rfl⟩ | ⟨c, a, -, hr⟩
  · rfl
  · exact hr.length

theorem SizeWritten.length {blob : List Byte} (h : SizeWritten o blob tree) :
    tree.length = blob.length := by
  rcases h with rfl | ⟨a, hr⟩
  · rfl
  · exact hr.length

theorem bootLined_written (hb : bootHeaderOk file = true) {blob : List Byte}
    (h : bootLined o file = some blob) : LineWritten o file blob := by
  unfold bootLined at h
  cases hc : o.cmdline with
  | none =>
    rw [hc] at h
    exact .inl ⟨hc, (Option.some.inj h).symm⟩
  | some c =>
    rw [hc] at h
    obtain ⟨⟨ok, b⟩, hp, hr⟩ := Option.bind_eq_some_iff.mp h
    cases ok with
    | false => cases hr
    | true =>
      cases hr
      obtain ⟨a, ha⟩ := bootline_rewritten hb hp
      exact .inr ⟨c, a, hc, ha⟩

/-- **a tree that boot accepts** is the file with what boot wrote into it -/
theorem bootDtb_patched (h : bootDtb o file = some tree) : FromFile o file tree := by
  unfold bootDtb at h
  by_cases hb : bootHeaderOk file = false
  · rw [if_pos hb] at h
    cases h
  · rw [if_neg hb] at h
    have hb := Bool.eq_true_of_not_eq_false hb
    obtain ⟨blob, hline, h⟩ := Option.bind_eq_some_iff.mp h
    have hw := bootLined_written hb hline
    obtain ⟨⟨ok, b⟩, hnode, rfl⟩ := Option.map_eq_some_iff.mp h
    have hs : SizeWritten o blob b :=
      node_rewritten (by rw [hw.length]; exact bootHeaderOk_length hb) hnode
    exact ⟨hb, ⟨blob, hw, hs⟩, hs.length.trans hw.length⟩

theorem bootHeaderOk_max (h : bootHeaderOk file = true) : file.length ≤ bootDtbMax := by
  unfold bootHeaderOk at h
  by_contra hlt
  have hdec : decide (file.length > bootDtbMax) = true := decide_eq_true (Nat.not_le.mp hlt)
  simp [hdec] at h

/-! ## no ramdisk with it -/

/-- nothing answers at address zero -/
theorem write_zero {as : Aspace δ} (hok : as.Ok) {blk : Nat}
    (hregs : as.regions = [⟨bootRamBase, o.ram, permAll, .ram blk true⟩,
      ⟨bootUartBase, bootUartSize, permRead ||| permWrite, .device host.uart⟩,
      ⟨bootGicDistBase, bootGicDistSize, permRead ||| permWrite, .device host.dist⟩,
      ⟨bootGicCpuBase, bootGicCpuSize, permRead ||| permWrite, .device host.cpu⟩]) (v : W64) :
    (as.write 0 .byte v).1 ≠ .ok := by
  intro h
  obtain ⟨r, hf, -⟩ := Aspace.write_ok h
  obtain ⟨-, hr, -, hcov⟩ := (Aspace.find_iff hok _ _ _ _).mp hf
  have hlow : r.pa.toNat ≤ (0 : W64).toNat := hcov.1
  have hpa : r.pa ∈ as.regions.map AspaceRegion.pa := List.mem_map_of_mem hr
  rw [hregs] at hpa
  simp only [List.map_cons, List.map_nil, List.mem_cons, List.not_mem_nil, or_false] at hpa
  revert hlow
  rcases hpa with hpa | hpa | hpa | hpa <;> rw [hpa] <;> decide

/-- **a tree that is given comes without a ramdisk**: boot gives up on one of any length -/
theorem given_bare {as as' : Aspace δ} (hlength : tree.length ≤ bootDtbMax + 56)
    (hm : bootMachine host o.ram = some as) (h : bootFiles o 0 tree as = some (.ok, as')) :
    ∀ f, o.initrd = some f → f.bytes = [] := by
  intro f hf
  have hk := bootFiles_placeable h
  have hbus := bootMachine_aspace hm
  obtain ⟨hok, blk, hregs⟩ := bootMachine_regions hm
  have hmib := o.ramMib_pos
  have hsize := o.ram_toNat
  have hdtb := o.dtbPa_toNat
  have hmax : bootDtbMax = 65536 := rfl
  obtain ⟨out, as₁, hload, h₁, hregs₁, -⟩ := kernel_loads hbus hk
  obtain ⟨as₂, htree, h₂, hregs₂, -⟩ : ∃ as', placeBytes as₁ o.dtbPa tree = (.ok, as') ∧
      BootAspace o as' ∧ as'.regions = as₁.regions ∧
      as'.view = laid as₁.view o.dtbPa.toNat tree :=
    placeBytes_ok h₁ (by omega) (by omega)
  have hall : as₂.regions = _ := hregs₂.trans (hregs₁.trans hregs)
  unfold bootFiles at h
  rw [hload, Option.bind_eq_bind, Option.bind_some] at h
  dsimp only at h
  rw [if_neg (not_not.mpr rfl), htree] at h
  dsimp only at h
  rw [if_neg (not_not.mpr rfl), hf] at h
  have hplace : placeBytes as₂ 0 f.bytes = (.ok, as') := Option.some.inj h
  cases hb : f.bytes with
  | nil => rfl
  | cons b bs =>
    rw [hb] at hplace
    unfold placeBytes at hplace
    dsimp only at hplace
    have hzero := write_zero h₂.separate.ok hall (b.setWidth 64)
    rw [if_pos hzero] at hplace
    exact absurd (congrArg Prod.fst hplace) hzero

/-! ## what lies where -/

/-- the tree is of boot's own making and says where the ramdisk is, or it is the file of `-dtb` -/
structure TreeOf (o : BootOpts) (dtb : Option (List Byte)) (pa : W64) (tree : List Byte) :
    Prop where
  built : dtb = none → VirtDtb.Described (o.params pa) tree
  given : ∀ file, dtb = some file → FromFile o file tree

/-- the machine when the guest starts: the tree at the half of RAM, the ramdisk at three quarters of
it, the stack at the top, apart and whole; and of the kernel what neither is written over, which is
all of it if it ends below the tree -/
structure BootPlaced (o : BootOpts) (dtb : Option (List Byte)) (pa : W64) (tree : List Byte)
    (v : Vcpu (Aspace δ) ε) : Prop where
  source : TreeOf o dtb pa tree
  x0 : v.cpu.regs.read 0 .w64 = o.dtbPa
  half : o.dtbPa.toNat = bootRamBase.toNat + o.ram.toNat / 2
  whole : ∀ i < tree.length, v.world.phys.view (o.dtbPa.toNat + i) = tree.getD i 0
  stack : v.cpu.regs.sp.toNat + 16 = bootRamBase.toNat + o.ram.toNat
  aligned : v.cpu.regs.sp.toNat % 16 = 0
  below : o.dtbPa.toNat + tree.length ≤ v.cpu.regs.sp.toNat
  initrd : dtb = none → ∀ f, o.initrd = some f →
    pa.toNat = bootRamBase.toNat + 3 * (o.ram.toNat / 4) ∧
      o.dtbPa.toNat + tree.length ≤ pa.toNat ∧
      pa.toNat + f.bytes.length ≤ v.cpu.regs.sp.toNat ∧
      ∀ i < f.bytes.length, v.world.phys.view (pa.toNat + i) = f.octet i
  bare : dtb ≠ none → ∀ f, o.initrd = some f → f.bytes = []
  text : o.kernel.textOffset < o.kernel.bytes.length ∧ o.kernel.bytes.length ≤ o.ram.toNat
  uncovered : ∀ x, bootRamBase.toNat + o.kernel.textOffset ≤ x →
    x < bootRamBase.toNat + o.kernel.bytes.length →
    ¬ (o.dtbPa.toNat ≤ x ∧ x < o.dtbPa.toNat + tree.length) →
    (∀ f, o.initrd = some f → ¬ (pa.toNat ≤ x ∧ x < pa.toNat + f.bytes.length)) →
    v.world.phys.view x = o.kernel.octet (x - bootRamBase.toNat)
  kernel : o.kernel.bytes.length ≤ o.ram.toNat / 2 →
    bootRamBase.toNat + o.kernel.bytes.length ≤ o.dtbPa.toNat ∧
      ∀ i, o.kernel.textOffset ≤ i → i < o.kernel.bytes.length →
        v.world.phys.view (bootRamBase.toNat + i) = o.kernel.octet i

/-- either tree has room, and so has what goes with it -/
theorem bootGiven_roomy {dtb : Option (List Byte)} {pa : W64} {as as' : Aspace δ}
    (h : bootGiven o host dtb = some (pa, tree)) (hm : bootMachine host o.ram = some as)
    (hfiles : bootFiles o pa tree as = some (.ok, as')) :
    Roomy o pa tree ∧ TreeOf o dtb pa tree ∧
      (dtb ≠ none → ∀ f, o.initrd = some f → f.bytes = []) := by
  cases dtb with
  | none =>
    have hp := bootTree_prepared (show bootTree o host.scratch host.blob = some (pa, tree) from h)
    exact ⟨hp.roomy, ⟨fun _ => hp.described, nofun⟩, fun hne => absurd rfl hne⟩
  | some file =>
    obtain ⟨t, hdtb, he⟩ := Option.map_eq_some_iff.mp h
    obtain ⟨rfl, rfl⟩ := Prod.mk.inj he
    have hfile := bootDtb_patched hdtb
    have hlength : t.length ≤ bootDtbMax + 56 := by
      rw [hfile.length]
      exact Nat.le_add_right_of_le (bootHeaderOk_max hfile.header)
    have hbare := given_bare hlength hm hfiles
    refine ⟨⟨fun f hf => .inl (hbare f hf), hlength⟩, ⟨nofun, ?_⟩, fun _ => hbare⟩
    intro file' he
    rwa [← Option.some.inj he]

/-- **the placement of a boot that reaches the guest** -/
theorem boot_placement (o : BootOpts) (dtb : Option (List Byte)) (host : BootHost δ) (env : ε)
    (v : Vcpu (Aspace δ) ε) (h : bootWith o dtb host env = some v) :
    ∃ pa tree, bootGiven o host dtb = some (pa, tree) ∧ BootPlaced o dtb pa tree v := by
  obtain ⟨pa, tree, entry, as, as', hgiven, -, hmachine, hfiles, hworld, hregs⟩ := bootFrom_some h
  obtain ⟨hroomy, htree, hbare⟩ := bootGiven_roomy hgiven hmachine hfiles
  have hk := bootFiles_placeable hfiles
  obtain ⟨hdtb, hinitrd, hkernel⟩ := files_lie hroomy (bootMachine_aspace hmachine) hk hfiles
  have hmib := o.ramMib_pos
  have hle := o.ramMib_le
  have hsize := o.ram_toNat
  have hhalf := o.dtbPa_toNat
  have hlength := hroomy.length
  have hmax : bootDtbMax = 65536 := rfl
  have hbase : bootRamBase.toNat = 0x40000000 := rfl
  have hsp := hregs.sp
  have hphys : v.world.phys = as' := congrArg MmuWorld.phys hworld
  refine ⟨pa, tree, hgiven, ?_⟩
  rw [← hphys] at hdtb hinitrd hkernel
  refine ⟨htree, hregs.x0, by omega, hdtb, by omega, by omega, by omega, ?_, hbare,
    ⟨hk.text, hk.room⟩, hkernel, ?_⟩
  · rintro rfl f hf
    have hp := bootTree_prepared
      (show bootTree o host.scratch host.blob = some (pa, tree) from hgiven)
    obtain ⟨hpa, hend⟩ := hp.initrd f hf
    exact ⟨by omega, by omega, by omega, hinitrd f hf⟩
  · intro hshort
    refine ⟨by omega, fun i hlo hhi => ?_⟩
    rw [hkernel (bootRamBase.toNat + i) (by omega) (by omega) (by omega) ?_,
      Nat.add_sub_cancel_left]
    intro f hf
    rcases hroomy.apart hf with hnil | hbefore
    · rw [hnil, List.length_nil]
      omega
    · omega

/-- a mebibyte and no ramdisk -/
def mibBoot : BootOpts :=
  { gibBoot with
    initrd := none
    ramMib := 1
    ramMib_pos := by decide
    ramMib_le := by decide
    initrd_lt := by
      intro f h
      cases h }

/-- with a tree of 409 bytes that is given -/
theorem boot_placement_given : ∃ v pa tree,
    bootWith mibBoot (some sampleTree) gibHost () = some v ∧ tree.length = 409 ∧
      BootPlaced mibBoot (some sampleTree) pa tree v := by
  have hsome : (bootWith mibBoot (some sampleTree) gibHost ()).isSome = true := by decide +kernel
  obtain ⟨v, hv⟩ := Option.isSome_iff_exists.mp hsome
  obtain ⟨pa, tree, -, hp⟩ := boot_placement mibBoot (some sampleTree) gibHost () v hv
  have hlen : tree.length = sampleTree.length := (hp.source.given _ rfl).length
  exact ⟨v, pa, tree, hv, hlen.trans (by decide +kernel), hp⟩

/-- what lies at the half of RAM is not that file: the base of RAM is written into its memory node -/
theorem given_tree_differs :
    (bootWith mibBoot (some sampleTree) gibHost ()).map
        (fun v => v.world.phys.view (mibBoot.dtbPa.toNat + 372)) = some 0x40 ∧
      sampleTree.getD 372 0 = 0 := by
  decide +kernel

end Oemu
