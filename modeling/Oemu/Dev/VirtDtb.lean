import Oemu.Fdt.Attempt
import Oemu.Fdt.RoundTrip

/-!
# The device tree of the machine

The tree that describes the machine to its guest is emitted by a fixed order of builder calls, given
up at the first that is refused.  It is built exactly where its blob fits the builder and there is
memory for it, and then a reader finds in it, at every path, what the tree has there; above all
the command line, where the initial ramdisk lies, the seed, if there is one, and the memory.

* `virtDtbBuild`     the calls;
* `tree`             the tree they are the calls of (`calls_tree`);
* `treeBytes`        how long its blob is (`tree_length`);
* `virt_dtb_built`   when the tree is built, and what it says.
-/

namespace Oemu

open Wire

/-- the string of C that a literal is -/
def CStr.ofText (s : String) : CStr where
  bytes := (s.toList.map fun c => BitVec.ofNat 8 c.toNat).takeWhile (· ≠ 0)
  nonzero h := by
    have hb := List.all_eq_true.mp List.all_takeWhile 0 h
    exact absurd hb (by decide)

namespace VirtDtb

structure Params where
  ramBase : W64
  ramSize : W64
  initrdStart : W64
  initrdEnd : W64
  cmdline : Option CStr
  rngSeed : Option Blob32

def uartBase : W64 := 0x09000000

def uartSize : W64 := 0x00001000

def gicDist : W64 := 0x08000000

def gicCpu : W64 := 0x08010000

def gicSize : W64 := 0x00010000

def pl011Clk : W32 := 0x017D7840

def phandleIntc : W32 := 1

def phandleOsc : W32 := 2

def defaultCmdline : CStr :=
  .ofText "console=ttyAMA0 earlycon=pl011,0x9000000 panic=-1"

/-! ## the calls -/

/-- a digit of `%llx` -/
def hexDigit (d : Nat) : Byte :=
  if d < 10 then BitVec.ofNat 8 (0x30 + d) else BitVec.ofNat 8 (0x57 + d)

/-- the digits of `%llx`, the leading zeros left out -/
def hexText (v : W64) : List Byte :=
  (((List.range 15).map fun i => v.toNat / 16 ^ (15 - i) % 16).dropWhile (· = 0) ++
    [v.toNat % 16]).map hexDigit

theorem hexDigit_ne (d : Nat) (hd : d < 16) : hexDigit d ≠ 0 ∧ hexDigit d ≠ slash := by
  revert d
  decide

theorem hexText_length (v : W64) : (hexText v).length ≤ 16 := by
  unfold hexText
  rw [List.length_map, List.length_append]
  have hle := (List.dropWhile_sublist (fun d => decide (d = 0))
    (l := (List.range 15).map fun i => v.toNat / 16 ^ (15 - i) % 16)).length_le
  rw [List.length_map, List.length_range] at hle
  exact Nat.succ_le_succ hle

theorem hexText_mem {v : W64} {b : Byte} (h : b ∈ hexText v) : b ≠ 0 ∧ b ≠ slash := by
  unfold hexText at h
  obtain ⟨d, hd, rfl⟩ := List.mem_map.mp h
  refine hexDigit_ne d ?_
  rcases List.mem_append.mp hd with hd | hd
  · obtain ⟨i, -, rfl⟩ := List.mem_map.mp ((List.dropWhile_sublist _).subset hd)
    exact Nat.mod_lt _ (by decide)
  · rw [List.mem_singleton.mp hd]
    exact Nat.mod_lt _ (by decide)

/-- `memory@` and the base -/
def memoryNode (base : W64) : CStr where
  bytes := (CStr.ofText "memory@").bytes ++ hexText base
  nonzero h := by
    rcases List.mem_append.mp h with h | h
    · exact (CStr.ofText "memory@").nonzero h
    · exact (hexText_mem h).1 rfl

section

variable (name : String)

def openNode : Call := .beginNode (some (.ofText name))

def propStr (value : String) : Call := .propStr (some (.ofText name)) (some (.ofText value))

def propU32 (value : W32) : Call := .propU32 (some (.ofText name)) value

def propU64 (value : W64) : Call := .propU64 (some (.ofText name)) value

def propEmpty : Call := .propEmpty (some (.ofText name))

def propCells (cells : List W32) : Call := .propCells (some (.ofText name)) (some cells)

def propStrv (values : List String) : Call :=
  .propStrv (some (.ofText name)) (some (values.map fun s => some (.ofText s)))

end

/-- the four cells of an address and a size -/
def reg64 (addr size : W64) : List W32 :=
  [(addr >>> 32).setWidth 32, addr.setWidth 32, (size >>> 32).setWidth 32, size.setWidth 32]

def propReg64 (name : String) (addr size : W64) : Call := propCells name (reg64 addr size)

def propIrq (name : String) (spec : List W32) : Call := propCells name spec

variable (p : Params)

/-- a seed that is there and not empty -/
def Params.seed : Option Blob32 := p.rngSeed.filter fun b => b.bytes ≠ []

def emitSeed : List Call :=
  match p.seed with
  | some seed => [.propBytes (some (.ofText "rng-seed")) (some seed)]
  | none => []

def emitChosen : List Call :=
  [openNode "chosen",
    .propStr (some (.ofText "bootargs")) (some (p.cmdline.getD defaultCmdline)),
    propU64 "linux,initrd-start" p.initrdStart,
    propU64 "linux,initrd-end" p.initrdEnd,
    propStr "stdout-path" "/pl011@9000000"] ++ emitSeed p ++ [.endNode]

def emitRootProps : List Call :=
  [propU32 "#address-cells" 2, propU32 "#size-cells" 2, propStr "compatible" "linux,dummy-virt",
    propStr "model" "oemu-virt", propU32 "interrupt-parent" phandleIntc]

def emitPsci : List Call :=
  [openNode "psci", propStr "compatible" "arm,psci-1.0", propStr "method" "smc",
    propU32 "cpu_on" 0xC4000003, propU32 "cpu_off" 0x84000002, propU32 "cpu_suspend" 0xC4000001,
    propU32 "migrate" 0xC4000005, .endNode]

def emitMemory : List Call :=
  [.beginNode (some (memoryNode p.ramBase)), propStr "device_type" "memory",
    propReg64 "reg" p.ramBase p.ramSize, .endNode]

def emitCpus : List Call :=
  [openNode "cpus", propU32 "#address-cells" 1, propU32 "#size-cells" 0, openNode "cpu@0",
    propStr "device_type" "cpu", propStr "compatible" "arm,cortex-a53",
    propStr "enable-method" "psci", propU32 "reg" 0, .endNode, .endNode]

def emitIntc : List Call :=
  [openNode "interrupt-controller@8000000", propStr "compatible" "arm,cortex-a15-gic",
    propCells "reg" (reg64 gicDist gicSize ++ reg64 gicCpu gicSize),
    propU32 "#interrupt-cells" 3, propEmpty "interrupt-controller", propU32 "phandle" phandleIntc,
    .endNode]

def emitTimer : List Call :=
  [openNode "timer", propStr "compatible" "arm,armv8-timer",
    propIrq "interrupts" [1, 13, 0xf04, 1, 14, 0xf04, 1, 11, 0xf04, 1, 10, 0xf04],
    propEmpty "always-on", .endNode]

def emitOsc : List Call :=
  [openNode "oscillator", propStr "compatible" "fixed-clock", propU32 "#clock-cells" 0,
    propU32 "clock-frequency" pl011Clk, propU32 "phandle" phandleOsc, .endNode]

def emitPl011 : List Call :=
  [openNode "pl011@9000000", propStrv "compatible" ["arm,pl011", "arm,primecell"],
    propReg64 "reg" uartBase uartSize, propIrq "interrupts" [0, 1, 4],
    propCells "clocks" [phandleOsc, phandleOsc],
    propStrv "clock-names" ["uartclk", "apb_pclk"], .endNode]

def emitAliases : List Call := [openNode "aliases", propStr "serial0" "/pl011@9000000", .endNode]

/-- the tree under the root that `init` opened, and the blob, for which the allocator answers
`allocOk` -/
def virtDtbBuild (f : Fdt) (allocOk : Bool) : Status × Fdt :=
  f.attempt (emitRootProps ++ (emitChosen p ++ (emitAliases ++ (emitPsci ++ (emitMemory p ++
    (emitCpus ++ (emitIntc ++ (emitTimer ++ (emitOsc ++ (emitPl011 ++
      [.endNode, .finish allocOk]))))))))))

/-! ## the tree -/

section

variable (name : String)

def str (value : String) (rest : Items) : Items := .prop (.ofText name) (.str (.ofText value)) rest

def u32 (value : W32) (rest : Items) : Items := .prop (.ofText name) (.u32 value) rest

def u64 (value : W64) (rest : Items) : Items := .prop (.ofText name) (.u64 value) rest

def cells (value : List W32) (rest : Items) : Items := .prop (.ofText name) (.cells value) rest

def strv (values : List String) (rest : Items) : Items :=
  .prop (.ofText name) (.strv (values.map fun s => .ofText s)) rest

def flag (rest : Items) : Items := .prop (.ofText name) .empty rest

def node (body rest : Items) : Items := .node (.ofText name) body rest

end

def seedItem : Items :=
  match p.seed with
  | some seed => .prop (.ofText "rng-seed") (.bytes seed) .nil
  | none => .nil

def chosen : Items :=
  .prop (.ofText "bootargs") (.str (p.cmdline.getD defaultCmdline)) <|
    u64 "linux,initrd-start" p.initrdStart <| u64 "linux,initrd-end" p.initrdEnd <|
    str "stdout-path" "/pl011@9000000" <| seedItem p

def aliases : Items := str "serial0" "/pl011@9000000" .nil

def psci : Items :=
  str "compatible" "arm,psci-1.0" <| str "method" "smc" <| u32 "cpu_on" 0xC4000003 <|
    u32 "cpu_off" 0x84000002 <| u32 "cpu_suspend" 0xC4000001 <| u32 "migrate" 0xC4000005 .nil

def memory : Items :=
  str "device_type" "memory" <| cells "reg" (reg64 p.ramBase p.ramSize) .nil

def cpu : Items :=
  str "device_type" "cpu" <| str "compatible" "arm,cortex-a53" <| str "enable-method" "psci" <|
    u32 "reg" 0 .nil

def cpus : Items := u32 "#address-cells" 1 <| u32 "#size-cells" 0 <| node "cpu@0" cpu .nil

def intc : Items :=
  str "compatible" "arm,cortex-a15-gic" <|
    cells "reg" (reg64 gicDist gicSize ++ reg64 gicCpu gicSize) <| u32 "#interrupt-cells" 3 <|
    flag "interrupt-controller" <| u32 "phandle" phandleIntc .nil

def timer : Items :=
  str "compatible" "arm,armv8-timer" <|
    cells "interrupts" [1, 13, 0xf04, 1, 14, 0xf04, 1, 11, 0xf04, 1, 10, 0xf04] <|
    flag "always-on" .nil

def osc : Items :=
  str "compatible" "fixed-clock" <| u32 "#clock-cells" 0 <| u32 "clock-frequency" pl011Clk <|
    u32 "phandle" phandleOsc .nil

def pl011 : Items :=
  strv "compatible" ["arm,pl011", "arm,primecell"] <| cells "reg" (reg64 uartBase uartSize) <|
    cells "interrupts" [0, 1, 4] <| cells "clocks" [phandleOsc, phandleOsc] <|
    strv "clock-names" ["uartclk", "apb_pclk"] .nil

/-- the nodes after the memory -/
def devices : Items :=
  node "cpus" cpus <| node "interrupt-controller@8000000" intc <| node "timer" timer <|
    node "oscillator" osc <| node "pl011@9000000" pl011 .nil

/-- **the tree of the machine** -/
def tree : Items :=
  u32 "#address-cells" 2 <| u32 "#size-cells" 2 <| str "compatible" "linux,dummy-virt" <|
    str "model" "oemu-virt" <| u32 "interrupt-parent" phandleIntc <| node "chosen" (chosen p) <|
    node "aliases" aliases <| node "psci" psci <| .node (memoryNode p.ramBase) (memory p) devices

variable {p} {allocOk : Bool}

theorem seedItem_calls : (seedItem p).calls = emitSeed p := by
  unfold seedItem emitSeed
  cases p.seed with
  | none => rfl
  | some seed => rfl

theorem chosen_calls (rest : Items) :
    (node "chosen" (chosen p) rest).calls = emitChosen p ++ rest.calls := by
  unfold emitChosen
  rw [← seedItem_calls, List.append_assoc, List.append_assoc]
  rfl

theorem calls_tree : (tree p).calls ++ [.endNode, .finish allocOk] =
    emitRootProps ++ (emitChosen p ++ (emitAliases ++ (emitPsci ++ (emitMemory p ++
      (emitCpus ++ (emitIntc ++ (emitTimer ++ (emitOsc ++ (emitPl011 ++
        [.endNode, .finish allocOk]))))))))) := by
  have hroot : (tree p).calls = emitRootProps ++ (node "chosen" (chosen p) (node "aliases" aliases
      (node "psci" psci (.node (memoryNode p.ramBase) (memory p) devices)))).calls := rfl
  rw [hroot, chosen_calls, List.append_assoc, List.append_assoc]
  rfl

theorem memoryNode_head (base : W64) : (memoryNode base).bytes.head? = some 0x6D := rfl

theorem memoryNode_slash (base : W64) : slash ∉ (memoryNode base).bytes := by
  intro h
  rcases List.mem_append.mp h with h | h
  · exact absurd h (by decide)
  · exact (hexText_mem h).2 rfl

theorem memoryNode_length (base : W64) : (memoryNode base).bytes.length ≤ 23 := by
  show (_ ++ hexText base).length ≤ 23
  rw [List.length_append]
  exact Nat.add_le_add_left (hexText_length base) 7

example : memoryNode 0x40000000 = .ofText "memory@40000000" := by decide

theorem seedItem_wellFormed : (seedItem p).WellFormed := by
  unfold seedItem
  cases p.seed with
  | none => trivial
  | some seed => exact ⟨List.not_mem_nil, trivial⟩

theorem seedItem_propNames : (seedItem p).propNames ⊆ [(CStr.ofText "rng-seed").bytes] := by
  unfold seedItem
  cases p.seed with
  | none => exact List.nil_subset _
  | some seed => exact List.Subset.refl _

/-- the bytes of names -/
def texts (names : List String) : List (List Byte) := names.map fun s => (CStr.ofText s).bytes

theorem seed_fresh {s : List Byte} {l : List (List Byte)} (h : s ∉ l ++ texts ["rng-seed"]) :
    s ∉ l ++ (seedItem p).propNames := by
  intro hm
  rcases List.mem_append.mp hm with hm | hm
  · exact h (List.mem_append_left _ hm)
  · exact h (List.mem_append_right _ (seedItem_propNames hm))

theorem chosen_wellFormed : (chosen p).WellFormed :=
  ⟨seed_fresh (l := texts ["linux,initrd-start", "linux,initrd-end", "stdout-path"]) (by decide),
    seed_fresh (l := texts ["linux,initrd-end", "stdout-path"]) (by decide),
    seed_fresh (l := texts ["stdout-path"]) (by decide), seed_fresh (l := []) (by decide),
    seedItem_wellFormed⟩

theorem memory_wellFormed : (memory p).WellFormed :=
  ⟨(by decide : (CStr.ofText "device_type").bytes ∉ texts ["reg"]), List.not_mem_nil, trivial⟩

theorem devices_wellFormed : devices.WellFormed := by
  decide

/-- a name that does not start like the memory's -/
theorem memory_fresh {s : List Byte} {l k : List (List Byte)} {base : W64}
    (hs : s.head? ≠ some 0x6D) (hl : s ∉ l ++ k) : s ∉ l ++ (memoryNode base).bytes :: k := by
  intro h
  rcases List.mem_append.mp h with h | h
  · exact hl (List.mem_append_left _ h)
  · rcases List.mem_cons.mp h with rfl | h
    · exact hs (memoryNode_head base)
    · exact hl (List.mem_append_right _ h)

theorem tree_wellFormed : (tree p).WellFormed := by
  refine ⟨(by decide : (CStr.ofText "#address-cells").bytes ∉
      texts ["#size-cells", "compatible", "model", "interrupt-parent"]),
    (by decide : (CStr.ofText "#size-cells").bytes ∉
      texts ["compatible", "model", "interrupt-parent"]),
    (by decide : (CStr.ofText "compatible").bytes ∉ texts ["model", "interrupt-parent"]),
    (by decide : (CStr.ofText "model").bytes ∉ texts ["interrupt-parent"]),
    List.not_mem_nil, ?_⟩
  refine ⟨by decide, by decide,
    memory_fresh (l := texts ["aliases", "psci"]) (k := devices.childNames) (by decide)
      (by decide), chosen_wellFormed, ?_⟩
  refine ⟨by decide, by decide,
    memory_fresh (l := texts ["psci"]) (k := devices.childNames) (by decide) (by decide),
    by decide, ?_⟩
  refine ⟨by decide, by decide,
    memory_fresh (l := []) (k := devices.childNames) (by decide) (by decide), by decide, ?_⟩
  refine ⟨List.cons_ne_nil _ _, memoryNode_slash _, ?_, memory_wellFormed, devices_wellFormed⟩
  intro h
  have hheads : ∀ s ∈ devices.childNames, s.head? ≠ some 0x6D := by
    decide
  exact hheads _ h (memoryNode_head _)

theorem seedItem_height : (seedItem p).height = 0 := by
  unfold seedItem
  cases p.seed with
  | none => rfl
  | some seed => rfl

theorem tree_height : (tree p).height < fdtMaxDepth := by
  show max ((seedItem p).height + 1) 2 < _
  rw [seedItem_height]
  decide

theorem seedItem_nameable : (seedItem p).Nameable := by
  unfold seedItem
  cases p.seed with
  | none => trivial
  | some seed => exact ⟨by decide, by decide, trivial⟩

theorem chosen_nameable : (chosen p).Nameable :=
  ⟨by decide, by decide, by decide, by decide, by decide, by decide, by decide, by decide,
    seedItem_nameable⟩

theorem tree_nameable : (tree p).Nameable := by
  have hmemory : (Items.node (memoryNode p.ramBase) (memory p) devices).Nameable :=
    ⟨Nat.lt_of_le_of_lt (memoryNode_length _) (by decide),
      ⟨by decide, by decide, by decide, by decide, trivial⟩, by decide⟩
  exact ⟨by decide, by decide, by decide, by decide, by decide, by decide, by decide, by decide,
    by decide, by decide, by decide, chosen_nameable, by decide, by decide, by decide, by decide,
    hmemory⟩

/-! ## how long it is -/

variable (p) in
def treeBytes : Nat :=
  1621 + pad4 ((p.cmdline.getD defaultCmdline).bytes.length + 1) +
    pad4 ((memoryNode p.ramBase).bytes.length + 1) +
    (match p.seed with
      | some seed => 21 + pad4 seed.bytes.length
      | none => 0)

theorem seedItem_bytes : (seedItem p).size + (seedItem p).names.length =
    (match p.seed with
      | some seed => 21 + pad4 seed.bytes.length
      | none => 0) := by
  unfold seedItem
  cases p.seed with
  | none => rfl
  | some seed =>
    have hname : (CStr.ofText "rng-seed").wire.length = 9 := by
      decide
    show 12 + pad4 seed.bytes.length + 0 + ((CStr.ofText "rng-seed").wire ++ []).length =
      21 + pad4 seed.bytes.length
    rw [List.append_nil, hname]
    omega

theorem chosen_size : (chosen p).size =
    80 + pad4 ((p.cmdline.getD defaultCmdline).bytes.length + 1) + (seedItem p).size := by
  have hstr : (Value.str (.ofText "/pl011@9000000")).wire.length = 15 := by
    decide
  have hcells (v : W64) : (Value.u64 v).wire.length = 8 := rfl
  show 12 + pad4 (p.cmdline.getD defaultCmdline).wire.length +
    (12 + pad4 (Value.u64 p.initrdStart).wire.length +
      (12 + pad4 (Value.u64 p.initrdEnd).wire.length +
        (12 + pad4 (Value.str (.ofText "/pl011@9000000")).wire.length + (seedItem p).size))) = _
  rw [hstr, hcells, hcells, CStr.wire, List.length_append, List.length_singleton]
  show _ + (12 + 8 + (12 + 8 + (12 + 16 + _))) = _
  omega

theorem chosen_names : (chosen p).names.length = 57 + (seedItem p).names.length := by
  have happ : (chosen p).names = ((CStr.ofText "bootargs").wire ++
      ((CStr.ofText "linux,initrd-start").wire ++ ((CStr.ofText "linux,initrd-end").wire ++
        (CStr.ofText "stdout-path").wire))) ++ (seedItem p).names := by
    simp only [List.append_assoc]
    rfl
  rw [happ, List.length_append]
  exact congrArg (· + _) (by decide)

theorem tree_size : (tree p).size =
    1020 + (chosen p).size + pad4 ((memoryNode p.ramBase).bytes.length + 1) := by
  have hword (w : W32) : pad4 (Value.u32 w).wire.length = 4 := by
    show pad4 4 = 4
    rfl
  have hcompatible : pad4 (Value.str (.ofText "linux,dummy-virt")).wire.length = 20 := by
    decide
  have hmodel : pad4 (Value.str (.ofText "oemu-virt")).wire.length = 12 := by
    decide
  have hchosen : pad4 ((CStr.ofText "chosen").bytes.length + 1) = 8 := by
    decide
  have haliases : pad4 ((CStr.ofText "aliases").bytes.length + 1) + aliases.size = 36 := by
    decide
  have hpsci : pad4 ((CStr.ofText "psci").bytes.length + 1) + psci.size = 116 := by
    decide
  have hmemory : (memory p).size = 48 := by
    have hstr : pad4 (Value.str (.ofText "memory")).wire.length = 8 := by
      decide
    show 12 + pad4 (Value.str (.ofText "memory")).wire.length + (12 + pad4 16 + 0) = 48
    rw [hstr]
    rfl
  have hdevices : devices.size = 676 := by
    decide
  show 12 + pad4 (Value.u32 2).wire.length + (12 + pad4 (Value.u32 2).wire.length +
    (12 + pad4 (Value.str (.ofText "linux,dummy-virt")).wire.length +
      (12 + pad4 (Value.str (.ofText "oemu-virt")).wire.length +
        (12 + pad4 (Value.u32 phandleIntc).wire.length +
          (4 + pad4 ((CStr.ofText "chosen").bytes.length + 1) + (chosen p).size + 4 +
            (4 + pad4 ((CStr.ofText "aliases").bytes.length + 1) + aliases.size + 4 +
              (4 + pad4 ((CStr.ofText "psci").bytes.length + 1) + psci.size + 4 +
                (4 + pad4 ((memoryNode p.ramBase).bytes.length + 1) + (memory p).size + 4 +
                  devices.size)))))))) = _
  rw [hword, hword, hcompatible, hmodel, hchosen, hmemory, hdevices]
  omega

theorem tree_names : (tree p).names.length = 392 + (chosen p).names.length := by
  have happ : (tree p).names = ((CStr.ofText "#address-cells").wire ++
      ((CStr.ofText "#size-cells").wire ++ ((CStr.ofText "compatible").wire ++
        ((CStr.ofText "model").wire ++ (CStr.ofText "interrupt-parent").wire)))) ++
      ((chosen p).names ++ (aliases.names ++ (psci.names ++ ((CStr.ofText "device_type").wire ++
        ((CStr.ofText "reg").wire ++ devices.names))))) := by
    simp only [List.append_assoc]
    rfl
  have hroot : ((CStr.ofText "#address-cells").wire ++
      ((CStr.ofText "#size-cells").wire ++ ((CStr.ofText "compatible").wire ++
        ((CStr.ofText "model").wire ++ (CStr.ofText "interrupt-parent").wire)))).length = 61 := by
    decide
  have hrest : (aliases.names ++ (psci.names ++ ((CStr.ofText "device_type").wire ++
      ((CStr.ofText "reg").wire ++ devices.names)))).length = 331 := by
    have haliases : aliases.names.length = 8 := by
      decide
    have hpsci : psci.names.length = 53 := by
      decide
    have htype : (CStr.ofText "device_type").wire.length = 12 := by
      decide
    have hreg : (CStr.ofText "reg").wire.length = 4 := by
      decide
    have hdevices : devices.names.length = 254 := by
      decide +kernel
    rw [List.length_append, List.length_append, List.length_append, List.length_append, haliases,
      hpsci, htype, hreg, hdevices]
  rw [happ, List.length_append, hroot, List.length_append, hrest]
  omega

theorem tree_length : (tree p).blob.length = treeBytes p := by
  have hseed := seedItem_bytes (p := p)
  rw [Fdt.blob_length, tree_size, tree_names, chosen_size, chosen_names, treeBytes, ← hseed]
  omega

/-! ## what it says -/

variable (p) in
/-- what the guest is to find: its command line, where the initial ramdisk lies, the seed, and where
memory, console and interrupt controller are -/
def Described (b : List Byte) : Prop :=
  let chosen := pathOf [.ofText "chosen"]
  fdtFind b chosen (.ofText "bootargs") = .ok (p.cmdline.getD defaultCmdline).wire ∧
    fdtFind b chosen (.ofText "linux,initrd-start") = .ok (Value.u64 p.initrdStart).wire ∧
    fdtFind b chosen (.ofText "linux,initrd-end") = .ok (Value.u64 p.initrdEnd).wire ∧
    fdtFind b chosen (.ofText "rng-seed") =
      (match p.seed with
        | some seed => .ok seed.bytes
        | none => .error .notFound) ∧
    fdtFind b (pathOf [memoryNode p.ramBase]) (.ofText "reg") =
      .ok ((Value.u64 p.ramBase).wire ++ (Value.u64 p.ramSize).wire) ∧
    fdtFind b (pathOf [.ofText "pl011@9000000"]) (.ofText "reg") =
      .ok ((Value.u64 uartBase).wire ++ (Value.u64 uartSize).wire) ∧
    fdtFind b (pathOf [.ofText "interrupt-controller@8000000"]) (.ofText "reg") =
      .ok ((Value.u64 gicDist).wire ++ (Value.u64 gicSize).wire ++
        ((Value.u64 gicCpu).wire ++ (Value.u64 gicSize).wire))

theorem seed_answer : (tree p).answer [.ofText "chosen"] (.ofText "rng-seed") =
    (match p.seed with
      | some seed => .ok seed.bytes
      | none => .error .notFound) := by
  have hdown : (tree p).answer [.ofText "chosen"] (.ofText "rng-seed") =
      (seedItem p).answer [] (.ofText "rng-seed") := rfl
  rw [hdown]
  unfold seedItem
  cases p.seed with
  | none => rfl
  | some seed => rfl

theorem memory_answer : (tree p).answer [memoryNode p.ramBase] (.ofText "reg") =
    .ok ((Value.u64 p.ramBase).wire ++ (Value.u64 p.ramSize).wire) := by
  have hdown : (tree p).answer [memoryNode p.ramBase] (.ofText "reg") =
      (Items.node (memoryNode p.ramBase) (memory p) devices).answer [memoryNode p.ramBase]
        (.ofText "reg") := rfl
  rw [hdown]
  unfold Items.answer Items.at? Items.body?
  rw [if_pos rfl]
  rfl

theorem tree_described {b : List Byte} (h : (tree p).ReadBack b) : Described p b := by
  have hone {c : CStr} (hc : c.bytes ≠ [] ∧ slash ∉ c.bytes) : Components [c] := by
    intro d hd
    rw [List.mem_singleton.mp hd]
    exact hc
  have hchosen := hone (c := .ofText "chosen") (by decide)
  have hmemory := hone ⟨List.cons_ne_nil _ _, memoryNode_slash p.ramBase⟩
  exact ⟨h _ hchosen _, h _ hchosen _, h _ hchosen _, (h _ hchosen _).trans seed_answer,
    (h _ hmemory _).trans memory_answer, h _ (hone (by decide)) _, h _ (hone (by decide)) _⟩

/-! ## the result -/

section

variable {cap : Nat} {f : Fdt}

theorem build_fits (hinit : Fdt.init cap true = some (.ok, f)) (hroom : treeBytes p ≤ cap + 56) :
    (virtDtbBuild p f true).1 = .ok ∧
      ∃ b, (virtDtbBuild p f true).2.data = some b ∧ b.length = treeBytes p ∧
        (treeBytes p < 2 ^ 32 → Described p b ∧ (tree p).ReadBack b) := by
  have hlength := tree_length (p := p)
  have hbuilt := (Fdt.attempt_tree true (tree_nameable (p := p)) hinit).1
  rw [hlength, calls_tree] at hbuilt
  obtain ⟨hok, hdata⟩ := hbuilt ⟨rfl, hroom⟩
  refine ⟨hok, _, hdata, hlength, ?_⟩
  intro hbytes
  have hsize := Fdt.blob_length (tree p)
  rw [hlength] at hsize
  have hfit : (tree p).Fits := by
    constructor
    · show 40 + 16 + (16 + (tree p).size) < 2 ^ 32
      omega
    · omega
  have hemit : (tree p).emit cap = some (tree p).blob :=
    Items.emit_room tree_nameable (Fdt.init_ok hinit).2 (Fdt.init_cap hinit) (by omega)
  have hread : (tree p).ReadBack (tree p).blob := fun path hpath prop =>
    find_emitted tree_wellFormed tree_height hemit hfit hpath prop
  exact ⟨tree_described hread, hread⟩

theorem build_starves (hinit : Fdt.init cap true = some (.ok, f))
    (hfull : ¬ (allocOk = true ∧ treeBytes p ≤ cap + 56)) :
    (virtDtbBuild p f allocOk).1 = .noMemory ∧ (virtDtbBuild p f allocOk).2.data = none := by
  have hstarved := (Fdt.attempt_tree allocOk (tree_nameable (p := p)) hinit).2
  rw [tree_length, calls_tree] at hstarved
  exact hstarved hfull

end

/-- **the machine's tree is built exactly where it fits and there is memory for it, and says of the
machine what the parameters do** -/
theorem virt_dtb_built {cap : Nat} {f : Fdt} (p : Params) (allocOk : Bool)
    (hinit : Fdt.init cap true = some (.ok, f)) :
    (allocOk = true ∧ treeBytes p ≤ cap + 56 →
      (virtDtbBuild p f allocOk).1 = .ok ∧
        ∃ b, (virtDtbBuild p f allocOk).2.data = some b ∧ b.length = treeBytes p ∧
          (treeBytes p < 2 ^ 32 → Described p b ∧ (tree p).ReadBack b)) ∧
    (¬ (allocOk = true ∧ treeBytes p ≤ cap + 56) →
      (virtDtbBuild p f allocOk).1 = .noMemory ∧ (virtDtbBuild p f allocOk).2.data = none) := by
  constructor
  · rintro ⟨rfl, hroom⟩
    exact build_fits hinit hroom
  · exact build_starves hinit

/-- a gibibyte, no ramdisk, no command line of its own, and a seed of 32 bytes -/
def gibParams : Params :=
  ⟨0x40000000, 0x40000000, 0, 0, none, some ⟨List.replicate 32 0x5A, by decide⟩⟩

theorem virt_dtb_built_gib :
    ∃ f b, Fdt.init 65536 true = some (.ok, f) ∧ (virtDtbBuild gibParams f true).1 = .ok ∧
      (virtDtbBuild gibParams f true).2.data = some b ∧ Described gibParams b := by
  have hinit : Fdt.init 65536 true = _ := Fdt.init_room (by decide) (by decide)
  obtain ⟨hok, b, hb, -, htold⟩ :=
    (virt_dtb_built gibParams true hinit).1 ⟨rfl, by decide⟩
  exact ⟨_, b, hinit, hok, hb, (htold (by decide)).1⟩

end VirtDtb

end Oemu
