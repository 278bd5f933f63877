import Oemu.Fdt.Builder

/-!
# Trees through the builder

A tree is emitted by one call for each property and two for each node.  When every call is accepted,
the structure block is the serialisation of the tree and the strings block its property names in
order; and every call is accepted when there is room.

* `Items`, `Items.calls`, `Items.emit`   a tree, and the calls that emit it;
* `runOk_items`, `Items.emit_blob`       the blocks and the blob the calls leave;
* `runOk_room`, `Items.emit_room`        where the calls are accepted.
-/

namespace Oemu

open Wire

/-! ## trees -/

inductive Value where
  | empty
  | u32 (v : W32)
  | u64 (v : W64)
  | bytes (b : Blob32)
  | str (s : CStr)
  | cells (l : List W32)
  | strv (l : List CStr)

/-- the bytes of a value: words big-endian, strings with their terminators -/
def Value.wire : Value → List Byte
  | .empty => []
  | .u32 v => putBe32 v
  | .u64 v => putBe32 ((v >>> 32).setWidth 32) ++ putBe32 (v.setWidth 32)
  | .bytes b => b.bytes
  | .str s => s.bytes ++ [0]
  | .cells l => l.flatMap putBe32
  | .strv l => l.flatMap fun s => s.bytes ++ [0]

/-- the contents of a node, in the order they are emitted -/
inductive Items where
  | nil
  | prop (name : CStr) (value : Value) (rest : Items)
  | node (name : CStr) (body rest : Items)

namespace Items

/-- the value of a property of the node itself -/
def value? (prop : List Byte) : Items → Option Value
  | .nil => none
  | .prop name value rest => if name.bytes = prop then some value else rest.value? prop
  | .node _ _ rest => rest.value? prop

/-- the contents of a child -/
def body? (c : List Byte) : Items → Option Items
  | .nil => none
  | .prop _ _ rest => rest.body? c
  | .node name body rest => if name.bytes = c then some body else rest.body? c

/-- the contents of the node a path names -/
def at? (t : Items) : List CStr → Option Items
  | [] => some t
  | c :: path => (t.body? c.bytes).bind fun b => b.at? path

/-- what the tree has at a path -/
def answer (t : Items) (path : List CStr) (prop : CStr) : Except Status (List Byte) :=
  match (t.at? path).bind (value? prop.bytes) with
  | some v => .ok v.wire
  | none => .error .notFound

def childNames : Items → List (List Byte)
  | .nil => []
  | .prop _ _ rest => rest.childNames
  | .node name _ rest => name.bytes :: rest.childNames

def propNames : Items → List (List Byte)
  | .nil => []
  | .prop name _ rest => name.bytes :: rest.propNames
  | .node _ _ rest => rest.propNames

/-- how deep nodes are nested below -/
def height : Items → Nat
  | .nil => 0
  | .prop _ _ rest => rest.height
  | .node _ body rest => max (body.height + 1) rest.height

/-- node names non-empty, without a slash, and distinct among siblings; property names distinct
within a node -/
def WellFormed : Items → Prop
  | .nil => True
  | .prop name _ rest => name.bytes ∉ rest.propNames ∧ rest.WellFormed
  | .node name body rest =>
    name.bytes ≠ [] ∧ slash ∉ name.bytes ∧ name.bytes ∉ rest.childNames ∧ body.WellFormed ∧
      rest.WellFormed

instance decidableWellFormed : (t : Items) → Decidable t.WellFormed
  | .nil => .isTrue trivial
  | .prop name _ rest =>
    have := decidableWellFormed rest
    inferInstanceAs (Decidable (name.bytes ∉ rest.propNames ∧ rest.WellFormed))
  | .node name body rest =>
    have := decidableWellFormed body
    have := decidableWellFormed rest
    inferInstanceAs (Decidable (name.bytes ≠ [] ∧ slash ∉ name.bytes ∧
      name.bytes ∉ rest.childNames ∧ body.WellFormed ∧ rest.WellFormed))

end Items

/-! ## emission -/

def Value.call (name : CStr) : Value → Call
  | .empty => .propEmpty (some name)
  | .u32 v => .propU32 (some name) v
  | .u64 v => .propU64 (some name) v
  | .bytes b => .propBytes (some name) (some b)
  | .str s => .propStr (some name) (some s)
  | .cells l => .propCells (some name) (some l)
  | .strv l => .propStrv (some name) (some (l.map some))

def Items.calls : Items → List Call
  | .nil => []
  | .prop name value rest => value.call name :: rest.calls
  | .node name body rest => .beginNode (some name) :: (body.calls ++ .endNode :: rest.calls)

def Fdt.runOk (f : Fdt) : List Call → Option Fdt
  | [] => some f
  | c :: cs => if (f.step c).1 = .ok then (f.step c).2.runOk cs else none

/-- the blob of a tree, when every call returns OK -/
def Items.emit (t : Items) (cap : Nat) : Option (List Byte) :=
  match Fdt.init cap true with
  | some (.ok, f) => (f.runOk (t.calls ++ [.endNode, .finish true])).bind (·.data)
  | _ => none

/-! ## the blocks -/

namespace Items

/-- the property names, in the order they are interned -/
def names : Items → List Byte
  | .nil => []
  | .prop name _ rest => name.wire ++ rest.names
  | .node _ body rest => body.names ++ rest.names

/-- the structure block, from the offset of the next name -/
def ser : Items → Nat → List Byte
  | .nil, _ => []
  | .prop name value rest, off =>
    (Tok.prop (BitVec.ofNat 32 off) value.wire).bytes ++ rest.ser (off + name.wire.length)
  | .node name body rest, off =>
    (Tok.beginNode name).bytes ++
      (body.ser off ++ (Tok.endNode.bytes ++ rest.ser (off + body.names.length)))

end Items

theorem strings_some (l : List CStr) : Fdt.strings (l.map some) = some l := by
  induction l with
  | nil => rfl
  | cons s l ih =>
    show (Fdt.strings (l.map some)).map (s :: ·) = some (s :: l)
    rw [ih]
    rfl

theorem Value.call_property (name : CStr) (v : Value) :
    (v.call name).property = some (name, v.wire) := by
  cases v with
  | strv l =>
    show (Fdt.strings (l.map some)).map _ = _
    rw [strings_some]
    rfl
  | _ => rfl

namespace Fdt

variable {f g : Fdt} {sb : List Byte}

theorem runOk_cons {c : Call} {cs : List Call} (h : f.runOk (c :: cs) = some g) :
    (f.step c).1 = .ok ∧ (f.step c).2.runOk cs = some g := by
  unfold runOk at h
  split at h
  · exact ⟨by assumption, h⟩
  · cases h

theorem runOk_append {cs cs' : List Call} (h : f.runOk (cs ++ cs') = some g) :
    ∃ e, f.runOk cs = some e ∧ e.runOk cs' = some g := by
  induction cs generalizing f with
  | nil => exact ⟨f, rfl, h⟩
  | cons c cs ih =>
    obtain ⟨hok, hrest⟩ := runOk_cons h
    obtain ⟨e, he, he'⟩ := ih hrest
    refine ⟨e, ?_, he'⟩
    unfold runOk
    rw [if_pos hok]
    exact he

theorem step_property {c : Call} {name : CStr} {val : List Byte}
    (hc : c.property = some (name, val)) (hsb : f.sb = some sb) (hok : (f.step c).1 = .ok) :
    (f.step c).2 = { f with
      sb := some (sb ++ (Tok.prop (BitVec.ofNat 32 f.strs.length) val).bytes)
      strs := f.strs ++ name.wire } := by
  have hm := f.step_moves c
  generalize f.step c = r at hm hok
  cases hm with
  | refused c st h => exact absurd hok h
  | attached c sb' name' val' hsb' hc' =>
    rw [hc] at hc'
    cases hc'
    rw [hsb] at hsb'
    cases hsb'
    rfl
  | began | ended | finished | starved | disposed => cases hc

theorem step_began {name : CStr} (hsb : f.sb = some sb)
    (hok : (f.step (.beginNode (some name))).1 = .ok) :
    (f.step (.beginNode (some name))).2 =
      { f with sb := some (sb ++ (Tok.beginNode name).bytes), depth := f.depth + 1 } := by
  have hm := f.step_moves (.beginNode (some name))
  generalize f.step (.beginNode (some name)) = r at hm hok
  cases hm with
  | refused c st h => exact absurd hok h
  | began sb' name' hsb' =>
    rw [hsb] at hsb'
    cases hsb'
    rfl
  | attached c sb' name' val' hsb' hc' => cases hc'

theorem step_ended (hsb : f.sb = some sb) (hok : (f.step .endNode).1 = .ok) :
    (f.step .endNode).2 =
      { f with sb := some (sb ++ Tok.endNode.bytes), depth := f.depth - 1 } := by
  have hm := f.step_moves .endNode
  generalize f.step .endNode = r at hm hok
  cases hm with
  | refused c st h => exact absurd hok h
  | ended sb' hsb' =>
    rw [hsb] at hsb'
    cases hsb'
    rfl
  | attached c sb' name' val' hsb' hc' => cases hc'

theorem step_finished (hsb : f.sb = some sb) (hok : (f.step (.finish true)).1 = .ok) :
    (f.step (.finish true)).2.data =
      some (header (sb ++ Tok.fin.bytes).length f.strs.length ++ (sb ++ Tok.fin.bytes) ++
        f.strs) := by
  have hm := f.step_moves (.finish true)
  generalize f.step (.finish true) = r at hm hok
  cases hm with
  | refused c st h => exact absurd hok h
  | finished sb' hsb' =>
    rw [hsb] at hsb'
    cases hsb'
    rfl
  | attached c sb' name' val' hsb' hc' => cases hc'

/-- **the blocks the calls of a tree leave** -/
theorem runOk_items (t : Items) {f g : Fdt} {sb : List Byte} (hsb : f.sb = some sb)
    (h : f.runOk t.calls = some g) :
    g = { f with sb := some (sb ++ t.ser f.strs.length), strs := f.strs ++ t.names } := by
  induction t generalizing f g sb with
  | nil =>
    cases h
    show f = { f with sb := some (sb ++ []), strs := f.strs ++ [] }
    rw [List.append_nil, List.append_nil, ← hsb]
  | prop name value rest ih =>
    obtain ⟨hok, hrest⟩ := runOk_cons h
    have hstep := step_property (Value.call_property name value) hsb hok
    rw [hstep] at hrest
    have hg := ih rfl hrest
    rw [hg]
    show ({ f with sb := some (sb ++ _ ++ rest.ser (f.strs ++ name.wire).length)
                   strs := f.strs ++ name.wire ++ rest.names } : Fdt) = _
    rw [List.append_assoc, List.append_assoc, List.length_append]
    rfl
  | node name body rest ihb ihr =>
    obtain ⟨hok, hcont⟩ := runOk_cons h
    rw [step_began hsb hok] at hcont
    obtain ⟨e, he, hcont⟩ := runOk_append hcont
    have hbody := ihb rfl he
    obtain ⟨hok', hrest⟩ := runOk_cons hcont
    have hesb : e.sb = some (sb ++ (Tok.beginNode name).bytes ++ body.ser f.strs.length) := by
      rw [hbody]
    rw [step_ended hesb hok', hbody] at hrest
    have hg := ihr rfl hrest
    rw [hg]
    show ({ f with
      sb := some (sb ++ (Tok.beginNode name).bytes ++ body.ser f.strs.length ++
        Tok.endNode.bytes ++ rest.ser (f.strs ++ body.names).length)
      strs := f.strs ++ body.names ++ rest.names
      depth := f.depth + 1 - 1 } : Fdt) = _
    rw [List.append_assoc, List.append_assoc, List.append_assoc, List.append_assoc,
      List.length_append, Nat.add_sub_cancel]
    rfl

end Fdt

/-! ## the blob -/

/-- bytes of the structure block under a node -/
def Items.size : Items → Nat
  | .nil => 0
  | .prop _ value rest => 12 + pad4 value.wire.length + rest.size
  | .node name body rest => 4 + pad4 (name.bytes.length + 1) + body.size + 4 + rest.size

theorem Items.ser_length (t : Items) (off : Nat) : (t.ser off).length = t.size := by
  induction t generalizing off with
  | nil => rfl
  | prop name value rest ih =>
    have h := ih (off + name.wire.length)
    unfold Items.ser Items.size
    rw [List.length_append, Fdt.prop_length, h, fdtTokenSize]
  | node name body rest ihb ih =>
    have hb := ihb off
    have hr := ih (off + body.names.length)
    have he : Tok.endNode.bytes.length = 4 := rfl
    unfold Items.ser Items.size
    rw [List.length_append, List.length_append, List.length_append, Fdt.beginNode_length, hb, hr,
      he, fdtTokenSize]
    omega

def Items.block (t : Items) : List Byte :=
  (Tok.beginNode rootName).bytes ++ (t.ser 0 ++ (Tok.endNode.bytes ++ Tok.fin.bytes))

theorem Items.block_length (t : Items) : t.block.length = 16 + t.size := by
  unfold Items.block
  rw [List.length_append, List.length_append, List.length_append, Items.ser_length]
  show 8 + (t.size + (4 + 4)) = _
  omega

def Items.blob (t : Items) : List Byte :=
  Fdt.header t.block.length t.names.length ++ t.block ++ t.names

/-- the offsets of the strings block and of the names in it fit the format -/
def Items.Fits (t : Items) : Prop :=
  fdtHeaderSize + fdtRsvMapSize + (16 + t.size) < 2 ^ 32 ∧ t.names.length ≤ 2 ^ 32

/-- **the calls of a tree, accepted, leave its blob** -/
theorem Items.emit_blob {t : Items} {cap : Nat} {b : List Byte} (h : t.emit cap = some b) :
    b = t.blob := by
  unfold Items.emit at h
  split at h
  · rename_i f hinit
    obtain ⟨hf, -⟩ := Fdt.init_ok hinit
    obtain ⟨g, hg, hb⟩ := Option.bind_eq_some_iff.mp h
    obtain ⟨e, he, hclose⟩ := Fdt.runOk_append hg
    have hroot : f.sb = some (Tok.beginNode rootName).bytes := by
      rw [hf]
    have hitems := Fdt.runOk_items t hroot he
    have hesb : e.sb = some ((Tok.beginNode rootName).bytes ++ t.ser 0) := by
      rw [hitems, hf]
      rfl
    have hestrs : e.strs = t.names := by
      rw [hitems, hf]
      rfl
    obtain ⟨hok, hlast⟩ := Fdt.runOk_cons hclose
    rw [Fdt.step_ended hesb hok] at hlast
    obtain ⟨hok', hdone⟩ := Fdt.runOk_cons hlast
    have hdata := Fdt.step_finished rfl hok'
    have hblock : (Tok.beginNode rootName).bytes ++ t.ser 0 ++ Tok.endNode.bytes ++
        Tok.fin.bytes = t.block := by
      unfold Items.block
      rw [List.append_assoc, List.append_assoc]
    rw [hblock] at hdata
    cases hdone
    rw [hdata] at hb
    cases hb
    unfold Items.blob
    rw [← hestrs]
  · cases h

/-! ## room -/

def Items.Nameable : Items → Prop
  | .nil => True
  | .prop name _ rest => name.bytes ≠ [] ∧ name.wire.length ≤ fdtMaxName ∧ rest.Nameable
  | .node name body rest => name.bytes.length < fdtMaxName ∧ body.Nameable ∧ rest.Nameable

instance Items.decidableNameable : (t : Items) → Decidable t.Nameable
  | .nil => .isTrue trivial
  | .prop name _ rest =>
    have := decidableNameable rest
    inferInstanceAs (Decidable (name.bytes ≠ [] ∧ name.wire.length ≤ fdtMaxName ∧ rest.Nameable))
  | .node name body rest =>
    have := decidableNameable body
    have := decidableNameable rest
    inferInstanceAs (Decidable (name.bytes.length < fdtMaxName ∧ body.Nameable ∧ rest.Nameable))

namespace Fdt

variable {f : Fdt} {sb : List Byte}

theorem propGuard_room {name : CStr} {len : Nat} (hsb : f.sb = some sb) (hne : name.bytes ≠ [])
    (hname : name.wire.length ≤ fdtMaxName) (hdepth : 0 < f.depth)
    (hroom : sb.length + f.strs.length + (12 + pad4 len) + name.wire.length ≤ f.cap) :
    f.propGuard (some name) len =
      .ok (BitVec.ofNat 32 f.strs.length, { f with strs := f.strs ++ name.wire }) := by
  have hwire : name.wire.length = name.bytes.length + 1 := List.length_append
  have hfit : f.fits (fdtTokenSize + 8 + pad4 len) (name.bytes.length + 1) = true := by
    rw [fits_some hsb, ← hwire]
    exact hroom
  unfold propGuard
  dsimp only
  rw [if_neg (by rw [hsb]; exact Option.some_ne_none sb), if_neg hne, if_neg (by omega), hfit,
    if_neg]
  rintro (h | h)
  · omega
  · cases h

theorem step_property_room {name : CStr} (value : Value) (hsb : f.sb = some sb)
    (hne : name.bytes ≠ []) (hname : name.wire.length ≤ fdtMaxName) (hdepth : 0 < f.depth)
    (hroom : sb.length + f.strs.length + (12 + pad4 value.wire.length) + name.wire.length ≤
      f.cap) :
    (f.step (value.call name)).1 = .ok := by
  have hguard := propGuard_room hsb hne hname hdepth hroom
  have hvalue : ∀ val : List Byte, val.length = value.wire.length →
      (f.propValue (some name) val).1 = .ok := by
    intro val hval
    unfold propValue
    rw [hval, hguard]
  cases value with
  | cells l =>
    show (f.propCells (some name) (some l)).1 = .ok
    unfold propCells
    dsimp only
    rw [← cells_length, show l.flatMap putBe32 = (Value.cells l).wire from rfl, hguard]
  | strv l =>
    show (f.propStrv (some name) (some (l.map some))).1 = .ok
    unfold propStrv
    rw [if_neg (by rw [hsb]; exact Option.some_ne_none sb), Option.bind_some, strings_some]
    dsimp only
    rw [← strings_length, show l.flatMap CStr.wire = (Value.strv l).wire from rfl, hguard]
  | _ => exact hvalue _ rfl

theorem step_begin_room {name : CStr} (hsb : f.sb = some sb)
    (hname : name.bytes.length < fdtMaxName)
    (hroom : sb.length + f.strs.length + (4 + pad4 (name.bytes.length + 1)) ≤ f.cap) :
    (f.step (.beginNode (some name))).1 = .ok := by
  have hfit : f.fits (fdtTokenSize + pad4 (name.bytes.length + 1)) 0 = true := by
    rw [fits_some hsb]
    exact hroom
  show (f.beginNode (some name)).1 = .ok
  unfold beginNode
  dsimp only
  rw [if_neg (by rw [hsb]; exact Option.some_ne_none sb), if_neg (by omega), hfit]
  rfl

theorem step_end_room (hsb : f.sb = some sb) (hdepth : 0 < f.depth)
    (hroom : sb.length + f.strs.length + 4 ≤ f.cap) : (f.step .endNode).1 = .ok := by
  have hfit : f.fits fdtTokenSize 0 = true := by
    rw [fits_some hsb]
    exact hroom
  show f.endNode.1 = .ok
  unfold endNode
  rw [if_neg (by rw [hsb]; exact Option.some_ne_none sb), if_neg (by omega), hfit]
  rfl

theorem step_finish_room (hsb : f.sb = some sb) (hdepth : f.depth = 0)
    (hroom : sb.length + f.strs.length + 4 ≤ f.cap) : (f.step (.finish true)).1 = .ok := by
  have hfit : f.fits fdtTokenSize 0 = true := by
    rw [fits_some hsb]
    exact hroom
  show (f.finish true).1 = .ok
  unfold finish
  rw [hsb]
  dsimp only
  rw [if_neg (not_not.mpr hdepth), hfit]
  rfl

theorem runOk_cons_ok {c : Call} {cs : List Call} (h : (f.step c).1 = .ok) :
    f.runOk (c :: cs) = (f.step c).2.runOk cs := by
  rw [runOk, if_pos h]

theorem runOk_append_ok {cs cs' : List Call} {e : Fdt} (h : f.runOk cs = some e) :
    f.runOk (cs ++ cs') = e.runOk cs' := by
  induction cs generalizing f with
  | nil =>
    cases h
    rfl
  | cons c cs ih =>
    obtain ⟨hok, hrest⟩ := runOk_cons h
    show f.runOk (c :: (cs ++ cs')) = _
    rw [runOk_cons_ok hok]
    exact ih hrest

theorem runOk_room (t : Items) {f : Fdt} {sb : List Byte} (hsb : f.sb = some sb)
    (hname : t.Nameable) (hdepth : 0 < f.depth)
    (hroom : sb.length + f.strs.length + t.size + t.names.length ≤ f.cap) :
    ∃ g, f.runOk t.calls = some g := by
  induction t generalizing f sb with
  | nil => exact ⟨f, rfl⟩
  | prop name value rest ih =>
    obtain ⟨hne, hlen, hrest⟩ := hname
    have hsize : (Items.prop name value rest).size = 12 + pad4 value.wire.length + rest.size := rfl
    have hnames : (Items.prop name value rest).names.length =
        name.wire.length + rest.names.length := List.length_append
    have hok := step_property_room value hsb hne hlen hdepth (by omega)
    have hstep := step_property (Value.call_property name value) hsb hok
    show ∃ g, f.runOk (value.call name :: rest.calls) = some g
    rw [runOk_cons_ok hok, hstep]
    refine ih rfl hrest hdepth ?_
    rw [List.length_append, prop_length, List.length_append, fdtTokenSize]
    show _ ≤ f.cap
    omega
  | node name body rest ihb ih =>
    obtain ⟨hlen, hbody, hrest⟩ := hname
    have hsize : (Items.node name body rest).size =
        4 + pad4 (name.bytes.length + 1) + body.size + 4 + rest.size := rfl
    have hnames : (Items.node name body rest).names.length =
        body.names.length + rest.names.length := List.length_append
    have hok := step_begin_room hsb hlen (by omega)
    have hbegan := step_began hsb hok
    have hbegin := beginNode_length name
    have hroom1 : (sb ++ (Tok.beginNode name).bytes).length + f.strs.length + body.size +
        body.names.length ≤ f.cap := by
      rw [List.length_append, hbegin, fdtTokenSize]
      omega
    show ∃ g, f.runOk (.beginNode (some name) :: (body.calls ++ .endNode :: rest.calls)) = some g
    rw [runOk_cons_ok hok, hbegan]
    obtain ⟨e, he⟩ := ihb (f := { f with
      sb := some (sb ++ (Tok.beginNode name).bytes)
      depth := f.depth + 1 }) rfl hbody (Nat.succ_pos _) hroom1
    rw [runOk_append_ok he]
    have hlen' : (sb ++ (Tok.beginNode name).bytes ++ body.ser f.strs.length).length =
        sb.length + (4 + pad4 (name.bytes.length + 1)) + body.size := by
      rw [List.length_append, List.length_append, hbegin, Items.ser_length, fdtTokenSize]
    have hstrs : (f.strs ++ body.names).length = f.strs.length + body.names.length :=
      List.length_append
    have hitems := runOk_items body rfl he
    subst hitems
    have hok' := step_end_room (f := { f with
      sb := some (sb ++ (Tok.beginNode name).bytes ++ body.ser f.strs.length)
      strs := f.strs ++ body.names
      depth := f.depth + 1 }) rfl (Nat.succ_pos _) (by
        show _ + (f.strs ++ body.names).length + 4 ≤ f.cap
        omega)
    have hended := step_ended rfl hok'
    show ∃ g, runOk _ (.endNode :: rest.calls) = some g
    rw [runOk_cons_ok hok', hended]
    refine ih rfl hrest hdepth ?_
    show _ + (f.strs ++ body.names).length + rest.size + rest.names.length ≤ f.cap
    rw [List.length_append, hlen', hstrs]
    show _ + 4 + _ + _ + _ ≤ _
    omega

theorem init_room {cap : Nat} (hmin : fdtMinCap ≤ cap) (hmax : cap < 2 ^ 63) :
    init cap true =
      some (.ok, ⟨some (Tok.beginNode rootName).bytes, [], cap, 1, none, false⟩) := by
  have hok : (({ zero with sb := some [], cap := cap } : Fdt).step
      (.beginNode (some rootName))).1 = .ok := by
    refine step_begin_room rfl (by decide) ?_
    show 8 ≤ cap
    exact Nat.le_trans (by decide) hmin
  have hstep := step_began rfl hok
  have hpair : ({ zero with sb := some [], cap := cap } : Fdt).beginNode (some rootName) =
      (.ok, ⟨some (Tok.beginNode rootName).bytes, [], cap, 1, none, false⟩) :=
    Prod.ext hok hstep
  unfold init
  rw [if_neg (by omega), if_neg (by decide), if_neg (by omega)]
  dsimp only
  rw [hpair]

end Fdt

/-- **a tree is emitted where there is room for it** -/
theorem Items.emit_room {t : Items} {cap : Nat} (hname : t.Nameable) (hmin : fdtMinCap ≤ cap)
    (hmax : cap < 2 ^ 63) (hroom : 16 + t.size + t.names.length ≤ cap) :
    t.emit cap = some t.blob := by
  have hinit := Fdt.init_room hmin hmax
  generalize hf : (⟨some (Tok.beginNode rootName).bytes, [], cap, 1, none, false⟩ : Fdt) = f
    at hinit
  have hsb : f.sb = some (Tok.beginNode rootName).bytes := by
    rw [← hf]
  have hstrs : f.strs = [] := by
    rw [← hf]
  have hcap : f.cap = cap := by
    rw [← hf]
  have hdepth : f.depth = 1 := by
    rw [← hf]
  have hroot : (Tok.beginNode rootName).bytes.length = 8 := rfl
  have hnil : f.strs.length = 0 := by
    rw [hstrs]
    rfl
  obtain ⟨e, he⟩ := Fdt.runOk_room t hsb hname (by omega) (by omega)
  have hitems := Fdt.runOk_items t hsb he
  have hesb : e.sb = some ((Tok.beginNode rootName).bytes ++ t.ser f.strs.length) := by
    rw [hitems]
  have hestrs : e.strs.length = t.names.length := by
    rw [hitems, hstrs]
    rfl
  have hedepth : e.depth = 1 := by
    rw [hitems]
    exact hdepth
  have hecap : e.cap = cap := by
    rw [hitems]
    exact hcap
  have hlen : ((Tok.beginNode rootName).bytes ++ t.ser f.strs.length).length = 8 + t.size := by
    rw [List.length_append, Items.ser_length, hroot]
  have hok := Fdt.step_end_room hesb (by omega) (by omega)
  have hended := Fdt.step_ended hesb hok
  have hlen' : ((Tok.beginNode rootName).bytes ++ t.ser f.strs.length ++
      Tok.endNode.bytes).length = 12 + t.size := by
    rw [List.length_append, hlen]
    show 8 + t.size + 4 = _
    omega
  have hok' : ((e.step .endNode).2.step (.finish true)).1 = .ok := by
    rw [hended]
    refine Fdt.step_finish_room rfl ?_ ?_
    · show e.depth - 1 = 0
      omega
    · show _ + e.strs.length + 4 ≤ e.cap
      omega
  have hfinished : ∃ b, ((e.step .endNode).2.step (.finish true)).2.data = some b := by
    rw [hended] at hok' ⊢
    exact ⟨_, Fdt.step_finished rfl hok'⟩
  obtain ⟨b, hb⟩ := hfinished
  have hemit : t.emit cap = some b := by
    unfold Items.emit
    rw [hinit]
    dsimp only
    rw [Fdt.runOk_append_ok he, Fdt.runOk_cons_ok hok, Fdt.runOk_cons_ok hok']
    exact hb
  rw [hemit, Items.emit_blob hemit]

end Oemu
