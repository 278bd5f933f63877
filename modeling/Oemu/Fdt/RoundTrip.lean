import Oemu.Fdt.Reader
import Oemu.Fdt.Tree

/-!
# What is built is read back

The walk of the reader finds in the blob of a tree what the tree has at the path.

* `findLoop_items`   the walk over the blocks of a node;
* `Items.seek_answer`   what it finds is what the tree has;
* `emitted_read_back`  the round trip, where the offsets fit the format;
* `long_string_lost` a string whose length does not.
-/

namespace Oemu

open Wire

/-! ## paths -/

/-- the components of a path, each after a slash -/
def slashed (path : List CStr) : List Byte := path.flatMap fun c => slash :: c.bytes

/-- components that a path can be made of -/
def Components (path : List CStr) : Prop := ∀ c ∈ path, c.bytes ≠ [] ∧ slash ∉ c.bytes

/-- the path of a list of components; the root's is a slash -/
def pathOf (path : List CStr) : CStr where
  bytes := if path = [] then [slash] else slashed path
  nonzero := by
    have hs : (0 : Byte) ≠ slash := by decide
    split
    · intro h
      exact hs (List.mem_singleton.mp h)
    · intro h
      obtain ⟨c, -, hc⟩ := List.mem_flatMap.mp h
      rcases List.mem_cons.mp hc with h0 | h0
      · exact hs h0
      · exact c.nonzero h0

/-- a frame on the path, with what is left to match -/
structure OnPath (path : List Byte) (left : List CStr) (fr : Frame) : Prop where
  isMatch : fr.isMatch = true
  target : fr.target = decide (left = [])
  rest : path.drop fr.pos = slashed left
  le : fr.pos ≤ path.length

/-- a component ends where the path does, or at a slash -/
theorem takeWhile_component {c : List Byte} (hc : slash ∉ c) (left : List CStr) :
    (c ++ slashed left).takeWhile (· != slash) = c := by
  induction c with
  | nil =>
    cases left with
    | nil => rfl
    | cons d left =>
      show (slash :: (d.bytes ++ slashed left)).takeWhile (· != slash) = []
      rw [List.takeWhile_cons, if_neg (by decide)]
  | cons b c ih =>
    have hb : (b != slash) = true := by
      rw [bne_iff_ne]
      intro he
      exact hc (by rw [he]; exact List.mem_cons_self)
    show (b :: (c ++ slashed left)).takeWhile (· != slash) = b :: c
    rw [List.takeWhile_cons, if_pos hb]
    exact congrArg _ (ih fun hm => hc (List.mem_cons_of_mem _ hm))

theorem slashed_eq_nil {left : List CStr} : slashed left = [] ↔ left = [] := by
  cases left with
  | nil => exact ⟨fun _ => rfl, fun _ => rfl⟩
  | cons c left =>
    constructor
    · intro h
      cases h
    · intro h
      cases h

theorem OnPath.child {path : List Byte} {c : CStr} {left : List CStr} {fr : Frame}
    (h : OnPath path (c :: left) fr) (hc : slash ∉ c.bytes) (nm : List Byte) :
    (nm = c.bytes → OnPath path left (fr.child path nm)) ∧
      (nm ≠ c.bytes → fr.child path nm = .off) := by
  have hdrop : path.drop (fr.pos + 1) = c.bytes ++ slashed left := by
    rw [← List.drop_drop, h.rest]
    rfl
  have hlen : path.length = fr.pos + 1 + (c.bytes.length + (slashed left).length) := by
    have h0 := congrArg List.length h.rest
    have h1 : (slashed (c :: left)).length = c.bytes.length + (slashed left).length + 1 := by
      show (slash :: c.bytes ++ slashed left).length = _
      rw [List.length_append, List.length_cons]
      omega
    rw [List.length_drop, h1] at h0
    have hle := h.le
    omega
  have hword : (path.drop (fr.pos + 1)).takeWhile (· != slash) = c.bytes := by
    rw [hdrop, takeWhile_component hc]
  unfold Frame.child
  dsimp only
  rw [if_neg (by omega), hword]
  constructor
  · intro he
    rw [if_pos he]
    refine ⟨rfl, ?_, ?_, by dsimp only; omega⟩
    · have hiff : fr.pos + 1 + c.bytes.length = path.length ↔ left = [] := by
        rw [← slashed_eq_nil, ← List.length_eq_zero_iff]
        omega
      exact decide_eq_decide.mpr hiff
    · show path.drop (fr.pos + 1 + c.bytes.length) = _
      rw [← List.drop_drop, hdrop, List.drop_left]
  · intro hne
    rw [if_neg hne]

/-! ## the walk over a node -/

/-- what the walk finds before the node ends, where a path is left to match -/
def Items.seek (prop : List Byte) : Items → List CStr → Option (Except Status (List Byte))
  | .nil, _ => none
  | .prop name value rest, path =>
    if path = [] ∧ name.bytes = prop then some (.ok value.wire) else rest.seek prop path
  | .node _ _ rest, [] => rest.seek prop []
  | .node name body rest, c :: path =>
    if name.bytes = c.bytes then
      match body.seek prop path with
      | some r => some r
      | none => if path = [] then some (.error .notFound) else rest.seek prop (c :: path)
    else rest.seek prop (c :: path)

/-- the names of a node where the properties say they are -/
structure NamesAt (blob : List Byte) (offStrings : W32) (t : Items) (off : Nat) : Prop where
  drop : ∃ tail, blob.drop (offStrings.toNat + off) = t.names ++ tail
  bound : off + t.names.length ≤ 2 ^ 32

section Loop

variable {blob : List Byte} {offStrings : W32} {path prop : List Byte}

theorem NamesAt.name {name : CStr} {value : Value} {rest : Items} {off : Nat}
    (h : NamesAt blob offStrings (.prop name value rest) off) :
    (offStrings + BitVec.ofNat 32 off).toNat < blob.length ∧
      cstr (blob.drop (offStrings.toNat + (BitVec.ofNat 32 off).toNat)) = name.bytes ∧
      NamesAt blob offStrings rest (off + name.wire.length) := by
  obtain ⟨tail, ht⟩ := h.drop
  have hb := h.bound
  have hsplit : (Items.prop name value rest).names = name.wire ++ rest.names := rfl
  have hwire : name.wire.length = name.bytes.length + 1 := List.length_append
  rw [hsplit, List.length_append] at hb
  have hnames : (Items.prop name value rest).names ++ tail =
      name.bytes ++ 0 :: (rest.names ++ tail) := by
    show name.bytes ++ [0] ++ rest.names ++ tail = _
    rw [List.append_assoc, List.append_assoc]
    rfl
  have hlt : offStrings.toNat + off < blob.length := by
    have hl := congrArg List.length ht
    rw [List.length_drop, hnames, List.length_append, List.length_cons] at hl
    omega
  have hoff : (BitVec.ofNat 32 off).toNat = off := by
    rw [BitVec.toNat_ofNat, Nat.mod_eq_of_lt (by omega)]
  refine ⟨?_, ?_, ⟨⟨tail, ?_⟩, by omega⟩⟩
  · rw [BitVec.toNat_add, hoff]
    exact Nat.lt_of_le_of_lt (Nat.mod_le _ _) hlt
  · rw [hoff, ht, hnames]
    exact cstr_zero name.nonzero _
  · rw [← Nat.add_assoc, ← List.drop_drop, ht]
    show (name.wire ++ rest.names ++ tail).drop name.wire.length = _
    rw [List.append_assoc, List.drop_left]

theorem NamesAt.node {name : CStr} {body rest : Items} {off : Nat}
    (h : NamesAt blob offStrings (.node name body rest) off) :
    NamesAt blob offStrings body off ∧
      NamesAt blob offStrings rest (off + body.names.length) := by
  obtain ⟨tail, ht⟩ := h.drop
  have hnames : (Items.node name body rest).names ++ tail =
      body.names ++ (rest.names ++ tail) := List.append_assoc _ _ _
  have hb := h.bound
  have hsplit : (Items.node name body rest).names = body.names ++ rest.names := rfl
  rw [hsplit, List.length_append] at hb
  rw [hnames] at ht
  refine ⟨⟨⟨_, ht⟩, by omega⟩, ⟨⟨tail, ?_⟩, by omega⟩⟩
  rw [← Nat.add_assoc, ← List.drop_drop, ht, List.drop_left]

/-- what the walk over a node needs of the blob: names in place, lengths of 32 bits, a word to come,
and frames to spare -/
structure Legible (blob : List Byte) (offStrings : W32) (t : Items) (off : Nat) (rest : List Byte)
    (frames : List Frame) : Prop where
  names : NamesAt blob offStrings t off
  size : t.size < 2 ^ 32
  next : 4 ≤ rest.length
  depth : frames.length + t.height ≤ fdtMaxDepth

theorem Items.ser_prop (name : CStr) (value : Value) (more : Items) (off : Nat)
    (rest : List Byte) :
    (Items.prop name value more).ser off ++ rest =
      (Tok.prop (BitVec.ofNat 32 off) value.wire).bytes ++
        (more.ser (off + name.wire.length) ++ rest) := List.append_assoc _ _ _

theorem Items.ser_node (name : CStr) (body more : Items) (off : Nat) (rest : List Byte) :
    (Items.node name body more).ser off ++ rest =
      (Tok.beginNode name).bytes ++ (body.ser off ++ (Tok.endNode.bytes ++
        (more.ser (off + body.names.length) ++ rest))) := by
  show (_ ++ (_ ++ (_ ++ _))) ++ rest = _
  rw [List.append_assoc, List.append_assoc, List.append_assoc]

section Legible

variable {t body more : Items} {name : CStr} {value : Value} {off : Nat} {rest : List Byte}
  {frames : List Frame}

theorem Legible.property (h : Legible blob offStrings (.prop name value more) off rest frames) :
    value.wire.length < 2 ^ 32 ∧ 4 ≤ (more.ser (off + name.wire.length) ++ rest).length ∧
      Legible blob offStrings more (off + name.wire.length) rest frames := by
  have hlt := h.size
  have hsize : (Items.prop name value more).size = 12 + pad4 value.wire.length + more.size := rfl
  have hpad := pad4_le value.wire.length
  have hnext := h.next
  refine ⟨by omega, ?_, ⟨h.names.name.2.2, by omega, hnext, h.depth⟩⟩
  rw [List.length_append]
  omega

theorem Legible.node (h : Legible blob offStrings (.node name body more) off rest frames)
    (fr : Frame) :
    Legible blob offStrings body off
        (Tok.endNode.bytes ++ (more.ser (off + body.names.length) ++ rest)) (fr :: frames) ∧
      Legible blob offStrings more (off + body.names.length) rest frames := by
  have hlt := h.size
  have hdepth := h.depth
  have hsize : (Items.node name body more).size =
      4 + pad4 (name.bytes.length + 1) + body.size + 4 + more.size := rfl
  have hheight : (Items.node name body more).height = max (body.height + 1) more.height := rfl
  rw [hheight] at hdepth
  refine ⟨⟨h.names.node.1, by omega, ?_, ?_⟩, ⟨h.names.node.2, by omega, h.next, by omega⟩⟩
  · rw [List.length_append]
    exact Nat.le_add_right 4 _
  · rw [List.length_cons]
    omega

theorem Legible.spare (h : Legible blob offStrings (.node name body more) off rest frames) :
    frames.length < fdtMaxDepth := by
  have hdepth := h.depth
  have hheight : (Items.node name body more).height = max (body.height + 1) more.height := rfl
  omega

end Legible

theorem findLoop_off (t : Items) (off : Nat) (rest : List Byte) (frames : List Frame)
    (hw : Legible blob offStrings t off rest (.off :: frames)) :
    findLoop blob offStrings path prop ⟨t.ser off ++ rest, .off :: frames⟩ =
      findLoop blob offStrings path prop ⟨rest, .off :: frames⟩ := by
  induction t generalizing off rest frames with
  | nil => rfl
  | prop name value more ih =>
    obtain ⟨hlt, hname, -⟩ := hw.names.name
    obtain ⟨hval, hnext, hmore⟩ := hw.property
    rw [Items.ser_prop, findLoop_prop _ _ _ _ _ hval hnext hlt hname,
      if_neg (fun hc => Bool.noConfusion hc.1)]
    exact ih _ _ _ hmore
  | node name body more ihb ihm =>
    obtain ⟨hbody, hmore⟩ := hw.node .off
    rw [Items.ser_node, findLoop_begin _ _ _ hw.spare]
    show findLoop _ _ _ _ ⟨_, .off :: .off :: frames⟩ = _
    rw [ihb _ _ _ hbody, findLoop_endNode, if_neg (fun hc => Bool.noConfusion hc)]
    exact ihm _ _ _ hmore

theorem findLoop_node_off {fr : Frame} {name : CStr} {body more : Items} {off : Nat}
    {rest : List Byte} {frames : List Frame}
    (hw : Legible blob offStrings (.node name body more) off rest (fr :: frames))
    (hoff : beginFrame path (fr :: frames) name.bytes = .off) :
    findLoop blob offStrings path prop
        ⟨(Items.node name body more).ser off ++ rest, fr :: frames⟩ =
      findLoop blob offStrings path prop
        ⟨more.ser (off + body.names.length) ++ rest, fr :: frames⟩ := by
  rw [Items.ser_node, findLoop_begin _ _ _ hw.spare, hoff, findLoop_off _ _ _ _ (hw.node _).1,
    findLoop_endNode, if_neg (fun hc => Bool.noConfusion hc)]
  rfl

theorem OnPath.beginFrame {c : CStr} {left : List CStr} {fr : Frame}
    (h : OnPath path (c :: left) fr) (frames : List Frame) (nm : List Byte) :
    beginFrame path (fr :: frames) nm = fr.child path nm := by
  have ht : fr.target = false := h.target.trans (decide_eq_false (List.cons_ne_nil c left))
  unfold Oemu.beginFrame
  dsimp only
  rw [ht, h.isMatch]
  rfl

/-- **the walk over the contents of a node on the path** -/
theorem findLoop_items (t : Items) {left : List CStr} (hleft : Components left) (off : Nat)
    (rest : List Byte) (fr : Frame) (frames : List Frame) (hon : OnPath path left fr)
    (hw : Legible blob offStrings t off rest (fr :: frames)) :
    findLoop blob offStrings path prop ⟨t.ser off ++ rest, fr :: frames⟩ =
      (t.seek prop left).getD (findLoop blob offStrings path prop ⟨rest, fr :: frames⟩) := by
  induction t generalizing left off rest fr frames with
  | nil => rfl
  | prop name value more ih =>
    obtain ⟨hlt, hname, -⟩ := hw.names.name
    obtain ⟨hval, hnext, hmore⟩ := hw.property
    have htarget : onTarget (fr :: frames) = true ↔ left = [] := by
      show fr.target = true ↔ left = []
      rw [hon.target, decide_eq_true_iff]
    rw [Items.ser_prop, findLoop_prop _ _ _ _ _ hval hnext hlt hname]
    unfold Items.seek
    by_cases hc : left = [] ∧ name.bytes = prop
    · rw [if_pos hc, if_pos ⟨htarget.mpr hc.1, hc.2⟩]
      rfl
    · rw [if_neg hc, if_neg fun h => hc ⟨htarget.mp h.1, h.2⟩]
      exact ih hleft _ _ _ _ hon hmore
  | node name body more ihb ihm =>
    have hmore := (hw.node fr).2
    cases left with
    | nil =>
      have hoff : beginFrame path (fr :: frames) name.bytes = .off := by
        unfold beginFrame
        dsimp only
        rw [hon.target]
        rfl
      rw [findLoop_node_off hw hoff]
      exact ihm hleft _ _ _ _ hon hmore
    | cons c left =>
      obtain ⟨-, hslash⟩ := hleft c List.mem_cons_self
      obtain ⟨hsame, hother⟩ := hon.child hslash name.bytes
      have hbegin := hon.beginFrame frames name.bytes
      unfold Items.seek
      by_cases hc : name.bytes = c.bytes
      · have hon' := hsame hc
        have hleft' : Components left := fun d hd => hleft d (List.mem_cons_of_mem _ hd)
        have hbody := (hw.node (fr.child path name.bytes)).1
        rw [if_pos hc, Items.ser_node, findLoop_begin _ _ _ hw.spare, hbegin,
          ihb hleft' _ _ _ _ hon' hbody]
        cases body.seek prop left with
        | some r => rfl
        | none =>
          show findLoop _ _ _ _ _ = Option.getD (if left = [] then _ else _) _
          rw [findLoop_endNode]
          have htarget : onTarget (fr.child path name.bytes :: fr :: frames) = true ↔
              left = [] := by
            show (fr.child path name.bytes).target = true ↔ left = []
            rw [hon'.target, decide_eq_true_iff]
          by_cases hl : left = []
          · rw [if_pos hl, if_pos (htarget.mpr hl)]
            rfl
          · rw [if_neg hl, if_neg (fun ht => hl (htarget.mp ht))]
            exact ihm hleft _ _ _ _ hon hmore
      · rw [if_neg hc, findLoop_node_off hw (hbegin.trans (hother hc))]
        exact ihm hleft _ _ _ _ hon hmore

end Loop

/-! ## the answer of the tree -/

theorem Items.body?_none {t : Items} {c : List Byte} (h : c ∉ t.childNames) :
    t.body? c = none := by
  induction t with
  | nil => rfl
  | prop name value rest ih => exact ih h
  | node name body rest ihb ih =>
    obtain ⟨hne, hrest⟩ := not_or.mp (fun hm => h (List.mem_cons.mpr hm))
    unfold Items.body?
    rw [if_neg (Ne.symm hne)]
    exact ih hrest

theorem Items.answer_absent {t : Items} {c : CStr} (h : t.body? c.bytes = none)
    (path : List CStr) (prop : CStr) : t.answer (c :: path) prop = .error .notFound := by
  unfold Items.answer Items.at?
  rw [h]
  rfl

/-- what the walk finds is what the tree has -/
theorem Items.seek_answer (t : Items) (hwf : t.WellFormed) (path : List CStr) (prop : CStr) :
    (t.seek prop.bytes path).getD (.error .notFound) = t.answer path prop := by
  induction t generalizing path with
  | nil =>
    cases path with
    | nil => rfl
    | cons c path => rfl
  | prop name value rest ih =>
    have hrest := ih hwf.2
    unfold Items.seek
    cases path with
    | nil =>
      by_cases hname : name.bytes = prop.bytes
      · rw [if_pos ⟨rfl, hname⟩]
        unfold Items.answer Items.at?
        rw [Option.bind_some, Items.value?, if_pos hname]
        rfl
      · rw [if_neg fun h => hname h.2, hrest []]
        unfold Items.answer Items.at?
        rw [Option.bind_some, Option.bind_some, Items.value?, if_neg hname]
    | cons c path =>
      rw [if_neg fun h => List.cons_ne_nil c path h.1, hrest (c :: path)]
      rfl
  | node name body rest ihb ih =>
    obtain ⟨-, -, hfresh, hbody, hrest⟩ := hwf
    cases path with
    | nil =>
      show (rest.seek prop.bytes []).getD _ = _
      rw [ih hrest []]
      rfl
    | cons c path =>
      unfold Items.seek
      by_cases hname : name.bytes = c.bytes
      · have hdown : (Items.node name body rest).answer (c :: path) prop =
            body.answer path prop := by
          unfold Items.answer
          rw [Items.at?, Items.body?, if_pos hname]
          rfl
        have hb := ihb hbody path
        have hmiss : rest.answer (c :: path) prop = .error .notFound :=
          Items.answer_absent (Items.body?_none (hname ▸ hfresh)) path prop
        rw [if_pos hname, hdown, ← hb]
        cases body.seek prop.bytes path with
        | some r => rfl
        | none =>
          show Option.getD (if path = [] then _ else _) _ = _
          by_cases hp : path = []
          · rw [if_pos hp]
            rfl
          · rw [if_neg hp, ih hrest (c :: path), hmiss]
            rfl
      · rw [if_neg hname, ih hrest (c :: path)]
        unfold Items.answer
        rw [Items.at?, Items.at?, Items.body?, if_neg hname]

/-! ## the blob read back -/

theorem Items.names_at (t : Items) (hfit : t.Fits) :
    NamesAt t.blob (BitVec.ofNat 32 (fdtHeaderSize + fdtRsvMapSize + t.block.length)) t 0 := by
  have hlen := t.block_length
  have hoff := hfit.1
  refine ⟨⟨[], ?_⟩, by have h := hfit.2; omega⟩
  rw [BitVec.toNat_ofNat, Nat.mod_eq_of_lt (by omega), List.append_nil]
  have hhead : (Fdt.header t.block.length t.names.length ++ t.block).length =
      fdtHeaderSize + fdtRsvMapSize + t.block.length + 0 := by
    rw [List.length_append]
    rfl
  unfold Items.blob
  rw [← hhead, List.drop_left]

theorem onPath_root {path : List CStr} (hpath : Components path) :
    OnPath (pathOf path).bytes path (beginFrame (pathOf path).bytes [] rootName.bytes) := by
  cases path with
  | nil => exact ⟨rfl, rfl, rfl, Nat.le_refl 1⟩
  | cons c path =>
    have hlen : (pathOf (c :: path)).bytes.length ≠ 1 := by
      have hc : c.bytes.length ≠ 0 := fun h =>
        (hpath c List.mem_cons_self).1 (List.length_eq_zero_iff.mp h)
      show (slash :: c.bytes ++ slashed path).length ≠ 1
      rw [List.length_append, List.length_cons]
      omega
    have hframe : beginFrame (pathOf (c :: path)).bytes [] rootName.bytes = ⟨0, true, false⟩ := by
      show (⟨if _ then _ else _, true, decide _⟩ : Frame) = _
      rw [if_neg hlen, decide_eq_false hlen]
    rw [hframe]
    exact ⟨rfl, rfl, rfl, Nat.zero_le _⟩

/-- what is found in a blob is what the tree has, at every path -/
def Items.ReadBack (t : Items) (b : List Byte) : Prop :=
  ∀ path, Components path → ∀ prop, fdtFind b (pathOf path) prop = t.answer path prop

theorem find_emitted {t : Items} {cap : Nat} {b : List Byte} (hwf : t.WellFormed)
    (hheight : t.height < fdtMaxDepth) (hemit : t.emit cap = some b) (hfit : t.Fits)
    {path : List CStr} (hpath : Components path) (prop : CStr) :
    fdtFind b (pathOf path) prop = t.answer path prop := by
  have hb := Items.emit_blob hemit
  subst hb
  have hnames := t.names_at hfit
  have hblock := t.block_length
  have hblob : t.blob = Fdt.header t.block.length t.names.length ++ (t.block ++ t.names) :=
    List.append_assoc _ _ _
  have hlen : t.blob.length = 56 + (t.block.length + t.names.length) := by
    rw [hblob, List.length_append, List.length_append]
    rfl
  have hmagic : be32 t.blob = fdtMagic := be32_putBe32 _ _
  have hstruct : be32 (t.blob.drop 8) = BitVec.ofNat 32 56 := be32_putBe32 _ _
  have hstrings : be32 (t.blob.drop 12) =
      BitVec.ofNat 32 (fdtHeaderSize + fdtRsvMapSize + t.block.length) := be32_putBe32 _ _
  have hdrop : t.blob.drop 56 = (Tok.beginNode rootName).bytes ++
      (t.ser 0 ++ (Tok.endNode.bytes ++ (Tok.fin.bytes ++ t.names))) := by
    show t.block ++ t.names = _
    unfold Items.block
    rw [List.append_assoc, List.append_assoc, List.append_assoc]
  have h56 : (BitVec.ofNat 32 56).toNat = 56 := rfl
  have hoff : (BitVec.ofNat 32 (fdtHeaderSize + fdtRsvMapSize + t.block.length)).toNat =
      56 + t.block.length := by
    have h := hfit.1
    rw [BitVec.toNat_ofNat, Nat.mod_eq_of_lt (by omega)]
    rfl
  have hroot := onPath_root hpath
  have hlegible : Legible t.blob (BitVec.ofNat 32 (fdtHeaderSize + fdtRsvMapSize +
      t.block.length)) t 0 (Tok.endNode.bytes ++ (Tok.fin.bytes ++ t.names))
      [beginFrame (pathOf path).bytes [] rootName.bytes] := by
    have hsize := hfit.1
    refine ⟨hnames, by omega, ?_, ?_⟩
    · rw [List.length_append]
      exact Nat.le_add_right 4 _
    · show 1 + t.height ≤ fdtMaxDepth
      omega
  have hclose : findLoop t.blob (BitVec.ofNat 32 (fdtHeaderSize + fdtRsvMapSize +
      t.block.length)) (pathOf path).bytes prop.bytes
      ⟨Tok.endNode.bytes ++ (Tok.fin.bytes ++ t.names),
        [beginFrame (pathOf path).bytes [] rootName.bytes]⟩ = .error .notFound := by
    rw [findLoop_endNode]
    by_cases ht : onTarget [beginFrame (pathOf path).bytes [] rootName.bytes] = true
    · rw [if_pos ht]
    · rw [if_neg ht]
      exact findLoop_fin _ _
  unfold fdtFind
  dsimp only
  rw [if_neg (by rw [hlen, fdtHeaderSize]; omega), hmagic, if_neg (not_not.mpr rfl), hstruct,
    hstrings, h56, hoff, if_neg (by omega), hdrop,
    findLoop_begin rootName _ [] (by decide),
    findLoop_items t hpath 0 _ _ [] hroot hlegible, hclose]
  exact t.seek_answer hwf path prop

/-- **what is emitted is read back where the offsets fit, and never where a length does not** -/
theorem emitted_read_back {t : Items} {cap : Nat} {b : List Byte} (hwf : t.WellFormed)
    (hheight : t.height < fdtMaxDepth) (hemit : t.emit cap = some b) :
    (t.Fits → t.ReadBack b) ∧
      (t.ReadBack b → ∀ path prop v, Components path → t.answer path prop = .ok v →
        v.length < 2 ^ 32) := by
  constructor
  · intro hfit path hpath prop
    exact find_emitted hwf hheight hemit hfit hpath prop
  · intro hread path prop v hpath hv
    have hfind := hread path hpath prop
    rw [hv] at hfind
    exact find_length hfind

/-- a compatible string at the root, and a console whose name another extends -/
def smallTree : Items :=
  .prop ⟨[0x63, 0x6D], by decide⟩ (.strv [⟨[0x61], by decide⟩, ⟨[0x62], by decide⟩])
    (.node ⟨[0x75, 0x30], by decide⟩ (.prop ⟨[0x72, 0x65, 0x67], by decide⟩ (.cells [0, 9]) .nil)
      (.node ⟨[0x75], by decide⟩ (.prop ⟨[0x72, 0x65, 0x67], by decide⟩ (.u64 4096) .nil) .nil))

theorem small_tree_read_back :
    smallTree.emit 256 = some smallTree.blob ∧ smallTree.ReadBack smallTree.blob := by
  have hemit : smallTree.emit 256 = some smallTree.blob :=
    Items.emit_room (by decide) (by decide) (by decide) (by decide)
  exact ⟨hemit, (emitted_read_back (by decide) (by decide) hemit).1 ⟨by decide, by decide⟩⟩

/-! ## a value of four gigabytes -/

/-- a string so long that its length with the terminator is 2 ^ 32 -/
def longString : CStr where
  bytes := List.replicate (2 ^ 32 - 1) 1
  nonzero := by
    intro h
    exact absurd (List.eq_of_mem_replicate h) (by decide)

theorem longString_wire : (Value.str longString).wire.length = 2 ^ 32 := by
  show (List.replicate (2 ^ 32 - 1) (1 : Byte) ++ [0]).length = _
  rw [List.length_append, List.length_replicate]
  rfl

theorem Items.answer_single (name : CStr) (v : Value) :
    (Items.prop name v .nil).answer [] name = .ok v.wire := by
  unfold Items.answer Items.at?
  rw [Option.bind_some, Items.value?, if_pos rfl]

theorem Items.size_single (name : CStr) (v : Value) :
    (Items.prop name v .nil).size = 12 + pad4 v.wire.length := rfl

/-- a root with one string of four gigabytes -/
def longTree : Items := .prop ⟨[0x73], by decide⟩ (.str longString) .nil

/-- every call is accepted, and the string is not read back -/
theorem long_string_lost :
    longTree.WellFormed ∧ longTree.height < fdtMaxDepth ∧
      longTree.emit (2 ^ 33) = some longTree.blob ∧ ¬ longTree.ReadBack longTree.blob := by
  have hsize : longTree.size = 12 + pad4 (2 ^ 32) := by
    refine (Items.size_single _ _).trans ?_
    rw [longString_wire]
  refine ⟨⟨List.not_mem_nil, trivial⟩, by decide, ?_, ?_⟩
  · refine Items.emit_room ⟨by decide, by decide, trivial⟩ (by decide) (by decide) ?_
    have hnames : longTree.names.length = 2 := rfl
    rw [hsize, hnames]
    unfold pad4
    omega
  · intro hread
    have hfind := hread [] (fun c hc => absurd hc List.not_mem_nil) ⟨[0x73], by decide⟩
    have hlt := find_length (hfind.trans (Items.answer_single _ _))
    rw [longString_wire] at hlt
    exact Nat.lt_irrefl _ hlt

end Oemu
