import Oemu.Fdt.Builder
import Oemu.Lib.Run

/-!
# What is finished is a device tree

`Valid` says what a finished blob has to be, in the terms of the format and not of the builder: a root
that is opened first and holds everything else, balanced nodes, one end token in the last place, names
in the strings block, and a header that describes the bytes there are.

* `Tok.Body`, `Tok.Open`   what a node holds, and the tokens under nodes that are still open;
* `Emitting`               what the builder keeps from call to call;
* `Fdt.Orderly`            the calls that do not lead outside the format;
* `finish_valid`           a run of such calls finishes with a device tree;
* `disorderly_finishes`    runs of other calls that do not.
-/

namespace Oemu

open Wire

/-! ## the format -/

namespace Tok

/-- what a node holds: properties, and nodes between their own tokens -/
inductive Body : List Tok → Prop where
  | nil : Body []
  | prop (off : W32) (val : List Byte) {rest : List Tok} (h : Body rest) :
      Body (.prop off val :: rest)
  | node (name : CStr) {body rest : List Tok} (hb : Body body) (h : Body rest) :
      Body (.beginNode name :: (body ++ .endNode :: rest))

/-- the tokens after that of the root, while so many nodes are open -/
inductive Open : Nat → List Tok → Prop where
  | root {body : List Tok} (h : Body body) : Open 1 body
  | down (name : CStr) {d : Nat} {ts body : List Tok} (ho : Open d ts) (h : Body body) :
      Open (d + 1) (ts ++ .beginNode name :: body)

theorem Body.append {a b : List Tok} (ha : Body a) (hb : Body b) : Body (a ++ b) := by
  induction ha with
  | nil => exact hb
  | prop off val _ ih => exact .prop off val ih
  | node name hbody _ _ ih =>
    rename_i body rest _ _
    show Body (.beginNode name :: (body ++ .endNode :: rest ++ b))
    rw [List.append_assoc]
    exact .node name hbody ih

theorem Open.append {d : Nat} {ts b : List Tok} (ho : Open d ts) (hb : Body b) :
    Open d (ts ++ b) := by
  cases ho with
  | root h => exact .root (h.append hb)
  | down name ho h =>
    rw [List.append_assoc]
    exact .down name ho (h.append hb)

theorem Open.close {d : Nat} {ts : List Tok} (ho : Open (d + 1) ts) (hd : 0 < d) :
    Open d (ts ++ [.endNode]) := by
  cases ho with
  | root h => exact absurd hd (Nat.lt_irrefl 0)
  | down name ho h =>
    rw [List.append_assoc]
    exact ho.append (.node name h .nil)

theorem Open.pos {d : Nat} {ts : List Tok} (ho : Open d ts) : 0 < d := by
  cases ho with
  | root _ => exact Nat.one_pos
  | down _ _ _ => exact Nat.succ_pos _

/-- the structure block of some tokens -/
def wire (toks : List Tok) : List Byte := toks.flatMap Tok.bytes

theorem wire_append (a b : List Tok) : wire (a ++ b) = wire a ++ wire b := List.flatMap_append

theorem wire_singleton (t : Tok) : wire [t] = t.bytes := List.append_nil _

/-- tokens are whole words -/
theorem bytes_words (t : Tok) : t.bytes.length % 4 = 0 := by
  cases t with
  | beginNode name =>
    have h := pad4_mod (name.bytes.length + 1)
    rw [Fdt.beginNode_length, fdtTokenSize]
    omega
  | endNode => rfl
  | prop off val =>
    have h := pad4_mod val.length
    rw [Fdt.prop_length, fdtTokenSize]
    omega
  | fin => rfl

theorem wire_words (toks : List Tok) : (wire toks).length % 4 = 0 := by
  induction toks with
  | nil => rfl
  | cons t toks ih =>
    have ht := t.bytes_words
    show (t.bytes ++ wire toks).length % 4 = 0
    rw [List.length_append]
    omega

end Tok

def StringAt (strs : List Byte) (off : Nat) : Prop :=
  ∃ (pre : List Byte) (s : CStr) (post : List Byte),
    strs = pre ++ (s.bytes ++ 0 :: post) ∧ off = pre.length

/-- a blob that consists of a header, the structure block of some tokens and a strings block -/
structure Valid (cap : Nat) (b : List Byte) (toks : List Tok) (strs : List Byte) : Prop where
  root : ∃ body, Tok.Body body ∧ toks = .beginNode rootName :: (body ++ [.endNode, .fin])
  aligned : ∀ pre t post, toks = pre ++ t :: post →
    (fdtHeaderSize + fdtRsvMapSize + (Tok.wire pre).length) % 4 = 0
  named : ∀ off val, .prop off val ∈ toks → StringAt strs off.toNat ∧ val.length < 2 ^ 32
  magic : be32 b = fdtMagic
  version : be32 (b.drop 0x14) = fdtV17
  lastCompatible : be32 (b.drop 0x18) = 16
  total : (be32 (b.drop 0x04)).toNat = b.length
  offStruct : (be32 (b.drop 0x08)).toNat = fdtHeaderSize + fdtRsvMapSize
  offStrings : (be32 (b.drop 0x0C)).toNat = fdtHeaderSize + fdtRsvMapSize + (Tok.wire toks).length
  offRsvMap : (be32 (b.drop 0x10)).toNat = fdtHeaderSize
  sizeStrings : (be32 (b.drop 0x20)).toNat = strs.length
  sizeStruct : (be32 (b.drop 0x24)).toNat = (Tok.wire toks).length
  blocks : b.drop fdtHeaderSize = zeros fdtRsvMapSize ++ (Tok.wire toks ++ strs)
  ceiling : b.length ≤ cap

/-! ## the builder between calls -/

/-- the tokens of a tree with so many nodes open; none when the root is closed -/
inductive Shape : Nat → List Tok → Prop where
  | closed {body : List Tok} (h : Tok.Body body) :
      Shape 0 (.beginNode rootName :: (body ++ [.endNode]))
  | opened {d : Nat} {ts : List Tok} (h : Tok.Open d ts) : Shape d (.beginNode rootName :: ts)

/-- a name that was interned, at an offset that may have been cut to a word -/
def Interned (strs : List Byte) (off : W32) : Prop :=
  ∃ n, StringAt strs n ∧ off = BitVec.ofNat 32 n

/-- what holds of a builder while it emits -/
structure Emitting (cap : Nat) (f : Fdt) (sb : List Byte) (toks : List Tok) : Prop where
  cap : f.cap = cap
  wire : sb = Tok.wire toks
  shape : Shape f.depth toks
  interned : ∀ off val, .prop off val ∈ toks → Interned f.strs off

/-- what holds of a builder between calls -/
def Kept (cap : Nat) (f : Fdt) : Prop := ∀ sb, f.sb = some sb → ∃ toks, Emitting cap f sb toks

theorem StringAt.append {strs : List Byte} {off : Nat} (h : StringAt strs off) (more : List Byte) :
    StringAt (strs ++ more) off := by
  obtain ⟨pre, s, post, hs, ho⟩ := h
  refine ⟨pre, s, post ++ more, ?_, ho⟩
  rw [hs, List.append_assoc, List.append_assoc]
  rfl

theorem StringAt.lt {strs : List Byte} {off : Nat} (h : StringAt strs off) :
    off < strs.length := by
  obtain ⟨pre, s, post, rfl, rfl⟩ := h
  rw [List.length_append, List.length_append, List.length_cons]
  omega

theorem Interned.append {strs : List Byte} {off : W32} (h : Interned strs off)
    (more : List Byte) : Interned (strs ++ more) off := by
  obtain ⟨n, hn, ho⟩ := h
  exact ⟨n, hn.append more, ho⟩

theorem interned_new (strs : List Byte) (name : CStr) :
    Interned (strs ++ name.wire) (BitVec.ofNat 32 strs.length) :=
  ⟨strs.length, ⟨strs, name, [], rfl, rfl⟩, rfl⟩

theorem Shape.prop {d : Nat} {toks : List Tok} (h : Shape d toks) (hd : 0 < d) (off : W32)
    (val : List Byte) : Shape d (toks ++ [.prop off val]) := by
  cases h with
  | closed _ => exact absurd hd (Nat.lt_irrefl 0)
  | opened ho => exact .opened (ho.append (.prop off val .nil))

theorem Shape.began {d : Nat} {toks : List Tok} (h : Shape d toks) (hd : 0 < d) (name : CStr) :
    Shape (d + 1) (toks ++ [.beginNode name]) := by
  cases h with
  | closed _ => exact absurd hd (Nat.lt_irrefl 0)
  | opened ho => exact .opened (.down name ho .nil)

theorem Shape.ended {d : Nat} {toks : List Tok} (h : Shape d toks) (hd : 0 < d) :
    Shape (d - 1) (toks ++ [.endNode]) := by
  cases h with
  | closed _ => exact absurd hd (Nat.lt_irrefl 0)
  | opened ho =>
    obtain ⟨d, rfl⟩ : ∃ e, d = e + 1 := ⟨d - 1, by omega⟩
    rw [Nat.add_sub_cancel]
    rcases Nat.eq_zero_or_pos d with rfl | hpos
    · cases ho with
      | root hb => exact .closed hb
      | down name ho' _ => exact absurd ho'.pos (Nat.lt_irrefl 0)
    · exact .opened (ho.close hpos)

namespace Fdt

/-- a call that does not lead outside the format.  Nodes are opened while the root is, the blob is
allocated when the tree is closed, and it is no longer than the ceiling and than a word can say. -/
def Orderly (f : Fdt) : Call → Prop
  | .beginNode (some name) =>
    f.sb ≠ none → name.bytes.length < fdtMaxName →
      f.fits (fdtTokenSize + pad4 (name.bytes.length + 1)) 0 = true → 0 < f.depth
  | .finish allocOk =>
    f.sb ≠ none → f.depth = 0 → f.fits fdtTokenSize 0 = true →
      allocOk = true ∧
        fdtHeaderSize + fdtRsvMapSize + (f.used + fdtTokenSize) + f.strs.length ≤ f.cap ∧
        fdtHeaderSize + fdtRsvMapSize + (f.used + fdtTokenSize) + f.strs.length < 2 ^ 32
  | _ => True

variable {f g : Fdt} {cap : Nat}

/-- **an orderly call keeps what holds between calls** -/
theorem step_kept (hk : Kept cap f) (c : Call) (ho : f.Orderly c) : Kept cap (f.step c).2 := by
  have hm := f.step_moves c
  generalize f.step c = r at hm
  cases hm with
  | refused c st h => exact hk
  | began sb name hsb hname hfit =>
    obtain ⟨toks, he⟩ := hk sb hsb
    have hd : 0 < f.depth := by
      refine ho (by rw [hsb]; exact Option.some_ne_none sb) hname ?_
      rw [fits_some hsb, ← beginNode_length]
      exact hfit
    intro sb' hsb'
    cases hsb'
    refine ⟨toks ++ [.beginNode name], ⟨he.cap, ?_, he.shape.began hd name, ?_⟩⟩
    · rw [Tok.wire_append, Tok.wire_singleton, he.wire]
    · intro off val hmem
      rcases List.mem_append.mp hmem with h | h
      · exact he.interned off val h
      · cases List.mem_singleton.mp h
  | ended sb hsb hd hfit =>
    obtain ⟨toks, he⟩ := hk sb hsb
    intro sb' hsb'
    cases hsb'
    refine ⟨toks ++ [.endNode], ⟨he.cap, ?_, he.shape.ended hd, ?_⟩⟩
    · rw [Tok.wire_append, Tok.wire_singleton, he.wire]
    · intro off val hmem
      rcases List.mem_append.mp hmem with h | h
      · exact he.interned off val h
      · cases List.mem_singleton.mp h
  | attached c sb name val hsb hc hname hd hfit =>
    obtain ⟨toks, he⟩ := hk sb hsb
    intro sb' hsb'
    cases hsb'
    refine ⟨toks ++ [.prop (BitVec.ofNat 32 f.strs.length) val],
      ⟨he.cap, ?_, he.shape.prop hd _ _, ?_⟩⟩
    · rw [Tok.wire_append, Tok.wire_singleton, he.wire]
    · intro off' val' hmem
      rcases List.mem_append.mp hmem with h | h
      · exact (he.interned off' val' h).append _
      · cases List.mem_singleton.mp h
        exact interned_new _ _
  | finished sb hsb hd hfit =>
    intro sb' hsb'
    cases hsb'
  | starved sb hsb hd hfit =>
    have hfits : f.fits fdtTokenSize 0 = true := by
      rw [fits_some hsb]
      exact hfit
    have hno := ho (by rw [hsb]; exact Option.some_ne_none sb) hd hfits
    exact absurd hno.1 Bool.false_ne_true
  | disposed =>
    intro sb' hsb'
    cases hsb'

theorem init_kept {allocOk : Bool} (h : init cap allocOk = some (.ok, f)) : Kept cap f := by
  obtain ⟨hf, -⟩ := init_ok h
  subst hf
  intro sb hsb
  cases hsb
  refine ⟨[.beginNode rootName], ⟨rfl, ?_, .opened (.root .nil), ?_⟩⟩
  · exact (Tok.wire_singleton _).symm
  · intro off val hmem
    cases List.mem_singleton.mp hmem

def OrderlyStep (f : Fdt) (c : Call) (f' : Fdt) : Prop := f.Orderly c ∧ f' = (f.step c).2

theorem run_kept {calls : List Call} (hrun : Lts.Run OrderlyStep f calls g)
    (hk : Kept cap f) : Kept cap g := by
  refine hrun.invariant (I := Kept cap) (A := fun _ => True) ?_ (fun _ _ => trivial) hk
  intro s c s' hs _ hstep
  rw [hstep.2]
  exact step_kept hs c hstep.1

end Fdt

/-! ## the finished blob -/

theorem val_lt_wire {toks : List Tok} {off : W32} {val : List Byte}
    (h : .prop off val ∈ toks) : val.length < (Tok.wire toks).length := by
  obtain ⟨pre, post, rfl⟩ := List.append_of_mem h
  have hpad := pad4_le val.length
  have hsplit : Tok.wire (pre ++ .prop off val :: post) =
      Tok.wire pre ++ ((Tok.prop off val).bytes ++ Tok.wire post) := Tok.wire_append _ _
  rw [hsplit, List.length_append, List.length_append, Fdt.prop_length]
  omega

theorem header_length (n m : Nat) : (Fdt.header n m).length = 56 := rfl

theorem header_reserved (n m : Nat) :
    (Fdt.header n m).drop fdtHeaderSize = zeros fdtRsvMapSize := rfl

theorem header_words (n m : Nat) :
    Fdt.header n m =
      words [fdtMagic, BitVec.ofNat 32 (56 + n + m), BitVec.ofNat 32 56, BitVec.ofNat 32 (56 + n),
        BitVec.ofNat 32 40, fdtV17, 16, 0, BitVec.ofNat 32 m, BitVec.ofNat 32 n] ++
        zeros fdtRsvMapSize := by
  unfold Fdt.header
  dsimp only [words, fdtHeaderSize, fdtRsvMapSize]
  simp only [List.append_assoc, List.append_nil]

/-- a word of the header, whatever follows it -/
theorem header_word (n m : Nat) (w strs : List Byte) {v : W32} {k : Nat} (i : Nat)
    (h : [fdtMagic, BitVec.ofNat 32 (56 + n + m), BitVec.ofNat 32 56, BitVec.ofNat 32 (56 + n),
      BitVec.ofNat 32 40, fdtV17, 16, 0, BitVec.ofNat 32 m, BitVec.ofNat 32 n][i]? = some v)
    (hk : k = 4 * i) : be32 ((Fdt.header n m ++ w ++ strs).drop k) = v := by
  rw [hk, header_words, List.append_assoc, List.append_assoc]
  exact be32_words h _

theorem blob_valid {cap : Nat} {toks : List Tok} {strs : List Byte} (hshape : Shape 0 toks)
    (hnames : ∀ off val, .prop off val ∈ toks → Interned strs off)
    (hcap : 56 + (Tok.wire (toks ++ [.fin])).length + strs.length ≤ cap)
    (hword : 56 + (Tok.wire (toks ++ [.fin])).length + strs.length < 2 ^ 32) :
    Valid cap (Fdt.header (Tok.wire (toks ++ [.fin])).length strs.length ++
      Tok.wire (toks ++ [.fin]) ++ strs) (toks ++ [.fin]) strs := by
  generalize hw : Tok.wire (toks ++ [.fin]) = w at *
  have hlen : (Fdt.header w.length strs.length ++ w ++ strs).length =
      56 + w.length + strs.length := by
    rw [List.length_append, List.length_append]
    rfl
  have hnat : ∀ n, n < 2 ^ 32 → (BitVec.ofNat 32 n).toNat = n := by
    intro n hn
    rw [BitVec.toNat_ofNat, Nat.mod_eq_of_lt hn]
  refine {
    root := ?_
    aligned := ?_
    named := ?_
    magic := header_word _ _ w strs 0 rfl rfl
    version := header_word _ _ w strs 5 rfl rfl
    lastCompatible := header_word _ _ w strs 6 rfl rfl
    total := ?_
    offStruct := ?_
    offStrings := ?_
    offRsvMap := ?_
    sizeStrings := ?_
    sizeStruct := ?_
    blocks := ?_
    ceiling := ?_ }
  · cases hshape with
    | closed hb =>
      rename_i body
      refine ⟨body, hb, ?_⟩
      show .beginNode rootName :: (body ++ [.endNode] ++ [.fin]) = _
      rw [List.append_assoc]
      rfl
    | opened ho => exact absurd ho.pos (Nat.lt_irrefl 0)
  · intro pre t post _
    have h := Tok.wire_words pre
    unfold fdtHeaderSize fdtRsvMapSize
    omega
  · intro off val hmem
    have hval := val_lt_wire hmem
    rw [hw] at hval
    rcases List.mem_append.mp hmem with h | h
    · obtain ⟨n, hn, rfl⟩ := hnames off val h
      have hlt := hn.lt
      rw [hnat n (by omega)]
      exact ⟨hn, by omega⟩
    · cases List.mem_singleton.mp h
  · have h : be32 ((Fdt.header w.length strs.length ++ w ++ strs).drop 0x04) =
        BitVec.ofNat 32 (56 + w.length + strs.length) := header_word _ _ w strs 1 rfl rfl
    rw [h, hnat _ hword, hlen]
  · have h : be32 ((Fdt.header w.length strs.length ++ w ++ strs).drop 0x08) =
        BitVec.ofNat 32 56 := header_word _ _ w strs 2 rfl rfl
    rw [h]
    rfl
  · have h : be32 ((Fdt.header w.length strs.length ++ w ++ strs).drop 0x0C) =
        BitVec.ofNat 32 (56 + w.length) := header_word _ _ w strs 3 rfl rfl
    rw [h, hnat _ (by omega), hw]
    rfl
  · have h : be32 ((Fdt.header w.length strs.length ++ w ++ strs).drop 0x10) =
        BitVec.ofNat 32 40 := header_word _ _ w strs 4 rfl rfl
    rw [h]
    rfl
  · have h : be32 ((Fdt.header w.length strs.length ++ w ++ strs).drop 0x20) =
        BitVec.ofNat 32 strs.length := header_word _ _ w strs 8 rfl rfl
    rw [h, hnat _ (by omega)]
  · have h : be32 ((Fdt.header w.length strs.length ++ w ++ strs).drop 0x24) =
        BitVec.ofNat 32 w.length := header_word _ _ w strs 9 rfl rfl
    rw [h, hnat _ (by omega), hw]
  · have hle : fdtHeaderSize ≤ (Fdt.header w.length strs.length).length := by
      rw [header_length]
      decide
    rw [hw, List.append_assoc, List.drop_append_of_le_length hle, header_reserved]
  · rw [hlen]
    exact hcap

/-- **a run of orderly calls that finishes has built a device tree** -/
theorem finish_valid {cap : Nat} {allocOk : Bool} {f g : Fdt} {calls : List Call}
    (hinit : Fdt.init cap allocOk = some (.ok, f)) (hrun : Lts.Run Fdt.OrderlyStep f calls g)
    {blobOk : Bool} (hlast : g.Orderly (.finish blobOk))
    (hok : (g.step (.finish blobOk)).1 = .ok) :
    ∃ b toks strs, (g.step (.finish blobOk)).2.data = some b ∧ Valid cap b toks strs := by
  have hk := Fdt.run_kept hrun (Fdt.init_kept hinit)
  have hm := g.step_moves (.finish blobOk)
  generalize g.step (.finish blobOk) = r at hm hok
  cases hm with
  | refused c st h => exact absurd hok h
  | attached c sb name val hsb hc => cases hc
  | starved sb hsb hd hfit => cases hok
  | finished sb hsb hd hfit =>
    obtain ⟨toks, he⟩ := hk sb hsb
    have hfits : g.fits fdtTokenSize 0 = true := by
      rw [Fdt.fits_some hsb]
      exact hfit
    obtain ⟨-, hcap, hword⟩ := hlast (by rw [hsb]; exact Option.some_ne_none sb) hd hfits
    have hused : g.used = sb.length := by
      unfold Fdt.used
      rw [hsb]
      rfl
    have hwire : sb ++ Tok.fin.bytes = Tok.wire (toks ++ [.fin]) := by
      rw [Tok.wire_append, Tok.wire_singleton, he.wire]
    have hlen : (Tok.wire (toks ++ [.fin])).length = sb.length + 4 := by
      rw [← hwire, List.length_append]
      rfl
    have hshape := he.shape
    rw [hd] at hshape
    rw [hused, he.cap, fdtHeaderSize, fdtRsvMapSize, fdtTokenSize] at hcap
    rw [hused, fdtHeaderSize, fdtRsvMapSize, fdtTokenSize] at hword
    refine ⟨_, toks ++ [.fin], g.strs, rfl, ?_⟩
    rw [hwire]
    exact blob_valid hshape he.interned (by omega) (by omega)

/-- what a sequence of calls leaves -/
def Fdt.run (f : Fdt) (calls : List Call) : Fdt := calls.foldl (fun f c => (f.step c).2) f

/-- a property of the root, a node under it, and the calls that close the tree -/
def smallRun : List Call :=
  [.propU32 (some ⟨[0x76], fun h => absurd (List.mem_singleton.mp h) (by decide)⟩) 7,
    .beginNode (some ⟨[0x61], fun h => absurd (List.mem_singleton.mp h) (by decide)⟩), .endNode,
    .endNode]

def rootOpen : Fdt := ⟨some (Tok.beginNode rootName).bytes, [], 128, 1, none, false⟩

theorem small_run_valid :
    Fdt.init 128 true = some (.ok, rootOpen) ∧
      Lts.Run Fdt.OrderlyStep rootOpen smallRun (rootOpen.run smallRun) ∧
      ∃ b toks strs, ((rootOpen.run smallRun).step (.finish true)).2.data = some b ∧
        Valid 128 b toks strs := by
  have hinit : Fdt.init 128 true = some (.ok, rootOpen) := rfl
  have hrun : Lts.Run Fdt.OrderlyStep rootOpen smallRun (rootOpen.run smallRun) := by
    refine .cons ⟨trivial, rfl⟩ ?_
    refine .cons ⟨fun _ _ _ => by decide +kernel, rfl⟩ ?_
    refine .cons ⟨trivial, rfl⟩ ?_
    refine .cons ⟨trivial, rfl⟩ ?_
    exact .nil _
  refine ⟨hinit, hrun, finish_valid hinit hrun (fun _ _ _ => ?_) ?_⟩
  · decide +kernel
  · decide +kernel

/-! ## other runs -/

theorem Tok.Body.first {body : List Tok} (h : Tok.Body body) (rest : List Byte) :
    body = [] ∨ be32 (Tok.wire body ++ rest) = fdtTokenBeginNode ∨
      be32 (Tok.wire body ++ rest) = fdtTokenProp := by
  cases h with
  | nil => exact .inl rfl
  | prop off val h => exact .inr (.inr (be32_putBe32 _ _))
  | node name hb h => exact .inr (.inl (be32_putBe32 _ _))

/-- what follows the token of the root -/
theorem Valid.body {cap : Nat} {b strs : List Byte} {toks : List Tok}
    (h : Valid cap b toks strs) :
    ∃ body, Tok.Body body ∧
      b.drop 64 = Tok.wire body ++ (Tok.endNode.bytes ++ (Tok.fin.bytes ++ strs)) := by
  obtain ⟨body, hbody, rfl⟩ := h.root
  refine ⟨body, hbody, ?_⟩
  have hblocks := congrArg (List.drop 24) h.blocks
  rw [List.drop_drop] at hblocks
  have hwire : Tok.wire (.beginNode rootName :: (body ++ [.endNode, .fin])) =
      (Tok.beginNode rootName).bytes ++
        (Tok.wire body ++ (Tok.endNode.bytes ++ Tok.fin.bytes)) := by
    show (Tok.beginNode rootName).bytes ++ Tok.wire (body ++ [.endNode, .fin]) = _
    rw [Tok.wire_append]
    rfl
  rw [hwire, List.append_assoc, List.append_assoc, List.append_assoc] at hblocks
  exact hblocks

/-- a sequence of calls after which `finish` returns OK, with a blob that is no device tree -/
def FinishesInvalid (cap : Nat) (calls : List Call) : Prop :=
  ∃ f b, Fdt.init cap true = some (.ok, f) ∧ ((f.run calls).step (.finish true)).1 = .ok ∧
    ((f.run calls).step (.finish true)).2.data = some b ∧ ∀ toks strs, ¬ Valid cap b toks strs

def blobOf (calls : List Call) : List Byte :=
  ((rootOpen.run calls).step (.finish true)).2.data.getD []

theorem finishes_invalid {calls : List Call}
    (hok : ((rootOpen.run calls).step (.finish true)).1 = .ok)
    (hdata : ((rootOpen.run calls).step (.finish true)).2.data.isSome = true)
    (h : ∀ toks strs, ¬ Valid 128 (blobOf calls) toks strs) : FinishesInvalid 128 calls := by
  obtain ⟨b, hb⟩ := Option.isSome_iff_exists.mp hdata
  have hblob : blobOf calls = b := by
    unfold blobOf
    rw [hb]
    rfl
  exact ⟨rootOpen, b, rfl, hok, hb, hblob ▸ h⟩

def wordProp : Call := .propU64 (some ⟨[0x70], by decide⟩) 0

/-- a second root, an end token before a failed allocation, and a blob over the ceiling -/
theorem disorderly_finishes :
    FinishesInvalid 128 [.endNode, .beginNode (some ⟨[0x61], by decide⟩), .endNode] ∧
      FinishesInvalid 128 [.endNode, .finish false] ∧
      FinishesInvalid 128 [wordProp, wordProp, wordProp, wordProp, .endNode] := by
  refine ⟨finishes_invalid (by decide +kernel) (by decide +kernel) ?_,
    finishes_invalid (by decide +kernel) (by decide +kernel) ?_,
    finishes_invalid (by decide +kernel) (by decide +kernel) ?_⟩
  · intro toks strs h
    obtain ⟨body, hbody, hdrop⟩ := h.body
    rcases hbody.first (Tok.endNode.bytes ++ (Tok.fin.bytes ++ strs)) with rfl | hf | hf
    · have hnext := congrArg (fun l => be32 (l.drop 4)) hdrop
      have hend : be32 (Tok.fin.bytes ++ strs) = fdtTokenEnd := be32_putBe32 _ _
      exact absurd (hnext.trans hend) (by decide +kernel)
    · rw [← hdrop] at hf
      exact absurd hf (by decide +kernel)
    · rw [← hdrop] at hf
      exact absurd hf (by decide +kernel)
  · intro toks strs h
    obtain ⟨body, hbody, hdrop⟩ := h.body
    rcases hbody.first (Tok.endNode.bytes ++ (Tok.fin.bytes ++ strs)) with rfl | hf | hf
    · have hempty : (be32 ((blobOf [.endNode, .finish false]).drop 0x20)).toNat = 0 := by
        decide +kernel
      have hstrs := List.eq_nil_of_length_eq_zero (h.sizeStrings.symm.trans hempty)
      rw [hstrs] at hdrop
      exact absurd hdrop (by decide +kernel)
    · rw [← hdrop] at hf
      exact absurd hf (by decide +kernel)
    · rw [← hdrop] at hf
      exact absurd hf (by decide +kernel)
  · intro toks strs h
    exact absurd h.ceiling (by decide +kernel)

end Oemu
