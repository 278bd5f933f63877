import Oemu.Fdt.Tree

/-!
# Calls until one is refused

The emitters give up at the first call that is refused.  The calls of a tree are refused only for
lack of room, and so they leave the blob of the tree where it fits and there is memory for it, and
report the lack elsewhere, with no blob.

* `Fdt.attempt`        calls up to the first that is refused;
* `Fdt.items_starve`   where the calls of a tree stop;
* `Fdt.attempt_tree`   when the blob of a tree is built.
-/

namespace Oemu

open Wire

/-- calls in order, up to the first that is refused -/
def Fdt.attempt (f : Fdt) : List Call → Status × Fdt
  | [] => (.ok, f)
  | c :: cs => if (f.step c).1 = .ok then (f.step c).2.attempt cs else f.step c

/-! ## calls until one is refused -/

namespace Fdt

variable {f g : Fdt} {sb : List Byte} {cs : List Call}

theorem attempt_ok {c : Call} (h : f.step c = (.ok, g)) : f.attempt (c :: cs) = g.attempt cs := by
  rw [attempt, h, if_pos rfl]

theorem attempt_append (h : f.runOk cs = some g) (cs' : List Call) :
    f.attempt (cs ++ cs') = g.attempt cs' := by
  induction cs generalizing f with
  | nil =>
    cases h
    rfl
  | cons c cs ih =>
    obtain ⟨hok, hrest⟩ := runOk_cons h
    show f.attempt (c :: (cs ++ cs')) = _
    rw [attempt_ok (Prod.ext hok rfl)]
    exact ih hrest

theorem attempt_runOk (h : f.runOk cs = some g) : f.attempt cs = (.ok, g) := by
  have happ := attempt_append h []
  rw [List.append_nil] at happ
  exact happ

/-- the calls stop, and no blob is there -/
def Starves (f : Fdt) (cs : List Call) : Prop :=
  (f.attempt cs).1 = .noMemory ∧ (f.attempt cs).2.data = none

theorem starves_of_ok {c : Call} (h : f.step c = (.ok, g)) (hg : g.Starves cs) :
    f.Starves (c :: cs) := by
  unfold Starves
  rw [attempt_ok h]
  exact hg

theorem starves_of_full {c : Call} (h : f.step c = (.noMemory, g)) (hdata : g.data = none) :
    f.Starves (c :: cs) := by
  unfold Starves attempt
  rw [h, if_neg Status.noConfusion]
  exact ⟨rfl, hdata⟩

theorem propGuard_full {name : CStr} {len : Nat} (hsb : f.sb = some sb) (hne : name.bytes ≠ [])
    (hdepth : 0 < f.depth)
    (hroom : f.cap < sb.length + f.strs.length + (12 + pad4 len) + name.wire.length) :
    f.propGuard (some name) len = .error .noMemory := by
  have hwire : name.wire.length = name.bytes.length + 1 := List.length_append
  have hfit : f.fits (fdtTokenSize + 8 + pad4 len) (name.bytes.length + 1) = false := by
    rw [← Bool.not_eq_true, fits_some hsb, ← hwire]
    exact Nat.not_le.mpr hroom
  unfold propGuard
  dsimp only
  rw [if_neg (by rw [hsb]; exact Option.some_ne_none sb), if_neg hne, if_neg (by omega), hfit]
  exact if_pos (Or.inr rfl)

theorem step_property_full {name : CStr} (value : Value) (hsb : f.sb = some sb)
    (hne : name.bytes ≠ []) (hdepth : 0 < f.depth)
    (hroom : f.cap < sb.length + f.strs.length + (12 + pad4 value.wire.length) +
      name.wire.length) :
    f.step (value.call name) = (.noMemory, f) := by
  have hguard := propGuard_full hsb hne hdepth hroom
  have hvalue : ∀ val : List Byte, val.length = value.wire.length →
      f.propValue (some name) val = (.noMemory, f) := by
    intro val hval
    unfold propValue
    rw [hval, hguard]
  cases value with
  | cells l =>
    show f.propCells (some name) (some l) = _
    unfold propCells
    dsimp only
    rw [← cells_length, show l.flatMap putBe32 = (Value.cells l).wire from rfl, hguard]
  | strv l =>
    show f.propStrv (some name) (some (l.map some)) = _
    unfold propStrv
    rw [if_neg (by rw [hsb]; exact Option.some_ne_none sb), Option.bind_some, strings_some]
    dsimp only
    rw [← strings_length, show l.flatMap CStr.wire = (Value.strv l).wire from rfl, hguard]
  | _ => exact hvalue _ rfl

theorem step_begin_full {name : CStr} (hsb : f.sb = some sb)
    (hname : name.bytes.length < fdtMaxName)
    (hroom : f.cap < sb.length + f.strs.length + (4 + pad4 (name.bytes.length + 1))) :
    f.step (.beginNode (some name)) = (.noMemory, f) := by
  have hfit : f.fits (fdtTokenSize + pad4 (name.bytes.length + 1)) 0 = false := by
    rw [← Bool.not_eq_true, fits_some hsb]
    exact Nat.not_le.mpr hroom
  show f.beginNode (some name) = _
  unfold beginNode
  dsimp only
  rw [if_neg (by rw [hsb]; exact Option.some_ne_none sb), if_neg (by omega), hfit]
  rfl

theorem step_end_full (hsb : f.sb = some sb) (hdepth : 0 < f.depth)
    (hroom : f.cap < sb.length + f.strs.length + 4) : f.step .endNode = (.noMemory, f) := by
  have hfit : f.fits fdtTokenSize 0 = false := by
    rw [← Bool.not_eq_true, fits_some hsb]
    exact Nat.not_le.mpr hroom
  show f.endNode = _
  unfold endNode
  rw [if_neg (by rw [hsb]; exact Option.some_ne_none sb), if_neg (by omega), hfit]
  rfl

theorem step_finish_full (allocOk : Bool) (hsb : f.sb = some sb) (hdepth : f.depth = 0)
    (hdata : f.data = none) (hroom : allocOk = true → f.cap < sb.length + f.strs.length + 4) :
    (f.step (.finish allocOk)).1 = .noMemory ∧ (f.step (.finish allocOk)).2.data = none := by
  show (f.finish allocOk).1 = _ ∧ (f.finish allocOk).2.data = _
  unfold finish
  rw [hsb]
  dsimp only
  rw [if_neg (not_not.mpr hdepth)]
  by_cases hfit : f.fits fdtTokenSize 0 = true
  · have halloc : allocOk = false := by
      rw [← Bool.not_eq_true]
      intro ha
      have hle := (fits_some hsb _ _).mp hfit
      have hlt := hroom ha
      exact absurd hle (Nat.not_le.mpr hlt)
    rw [hfit, halloc]
    exact ⟨rfl, hdata⟩
  · rw [Bool.not_eq_true] at hfit
    rw [hfit]
    exact ⟨rfl, hdata⟩

theorem attempt_room (t : Items) (hsb : f.sb = some sb)
    (hname : t.Nameable) (hdepth : 0 < f.depth)
    (hroom : sb.length + f.strs.length + t.size + t.names.length ≤ f.cap) :
    f.attempt (t.calls ++ cs) =
      attempt { f with sb := some (sb ++ t.ser f.strs.length), strs := f.strs ++ t.names } cs := by
  obtain ⟨g, hg⟩ := runOk_room t hsb hname hdepth hroom
  rw [attempt_append hg, runOk_items t hsb hg]

theorem items_starve (t : Items) (hsb : f.sb = some sb)
    (hname : t.Nameable) (hdepth : 0 < f.depth) (hdata : f.data = none)
    (hle : sb.length + f.strs.length ≤ f.cap)
    (hfull : f.cap < sb.length + f.strs.length + t.size + t.names.length) :
    f.Starves (t.calls ++ cs) := by
  induction t generalizing f sb cs with
  | nil =>
    have hsize : Items.nil.size = 0 := rfl
    have hnames : Items.nil.names.length = 0 := rfl
    omega
  | prop name value rest ih =>
    obtain ⟨hne, hlen, hrest⟩ := hname
    have hsize : (Items.prop name value rest).size = 12 + pad4 value.wire.length + rest.size := rfl
    have hnames : (Items.prop name value rest).names.length =
        name.wire.length + rest.names.length := List.length_append
    show f.Starves (value.call name :: (rest.calls ++ cs))
    by_cases hroom : sb.length + f.strs.length + (12 + pad4 value.wire.length) +
        name.wire.length ≤ f.cap
    · have hok := step_property_room value hsb hne hlen hdepth hroom
      have hstep := step_property (Value.call_property name value) hsb hok
      have hlens : (sb ++ (Tok.prop (BitVec.ofNat 32 f.strs.length) value.wire).bytes).length +
          (f.strs ++ name.wire).length = sb.length + (12 + pad4 value.wire.length) +
          (f.strs.length + name.wire.length) := by
        rw [List.length_append, prop_length, List.length_append, fdtTokenSize]
      refine starves_of_ok (Prod.ext hok hstep) (ih rfl hrest hdepth hdata ?_ ?_)
      · show _ + (f.strs ++ name.wire).length ≤ f.cap
        omega
      · show f.cap < _ + (f.strs ++ name.wire).length + rest.size + rest.names.length
        omega
    · exact starves_of_full (step_property_full value hsb hne hdepth (Nat.not_le.mp hroom)) hdata
  | node name body rest ihb ih =>
    obtain ⟨hlen, hbody, hrest⟩ := hname
    have hsize : (Items.node name body rest).size =
        4 + pad4 (name.bytes.length + 1) + body.size + 4 + rest.size := rfl
    have hnames : (Items.node name body rest).names.length =
        body.names.length + rest.names.length := List.length_append
    have hbegin := beginNode_length name
    rw [fdtTokenSize] at hbegin
    show f.Starves (.beginNode (some name) :: (body.calls ++ .endNode :: rest.calls ++ cs))
    rw [List.append_assoc]
    by_cases hroom : sb.length + f.strs.length + (4 + pad4 (name.bytes.length + 1)) ≤ f.cap
    · have hok := step_begin_room hsb hlen hroom
      refine starves_of_ok (Prod.ext hok (step_began hsb hok)) ?_
      have hlen1 : (sb ++ (Tok.beginNode name).bytes).length =
          sb.length + (4 + pad4 (name.bytes.length + 1)) := by
        rw [List.length_append, hbegin]
      by_cases hroom1 : (sb ++ (Tok.beginNode name).bytes).length + f.strs.length + body.size +
          body.names.length ≤ f.cap
      · unfold Starves
        rw [attempt_room body (f := { f with
          sb := some (sb ++ (Tok.beginNode name).bytes)
          depth := f.depth + 1 }) rfl hbody (Nat.succ_pos _) hroom1]
        have hlen2 : (sb ++ (Tok.beginNode name).bytes ++ body.ser f.strs.length).length =
            sb.length + (4 + pad4 (name.bytes.length + 1)) + body.size := by
          rw [List.length_append, hlen1, Items.ser_length]
        have hstrs : (f.strs ++ body.names).length = f.strs.length + body.names.length :=
          List.length_append
        generalize hg : ({ f with
          sb := some (sb ++ (Tok.beginNode name).bytes ++ body.ser f.strs.length)
          strs := f.strs ++ body.names
          depth := f.depth + 1 } : Fdt) = g
        show g.Starves (.endNode :: (rest.calls ++ cs))
        have hgsb : g.sb = some (sb ++ (Tok.beginNode name).bytes ++ body.ser f.strs.length) := by
          rw [← hg]
        have hgstrs : g.strs = f.strs ++ body.names := by
          rw [← hg]
        have hgdepth : g.depth = f.depth + 1 := by
          rw [← hg]
        have hgcap : g.cap = f.cap := by
          rw [← hg]
        have hgdata : g.data = none := by
          rw [← hg]
          exact hdata
        by_cases hroom2 : (sb ++ (Tok.beginNode name).bytes ++ body.ser f.strs.length).length +
            g.strs.length + 4 ≤ g.cap
        · have hok' := step_end_room hgsb (by omega) hroom2
          have hend : Tok.endNode.bytes.length = 4 := rfl
          refine starves_of_ok (Prod.ext hok' (step_ended hgsb hok')) (ih rfl hrest ?_ hgdata ?_ ?_)
          · show 0 < g.depth - 1
            omega
          · show _ + g.strs.length ≤ g.cap
            rw [List.length_append, hend]
            omega
          · show g.cap < _ + g.strs.length + rest.size + rest.names.length
            rw [List.length_append, hlen2, hgstrs, hstrs, hgcap, hend]
            omega
        · exact starves_of_full (step_end_full hgsb (by omega) (Nat.not_le.mp hroom2)) hgdata
      · refine ihb rfl hbody (Nat.succ_pos _) hdata ?_ ?_
        · show _ + f.strs.length ≤ f.cap
          omega
        · exact Nat.not_le.mp hroom1
    · exact starves_of_full (step_begin_full hsb hlen (Nat.not_le.mp hroom)) hdata

variable {t : Items} {cap : Nat} {allocOk : Bool}

theorem blob_length (t : Items) : t.blob.length = 72 + t.size + t.names.length := by
  unfold Items.blob
  rw [List.length_append, List.length_append, t.block_length]
  show 56 + (16 + t.size) + t.names.length = _
  omega

theorem close_starves (hsb : f.sb = some sb) (hdepth : f.depth = 1) (hdata : f.data = none)
    (hfull : allocOk = true → f.cap < sb.length + f.strs.length + 8) :
    f.Starves [.endNode, .finish allocOk] := by
  by_cases hroom : sb.length + f.strs.length + 4 ≤ f.cap
  · have hok := step_end_room hsb (by omega) hroom
    have hended := step_ended hsb hok
    have hend : (sb ++ Tok.endNode.bytes).length = sb.length + 4 := List.length_append
    refine starves_of_ok (Prod.ext hok hended) ?_
    have hroom' : allocOk = true →
        f.cap < (sb ++ Tok.endNode.bytes).length + f.strs.length + 4 := by
      intro halloc
      have hlt := hfull halloc
      omega
    obtain ⟨hst, hnone⟩ := step_finish_full
      (f := { f with sb := some (sb ++ Tok.endNode.bytes), depth := f.depth - 1 }) allocOk rfl
      (by rw [hdepth]) hdata hroom'
    exact starves_of_full (Prod.ext hst rfl) hnone
  · exact starves_of_full (step_end_full hsb (by omega) (Nat.not_le.mp hroom)) hdata

theorem init_cap (h : init cap true = some (.ok, f)) : cap < 2 ^ 63 := by
  by_contra hmax
  unfold init at h
  rw [if_neg (by have hmin := (init_ok h).2; omega), if_neg (by decide),
    if_pos (Nat.not_lt.mp hmax)] at h
  cases h

/-- **the calls of a tree leave its blob where it fits and there is memory for it, and stop for the
lack of either elsewhere** -/
theorem attempt_tree (allocOk : Bool) (hname : t.Nameable)
    (hinit : init cap true = some (.ok, f)) :
    (allocOk = true ∧ t.blob.length ≤ cap + 56 →
      (f.attempt (t.calls ++ [.endNode, .finish allocOk])).1 = .ok ∧
        (f.attempt (t.calls ++ [.endNode, .finish allocOk])).2.data = some t.blob) ∧
    (¬ (allocOk = true ∧ t.blob.length ≤ cap + 56) →
      f.Starves (t.calls ++ [.endNode, .finish allocOk])) := by
  obtain ⟨hf, hmin⟩ := init_ok hinit
  have hmax := init_cap hinit
  have hblob := blob_length t
  have hsb : f.sb = some (Tok.beginNode rootName).bytes := by
    rw [hf]
  have hstrs : f.strs.length = 0 := by
    rw [hf]
    rfl
  have hcap : f.cap = cap := by
    rw [hf]
  have hdepth : f.depth = 1 := by
    rw [hf]
  have hdata : f.data = none := by
    rw [hf]
  have hroot : (Tok.beginNode rootName).bytes.length = 8 := rfl
  constructor
  · rintro ⟨rfl, hfit⟩
    have hemit := Items.emit_room hname hmin hmax (by omega)
    unfold Items.emit at hemit
    rw [hinit] at hemit
    obtain ⟨g, hg, hb⟩ := Option.bind_eq_some_iff.mp hemit
    rw [attempt_runOk hg]
    exact ⟨rfl, hb⟩
  · intro hfull
    have hpos : 0 < f.depth := by
      omega
    by_cases hroom : (Tok.beginNode rootName).bytes.length + f.strs.length + t.size +
        t.names.length ≤ f.cap
    · unfold Starves
      rw [attempt_room t hsb hname hpos hroom]
      refine close_starves rfl hdepth hdata ?_
      intro halloc
      have hlt : ¬ t.blob.length ≤ cap + 56 := fun h => hfull ⟨halloc, h⟩
      show f.cap < _ + (f.strs ++ t.names).length + 8
      rw [List.length_append, List.length_append, t.ser_length, hroot, hcap]
      omega
    · refine items_starve t hsb hname hpos hdata ?_ (Nat.not_le.mp hroom)
      have h128 : fdtMinCap = 128 := rfl
      omega

end Fdt

end Oemu
