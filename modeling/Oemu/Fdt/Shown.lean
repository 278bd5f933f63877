import Oemu.Fdt.Emission

/-!
# The builder and its scratch

`Shows s f`: the scratch of `s` holds the blocks of `f`.  As long as the calls are safe the two answer
alike and stay so, which makes what is known of `Fdt` known of the memory.

* `Fdt.step_value`   a property on the builder is its checks and its token;
* `step_shows`       one call on both.
-/

namespace Oemu

open Wire Buffer

/-! ## a property on the builder -/

namespace Fdt

variable {f : Fdt} {c : Call}

/-- the checks, and the token behind the structure block -/
def attach (f : Fdt) (name : Option CStr) (val : List Byte) : Status × Fdt :=
  match f.propGuard name val.length with
  | .error st => (st, f)
  | .ok (off, g) => (.ok, g.emitRaw (Tok.prop off val).bytes)

theorem propValue_attach (f : Fdt) (name : Option CStr) (val : List Byte) :
    f.propValue name val = f.attach name val := by
  unfold propValue attach
  cases f.propGuard name val.length with
  | error st => rfl
  | ok r =>
    refine congrArg (Prod.mk Status.ok) ?_
    unfold propEmit
    dsimp only
    rw [emitRaw_emitRaw, emitRaw_emitRaw]
    rfl

theorem propCells_attach (f : Fdt) (name : Option CStr) (cells : List W32) :
    f.propCells name (some cells) = f.attach name (cells.flatMap putBe32) := by
  have hpad : padded (cells.flatMap putBe32) = cells.flatMap putBe32 := by
    have h : pad4 (cells.flatMap putBe32).length - (cells.flatMap putBe32).length = 0 := by
      rw [cells_length]
      unfold pad4
      omega
    unfold padded
    rw [h]
    exact List.append_nil _
  unfold propCells attach
  dsimp only
  rw [← cells_length]
  cases f.propGuard name (cells.flatMap putBe32).length with
  | error st => rfl
  | ok r =>
    refine congrArg (Prod.mk Status.ok) ?_
    rw [foldl_emitRaw]
    show _ = r.2.emitRaw (propHead r.1 _ ++ padded _)
    rw [hpad]

theorem propStrv_attach (f : Fdt) (name : Option CStr) {values : List (Option CStr)} {l : List CStr}
    (hl : strings values = some l) :
    f.propStrv name (some values) = f.attach name (l.flatMap CStr.wire) := by
  have hbind : (some values).bind strings = some l := hl
  unfold propStrv attach
  rw [hbind]
  dsimp only
  rw [← strings_length]
  by_cases hsb : f.sb = none
  · rw [if_pos hsb]
    unfold propGuard
    rw [if_pos hsb]
  · rw [if_neg hsb]
    cases f.propGuard name (l.flatMap CStr.wire).length with
    | error st => rfl
    | ok r =>
      refine congrArg (Prod.mk Status.ok) ?_
      rw [foldl_emitRaw, emitRaw_emitRaw, List.append_assoc]
      rfl

/-- **a property on the builder** -/
theorem step_value {name : Option CStr} {val : List Byte} (hv : c.value? = some (name, val)) :
    f.step c = f.attach name val := by
  cases c with
  | propEmpty n | propU32 n _ | propU64 n _ =>
    cases hv
    exact propValue_attach f _ _
  | propBytes n data =>
    cases data with
    | none => cases hv
    | some data =>
      cases hv
      exact propValue_attach f _ _
  | propStr n value =>
    cases value with
    | none => cases hv
    | some value =>
      cases hv
      exact propValue_attach f _ _
  | propCells n cells =>
    cases cells with
    | none => cases hv
    | some cells =>
      cases hv
      exact propCells_attach f _ cells
  | propStrv n values =>
    cases values with
    | none => cases hv
    | some vs =>
      have hv : (strings vs).map (fun l => (n, l.flatMap CStr.wire)) = some (name, val) := hv
      cases hl : strings vs with
      | none =>
        rw [hl] at hv
        cases hv
      | some l =>
        rw [hl] at hv
        cases hv
        exact propStrv_attach f _ hl
  | beginNode _ | endNode | finish _ | dispose => cases hv

end Fdt

/-! ## both -/

/-- the scratch holds the blocks of the builder -/
structure Shows (s : Scratch) (f : Fdt) : Prop where
  sb : f.sb = s.sb.map fun m => readout m 0 s.sbUsed
  strs : ∀ m, s.sb = some m → f.strs = readout m s.sbSize s.strLen
  cap : f.cap = s.cap
  depth : f.depth = s.depth
  data : f.data = s.data
  finished : f.finished = s.finished

namespace Shows

variable {s : Scratch} {f : Fdt} {m : Nat → Byte}

theorem sb_none (h : Shows s f) : f.sb = none ↔ s.sb = none := by
  rw [h.sb, Option.map_eq_none_iff]

theorem used (h : Shows s f) (hm : s.sb = some m) :
    f.sb = some (readout m 0 s.sbUsed) ∧ f.used = s.sbUsed ∧ f.strs.length = s.strLen := by
  have hsb : f.sb = some (readout m 0 s.sbUsed) := by
    rw [h.sb, hm]
    rfl
  refine ⟨hsb, ?_, ?_⟩
  · unfold Fdt.used
    rw [hsb]
    exact readout_length _ _ _
  · rw [h.strs m hm, readout_length]

theorem fits (h : Shows s f) (hm : s.sb = some m) {a b : Nat}
    (hsize : s.sbUsed + s.strLen + a + b < 2 ^ 64) : f.fits a b = s.fits a b := by
  obtain ⟨-, hused, hlen⟩ := h.used hm
  unfold Fdt.fits Scratch.fits
  rw [hused, hlen, h.cap, Scratch.wrap_of_lt hsize]

theorem wrap_le (n : Nat) : wrap n ≤ n := Nat.mod_le _ _

theorem fdtPad4_le (n : Nat) : Scratch.fdtPad4 (wrap n) ≤ pad4 n := by
  have h1 := wrap_le n
  have h2 := wrap_le (wrap n + 3)
  unfold Scratch.fdtPad4 pad4
  omega

/-- what is too large modulo 2^64 is too large -/
theorem fits_of_wrapped (h : Shows s f) (hm : s.sb = some m) {len n : Nat}
    (hf : s.fits (fdtTokenSize + 8 + Scratch.fdtPad4 (wrap len)) n = false) :
    f.fits (fdtTokenSize + 8 + pad4 len) n = false := by
  obtain ⟨-, hused, hlen⟩ := h.used hm
  have hpad := fdtPad4_le len
  have hle := wrap_le (s.sbUsed + s.strLen + (fdtTokenSize + 8 + Scratch.fdtPad4 (wrap len)) + n)
  unfold Scratch.fits at hf
  unfold Fdt.fits
  rw [decide_eq_false_iff_not, Nat.not_le] at hf ⊢
  rw [hused, hlen, h.cap]
  omega

theorem propGuard (h : Shows s f) {name : Option CStr} {len : Nat}
    (hname : ∀ n, name = some n → n.bytes.length + 1 < 2 ^ 64)
    (hsize : ∀ n, s.propChecks name (wrap len) = .ok n →
      s.sbUsed + s.strLen + (12 + pad4 len) + n.wire.length < 2 ^ 64) :
    f.propGuard name len = match s.propChecks name (wrap len) with
      | .error st => .error st
      | .ok n => .ok (BitVec.ofNat 32 s.strLen, { f with strs := f.strs ++ n.wire }) := by
  unfold Fdt.propGuard Scratch.propChecks at *
  cases hm : s.sb with
  | none =>
    rw [if_pos (h.sb_none.mpr hm)]
    rfl
  | some m =>
    rw [hm] at hsize
    obtain ⟨hsb, -, hlen⟩ := h.used hm
    have hnone : ¬ (some m).isNone = true := Bool.false_ne_true
    rw [if_neg (by rw [hsb]; exact Option.some_ne_none _), if_neg hnone]
    rw [if_neg hnone] at hsize
    cases name with
    | none => rfl
    | some n =>
      have hn := hname n rfl
      have hwire : n.wire.length = n.bytes.length + 1 := List.length_append
      dsimp only at hsize ⊢
      rw [Scratch.wrap_of_lt hn, h.depth] at *
      by_cases hne : n.bytes = []
      · rw [if_pos hne, if_pos hne]
      · rw [if_neg hne, if_neg hne]
        rw [if_neg hne] at hsize
        by_cases hd : s.depth = 0
        · rw [if_pos hd, if_pos hd]
        · rw [if_neg hd, if_neg hd]
          rw [if_neg hd] at hsize
          by_cases hc : n.bytes.length + 1 > fdtMaxName ∨
              (!s.fits (fdtTokenSize + 8 + Scratch.fdtPad4 (wrap len)) (n.bytes.length + 1)) = true
          · rw [if_pos hc, if_pos]
            refine hc.imp_right fun hf => ?_
            rw [Bool.not_eq_true'] at hf ⊢
            exact h.fits_of_wrapped hm hf
          · rw [if_neg hc] at hsize ⊢
            have hsize := hsize n rfl
            have hle := pad4_le len
            have hlen' : len + 3 < 2 ^ 64 := by omega
            have hfits : f.fits (fdtTokenSize + 8 + pad4 len) (n.bytes.length + 1) =
                s.fits (fdtTokenSize + 8 + pad4 len) (n.bytes.length + 1) :=
              h.fits hm (show s.sbUsed + s.strLen + (12 + pad4 len) + _ < _ by omega)
            rw [Scratch.wrap_of_lt (show len < 2 ^ 64 by omega), Scratch.fdtPad4_eq hlen',
              ← hfits] at hc
            rw [if_neg hc, hlen]

theorem emit (h : Shows s f) (hm : s.sb = some m) {bytes : List Byte}
    (hfit : s.sbUsed + bytes.length ≤ s.sbSize) {d d' : Nat} (hd : d' = d) :
    Shows { s with
        sb := some (poke m s.sbUsed bytes), sbUsed := s.sbUsed + bytes.length, depth := d }
      { f with sb := some (readout m 0 s.sbUsed ++ bytes), depth := d' } where
  sb := by
    have hread := readout_poke_end m 0 s.sbUsed bytes
    rw [Nat.zero_add] at hread
    exact congrArg some hread.symm
  strs := by
    intro m' hm'
    cases hm'
    rw [readout_poke_off m (.inr hfit)]
    exact h.strs m hm
  cap := h.cap
  depth := hd
  data := h.data
  finished := h.finished

theorem intern (h : Shows s f) (hm : s.sb = some m) (hfit : s.sbUsed ≤ s.sbSize) (name : CStr) :
    Shows { s with
        sb := some (poke m (s.sbSize + s.strLen) name.wire), strLen := s.strLen + name.wire.length }
      { f with strs := f.strs ++ name.wire } where
  sb := by
    show f.sb = some (readout (poke m (s.sbSize + s.strLen) name.wire) 0 s.sbUsed)
    rw [h.sb, hm, readout_poke_off m (.inl (by omega))]
    rfl
  strs := by
    intro m' hm'
    cases hm'
    rw [readout_poke_end, ← h.strs m hm]
  cap := h.cap
  depth := h.depth
  data := h.data
  finished := h.finished

end Shows

/-! ## one call -/

namespace Scratch

variable {s : Scratch} {f : Fdt} {c : Call}

theorem step_shows_value (hs : s.Ok) (hc : c.Sized) (hsafe : s.Safe c) (h : Shows s f)
    {name : Option CStr} {val : List Byte} (hv : c.value? = some (name, val)) :
    ∃ s', s.step c = some ((f.step c).1, s') ∧ Shows s' (f.step c).2 := by
  obtain ⟨pieces, hstep, hp⟩ := step_property (s := s) hc hv
  have hguard := @Shows.propGuard _ _ h name val.length
    (fun n hn => hc.name n ((Call.value?_name hv).trans hn)) (fun n hok => hsafe.size _ _ n hv hok)
  rw [Fdt.step_value hv, hstep]
  unfold Fdt.attach
  rw [hguard]
  cases hok : s.propChecks name (wrap val.length) with
  | error st =>
    refine ⟨s, ?_, h⟩
    unfold propGuard
    rw [hok]
  | ok n =>
    obtain ⟨hsb, -⟩ := propChecks_ok hok
    have hheld := hs hsb
    have hbase := hheld.base
    obtain ⟨m, hm⟩ := Option.ne_none_iff_exists'.mp hsb
    obtain ⟨hfit, hres⟩ := propGuard_fits hheld hm hp hok (hsafe.size _ _ n hv hok)
    have htok : (Tok.prop (BitVec.ofNat 32 s.strLen) val).bytes.length = 12 + pad4 val.length :=
      Fdt.prop_length _ _
    have hnamed := h.intern hm (by omega) n
    have hboth := @Shows.emit _ _ _ hnamed rfl (Tok.prop (BitVec.ofNat 32 s.strLen) val).bytes
      (show s.sbUsed + _ ≤ s.sbSize by omega) _ _ h.depth
    refine ⟨_, hres, ?_⟩
    rw [htok] at hboth
    dsimp only at hboth ⊢
    obtain ⟨hfsb, -, -⟩ := h.used hm
    have hread : readout (poke m (s.sbSize + s.strLen) n.wire) 0 s.sbUsed =
        readout m 0 s.sbUsed := readout_poke_off m (.inl (by omega))
    have hfsb' : ({ f with strs := f.strs ++ n.wire } : Fdt).sb = some (readout m 0 s.sbUsed) := hfsb
    rw [Fdt.emitRaw_sb hfsb', ← hread]
    exact hboth

theorem Ok.shown (hs : s.Ok) (h : Shows s f) {m : Nat → Byte} (hm : s.sb = some m) :
    f.sb = some (readout m 0 s.sbUsed) ∧ s.sbSize = s.cap ∧
      ∀ {n : Nat}, n ≤ 2 ^ 62 → s.sbUsed + s.strLen + n < 2 ^ 64 ∧ f.fits n 0 = s.fits n 0 ∧
        (s.fits n 0 = true → s.sbUsed + s.strLen + n ≤ s.cap) := by
  have hheld := hs (by rw [hm]; exact Option.some_ne_none m)
  have hused := hheld.used
  have hroom := hheld.room
  have hobj := hheld.object
  refine ⟨(h.used hm).1, hheld.base, fun {n} hn => ?_⟩
  have hlt : s.sbUsed + s.strLen + n + 0 < 2 ^ 64 := by omega
  exact ⟨hlt, h.fits hm hlt, (fits_iff hlt).mp⟩

theorem beginNode_shows (hs : s.Ok) (h : Shows s f) (name : Option CStr) :
    ∃ s', s.beginNode name = some ((f.beginNode name).1, s') ∧ Shows s' (f.beginNode name).2 := by
  unfold beginNode Fdt.beginNode
  cases hm : s.sb with
  | none =>
    rw [if_pos (h.sb_none.mpr hm)]
    exact ⟨s, rfl, h⟩
  | some m =>
    have hheld := hs (by rw [hm]; exact Option.some_ne_none m)
    obtain ⟨hsb, hbase, hfit⟩ := hs.shown h hm
    rw [hsb, if_neg (Option.some_ne_none _),
      if_neg (show ¬ (some m).isNone = true from Bool.false_ne_true)]
    cases name with
    | none => exact ⟨s, rfl, h⟩
    | some name =>
      dsimp only
      by_cases hlen : name.bytes.length ≥ fdtMaxName
      · rw [if_pos hlen, if_pos hlen]
        exact ⟨s, rfl, h⟩
      · rw [if_neg hlen, if_neg hlen]
        have hlen : name.bytes.length < 128 := Nat.not_le.mp hlen
        have hle := pad4_le (name.bytes.length + 1)
        have htok := Fdt.beginNode_length name
        have hsize : fdtTokenSize = 4 := rfl
        obtain ⟨hlt, hsame, hcap⟩ := hfit (show fdtTokenSize + pad4 (name.bytes.length + 1) ≤ 2 ^ 62 by
          omega)
        rw [fdtPad4_eq (show name.bytes.length + 1 + 3 < 2 ^ 64 by omega), hsame]
        by_cases hfits : s.fits (fdtTokenSize + pad4 (name.bytes.length + 1)) 0 = true
        · have hroom := hcap hfits
          rw [hfits, if_neg (by decide), if_neg (by decide), Fdt.emitToken, Fdt.emitRaw_emitRaw,
            Fdt.padded_name, Fdt.emitRaw_sb hsb, @emit_token _ _ hheld hm
              (Tok.beginNode name).bytes (by omega)]
          · exact ⟨_, rfl, @Shows.emit _ _ _ h hm (Tok.beginNode name).bytes (by omega) _ _
              (congrArg (· + 1) h.depth)⟩
          · rw [List.flatten_cons, List.flatten_singleton]
            rfl
        · rw [Bool.not_eq_true] at hfits
          rw [hfits, if_pos Bool.not_false]
          exact ⟨s, rfl, h⟩

theorem endNode_shows (hs : s.Ok) (h : Shows s f) :
    ∃ s', s.endNode = some (f.endNode.1, s') ∧ Shows s' f.endNode.2 := by
  unfold endNode Fdt.endNode
  cases hm : s.sb with
  | none =>
    rw [if_pos (h.sb_none.mpr hm)]
    exact ⟨s, rfl, h⟩
  | some m =>
    have hheld := hs (by rw [hm]; exact Option.some_ne_none m)
    obtain ⟨hsb, hbase, hfit⟩ := hs.shown h hm
    obtain ⟨hlt, hsame, hcap⟩ := hfit (show fdtTokenSize ≤ 2 ^ 62 by decide)
    have htok : Tok.endNode.bytes.length = fdtTokenSize := rfl
    rw [hsb, if_neg (Option.some_ne_none _),
      if_neg (show ¬ (some m).isNone = true from Bool.false_ne_true), h.depth, hsame]
    by_cases hd : s.depth = 0
    · rw [if_pos hd, if_pos hd]
      exact ⟨s, rfl, h⟩
    · rw [if_neg hd, if_neg hd]
      by_cases hfits : s.fits fdtTokenSize 0 = true
      · have hroom := hcap hfits
        have hemit := @emit_token _ _ hheld hm Tok.endNode.bytes (by omega) [Tok.endNode.bytes]
          (List.append_nil _)
        rw [emitAll_singleton] at hemit
        rw [hfits, if_neg (by decide), if_neg (by decide), Fdt.emitToken, Fdt.emitRaw_sb hsb,
          show s.emitToken fdtTokenEndNode = _ from hemit]
        exact ⟨_, rfl, @Shows.emit _ _ _ h hm Tok.endNode.bytes (by omega) _ _
          (congrArg (· - 1) h.depth)⟩
      · rw [Bool.not_eq_true] at hfits
        rw [hfits, if_pos Bool.not_false]
        exact ⟨s, rfl, h⟩

theorem finish_shows (hs : s.Ok) (h : Shows s f) (allocOk : Bool) :
    ∃ s', s.finish allocOk = some ((f.finish allocOk).1, s') ∧ Shows s' (f.finish allocOk).2 := by
  unfold finish Fdt.finish
  cases hm : s.sb with
  | none =>
    rw [h.sb_none.mpr hm]
    exact ⟨s, rfl, h⟩
  | some m =>
    have hheld := hs (by rw [hm]; exact Option.some_ne_none m)
    obtain ⟨hsb, hbase, hfit⟩ := hs.shown h hm
    obtain ⟨hlt, hsame, hcap⟩ := hfit (show fdtTokenSize ≤ 2 ^ 62 by decide)
    have htok : Tok.fin.bytes.length = fdtTokenSize := rfl
    have hsize : fdtTokenSize = 4 := rfl
    have hhead : fdtHeaderSize + fdtRsvMapSize = 56 := rfl
    rw [hsb, if_neg (show ¬ (some m).isNone = true from Bool.false_ne_true)]
    dsimp only
    rw [h.depth, hsame]
    by_cases hd : s.depth = 0
    · rw [if_neg (not_not.mpr hd), if_neg (not_not.mpr hd)]
      by_cases hfits : s.fits fdtTokenSize 0 = true
      · have hroom := hcap hfits
        have hobj := hheld.object
        have htwice := hheld.room
        have hemit := @emit_token _ _ hheld hm Tok.fin.bytes (by omega) [Tok.fin.bytes]
          (List.append_nil _)
        rw [emitAll_singleton] at hemit
        have hboth := @Shows.emit _ _ _ h hm Tok.fin.bytes (by omega) _ _ h.depth
        rw [hfits, if_neg (by decide), if_neg (by decide), Fdt.emitToken, Fdt.emitRaw_sb hsb,
          show s.emitToken fdtTokenEnd = _ from hemit, Option.bind_some]
        dsimp only
        cases allocOk with
        | false => exact ⟨_, rfl, hboth⟩
        | true =>
          rw [if_neg (by decide), if_neg (by decide), Option.bind_some, wrap_of_lt (by omega),
            if_pos (by omega)]
          obtain ⟨hsb₁, -, hlen₁⟩ := hboth.used rfl
          have hdata : Fdt.header (readout m 0 s.sbUsed ++ Tok.fin.bytes).length f.strs.length ++
              (readout m 0 s.sbUsed ++ Tok.fin.bytes) ++ f.strs =
            Fdt.header (s.sbUsed + Tok.fin.bytes.length) s.strLen ++
              readout (poke m s.sbUsed Tok.fin.bytes) 0 (s.sbUsed + Tok.fin.bytes.length) ++
              readout (poke m s.sbUsed Tok.fin.bytes) s.sbSize s.strLen := by
            have hread := Option.some.inj hsb₁
            have hstrs := hboth.strs _ rfl
            dsimp only at hread hstrs hlen₁
            rw [hread, readout_length, hlen₁, ← hstrs]
          exact ⟨_, rfl, rfl, fun _ hm => (by cases hm), h.cap, h.depth, congrArg some hdata, rfl⟩
      · rw [Bool.not_eq_true] at hfits
        rw [hfits, if_pos Bool.not_false]
        exact ⟨s, rfl, h⟩
    · rw [if_pos hd, if_pos hd]
      exact ⟨s, rfl, h⟩

/-- **one call on both**: a safe call answers alike and leaves the scratch showing the builder -/
theorem step_shows (hs : s.Ok) (hc : c.Sized) (hsafe : s.Safe c) (h : Shows s f) :
    ∃ s', s.step c = some ((f.step c).1, s') ∧ Shows s' (f.step c).2 := by
  cases hv : c.value? with
  | some nv => exact step_shows_value hs hc hsafe h hv
  | none =>
    cases c with
    | beginNode name => exact beginNode_shows hs h name
    | endNode => exact endNode_shows hs h
    | propEmpty name => cases hv
    | propU32 name value => cases hv
    | propU64 name value => cases hv
    | propBytes name data =>
      cases data with
      | none => exact ⟨s, rfl, h⟩
      | some data => cases hv
    | propStr name value =>
      cases value with
      | none => exact ⟨s, rfl, h⟩
      | some value => cases hv
    | propCells name cells =>
      cases cells with
      | none => exact ⟨s, rfl, h⟩
      | some cells => cases hv
    | propStrv name values =>
      have hnone : values.bind Fdt.strings = none := by
        cases values with
        | none => rfl
        | some vs =>
          have hv : (Fdt.strings vs).map _ = none := hv
          exact Option.map_eq_none_iff.mp hv
      show ∃ s', s.propStrv name values = some ((f.propStrv name values).1, s') ∧
        Shows s' (f.propStrv name values).2
      unfold propStrv Fdt.propStrv
      rw [hnone]
      cases hm : s.sb with
      | none =>
        rw [if_pos (h.sb_none.mpr hm)]
        exact ⟨s, rfl, h⟩
      | some m =>
        rw [(h.used hm).1]
        exact ⟨s, rfl, h⟩
    | finish allocOk => exact finish_shows hs h allocOk
    | dispose => exact ⟨zero, rfl, ⟨rfl, fun _ hm => (by cases hm), rfl, rfl, rfl, rfl⟩⟩

end Scratch

end Oemu
