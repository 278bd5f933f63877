import Oemu.Fdt.Builder
import Oemu.Lib.Consume

/-!
# The read-back helper

`fdtFind` walks the structure block once, with a frame for each open node that says how much of the
path its ancestors and it have matched.  A pointer into the blob is the list of the bytes from it on.

* `fdtFind`        the walk;
* `findLoop_begin`, `findLoop_prop`, `findLoop_endNode`, `findLoop_fin`   a turn, by the token it meets.
-/

namespace Oemu

open Wire

/-- an open node: how far the path is matched, whether it is matched, and whether it is the one -/
structure Frame where
  pos : Nat
  isMatch : Bool
  target : Bool
deriving DecidableEq

def Frame.off : Frame := ⟨0, false, false⟩

/-- compare a name with the next component of the path -/
def Frame.child (path : List Byte) (parent : Frame) (nm : List Byte) : Frame :=
  let start := parent.pos + 1
  if start > path.length then .off
  else
    let word := (path.drop start).takeWhile (· != slash)
    if nm = word then
      ⟨start + word.length, true, decide (start + word.length = path.length)⟩
    else .off

/-- the frame of a node that opens under some frames, the innermost first -/
def beginFrame (path : List Byte) (frames : List Frame) (nm : List Byte) : Frame :=
  match frames with
  | [] =>
    if nm.length ≠ 0 then .off
    else ⟨if path.length = 1 then path.length else 0, true, decide (path.length = 1)⟩
  | parent :: _ =>
    if parent.target then .off
    else if !parent.isMatch then .off
    else parent.child path nm

/-- is the innermost open node the one -/
def onTarget : List Frame → Bool
  | [] => false
  | top :: _ => top.target

/-- what is left of the blob, and the open nodes -/
structure Walk where
  p : List Byte
  frames : List Frame

def fdtMaxDepth : Nat := 32

section Find

variable (blob : List Byte) (offStrings : W32) (path prop : List Byte)

/-- one turn of the walk -/
def findStep (w : Walk) : Except Status (List Byte) ⊕ Walk :=
  if w.p.length < 4 then .inl (.error .notFound)
  else
    let token := be32 w.p
    let p := w.p.drop 4
    if token = fdtTokenEnd then .inl (.error .notFound)
    else if token = fdtTokenEndNode then
      if onTarget w.frames then .inl (.error .notFound) else .inr ⟨p, w.frames.tail⟩
    else if token = fdtTokenBeginNode then
      let nm := cstr p
      let adv := pad4 (nm.length + 1)
      if p.length < adv then .inl (.error .format)
      else if w.frames.length ≥ fdtMaxDepth then .inl (.error .format)
      else .inr ⟨p.drop adv, beginFrame path w.frames nm :: w.frames⟩
    else if token = fdtTokenProp then
      if p.length < 12 then .inl (.error .format)
      else
        let dlen := (be32 p).toNat
        let nameOff := be32 (p.drop 4)
        let p := p.drop 8
        if p.length < dlen ∨ (offStrings + nameOff).toNat ≥ blob.length then .inl (.error .format)
        else
          let nm := cstr (blob.drop (offStrings.toNat + nameOff.toNat))
          if onTarget w.frames = true ∧ nm = prop then .inl (.ok (p.take dlen))
          else .inr ⟨p.drop (pad4 dlen), w.frames⟩
    else .inl (.error .format)

def findLoop (w : Walk) : Except Status (List Byte) :=
  Consume.loop (findStep blob offStrings path prop) (.error .notFound) (fun w => w.p.length) w

end Find

/-- the value of a property by the path of its node -/
def fdtFind (blob : List Byte) (path prop : CStr) : Except Status (List Byte) :=
  if blob.length < fdtHeaderSize then .error .invalidArg
  else if be32 blob ≠ fdtMagic then .error .format
  else
    let offStruct := be32 (blob.drop 8)
    let offStrings := be32 (blob.drop 12)
    if offStruct.toNat ≥ blob.length ∨ offStrings.toNat > blob.length then .error .format
    else findLoop blob offStrings path.bytes prop.bytes ⟨blob.drop offStruct.toNat, []⟩

/-! ## a turn, by the token it meets -/

variable {blob : List Byte} {offStrings : W32} {path prop : List Byte}

theorem findStep_shrinks :
    Consume.Shrinks (findStep blob offStrings path prop) fun w => w.p.length := by
  intro w w' h
  unfold findStep at h
  dsimp only at h
  repeat' split at h
  all_goals cases h
  all_goals
    simp only [List.length_drop]
    omega

theorem findLoop_fin (rest : List Byte) (frames : List Frame) :
    findLoop blob offStrings path prop ⟨Tok.fin.bytes ++ rest, frames⟩ = .error .notFound := by
  have hl : ¬ (Tok.fin.bytes ++ rest).length < 4 := by
    show ¬ (rest.length + 1 + 1 + 1 + 1) < 4
    omega
  have htok : be32 (Tok.fin.bytes ++ rest) = fdtTokenEnd := be32_putBe32 _ rest
  refine Consume.loop_return ?_
  unfold findStep
  dsimp only
  rw [if_neg hl, htok, if_pos rfl]

theorem findLoop_endNode (rest : List Byte) (frames : List Frame) :
    findLoop blob offStrings path prop ⟨Tok.endNode.bytes ++ rest, frames⟩ =
      if onTarget frames then .error .notFound
      else findLoop blob offStrings path prop ⟨rest, frames.tail⟩ := by
  have hl : ¬ (Tok.endNode.bytes ++ rest).length < 4 := by
    show ¬ (rest.length + 1 + 1 + 1 + 1) < 4
    omega
  have htok : be32 (Tok.endNode.bytes ++ rest) = fdtTokenEndNode := be32_putBe32 _ rest
  have hstep : findStep blob offStrings path prop ⟨Tok.endNode.bytes ++ rest, frames⟩ =
      if onTarget frames then .inl (.error .notFound) else .inr ⟨rest, frames.tail⟩ := by
    unfold findStep
    dsimp only
    rw [if_neg hl, htok, if_neg (by decide), if_pos rfl]
    rfl
  cases ht : onTarget frames with
  | true =>
    rw [ht, if_pos rfl] at hstep
    rw [if_pos rfl]
    exact Consume.loop_return hstep
  | false =>
    rw [ht, if_neg Bool.false_ne_true] at hstep
    rw [if_neg Bool.false_ne_true]
    exact Consume.loop_next findStep_shrinks hstep

theorem findLoop_begin (name : CStr) (rest : List Byte) (frames : List Frame)
    (hdepth : frames.length < fdtMaxDepth) :
    findLoop blob offStrings path prop ⟨(Tok.beginNode name).bytes ++ rest, frames⟩ =
      findLoop blob offStrings path prop
        ⟨rest, beginFrame path frames name.bytes :: frames⟩ := by
  refine Consume.loop_next findStep_shrinks ?_
  have hb : (Tok.beginNode name).bytes ++ rest =
      putBe32 fdtTokenBeginNode ++ (padded name.wire ++ rest) := List.append_assoc _ _ _
  have hnm : cstr (padded name.wire ++ rest) = name.bytes := padded_cstr name.nonzero rest
  have hlen : name.wire.length = name.bytes.length + 1 := List.length_append
  unfold findStep
  dsimp only
  rw [hb, be32_putBe32, drop_putBe32, hnm, if_neg, if_neg (by decide), if_neg (by decide),
    if_pos rfl, if_neg, if_neg (by omega), ← hlen, padded_drop]
  · rw [List.length_append, padded_length, hlen]
    omega
  · rw [List.length_append, putBe32_length]
    omega

theorem findLoop_prop (nameOff : W32) (val name rest : List Byte) (frames : List Frame)
    (hval : val.length < 2 ^ 32) (hrest : 4 ≤ rest.length)
    (hoff : (offStrings + nameOff).toNat < blob.length)
    (hname : cstr (blob.drop (offStrings.toNat + nameOff.toNat)) = name) :
    findLoop blob offStrings path prop ⟨(Tok.prop nameOff val).bytes ++ rest, frames⟩ =
      if onTarget frames = true ∧ name = prop then .ok val
      else findLoop blob offStrings path prop ⟨rest, frames⟩ := by
  have hdlen : (BitVec.ofNat 32 val.length).toNat = val.length := by
    rw [BitVec.toNat_ofNat, Nat.mod_eq_of_lt hval]
  have hpad := pad4_le val.length
  have hbody : (((Tok.prop nameOff val).bytes ++ rest).drop 4).drop 8 = padded val ++ rest := rfl
  have hlen : ((Tok.prop nameOff val).bytes ++ rest).length =
      4 + (8 + (pad4 val.length + rest.length)) := by
    rw [List.length_append, Fdt.prop_length, fdtTokenSize]
    omega
  have htok : be32 ((Tok.prop nameOff val).bytes ++ rest) = fdtTokenProp := be32_putBe32 _ _
  have hval' : be32 (((Tok.prop nameOff val).bytes ++ rest).drop 4) =
      BitVec.ofNat 32 val.length := be32_putBe32 _ _
  have hnameOff : be32 ((((Tok.prop nameOff val).bytes ++ rest).drop 4).drop 4) = nameOff :=
    be32_putBe32 _ _
  have hstep : findStep blob offStrings path prop ⟨(Tok.prop nameOff val).bytes ++ rest, frames⟩ =
      if onTarget frames = true ∧ name = prop then .inl (.ok val) else .inr ⟨rest, frames⟩ := by
    unfold findStep
    dsimp only
    rw [htok, hval', hnameOff, hbody, hdlen, hname, padded_drop, padded_take, if_neg,
      if_neg (by decide), if_neg (by decide), if_neg (by decide), if_pos rfl, if_neg, if_neg]
    · rw [List.length_append, padded_length]
      omega
    · rw [List.length_drop, hlen]
      omega
    · omega
  by_cases hc : onTarget frames = true ∧ name = prop
  · rw [if_pos hc] at hstep ⊢
    exact Consume.loop_return hstep
  · rw [if_neg hc] at hstep ⊢
    exact Consume.loop_next findStep_shrinks hstep

/-! ## lengths -/

theorem findLoop_length (w : Walk) :
    ∀ v, findLoop blob offStrings path prop w = .ok v → v.length < 2 ^ 32 := by
  refine Consume.loop_result
    (P := fun r : Except Status (List Byte) => ∀ v, r = .ok v → v.length < 2 ^ 32) ?_ ?_ w
  · intro v hv
    cases hv
  · intro s r hs v hv
    subst hv
    unfold findStep at hs
    dsimp only at hs
    repeat' split at hs
    all_goals cases hs
    rw [List.length_take]
    exact Nat.lt_of_le_of_lt (Nat.min_le_left _ _) (BitVec.isLt _)

theorem find_length {path prop : CStr} {val : List Byte}
    (h : fdtFind blob path prop = .ok val) : val.length < 2 ^ 32 := by
  unfold fdtFind at h
  dsimp only at h
  repeat' split at h
  · cases h
  · cases h
  · cases h
  · exact findLoop_length _ _ h

end Oemu
