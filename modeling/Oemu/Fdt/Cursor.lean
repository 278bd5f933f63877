import Oemu.Fdt.Reader

/-!
# The read-back helper, read by read

`fdtProbe` is `fdtFind` with a position in the blob where that has the bytes from there on, and with
every byte fetched from the blob: `none` is a read outside it.  The answer is the range of the value.

* `strnlen_eq`, `strEq_eq`   the two scans of a string, and where the second leaves the blob;
* `probeTurn_find`           a turn that reads inside the blob is a turn of `fdtFind`;
* `fdtProbe_find`            an answer is the one of `fdtFind`;
* `reader_safe`              when every read is inside the blob.
-/

namespace Oemu

open Wire

/-- the word at a position; `none` is a read outside -/
def rdBe32 (blob : List Byte) (p : Nat) : Option W32 :=
  if p + 4 ≤ blob.length then some (be32 (blob.drop p)) else none

/-- count the bytes before a zero, `bound` at most; `n` are counted -/
def fdtStrnlen (blob : List Byte) (p : Nat) : Nat → Nat → Option Nat
  | 0, n => some n
  | bound + 1, n => do
    let b ← blob[p + n]?
    if b = 0 then some n else fdtStrnlen blob p bound (n + 1)

/-- is the string at a position the one of these bytes: `strcmp`, which stops at a difference -/
def strEq (blob : List Byte) (p : Nat) : List Byte → Option Bool
  | [] => do
    let b ← blob[p]?
    some (b == 0)
  | c :: cs => do
    let b ← blob[p]?
    if b = c then strEq blob (p + 1) cs else some false

/-- a position in the blob, and the open nodes -/
structure Cursor where
  p : Nat
  frames : List Frame

section Probe

variable (blob : List Byte) (offStrings : W32) (path prop : List Byte)

def probeNode (p : Nat) (frames : List Frame) :
    Option (Except Status (Nat × Nat) ⊕ Cursor) := do
  let nl ← fdtStrnlen blob p (blob.length - p) 0
  let adv := pad4 (nl + 1)
  if p + adv > blob.length then some (.inl (.error .format))
  else if frames.length ≥ fdtMaxDepth then some (.inl (.error .format))
  else some (.inr ⟨p + adv, beginFrame path frames ((blob.drop p).take nl) :: frames⟩)

def probeProp (p : Nat) (frames : List Frame) :
    Option (Except Status (Nat × Nat) ⊕ Cursor) :=
  if p + 12 > blob.length then some (.inl (.error .format))
  else do
    let dlen ← rdBe32 blob p
    let nameOff ← rdBe32 blob (p + 4)
    let value := p + 8
    if value + dlen.toNat > blob.length ∨ (offStrings + nameOff).toNat ≥ blob.length then
      some (.inl (.error .format))
    else
      let next : Cursor := ⟨value + pad4 dlen.toNat, frames⟩
      if onTarget frames then do
        let same ← strEq blob (offStrings.toNat + nameOff.toNat) prop
        if same then some (.inl (.ok (value, dlen.toNat))) else some (.inr next)
      else some (.inr next)

def probeTurn (w : Cursor) : Option (Except Status (Nat × Nat) ⊕ Cursor) :=
  if w.p + 4 > blob.length then some (.inl (.error .notFound))
  else do
    let token ← rdBe32 blob w.p
    let p := w.p + 4
    if token = fdtTokenEnd then some (.inl (.error .notFound))
    else if token = fdtTokenEndNode then
      if onTarget w.frames then some (.inl (.error .notFound)) else some (.inr ⟨p, w.frames.tail⟩)
    else if token = fdtTokenBeginNode then probeNode blob path p w.frames
    else if token = fdtTokenProp then probeProp blob offStrings prop p w.frames
    else some (.inl (.error .format))

/-- a turn that reads outside the blob ends the walk with no answer -/
def probeStep (w : Cursor) : Option (Except Status (Nat × Nat)) ⊕ Cursor :=
  match probeTurn blob offStrings path prop w with
  | none => .inl none
  | some (.inl r) => .inl (some r)
  | some (.inr w) => .inr w

def probeLoop (w : Cursor) : Option (Except Status (Nat × Nat)) :=
  Consume.loop (probeStep blob offStrings path prop) (some (.error .notFound))
    (fun w => blob.length - w.p) w

end Probe

/-- where the value of a property is, and how long -/
def fdtProbe (blob : List Byte) (path prop : CStr) : Option (Except Status (Nat × Nat)) :=
  if blob.length < fdtHeaderSize then some (.error .invalidArg)
  else do
    let magic ← rdBe32 blob 0
    if magic ≠ fdtMagic then some (.error .format)
    else do
      let offStruct ← rdBe32 blob 8
      let offStrings ← rdBe32 blob 12
      if offStruct.toNat ≥ blob.length ∨ offStrings.toNat > blob.length then some (.error .format)
      else probeLoop blob offStrings path.bytes prop.bytes ⟨offStruct.toNat, []⟩

/-! ## the scans -/

variable {blob : List Byte} {offStrings : W32} {path prop : List Byte} {p : Nat}

theorem rdBe32_eq (h : p + 4 ≤ blob.length) : rdBe32 blob p = some (be32 (blob.drop p)) := if_pos h

/-- a bounded scan stays inside the blob -/
theorem strnlen_eq {bound n : Nat} (h : p + n + bound ≤ blob.length) :
    fdtStrnlen blob p bound n = some (n + (cstr ((blob.drop (p + n)).take bound)).length) := by
  induction bound generalizing n with
  | zero => rfl
  | succ bound ih =>
    have hlt : p + n < blob.length := by omega
    have hdrop : blob.drop (p + n) = blob[p + n] :: blob.drop (p + n + 1) :=
      List.drop_eq_getElem_cons hlt
    unfold fdtStrnlen
    rw [List.getElem?_eq_getElem hlt, Option.bind_eq_bind, Option.bind_some, hdrop,
      List.take_succ_cons]
    unfold cstr
    by_cases hb : blob[p + n] = 0
    · rw [if_pos hb, hb]
      rfl
    · have hne : (blob[p + n] != 0) = true := bne_iff_ne.mpr hb
      rw [if_neg hb, ih (by omega), List.takeWhile_cons, if_pos hne, List.length_cons]
      unfold cstr
      rw [Nat.add_assoc p n 1, Nat.add_assoc n 1, Nat.add_comm 1]

theorem strnlen_rest (h : p ≤ blob.length) :
    fdtStrnlen blob p (blob.length - p) 0 = some (cstr (blob.drop p)).length := by
  rw [strnlen_eq (by omega), Nat.zero_add, Nat.add_zero, ← List.length_drop, List.take_length]

theorem cstr_cons (b : Byte) (rest : List Byte) :
    cstr (b :: rest) = if b = 0 then [] else b :: cstr rest := by
  unfold cstr
  by_cases hb : b = 0
  · rw [if_pos hb, hb]
    rfl
  · rw [if_neg hb, List.takeWhile_cons, if_pos (bne_iff_ne.mpr hb)]

/-- **an unbounded comparison** leaves the blob if what is left of it is where the string starts -/
theorem strEq_eq (blob : List Byte) (p : Nat) {s : List Byte} (hs : (0 : Byte) ∉ s) :
    strEq blob p s = if blob.drop p <+: s then none else some (decide (cstr (blob.drop p) = s)) := by
  induction s generalizing p with
  | nil =>
    unfold strEq
    by_cases hp : p < blob.length
    · rw [List.drop_eq_getElem_cons hp, List.getElem?_eq_getElem hp, cstr_cons,
        if_neg (fun h => List.cons_ne_nil _ _ (List.prefix_nil.mp h)), Option.bind_eq_bind,
        Option.bind_some]
      refine congrArg some ?_
      by_cases hb : blob[p] = 0
      · rw [if_pos hb, hb]
        rfl
      · rw [if_neg hb, decide_eq_false (List.cons_ne_nil _ _)]
        exact beq_eq_false_iff_ne.mpr hb
    · rw [List.getElem?_eq_none (by omega), List.drop_eq_nil_of_le (by omega),
        if_pos (List.nil_prefix)]
      rfl
  | cons c cs ih =>
    have hc : c ≠ 0 := fun h => hs (h ▸ List.mem_cons_self)
    have hcs : (0 : Byte) ∉ cs := fun h => hs (List.mem_cons_of_mem _ h)
    unfold strEq
    by_cases hp : p < blob.length
    · rw [List.drop_eq_getElem_cons hp, List.getElem?_eq_getElem hp, cstr_cons,
        Option.bind_eq_bind, Option.bind_some]
      by_cases hb : blob[p] = c
      · rw [if_pos hb, ih (p + 1) hcs, hb, if_neg hc]
        simp only [List.cons_prefix_cons, true_and, List.cons.injEq]
      · rw [if_neg hb, if_neg (fun h => hb (List.cons_prefix_cons.mp h).1)]
        refine congrArg some (decide_eq_false ?_).symm
        by_cases h0 : blob[p] = 0
        · rw [if_pos h0]
          exact List.cons_ne_nil c cs |>.symm
        · rw [if_neg h0]
          exact fun h => hb (List.cons.inj h).1
    · rw [List.getElem?_eq_none (by omega), List.drop_eq_nil_of_le (by omega),
        if_pos (List.nil_prefix)]
      rfl

/-! ## a turn -/

/-- the bytes from the position on, as the walk of `fdtFind` has them -/
def Cursor.walk (blob : List Byte) (w : Cursor) : Walk := ⟨blob.drop w.p, w.frames⟩

/-- the bytes of an answer -/
def valueOf (blob : List Byte) : Except Status (Nat × Nat) → Except Status (List Byte)
  | .ok (p, n) => .ok ((blob.drop p).take n)
  | .error st => .error st

/-- a property of the node looked for, its name where the two offsets say -/
structure NamedAt (blob : List Byte) (offStrings : W32) (w : Cursor) (name : Nat) : Prop where
  body : w.p + 16 ≤ blob.length
  token : be32 (blob.drop w.p) = fdtTokenProp
  target : onTarget w.frames = true
  value : w.p + 12 + (be32 (blob.drop (w.p + 4))).toNat ≤ blob.length
  offset : (offStrings + be32 (blob.drop (w.p + 8))).toNat < blob.length
  name : name = offStrings.toNat + (be32 (blob.drop (w.p + 8))).toNat

/-- the name of the property at the cursor, if it is compared, ends or differs inside the blob -/
def NameInside (blob : List Byte) (offStrings : W32) (prop : List Byte) (w : Cursor) : Prop :=
  ∀ name, NamedAt blob offStrings w name → ¬ blob.drop name <+: prop

/-- a turn, with the reads that are known to be inside done -/
theorem probeTurn_eq {w : Cursor} (h : w.p + 4 ≤ blob.length) :
    probeTurn blob offStrings path prop w =
      let token := be32 (blob.drop w.p)
      if token = fdtTokenEnd then some (.inl (.error .notFound))
      else if token = fdtTokenEndNode then
        if onTarget w.frames then some (.inl (.error .notFound))
        else some (.inr ⟨w.p + 4, w.frames.tail⟩)
      else if token = fdtTokenBeginNode then probeNode blob path (w.p + 4) w.frames
      else if token = fdtTokenProp then probeProp blob offStrings prop (w.p + 4) w.frames
      else some (.inl (.error .format)) := by
  unfold probeTurn
  rw [if_neg (by omega), rdBe32_eq h]
  rfl

theorem probeNode_eq {p : Nat} (h : p ≤ blob.length) (frames : List Frame) :
    probeNode blob path p frames =
      if p + pad4 ((cstr (blob.drop p)).length + 1) > blob.length then some (.inl (.error .format))
      else if frames.length ≥ fdtMaxDepth then some (.inl (.error .format))
      else some (.inr ⟨p + pad4 ((cstr (blob.drop p)).length + 1),
        beginFrame path frames (cstr (blob.drop p)) :: frames⟩) := by
  have hnm : (blob.drop p).take (cstr (blob.drop p)).length = cstr (blob.drop p) := by
    unfold cstr
    exact (List.prefix_iff_eq_take.mp (List.takeWhile_prefix _)).symm
  unfold probeNode
  rw [strnlen_rest h, Option.bind_eq_bind, Option.bind_some, hnm]

theorem probeProp_eq (hprop : (0 : Byte) ∉ prop) {p : Nat} (h : p + 12 ≤ blob.length)
    (frames : List Frame) :
    probeProp blob offStrings prop p frames =
      let dlen := (be32 (blob.drop p)).toNat
      let nameOff := be32 (blob.drop (p + 4))
      let name := offStrings.toNat + nameOff.toNat
      if p + 8 + dlen > blob.length ∨ (offStrings + nameOff).toNat ≥ blob.length then
        some (.inl (.error .format))
      else if onTarget frames then
        if blob.drop name <+: prop then none
        else if cstr (blob.drop name) = prop then some (.inl (.ok (p + 8, dlen)))
        else some (.inr ⟨p + 8 + pad4 dlen, frames⟩)
      else some (.inr ⟨p + 8 + pad4 dlen, frames⟩) := by
  unfold probeProp
  rw [if_neg (by omega), rdBe32_eq (by omega), rdBe32_eq (by omega)]
  simp only [Option.bind_eq_bind, Option.bind_some]
  rw [strEq_eq _ _ hprop]
  split
  · rfl
  · split
    · split
      · rfl
      · simp
    · rfl

theorem probeProp_eq_none (hprop : (0 : Byte) ∉ prop) {w : Cursor} (h4 : w.p + 4 ≤ blob.length)
    (htok : be32 (blob.drop w.p) = fdtTokenProp) :
    probeProp blob offStrings prop (w.p + 4) w.frames = none ↔
      ∃ name, NamedAt blob offStrings w name ∧ blob.drop name <+: prop := by
  by_cases h16 : w.p + 4 + 12 ≤ blob.length
  · rw [probeProp_eq hprop h16, show w.p + 4 + 4 = w.p + 8 from rfl]
    dsimp only
    by_cases hb : w.p + 4 + 8 + (be32 (blob.drop (w.p + 4))).toNat > blob.length ∨
        (offStrings + be32 (blob.drop (w.p + 8))).toNat ≥ blob.length
    · rw [if_pos hb]
      refine iff_of_false (fun h => by cases h) ?_
      rintro ⟨name, hn, -⟩
      exact hb.elim (fun h => absurd hn.value (by omega)) (fun h => absurd hn.offset (by omega))
    · rw [if_neg hb]
      obtain ⟨hvalue, hoffset⟩ := not_or.mp hb
      by_cases ht : onTarget w.frames = true
      · rw [if_pos ht]
        by_cases hpre : blob.drop (offStrings.toNat + (be32 (blob.drop (w.p + 8))).toNat) <+: prop
        · rw [if_pos hpre]
          exact iff_of_true rfl ⟨_, ⟨h16, htok, ht, by omega, by omega, rfl⟩, hpre⟩
        · rw [if_neg hpre]
          refine iff_of_false ?_ ?_
          · split <;> exact fun h => by cases h
          · rintro ⟨name, hn, hp⟩
            rw [hn.name] at hp
            exact hpre hp
      · rw [if_neg ht]
        refine iff_of_false (fun h => by cases h) ?_
        rintro ⟨name, hn, -⟩
        exact ht hn.target
  · unfold probeProp
    rw [if_pos (by omega)]
    refine iff_of_false (fun h => by cases h) ?_
    rintro ⟨name, hn, -⟩
    exact h16 hn.body

theorem probeTurn_eq_none (hprop : (0 : Byte) ∉ prop) (w : Cursor) :
    probeTurn blob offStrings path prop w = none ↔
      ∃ name, NamedAt blob offStrings w name ∧ blob.drop name <+: prop := by
  by_cases h4 : w.p + 4 ≤ blob.length
  · rw [probeTurn_eq h4]
    dsimp only
    by_cases htok : be32 (blob.drop w.p) = fdtTokenProp
    · rw [htok, if_neg (by decide), if_neg (by decide), if_neg (by decide), if_pos rfl]
      exact probeProp_eq_none hprop h4 htok
    · refine iff_of_false ?_ ?_
      · split
        · exact fun h => by cases h
        · split
          · split <;> exact fun h => by cases h
          · split
            · rw [probeNode_eq h4]
              split
              · exact fun h => by cases h
              · split <;> exact fun h => by cases h
            · exact fun h => by cases h
      · rintro ⟨name, hn, -⟩
        exact htok hn.token
  · unfold probeTurn
    rw [if_pos (by omega)]
    refine iff_of_false (fun h => by cases h) ?_
    rintro ⟨name, hn, -⟩
    have := hn.body
    omega

/-- a walk of `fdtFind` where there is one of the cursor -/
def turnOf (blob : List Byte) :
    Except Status (Nat × Nat) ⊕ Cursor → Except Status (List Byte) ⊕ Walk :=
  Sum.map (valueOf blob) (Cursor.walk blob)

theorem probeNode_find {p : Nat} (hp : p ≤ blob.length) {frames : List Frame}
    {r : Except Status (Nat × Nat) ⊕ Cursor} (h : probeNode blob path p frames = some r) :
    (if (blob.drop p).length < pad4 ((cstr (blob.drop p)).length + 1) then
      .inl (.error .format)
    else if frames.length ≥ fdtMaxDepth then .inl (.error .format)
    else .inr ⟨(blob.drop p).drop (pad4 ((cstr (blob.drop p)).length + 1)),
      beginFrame path frames (cstr (blob.drop p)) :: frames⟩) = turnOf blob r := by
  rw [probeNode_eq hp] at h
  rw [List.length_drop, List.drop_drop]
  by_cases hadv : p + pad4 ((cstr (blob.drop p)).length + 1) > blob.length
  · rw [if_pos hadv] at h
    rw [if_pos (by omega)]
    cases h
    rfl
  · rw [if_neg hadv] at h
    rw [if_neg (by omega)]
    by_cases hd : frames.length ≥ fdtMaxDepth
    · rw [if_pos hd] at h
      rw [if_pos hd]
      cases h
      rfl
    · rw [if_neg hd] at h
      rw [if_neg hd]
      cases h
      rfl

theorem probeProp_find (hprop : (0 : Byte) ∉ prop) {p : Nat} {frames : List Frame}
    {r : Except Status (Nat × Nat) ⊕ Cursor} (hp : p ≤ blob.length)
    (h : probeProp blob offStrings prop p frames = some r) :
    (if (blob.drop p).length < 12 then .inl (.error .format)
    else if ((blob.drop p).drop 8).length < (be32 (blob.drop p)).toNat ∨
        (offStrings + be32 ((blob.drop p).drop 4)).toNat ≥ blob.length then .inl (.error .format)
    else if onTarget frames = true ∧
        cstr (blob.drop (offStrings.toNat + (be32 ((blob.drop p).drop 4)).toNat)) = prop then
      .inl (.ok (((blob.drop p).drop 8).take (be32 (blob.drop p)).toNat))
    else .inr ⟨((blob.drop p).drop 8).drop (pad4 (be32 (blob.drop p)).toNat), frames⟩) =
      turnOf blob r := by
  rw [List.length_drop, List.drop_drop, List.drop_drop, List.drop_drop, List.length_drop]
  by_cases h12 : p + 12 ≤ blob.length
  · rw [probeProp_eq hprop h12] at h
    dsimp only at h
    rw [if_neg (by omega)]
    by_cases hb : p + 8 + (be32 (blob.drop p)).toNat > blob.length ∨
        (offStrings + be32 (blob.drop (p + 4))).toNat ≥ blob.length
    · rw [if_pos hb] at h
      rw [if_pos (hb.imp_left fun _ => by omega)]
      cases h
      rfl
    · rw [if_neg hb] at h
      rw [if_neg (fun hb' => hb (hb'.imp_left fun _ => by omega))]
      by_cases ht : onTarget frames = true
      · rw [if_pos ht] at h
        by_cases hpre : blob.drop (offStrings.toNat + (be32 (blob.drop (p + 4))).toNat) <+: prop
        · rw [if_pos hpre] at h
          cases h
        · rw [if_neg hpre] at h
          by_cases hnm : cstr (blob.drop (offStrings.toNat + (be32 (blob.drop (p + 4))).toNat)) = prop
          · rw [if_pos hnm] at h
            rw [if_pos ⟨ht, hnm⟩]
            cases h
            rfl
          · rw [if_neg hnm] at h
            rw [if_neg (fun h => hnm h.2)]
            cases h
            rfl
      · rw [if_neg ht] at h
        rw [if_neg (fun h => ht h.1)]
        cases h
        rfl
  · unfold probeProp at h
    rw [if_pos (by omega)] at h
    rw [if_pos (by omega)]
    cases h
    rfl

/-- **a turn inside the blob** is a turn of `fdtFind` -/
theorem probeTurn_find (hprop : (0 : Byte) ∉ prop) {w : Cursor}
    {r : Except Status (Nat × Nat) ⊕ Cursor}
    (h : probeTurn blob offStrings path prop w = some r) :
    findStep blob offStrings path prop (w.walk blob) = turnOf blob r := by
  have hlen : (w.walk blob).p.length = blob.length - w.p := List.length_drop
  have hdrop : (w.walk blob).p.drop 4 = blob.drop (w.p + 4) := List.drop_drop
  have htok : be32 (w.walk blob).p = be32 (blob.drop w.p) := rfl
  have hframes : (w.walk blob).frames = w.frames := rfl
  unfold findStep
  dsimp only
  rw [hlen, hdrop, htok, hframes]
  by_cases h4 : w.p + 4 ≤ blob.length
  · rw [if_neg (by omega)]
    rw [probeTurn_eq h4] at h
    dsimp only at h
    by_cases hend : be32 (blob.drop w.p) = fdtTokenEnd
    · rw [if_pos hend] at h
      rw [if_pos hend]
      cases h
      rfl
    · rw [if_neg hend] at h
      rw [if_neg hend]
      by_cases hnode : be32 (blob.drop w.p) = fdtTokenEndNode
      · rw [if_pos hnode] at h
        rw [if_pos hnode]
        by_cases ht : onTarget w.frames = true
        · rw [if_pos ht] at h
          rw [if_pos ht]
          cases h
          rfl
        · rw [if_neg ht] at h
          rw [if_neg ht]
          cases h
          rfl
      · rw [if_neg hnode] at h
        rw [if_neg hnode]
        by_cases hbegin : be32 (blob.drop w.p) = fdtTokenBeginNode
        · rw [if_pos hbegin] at h
          rw [if_pos hbegin]
          exact probeNode_find h4 h
        · rw [if_neg hbegin] at h
          rw [if_neg hbegin]
          by_cases hpr : be32 (blob.drop w.p) = fdtTokenProp
          · rw [if_pos hpr] at h
            rw [if_pos hpr]
            exact probeProp_find hprop h4 h
          · rw [if_neg hpr] at h
            rw [if_neg hpr]
            cases h
            rfl
  · rw [if_pos (by omega)]
    unfold probeTurn at h
    rw [if_pos (by omega)] at h
    cases h
    rfl

/-! ## the walk -/

theorem probeStep_inr {w w' : Cursor} (h : probeStep blob offStrings path prop w = .inr w') :
    probeTurn blob offStrings path prop w = some (.inr w') := by
  unfold probeStep at h
  cases ht : probeTurn blob offStrings path prop w with
  | none =>
    rw [ht] at h
    cases h
  | some r =>
    rw [ht] at h
    cases r with
    | inl r => cases h
    | inr w₁ =>
      cases h
      rfl

theorem probeStep_inl {w : Cursor} {r : Except Status (Nat × Nat)}
    (h : probeStep blob offStrings path prop w = .inl (some r)) :
    probeTurn blob offStrings path prop w = some (.inl r) := by
  unfold probeStep at h
  cases ht : probeTurn blob offStrings path prop w with
  | none =>
    rw [ht] at h
    cases h
  | some q =>
    rw [ht] at h
    cases q with
    | inl r' =>
      cases h
      rfl
    | inr w₁ => cases h

theorem probeStep_none (hprop : (0 : Byte) ∉ prop) (w : Cursor) :
    probeStep blob offStrings path prop w = .inl none ↔ ¬ NameInside blob offStrings prop w := by
  have hturn : probeTurn blob offStrings path prop w = none ↔
      ¬ NameInside blob offStrings prop w := by
    rw [probeTurn_eq_none hprop]
    unfold NameInside
    push Not
    rfl
  rw [← hturn]
  unfold probeStep
  cases probeTurn blob offStrings path prop w with
  | none => exact iff_of_true rfl rfl
  | some r => cases r <;> exact iff_of_false (fun h => by cases h) (fun h => by cases h)

theorem probeStep_shrinks (hprop : (0 : Byte) ∉ prop) :
    Consume.Shrinks (probeStep blob offStrings path prop) fun w => blob.length - w.p := by
  intro w w' h
  have ht := probeTurn_find hprop (probeStep_inr h)
  have hlt := findStep_shrinks _ _ ht
  have hw : (w.walk blob).p.length = blob.length - w.p := List.length_drop
  have hw' : (w'.walk blob).p.length = blob.length - w'.p := List.length_drop
  show blob.length - w'.p < blob.length - w.p
  rw [← hw, ← hw']
  exact hlt

theorem probeTurn_value (hprop : (0 : Byte) ∉ prop) {w : Cursor} {p n : Nat}
    (h : probeTurn blob offStrings path prop w = some (.inl (.ok (p, n)))) :
    p + n ≤ blob.length := by
  by_cases h4 : w.p + 4 ≤ blob.length
  · rw [probeTurn_eq h4] at h
    dsimp only at h
    split at h
    · cases h
    · split at h
      · split at h <;> cases h
      · split at h
        · rw [probeNode_eq h4] at h
          split at h
          · cases h
          · split at h <;> cases h
        · split at h
          · by_cases h12 : w.p + 4 + 12 ≤ blob.length
            · rw [probeProp_eq hprop h12] at h
              dsimp only at h
              split at h
              · cases h
              · rename_i hb
                obtain ⟨hvalue, -⟩ := not_or.mp hb
                split at h
                · split at h
                  · cases h
                  · split at h
                    · cases h
                      exact Nat.not_lt.mp hvalue
                    · cases h
                · cases h
            · unfold probeProp at h
              rw [if_pos (by omega)] at h
              cases h
          · cases h
  · unfold probeTurn at h
    rw [if_pos (by omega)] at h
    cases h

/-- a walk inside the blob is the walk of `fdtFind` -/
theorem probeLoop_find (hprop : (0 : Byte) ∉ prop) {w : Cursor} {r : Except Status (Nat × Nat)}
    (h : probeLoop blob offStrings path prop w = some r) :
    findLoop blob offStrings path prop (w.walk blob) = valueOf blob r := by
  obtain ⟨w', q, hv, hq, hl⟩ := @Consume.loop_ends _ _ _ (some (.error .notFound)) _
    (@probeStep_shrinks blob offStrings path _ hprop) w
  have hq' : q = some r := hl.symm.trans h
  rw [hq'] at hq
  have hend : findLoop blob offStrings path prop (w'.walk blob) = valueOf blob r :=
    Consume.loop_return (probeTurn_find hprop (probeStep_inl hq))
  rw [← hend]
  refine Consume.loop_visits findStep_shrinks ?_
  clear hend hl hq hq' h
  induction hv with
  | refl => exact .refl
  | tail _ ht ih => exact ih.tail (probeTurn_find hprop (probeStep_inr ht))

/-! ## the whole reader -/

/-- the header passes: where the walk starts, and where the names are counted from -/
structure Starts (blob : List Byte) (start strings : W32) : Prop where
  header : fdtHeaderSize ≤ blob.length
  magic : be32 blob = fdtMagic
  structAt : be32 (blob.drop 8) = start
  stringsAt : be32 (blob.drop 12) = strings
  startInside : start.toNat < blob.length
  stringsInside : strings.toNat ≤ blob.length

theorem fdtProbe_starts {path prop : CStr} {start strings : W32} (h : Starts blob start strings) :
    fdtProbe blob path prop = probeLoop blob strings path.bytes prop.bytes ⟨start.toNat, []⟩ := by
  have hlen : 40 ≤ blob.length := h.header
  have hlo := h.startInside
  have hhi := h.stringsInside
  unfold fdtProbe
  rw [if_neg (Nat.not_lt.mpr h.header), rdBe32_eq (by omega), rdBe32_eq (by omega),
    rdBe32_eq (by omega), List.drop_zero, h.magic, h.structAt, h.stringsAt]
  simp only [Option.bind_eq_bind, Option.bind_some]
  rw [if_neg (not_not.mpr rfl), if_neg (by omega)]

theorem fdtProbe_refused {path prop : CStr} (h : ∀ start strings, ¬ Starts blob start strings) :
    ∃ st, fdtProbe blob path prop = some (.error st) ∧ fdtFind blob path prop = .error st := by
  unfold fdtProbe fdtFind
  by_cases hlen : blob.length < fdtHeaderSize
  · rw [if_pos hlen, if_pos hlen]
    exact ⟨_, rfl, rfl⟩
  · have h40 : 40 ≤ blob.length := Nat.not_lt.mp hlen
    rw [if_neg hlen, if_neg hlen, rdBe32_eq (by omega), rdBe32_eq (by omega),
      rdBe32_eq (by omega), List.drop_zero]
    simp only [Option.bind_eq_bind, Option.bind_some]
    by_cases hm : be32 blob = fdtMagic
    · rw [if_neg (not_not.mpr hm), if_neg (not_not.mpr hm)]
      by_cases hb : (be32 (blob.drop 8)).toNat ≥ blob.length ∨
          (be32 (blob.drop 12)).toNat > blob.length
      · rw [if_pos hb, if_pos hb]
        exact ⟨_, rfl, rfl⟩
      · obtain ⟨h8, h12⟩ := not_or.mp hb
        exact absurd ⟨h40, hm, rfl, rfl, Nat.not_le.mp h8, Nat.not_lt.mp h12⟩ (h _ _)
    · rw [if_pos hm, if_pos hm]
      exact ⟨_, rfl, rfl⟩

/-- **what the reader answers from inside the blob** is what `fdtFind` answers -/
theorem fdtProbe_find {path prop : CStr} {r : Except Status (Nat × Nat)}
    (h : fdtProbe blob path prop = some r) : fdtFind blob path prop = valueOf blob r := by
  by_cases hs : ∃ start strings, Starts blob start strings
  · obtain ⟨start, strings, hs⟩ := hs
    have hlen : 40 ≤ blob.length := hs.header
    have hlo := hs.startInside
    have hhi := hs.stringsInside
    rw [fdtProbe_starts hs] at h
    rw [← probeLoop_find prop.nonzero h]
    unfold fdtFind
    rw [if_neg (Nat.not_lt.mpr hs.header), if_neg (not_not.mpr hs.magic)]
    dsimp only
    rw [hs.structAt, hs.stringsAt, if_neg (by omega)]
    rfl
  · obtain ⟨st, hp, hf⟩ := @fdtProbe_refused _ path prop
      fun start strings h => hs ⟨start, strings, h⟩
    rw [hp] at h
    cases h
    exact hf

/-- what is asked of the reader: it ends, it reads inside the blob, and so does who reads the value -/
structure ReaderSafe (blob : List Byte) (path prop : CStr) : Prop where
  ends : ∀ strings, WellFounded fun w' w =>
    Consume.Turn (probeStep blob strings path.bytes prop.bytes) w w'
  inside : fdtProbe blob path prop ≠ none
  value : ∀ p n, fdtProbe blob path prop = some (.ok (p, n)) → p + n ≤ blob.length

/-- in every state the walk comes to, the name that is compared next ends or differs in the blob -/
def NamesInside (blob : List Byte) (path prop : CStr) : Prop :=
  ∀ start strings, Starts blob start strings → ∀ w,
    Consume.Visits (probeStep blob strings path.bytes prop.bytes) ⟨start.toNat, []⟩ w →
      NameInside blob strings prop.bytes w

theorem fdtProbe_inside {path prop : CStr} :
    fdtProbe blob path prop ≠ none ↔ NamesInside blob path prop := by
  by_cases hs : ∃ start strings, Starts blob start strings
  · obtain ⟨start, strings, hs⟩ := hs
    have hshr := @probeStep_shrinks blob strings path.bytes _ prop.nonzero
    rw [fdtProbe_starts hs]
    constructor
    · intro hne start' strings' hs' w hv
      obtain rfl : start = start' := hs.structAt.symm.trans hs'.structAt
      obtain rfl : strings = strings' := hs.stringsAt.symm.trans hs'.stringsAt
      by_contra hbad
      refine hne ?_
      unfold probeLoop
      rw [Consume.loop_visits hshr hv]
      exact Consume.loop_return ((probeStep_none prop.nonzero w).mpr hbad)
    · intro hin hnone
      obtain ⟨w, q, hv, hq, hl⟩ := @Consume.loop_ends _ _ _ (some (.error .notFound)) _ hshr
        ⟨start.toNat, []⟩
      have hq' : q = none := hl.symm.trans hnone
      rw [hq'] at hq
      exact (probeStep_none prop.nonzero w).mp hq (hin start strings hs w hv)
  · obtain ⟨st, hp, -⟩ := @fdtProbe_refused _ path prop
      fun start strings h => hs ⟨start, strings, h⟩
    rw [hp]
    exact iff_of_true (fun h => by cases h) fun start strings h => absurd ⟨start, strings, h⟩ hs

theorem fdtProbe_value {path prop : CStr} {p n : Nat}
    (h : fdtProbe blob path prop = some (.ok (p, n))) : p + n ≤ blob.length := by
  by_cases hs : ∃ start strings, Starts blob start strings
  · obtain ⟨start, strings, hs⟩ := hs
    rw [fdtProbe_starts hs] at h
    obtain ⟨w, q, -, hq, hl⟩ := @Consume.loop_ends _ _ _ (some (.error .notFound)) _
      (@probeStep_shrinks blob strings path.bytes _ prop.nonzero) ⟨start.toNat, []⟩
    have hq' : q = some (.ok (p, n)) := hl.symm.trans h
    rw [hq'] at hq
    exact probeTurn_value prop.nonzero (probeStep_inl hq)
  · obtain ⟨st, hp, -⟩ := @fdtProbe_refused _ path prop
      fun start strings h => hs ⟨start, strings, h⟩
    rw [hp] at h
    cases h

/-- **safety of the reader**: for every blob, path and name the walk ends and the value found lies in
the blob; it reads inside the blob exactly when no name it compares runs to the end of it -/
theorem reader_safe (blob : List Byte) (path prop : CStr) :
    ReaderSafe blob path prop ↔ NamesInside blob path prop := by
  constructor
  · exact fun h => fdtProbe_inside.mp h.inside
  · intro h
    refine ⟨fun strings => ?_, fdtProbe_inside.mpr h, fun p n => fdtProbe_value⟩
    refine Subrelation.wf ?_ (measure fun w : Cursor => blob.length - w.p).wf
    intro w' w ht
    exact probeStep_shrinks prop.nonzero w w' ht

/-- a root with one property, whose name ends the blob without a terminator -/
def openName : List Byte :=
  putBe32 fdtMagic ++ putBe32 64 ++ putBe32 40 ++ putBe32 60 ++ zeros 24 ++
    putBe32 fdtTokenBeginNode ++ zeros 4 ++ putBe32 fdtTokenProp ++ zeros 8 ++
    [0x61, 0x62, 0x63, 0x64]

/-- the comparison of that name leaves the blob -/
theorem open_name_unsafe :
    ¬ ReaderSafe openName ⟨[slash], by decide⟩ ⟨[0x61, 0x62, 0x63, 0x64], by decide⟩ := by
  intro h
  exact h.inside (by decide +kernel)

end Oemu
