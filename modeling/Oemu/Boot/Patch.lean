import Oemu.Fdt.Cursor

/-!
# The patchers of a device tree

Boot writes the command line and the size of the memory into a tree the user brings.  Both patchers
walk the tokens by hand.  The blob is a list, a position in it a number, and `none` a read or a write
outside it.

* `dtbPatchBootline`, `dtbPatchNode`   the two walks;
* `bootlineTurn_fits`, `nodeTurn_fits`   where a turn stays inside the blob;
* `bootline_safe`, `node_safe`         when a walk does, and what it leaves.
-/

namespace Oemu

open Wire Consume

def bootDtbMax : Nat := 65536

def bootCmdlineMax : Nat := 256

def bootBootlineLen : Nat := 257

def chosenName : List Byte := [0x63, 0x68, 0x6F, 0x73, 0x65, 0x6E]

def bootlineName : List Byte := [0x62, 0x6F, 0x6F, 0x74, 0x6C, 0x69, 0x6E, 0x65]

def memoryName : List Byte := [0x6D, 0x65, 0x6D, 0x6F, 0x72, 0x79, 0x40]

def regName : List Byte := [0x72, 0x65, 0x67]

/-- the check of the header a tree must pass before it is patched -/
def bootHeaderOk (blob : List Byte) : Bool :=
  !(decide (blob.length < 40) || be32 blob != fdtMagic ||
    decide ((be32 (blob.drop 4)).toNat > blob.length) || decide (blob.length > bootDtbMax))

/-- bytes written at a place; `none` is a write outside -/
def storeAt (blob : List Byte) (a : Nat) (bytes : List Byte) : Option (List Byte) :=
  if a + bytes.length ≤ blob.length then
    some (blob.take a ++ bytes ++ blob.drop (a + bytes.length))
  else none

/-- how far a property token moves the walk behind it: a sum of 32 bits -/
def propAdvance (dlen : W32) : Nat := (8 + (dlen + 3) / 4 * 4).toNat

/-- what a patcher returns, with the blob it leaves -/
abbrev Patched := Bool × List Byte

/-- the four writes of the command line; `p` is behind the property token -/
def bootlineWrite (blob : List Byte) (p : Nat) (cmdline : List Byte) : Option (List Byte) := do
  let blob ← storeAt blob (p + 8) (List.replicate bootCmdlineMax 0x20)
  let blob ← storeAt blob (p + 8) cmdline
  let blob ← storeAt blob (p + 8 + cmdline.length) [0]
  storeAt blob (p + (bootBootlineLen + 7)) [0]

/-- a comparison that is made only where it is wanted -/
def strEqIf (wanted : Bool) (blob : List Byte) (p : Nat) (s : List Byte) : Option Bool :=
  if wanted then strEq blob p s else some false

/-- the bytes of a cell pair, the first one first -/
def cellBytes (v : W64) : List Byte := (List.range 8).map fun b => (v >>> (56 - 8 * b)).setWidth 8

section

variable (blob : List Byte) (offStrings : W32)

def chosenTurn (cmdline : List Byte) (p : Nat) : Option (Patched ⊕ Nat) :=
  if p + 4 > blob.length then some (.inl (false, blob))
  else do
    let t ← rdBe32 blob p
    let p := p + 4
    if t = fdtTokenEndNode then some (.inl (false, blob))
    else if t ≠ fdtTokenProp then some (.inl (false, blob))
    else
      let dlen ← rdBe32 blob p
      let nameOff ← rdBe32 blob (p + 4)
      let same ← strEqIf (decide (dlen.toNat = bootBootlineLen)) blob
        (offStrings.toNat + nameOff.toNat) bootlineName
      if same then (bootlineWrite blob p cmdline).map fun b => .inl (true, b)
      else some (.inr (p + propAdvance dlen))

def chosenLoop (cmdline : List Byte) (p : Nat) : Option Patched :=
  loop (guarded (chosenTurn blob offStrings cmdline)) (some (false, blob))
    (fun p => blob.length - p) p

/-- the position and the depth -/
structure PatchCursor where
  p : Nat
  depth : Int

/-- is the name of `nl` bytes at a position the one of the chosen node -/
def isChosen (p : Nat) (depth : Int) (nl : Nat) : Bool :=
  decide (depth = 1) && nl == 6 && (blob.drop p).take 6 == chosenName

/-- one turn of `dtb_patch_bootline` -/
def bootlineTurn (cmdline : List Byte) (c : PatchCursor) : Option (Patched ⊕ PatchCursor) :=
  if c.p + 4 > blob.length then some (.inl (false, blob))
  else do
    let token ← rdBe32 blob c.p
    let p := c.p + 4
    if token = fdtTokenEnd then some (.inl (false, blob))
    else if token = fdtTokenEndNode then some (.inr ⟨p, c.depth - 1⟩)
    else if token = fdtTokenBeginNode then
      let nl ← fdtStrnlen blob p (blob.length - p) 0
      if isChosen blob p c.depth nl then
        (chosenLoop blob offStrings cmdline (p + pad4 (nl + 1))).map .inl
      else some (.inr ⟨p + pad4 (nl + 1), c.depth + 1⟩)
    else if token = fdtTokenProp then
      let dlen ← rdBe32 blob p
      some (.inr ⟨p + propAdvance dlen, c.depth⟩)
    else some (.inl (false, blob))

/-- the position, the depth, and whether the node just entered is a memory node -/
structure NodeCursor where
  p : Nat
  depth : Int
  inWanted : Bool

/-- is the name of `nl` bytes at a position the one of a memory node -/
def isMemory (p : Nat) (depth : Int) (nl : Nat) : Bool :=
  decide (depth = 1) && decide (nl ≥ 7) && (blob.drop p).take 7 == memoryName

/-- one turn of `dtb_patch_node` -/
def nodeTurn (base size : W64) (c : NodeCursor) : Option (Patched ⊕ NodeCursor) :=
  if c.p + 4 > blob.length then some (.inl (false, blob))
  else do
    let token ← rdBe32 blob c.p
    let p := c.p + 4
    if token = fdtTokenEnd then some (.inl (false, blob))
    else if token = fdtTokenEndNode then some (.inr ⟨p, c.depth - 1, false⟩)
    else if token = fdtTokenBeginNode then
      let nl ← fdtStrnlen blob p (blob.length - p) 0
      some (.inr ⟨p + pad4 (nl + 1), c.depth + 1, isMemory blob p c.depth nl⟩)
    else if token = fdtTokenProp then
      let dlen ← rdBe32 blob p
      let nameOff ← rdBe32 blob (p + 4)
      let same ← strEqIf c.inWanted blob (offStrings.toNat + nameOff.toNat) regName
      if same && decide (dlen.toNat ≥ 16) then
        (storeAt blob (p + 8) (cellBytes base ++ cellBytes size)).map fun b => .inl (true, b)
      else some (.inr ⟨p + propAdvance dlen, c.depth, c.inWanted⟩)
    else some (.inl (false, blob))

end

/-- `dtb_patch_bootline` -/
def dtbPatchBootline (blob cmdline : List Byte) : Option Patched :=
  if cmdline.length ≥ bootCmdlineMax then some (false, blob)
  else do
    let offStruct ← rdBe32 blob 8
    let offStrings ← rdBe32 blob 12
    loop (guarded (bootlineTurn blob offStrings cmdline)) (some (false, blob))
      (fun c => blob.length - c.p) ⟨offStruct.toNat, 0⟩

/-- `dtb_patch_node` -/
def dtbPatchNode (blob : List Byte) (base size : W64) : Option Patched := do
  let offStruct ← rdBe32 blob 8
  let offStrings ← rdBe32 blob 12
  loop (guarded (nodeTurn blob offStrings base size)) (some (false, blob))
    (fun c => blob.length - c.p) ⟨offStruct.toNat, 0, false⟩

/-! ## writes -/

variable {blob blob' : List Byte}

/-- the bytes from `a` on are `value`, and nothing else changed -/
structure Rewritten (blob blob' : List Byte) (a : Nat) (value : List Byte) : Prop where
  inside : a + value.length ≤ blob.length
  length : blob'.length = blob.length
  back : (blob'.drop a).take value.length = value
  kept : ∀ i, i < a ∨ a + value.length ≤ i → blob'[i]? = blob[i]?

theorem storeAt_split (x y z y' : List Byte) (h : y'.length = y.length) :
    storeAt (x ++ y ++ z) x.length y' = some (x ++ y' ++ z) := by
  have htake : (x ++ y ++ z).take x.length = x := by rw [List.append_assoc, List.take_left]
  have hdrop : (x ++ y ++ z).drop (x.length + y'.length) = z := by
    rw [h, ← List.length_append, List.drop_left]
  unfold storeAt
  rw [htake, hdrop, if_pos (by simp only [List.length_append]; omega)]

theorem storeAt_outside {a : Nat} {bytes : List Byte} (h : blob.length < a + bytes.length) :
    storeAt blob a bytes = none := if_neg (Nat.not_le.mpr h)

theorem rewritten_split (x y z y' : List Byte) (h : y'.length = y.length) :
    Rewritten (x ++ y ++ z) (x ++ y' ++ z) x.length y' where
  inside := by simp only [List.length_append]; omega
  length := by simp only [List.length_append, h]
  back := by rw [List.append_assoc, List.drop_left, List.take_left]
  kept := by
    intro i hi
    rcases hi with hi | hi
    · rw [List.append_assoc, List.append_assoc, List.getElem?_append_left hi,
        List.getElem?_append_left hi]
    · rw [List.getElem?_append_right (by simp only [List.length_append]; omega),
        List.getElem?_append_right (by simp only [List.length_append]; omega)]
      simp only [List.length_append, h]

theorem cut (blob : List Byte) {a n : Nat} (h : a + n ≤ blob.length) :
    ∃ x y z, blob = x ++ y ++ z ∧ x.length = a ∧ y.length = n := by
  refine ⟨blob.take a, (blob.drop a).take n, blob.drop (a + n), ?_, ?_, ?_⟩
  · rw [List.append_assoc, ← List.drop_drop, List.take_append_drop, List.take_append_drop]
  · rw [List.length_take]
    omega
  · rw [List.length_take, List.length_drop]
    omega

theorem storeAt_rewritten {a : Nat} {bytes : List Byte} (h : a + bytes.length ≤ blob.length) :
    ∃ blob', storeAt blob a bytes = some blob' ∧ Rewritten blob blob' a bytes := by
  obtain ⟨x, y, z, rfl, rfl, hy⟩ := cut blob h
  exact ⟨_, storeAt_split x y z bytes hy.symm, rewritten_split x y z bytes hy.symm⟩

/-- the value the command line becomes -/
def bootlineValue (cmdline : List Byte) : List Byte :=
  cmdline ++ [0] ++ List.replicate (bootCmdlineMax - 1 - cmdline.length) 0x20 ++ [0]

theorem bootlineValue_length {cmdline : List Byte} (h : cmdline.length < bootCmdlineMax) :
    (bootlineValue cmdline).length = bootBootlineLen := by
  have hmax : cmdline.length < 256 := h
  simp only [bootlineValue, List.length_append, List.length_replicate, List.length_singleton,
    bootCmdlineMax, bootBootlineLen]
  omega

theorem storeAt_at {blob x y z y' : List Byte} {a : Nat} (hb : blob = x ++ y ++ z)
    (ha : x.length = a) (h : y'.length = y.length) :
    storeAt blob a y' = some (x ++ y' ++ z) := by
  rw [hb, ← ha]
  exact storeAt_split x y z y' h

/-- **the four writes are one** -/
theorem bootlineWrite_inside {p : Nat} {cmdline : List Byte}
    (hc : cmdline.length < bootCmdlineMax) (h : p + 8 + bootBootlineLen ≤ blob.length) :
    ∃ blob', bootlineWrite blob p cmdline = some blob' ∧
      Rewritten blob blob' (p + 8) (bootlineValue cmdline) := by
  have hmax : cmdline.length < 256 := hc
  obtain ⟨x, y, z, rfl, hx, hy⟩ := cut blob h
  have hy257 : y.length = 257 := hy
  obtain ⟨y₀, y₁, y₂, rfl, h₀, h₁⟩ := cut y (show 0 + 256 ≤ y.length by omega)
  obtain rfl : y₀ = [] := List.eq_nil_of_length_eq_zero h₀
  have h₂ : y₂.length = 1 := by
    simp only [List.length_append, List.length_nil] at hy257
    omega
  have hsplit : List.replicate bootCmdlineMax (0x20 : Byte) =
      List.replicate cmdline.length 0x20 ++ [0x20] ++
        List.replicate (bootCmdlineMax - 1 - cmdline.length) 0x20 := by
    show List.replicate 256 (0x20 : Byte) = List.replicate cmdline.length 0x20 ++
      List.replicate 1 0x20 ++ List.replicate (255 - cmdline.length) 0x20
    rw [List.replicate_append_replicate, List.replicate_append_replicate]
    congr 1
    omega
  have hs₁ : storeAt (x ++ ([] ++ y₁ ++ y₂) ++ z) (p + 8) (List.replicate bootCmdlineMax 0x20) =
      some (x ++ List.replicate bootCmdlineMax 0x20 ++ (y₂ ++ z)) := by
    refine storeAt_at (y := y₁) ?_ hx ?_
    · simp only [List.nil_append, List.append_assoc]
    · rw [List.length_replicate, h₁]
      rfl
  have hs₂ : storeAt (x ++ List.replicate bootCmdlineMax 0x20 ++ (y₂ ++ z)) (p + 8) cmdline =
      some (x ++ cmdline ++ ([0x20] ++
        List.replicate (bootCmdlineMax - 1 - cmdline.length) 0x20 ++ (y₂ ++ z))) := by
    refine storeAt_at (y := List.replicate cmdline.length 0x20) ?_ hx ?_
    · rw [hsplit]
      simp only [List.append_assoc]
    · rw [List.length_replicate]
  have hs₃ : storeAt (x ++ cmdline ++ ([0x20] ++
        List.replicate (bootCmdlineMax - 1 - cmdline.length) 0x20 ++ (y₂ ++ z)))
        (p + 8 + cmdline.length) [0] =
      some (x ++ cmdline ++ [0] ++
        (List.replicate (bootCmdlineMax - 1 - cmdline.length) 0x20 ++ (y₂ ++ z))) := by
    refine storeAt_at (y := [0x20]) ?_ ?_ rfl
    · simp only [List.append_assoc]
    · rw [List.length_append, hx]
  have hs₄ : storeAt (x ++ cmdline ++ [0] ++
        (List.replicate (bootCmdlineMax - 1 - cmdline.length) 0x20 ++ (y₂ ++ z)))
        (p + (bootBootlineLen + 7)) [0] =
      some (x ++ bootlineValue cmdline ++ z) := by
    have hwhole : x ++ cmdline ++ [0] ++
        List.replicate (bootCmdlineMax - 1 - cmdline.length) 0x20 ++ [0] ++ z =
        x ++ bootlineValue cmdline ++ z := by
      unfold bootlineValue
      simp only [List.append_assoc]
    rw [← hwhole]
    refine storeAt_at (y := y₂) ?_ ?_ h₂.symm
    · simp only [List.append_assoc]
    · simp only [List.length_append, List.length_replicate, List.length_singleton, hx,
        bootCmdlineMax, bootBootlineLen]
      omega
  refine ⟨_, ?_, hx ▸ rewritten_split x ([] ++ y₁ ++ y₂) z (bootlineValue cmdline)
    (by rw [bootlineValue_length hc, hy])⟩
  unfold bootlineWrite
  simp only [hs₁, Option.bind_eq_bind, Option.bind_some, hs₂, hs₃, hs₄]

theorem storeAt_length {a : Nat} {bytes : List Byte} (h : storeAt blob a bytes = some blob') :
    blob'.length = blob.length := by
  by_cases hin : a + bytes.length ≤ blob.length
  · obtain ⟨b, hb, hr⟩ := storeAt_rewritten hin
    rw [h] at hb
    cases hb
    exact hr.length
  · rw [storeAt_outside (by omega)] at h
    cases h

/-- the last of the four writes is the one that leaves a blob too short -/
theorem bootlineWrite_outside {p : Nat} {cmdline : List Byte}
    (h : blob.length < p + 8 + bootBootlineLen) : bootlineWrite blob p cmdline = none := by
  have hlast : blob.length < p + (bootBootlineLen + 7) + 1 := by omega
  unfold bootlineWrite
  simp only [Option.bind_eq_bind, Option.bind_eq_none_iff]
  intro b₁ h₁ b₂ h₂ b₃ h₃
  refine storeAt_outside ?_
  rw [storeAt_length h₃, storeAt_length h₂, storeAt_length h₁]
  exact hlast

theorem bootlineValue_cstr (cmdline : CStr) : cstr (bootlineValue cmdline.bytes) = cmdline.bytes := by
  unfold bootlineValue
  rw [List.append_assoc, List.append_assoc, List.singleton_append]
  exact cstr_zero cmdline.nonzero _

theorem cellBytes_back (v : W64) (rest : List Byte) :
    be32 (cellBytes v ++ rest) ++ be32 ((cellBytes v ++ rest).drop 4) = v := by
  have hcells : cellBytes v = putBe32 (v.extractLsb' 32 32) ++ putBe32 (v.setWidth 32) := by
    simp only [cellBytes, putBe32, List.range, List.range.loop, List.map, List.cons_append,
      List.nil_append, List.cons.injEq, and_true]
    refine ⟨?_, ?_, ?_, ?_, ?_, ?_, ?_, ?_⟩ <;>
      · apply BitVec.eq_of_getLsbD_eq
        intro i hi
        interval_cases i <;> simp
  rw [hcells, List.append_assoc, be32_putBe32, drop_putBe32, be32_putBe32]
  apply BitVec.eq_of_getLsbD_eq
  intro i hi
  have happ := @BitVec.getLsbD_append 32 32 i (v.extractLsb' 32 32) (v.setWidth 32)
  refine Eq.trans happ ?_
  by_cases h : i < 32
  · simp [h]
  · simp [h, show 32 + (i - 32) = i by omega, show i - 32 < 32 by omega]

/-! ## a turn in the chosen node -/

section

variable {offStrings : W32} {cmdline : List Byte}

/-- the length a property at a position gives -/
def dlenAt (blob : List Byte) (p : Nat) : W32 := be32 (blob.drop (p + 4))

/-- where the name of a property at a position is -/
def nameAt (blob : List Byte) (offStrings : W32) (p : Nat) : Nat :=
  offStrings.toNat + (be32 (blob.drop (p + 8))).toNat

/-- a boot line of the width the patcher writes -/
structure IsBootline (blob : List Byte) (offStrings : W32) (p : Nat) : Prop where
  body : p + 12 ≤ blob.length
  token : be32 (blob.drop p) = fdtTokenProp
  dlen : (dlenAt blob p).toNat = bootBootlineLen
  name : cstr (blob.drop (nameAt blob offStrings p)) = bootlineName

/-- what a turn reads and writes at a position lies in the blob: the two words behind a property
token, the name that is compared, the value that is written -/
def ChosenFits (blob : List Byte) (offStrings : W32) (p : Nat) : Prop :=
  p + 4 ≤ blob.length → be32 (blob.drop p) = fdtTokenProp →
    p + 12 ≤ blob.length ∧ ((dlenAt blob p).toNat = bootBootlineLen →
      ¬ blob.drop (nameAt blob offStrings p) <+: bootlineName ∧
        (cstr (blob.drop (nameAt blob offStrings p)) = bootlineName →
          p + 12 + bootBootlineLen ≤ blob.length))

/-- what a turn does in the chosen node, where it stays inside -/
def ChosenOutcome (blob : List Byte) (offStrings : W32) (cmdline : List Byte) (p : Nat)
    (r : Patched ⊕ Nat) : Prop :=
  (r = .inl (false, blob) ∧ ¬ IsBootline blob offStrings p) ∨
    (IsBootline blob offStrings p ∧ ∃ blob', r = .inl (true, blob') ∧
      Rewritten blob blob' (p + 12) (bootlineValue cmdline)) ∨
    (¬ IsBootline blob offStrings p ∧ p + 4 ≤ blob.length ∧ ∃ q, p < q ∧ r = .inr q)

theorem bootlineName_nonzero : (0 : Byte) ∉ bootlineName := by decide

theorem regName_nonzero : (0 : Byte) ∉ regName := by decide

theorem chosenTurn_prop {p : Nat} (h : p + 12 ≤ blob.length)
    (ht : be32 (blob.drop p) = fdtTokenProp) :
    chosenTurn blob offStrings cmdline p =
      if (dlenAt blob p).toNat = bootBootlineLen then
        if blob.drop (nameAt blob offStrings p) <+: bootlineName then none
        else if cstr (blob.drop (nameAt blob offStrings p)) = bootlineName then
          (bootlineWrite blob (p + 4) cmdline).map fun b => .inl (true, b)
        else some (.inr (p + 4 + propAdvance (dlenAt blob p)))
      else some (.inr (p + 4 + propAdvance (dlenAt blob p))) := by
  have hname : strEqIf (decide ((dlenAt blob p).toNat = bootBootlineLen)) blob
      (nameAt blob offStrings p) bootlineName =
      if (dlenAt blob p).toNat = bootBootlineLen then
        if blob.drop (nameAt blob offStrings p) <+: bootlineName then none
        else some (decide (cstr (blob.drop (nameAt blob offStrings p)) = bootlineName))
      else some false := by
    unfold strEqIf
    rw [strEq_eq _ _ bootlineName_nonzero]
    simp only [decide_eq_true_eq]
  unfold chosenTurn
  rw [if_neg (by omega), rdBe32_eq (by omega)]
  simp only [Option.bind_eq_bind, Option.bind_some]
  rw [rdBe32_eq (by omega), rdBe32_eq (by omega), ht, if_neg (by decide),
    if_neg (not_not_intro rfl)]
  show Option.bind (strEqIf (decide ((dlenAt blob p).toNat = bootBootlineLen)) blob
    (nameAt blob offStrings p) bootlineName) _ = _
  rw [hname]
  by_cases hd : (dlenAt blob p).toNat = bootBootlineLen
  · rw [if_pos hd, if_pos hd]
    by_cases hpre : blob.drop (nameAt blob offStrings p) <+: bootlineName
    · rw [if_pos hpre, if_pos hpre]
      rfl
    · rw [if_neg hpre, if_neg hpre, Option.bind_some]
      by_cases hn : cstr (blob.drop (nameAt blob offStrings p)) = bootlineName
      · rw [decide_eq_true hn, if_pos rfl, if_pos hn]
      · rw [decide_eq_false hn, if_neg Bool.false_ne_true, if_neg hn]
        rfl
  · rw [if_neg hd, if_neg hd]
    rfl

/-- **a turn in the chosen node** stays inside exactly where it fits -/
theorem chosenTurn_spec (offStrings : W32) (hc : cmdline.length < bootCmdlineMax) (p : Nat) :
    (¬ ChosenFits blob offStrings p ∧ chosenTurn blob offStrings cmdline p = none) ∨
      (ChosenFits blob offStrings p ∧ ∃ r, chosenTurn blob offStrings cmdline p = some r ∧
        ChosenOutcome blob offStrings cmdline p r) := by
  by_cases h4 : p + 4 ≤ blob.length
  · by_cases ht : be32 (blob.drop p) = fdtTokenProp
    · by_cases h12 : p + 12 ≤ blob.length
      · rw [chosenTurn_prop h12 ht]
        by_cases hd : (dlenAt blob p).toNat = bootBootlineLen
        · rw [if_pos hd]
          by_cases hpre : blob.drop (nameAt blob offStrings p) <+: bootlineName
          · rw [if_pos hpre]
            exact .inl ⟨fun hf => ((hf h4 ht).2 hd).1 hpre, rfl⟩
          · rw [if_neg hpre]
            by_cases hname : cstr (blob.drop (nameAt blob offStrings p)) = bootlineName
            · rw [if_pos hname]
              have his : IsBootline blob offStrings p := ⟨h12, ht, hd, hname⟩
              by_cases hin : p + 12 + bootBootlineLen ≤ blob.length
              · obtain ⟨blob', hw, hr⟩ := bootlineWrite_inside (p := p + 4) hc
                  (show p + 4 + 8 + bootBootlineLen ≤ blob.length by omega)
                rw [hw]
                refine .inr ⟨fun _ _ => ⟨h12, fun _ => ⟨hpre, fun _ => hin⟩⟩, _, rfl,
                  .inr (.inl ⟨his, blob', rfl, hr⟩)⟩
              · have hout : blob.length < p + 4 + 8 + bootBootlineLen := by omega
                rw [bootlineWrite_outside hout]
                exact .inl ⟨fun hf => hin (((hf h4 ht).2 hd).2 hname), rfl⟩
            · rw [if_neg hname]
              refine .inr ⟨fun _ _ => ⟨h12, fun _ => ⟨hpre, fun hn => absurd hn hname⟩⟩, _, rfl,
                .inr (.inr ⟨fun hb => hname hb.name, h4, _, ?_, rfl⟩)⟩
              omega
        · rw [if_neg hd]
          refine .inr ⟨fun _ _ => ⟨h12, fun hd' => absurd hd' hd⟩, _, rfl,
            .inr (.inr ⟨fun hb => hd hb.dlen, h4, _, ?_, rfl⟩)⟩
          omega
      · refine .inl ⟨fun hf => h12 (hf h4 ht).1, ?_⟩
        unfold chosenTurn
        rw [if_neg (by omega), rdBe32_eq h4, ht]
        simp only [Option.bind_eq_bind, Option.bind_some]
        rw [if_neg (by decide), if_neg (not_not_intro rfl)]
        by_cases h8 : p + 4 + 4 ≤ blob.length
        · rw [rdBe32_eq h8, Option.bind_some, show rdBe32 blob (p + 4 + 4) = none from
            if_neg (by omega)]
          rfl
        · rw [show rdBe32 blob (p + 4) = none from if_neg h8]
          rfl
    · refine .inr ⟨fun _ ht' => absurd ht' ht, .inl (false, blob), ?_,
        .inl ⟨rfl, fun hb => ht hb.token⟩⟩
      unfold chosenTurn
      rw [if_neg (by omega), rdBe32_eq h4]
      simp only [Option.bind_eq_bind, Option.bind_some]
      rw [if_pos ht, ite_self]
  · refine .inr ⟨fun h4' _ => absurd h4' h4, .inl (false, blob), if_pos (by omega),
      .inl ⟨rfl, fun hb => h4 ?_⟩⟩
    have hbody := hb.body
    omega

theorem chosenTurn_shrinks (hc : cmdline.length < bootCmdlineMax) :
    Shrinks (guarded (chosenTurn blob offStrings cmdline)) fun p => blob.length - p := by
  intro p q h
  have ht := guarded_next.mp h
  rcases chosenTurn_spec offStrings hc p with ⟨-, hn⟩ | ⟨-, r, hr, ho⟩
  · rw [hn] at ht
    cases ht
  · rw [hr] at ht
    cases ht
    rcases ho with ⟨ho, -⟩ | ⟨-, blob', ho, -⟩ | ⟨-, h4, q', hlt, ho⟩
    · cases ho
    · cases ho
    · cases ho
      show blob.length - q < blob.length - p
      omega

theorem chosenLoop_inside (blob : List Byte) (offStrings : W32)
    (hc : cmdline.length < bootCmdlineMax) (p : Nat) :
    chosenLoop blob offStrings cmdline p ≠ none ↔
      ∀ q, Visits (guarded (chosenTurn blob offStrings cmdline)) p q →
        ChosenFits blob offStrings q := by
  unfold chosenLoop
  rw [guarded_safe (chosenTurn_shrinks hc)]
  refine forall_congr' fun q => imp_congr_right fun _ => ?_
  rcases chosenTurn_spec offStrings hc q with ⟨hno, hn⟩ | ⟨hf, r, hr, -⟩
  · exact iff_of_false (fun h => h hn) hno
  · exact iff_of_true (fun h => by rw [hr] at h; cases h) hf

theorem isBootline_turn (hc : cmdline.length < bootCmdlineMax) {p : Nat}
    (hb : IsBootline blob offStrings p) (hf : ChosenFits blob offStrings p) :
    ∃ blob', guarded (chosenTurn blob offStrings cmdline) p = .inl (some (true, blob')) := by
  rcases chosenTurn_spec offStrings hc p with ⟨hno, -⟩ | ⟨-, r, hr, ho⟩
  · exact absurd hf hno
  · rcases ho with ⟨-, hno⟩ | ⟨-, blob', rfl, -⟩ | ⟨hno, -⟩
    · exact absurd hb hno
    · exact ⟨blob', guarded_some.mpr hr⟩
    · exact absurd hb hno

/-- the only boot line of a chosen node the walk comes to, and the blob with it written -/
structure BootlineWritten (blob : List Byte) (offStrings : W32) (cmdline : List Byte)
    (start p : Nat) (blob' : List Byte) : Prop where
  visited : Visits (guarded (chosenTurn blob offStrings cmdline)) start p
  bootline : IsBootline blob offStrings p
  first : ∀ q, Visits (guarded (chosenTurn blob offStrings cmdline)) start q →
    IsBootline blob offStrings q → q = p
  written : Rewritten blob blob' (p + 12) (bootlineValue cmdline)

theorem chosenLoop_answer (hc : cmdline.length < bootCmdlineMax) {start : Nat} {ok : Bool}
    {blob' : List Byte} (h : chosenLoop blob offStrings cmdline start = some (ok, blob')) :
    (ok = false ∧ blob' = blob) ∨
      (ok = true ∧ ∃ p, BootlineWritten blob offStrings cmdline start p blob') := by
  have hinside := (chosenLoop_inside blob offStrings hc start).mp (by rw [h]; exact Option.some_ne_none _)
  obtain ⟨p, hv, hp⟩ := guarded_answer (chosenTurn_shrinks hc) h
  rcases chosenTurn_spec offStrings hc p with ⟨hno, -⟩ | ⟨hf, r, hr, ho⟩
  · exact absurd (hinside p hv) hno
  · rw [hr] at hp
    cases hp
    rcases ho with ⟨ho, -⟩ | ⟨hb, b, ho, hw⟩ | ⟨-, -, q, -, ho⟩
    · cases ho
      exact .inl ⟨rfl, rfl⟩
    · cases ho
      refine .inr ⟨rfl, p, hv, hb, fun q hq hbq => ?_, hw⟩
      obtain ⟨b', hend⟩ := isBootline_turn hc hbq (hinside q hq)
      exact visits_end_unique hv (guarded_some.mpr hr) hq hend
    · cases ho

end

/-! ## the walk to the chosen node -/

section

variable {offStrings : W32} {cmdline : List Byte}

theorem take_cstr (l : List Byte) : l.take (cstr l).length = cstr l := by
  unfold cstr
  exact (List.prefix_iff_eq_take.mp (List.takeWhile_prefix _)).symm

theorem isChosen_iff (blob : List Byte) (p : Nat) (depth : Int) :
    isChosen blob p depth (cstr (blob.drop p)).length = true ↔
      depth = 1 ∧ cstr (blob.drop p) = chosenName := by
  have htake := take_cstr (blob.drop p)
  unfold isChosen
  rw [Bool.and_eq_true, Bool.and_eq_true, decide_eq_true_eq, beq_iff_eq, beq_iff_eq, and_assoc]
  refine and_congr_right fun _ => ?_
  constructor
  · rintro ⟨hlen, hname⟩
    rw [hlen, hname] at htake
    exact htake.symm
  · intro hname
    have hlen : (cstr (blob.drop p)).length = 6 := by
      rw [hname]
      rfl
    rw [hlen, hname] at htake
    exact ⟨hlen, htake⟩

theorem isMemory_iff (blob : List Byte) (p : Nat) (depth : Int) :
    isMemory blob p depth (cstr (blob.drop p)).length = true ↔
      depth = 1 ∧ memoryName <+: cstr (blob.drop p) := by
  have hpre : cstr (blob.drop p) <+: blob.drop p := by
    unfold cstr
    exact List.takeWhile_prefix _
  unfold isMemory
  rw [Bool.and_eq_true, Bool.and_eq_true, decide_eq_true_eq, decide_eq_true_eq, beq_iff_eq,
    and_assoc]
  refine and_congr_right fun _ => ?_
  constructor
  · rintro ⟨hlen, hname⟩
    have hmem : memoryName <+: blob.drop p := hname ▸ List.take_prefix 7 _
    exact List.prefix_of_prefix_length_le hmem hpre hlen
  · intro hname
    have hlen : 7 ≤ (cstr (blob.drop p)).length := hname.length_le
    refine ⟨hlen, ?_⟩
    have hmem := hname.trans hpre
    exact (List.prefix_iff_eq_take.mp hmem).symm

/-- where the body of the node at a position starts -/
def bodyAt (blob : List Byte) (p : Nat) : Nat :=
  p + 4 + pad4 ((cstr (blob.drop (p + 4))).length + 1)

/-- a chosen node below the root -/
structure AtChosen (blob : List Byte) (c : PatchCursor) : Prop where
  body : c.p + 4 ≤ blob.length
  token : be32 (blob.drop c.p) = fdtTokenBeginNode
  depth : c.depth = 1
  name : cstr (blob.drop (c.p + 4)) = chosenName

/-- what a turn reads and writes lies in the blob -/
structure BootlineFits (blob : List Byte) (offStrings : W32) (cmdline : List Byte)
    (c : PatchCursor) : Prop where
  prop : c.p + 4 ≤ blob.length → be32 (blob.drop c.p) = fdtTokenProp → c.p + 8 ≤ blob.length
  chosen : AtChosen blob c → ∀ q,
    Visits (guarded (chosenTurn blob offStrings cmdline)) (bodyAt blob c.p) q →
      ChosenFits blob offStrings q

/-- what a turn of the walk does, where it stays inside -/
def BootlineOutcome (blob : List Byte) (offStrings : W32) (cmdline : List Byte) (c : PatchCursor)
    (r : Patched ⊕ PatchCursor) : Prop :=
  r = .inl (false, blob) ∨
    (AtChosen blob c ∧ ∃ p blob', r = .inl (true, blob') ∧
      BootlineWritten blob offStrings cmdline (bodyAt blob c.p) p blob') ∨
    (¬ AtChosen blob c ∧ c.p + 4 ≤ blob.length ∧ ∃ c', c.p < c'.p ∧ r = .inr c')

theorem bootlineTurn_eq {c : PatchCursor} (h : c.p + 4 ≤ blob.length) :
    bootlineTurn blob offStrings cmdline c =
      if be32 (blob.drop c.p) = fdtTokenEnd then some (.inl (false, blob))
      else if be32 (blob.drop c.p) = fdtTokenEndNode then some (.inr ⟨c.p + 4, c.depth - 1⟩)
      else if be32 (blob.drop c.p) = fdtTokenBeginNode then
        if isChosen blob (c.p + 4) c.depth (cstr (blob.drop (c.p + 4))).length then
          (chosenLoop blob offStrings cmdline (bodyAt blob c.p)).map .inl
        else some (.inr ⟨bodyAt blob c.p, c.depth + 1⟩)
      else if be32 (blob.drop c.p) = fdtTokenProp then
        (rdBe32 blob (c.p + 4)).bind fun dlen =>
          some (.inr ⟨c.p + 4 + propAdvance dlen, c.depth⟩)
      else some (.inl (false, blob)) := by
  unfold bootlineTurn
  rw [if_neg (by omega), rdBe32_eq h]
  simp only [Option.bind_eq_bind, Option.bind_some]
  rw [strnlen_rest h, Option.bind_some]
  rfl

/-- **a turn of the walk** stays inside exactly where it fits -/
theorem bootlineTurn_spec (offStrings : W32) (hc : cmdline.length < bootCmdlineMax)
    (c : PatchCursor) :
    (¬ BootlineFits blob offStrings cmdline c ∧ bootlineTurn blob offStrings cmdline c = none) ∨
      (BootlineFits blob offStrings cmdline c ∧ ∃ r,
        bootlineTurn blob offStrings cmdline c = some r ∧
          BootlineOutcome blob offStrings cmdline c r) := by
  by_cases h4 : c.p + 4 ≤ blob.length
  · rw [bootlineTurn_eq h4]
    by_cases hend : be32 (blob.drop c.p) = fdtTokenEnd
    · rw [if_pos hend]
      refine .inr ⟨⟨fun _ ht => ?_, fun ha => ?_⟩, _, rfl, .inl rfl⟩
      · exact absurd (hend.symm.trans ht) (by decide)
      · exact absurd (hend.symm.trans ha.token) (by decide)
    · rw [if_neg hend]
      by_cases hnode : be32 (blob.drop c.p) = fdtTokenEndNode
      · rw [if_pos hnode]
        refine .inr ⟨⟨fun _ ht => ?_, fun ha => ?_⟩, _, rfl,
          .inr (.inr ⟨fun ha => ?_, h4, _, ?_, rfl⟩)⟩
        · exact absurd (hnode.symm.trans ht) (by decide)
        · exact absurd (hnode.symm.trans ha.token) (by decide)
        · exact absurd (hnode.symm.trans ha.token) (by decide)
        · show c.p < c.p + 4
          omega
      · rw [if_neg hnode]
        by_cases hbegin : be32 (blob.drop c.p) = fdtTokenBeginNode
        · rw [if_pos hbegin]
          have hprop : c.p + 4 ≤ blob.length → be32 (blob.drop c.p) = fdtTokenProp →
              c.p + 8 ≤ blob.length :=
            fun _ ht => absurd (hbegin.symm.trans ht) (by decide)
          by_cases hch : isChosen blob (c.p + 4) c.depth (cstr (blob.drop (c.p + 4))).length
          · rw [if_pos hch]
            obtain ⟨hdepth, hname⟩ := (isChosen_iff blob (c.p + 4) c.depth).mp hch
            have hat : AtChosen blob c := ⟨h4, hbegin, hdepth, hname⟩
            have hin := chosenLoop_inside blob offStrings hc (bodyAt blob c.p)
            cases hl : chosenLoop blob offStrings cmdline (bodyAt blob c.p) with
            | none => exact .inl ⟨fun hf => hin.mpr (hf.chosen hat) hl, rfl⟩
            | some r =>
              obtain ⟨ok, blob'⟩ := r
              have hfits := hin.mp (by rw [hl]; exact Option.some_ne_none _)
              refine .inr ⟨⟨hprop, fun _ => hfits⟩, _, rfl, ?_⟩
              rcases chosenLoop_answer hc hl with ⟨rfl, rfl⟩ | ⟨rfl, p, hw⟩
              · exact .inl rfl
              · exact .inr (.inl ⟨hat, p, blob', rfl, hw⟩)
          · rw [if_neg hch]
            have hno : ¬ AtChosen blob c := fun ha =>
              hch ((isChosen_iff blob (c.p + 4) c.depth).mpr ⟨ha.depth, ha.name⟩)
            refine .inr ⟨⟨hprop, fun ha => absurd ha hno⟩, _, rfl,
              .inr (.inr ⟨hno, h4, _, ?_, rfl⟩)⟩
            show c.p < c.p + 4 + _
            omega
        · rw [if_neg hbegin]
          have hno : ¬ AtChosen blob c := fun ha => hbegin ha.token
          by_cases hpr : be32 (blob.drop c.p) = fdtTokenProp
          · rw [if_pos hpr]
            by_cases h8 : c.p + 4 + 4 ≤ blob.length
            · rw [rdBe32_eq h8]
              refine .inr ⟨⟨fun _ _ => by omega, fun ha => absurd ha hno⟩, _, rfl,
                .inr (.inr ⟨hno, h4, _, ?_, rfl⟩)⟩
              show c.p < c.p + 4 + _
              omega
            · rw [show rdBe32 blob (c.p + 4) = none from if_neg h8]
              exact .inl ⟨fun hf => h8 (by have := hf.prop h4 hpr; omega), rfl⟩
          · rw [if_neg hpr]
            exact .inr ⟨⟨fun _ ht => absurd ht hpr, fun ha => absurd ha hno⟩, _, rfl, .inl rfl⟩
  · refine .inr ⟨⟨fun h4' => absurd h4' h4, fun ha => absurd ha.body h4⟩, _, if_pos (by omega),
      .inl rfl⟩

theorem bootlineTurn_shrinks (hc : cmdline.length < bootCmdlineMax) :
    Shrinks (guarded (bootlineTurn blob offStrings cmdline)) fun c => blob.length - c.p := by
  intro c c' h
  have ht := guarded_next.mp h
  rcases bootlineTurn_spec _ hc c with ⟨-, hn⟩ | ⟨-, r, hr, ho⟩
  · rw [hn] at ht
    cases ht
  · rw [hr] at ht
    cases ht
    rcases ho with ho | ⟨-, p, blob', ho, -⟩ | ⟨-, h4, c₁, hlt, ho⟩
    · cases ho
    · cases ho
    · cases ho
      show blob.length - c'.p < blob.length - c.p
      omega

end

/-! ## the walk to the memory node -/

section

variable {offStrings : W32} {base size : W64}

/-- a property of the node the walk looks for, as wide as what is written -/
structure IsReg (blob : List Byte) (offStrings : W32) (c : NodeCursor) : Prop where
  wanted : c.inWanted = true
  body : c.p + 12 ≤ blob.length
  token : be32 (blob.drop c.p) = fdtTokenProp
  name : cstr (blob.drop (nameAt blob offStrings c.p)) = regName
  dlen : (dlenAt blob c.p).toNat ≥ 16

/-- a memory node below the root -/
structure AtMemory (blob : List Byte) (c : NodeCursor) : Prop where
  body : c.p + 4 ≤ blob.length
  token : be32 (blob.drop c.p) = fdtTokenBeginNode
  depth : c.depth = 1
  name : memoryName <+: cstr (blob.drop (c.p + 4))

/-- what a turn reads and writes lies in the blob -/
def NodeFits (blob : List Byte) (offStrings : W32) (c : NodeCursor) : Prop :=
  c.p + 4 ≤ blob.length → be32 (blob.drop c.p) = fdtTokenProp →
    c.p + 12 ≤ blob.length ∧ (c.inWanted = true →
      ¬ blob.drop (nameAt blob offStrings c.p) <+: regName ∧
        (cstr (blob.drop (nameAt blob offStrings c.p)) = regName →
          (dlenAt blob c.p).toNat ≥ 16 → c.p + 12 + 16 ≤ blob.length))

/-- what the next state of the walk remembers of the node -/
def Remembers (blob : List Byte) (c c' : NodeCursor) : Prop :=
  c'.inWanted = true →
    (AtMemory blob c ∧ c'.depth = 2) ∨ (c.inWanted = true ∧ c'.depth = c.depth)

/-- what a turn does, where it stays inside -/
def NodeOutcome (blob : List Byte) (offStrings : W32) (base size : W64) (c : NodeCursor)
    (r : Patched ⊕ NodeCursor) : Prop :=
  (r = .inl (false, blob) ∧ ¬ IsReg blob offStrings c) ∨
    (IsReg blob offStrings c ∧ ∃ blob', r = .inl (true, blob') ∧
      Rewritten blob blob' (c.p + 12) (cellBytes base ++ cellBytes size)) ∨
    (¬ IsReg blob offStrings c ∧ c.p + 4 ≤ blob.length ∧
      ∃ c', c.p < c'.p ∧ Remembers blob c c' ∧ r = .inr c')

theorem cells_length (base size : W64) : (cellBytes base ++ cellBytes size).length = 16 := rfl

theorem nodeTurn_prop {c : NodeCursor} (h : c.p + 12 ≤ blob.length)
    (ht : be32 (blob.drop c.p) = fdtTokenProp) :
    nodeTurn blob offStrings base size c =
      if c.inWanted = true then
        if blob.drop (nameAt blob offStrings c.p) <+: regName then none
        else if cstr (blob.drop (nameAt blob offStrings c.p)) = regName ∧
            (dlenAt blob c.p).toNat ≥ 16 then
          (storeAt blob (c.p + 4 + 8) (cellBytes base ++ cellBytes size)).map
            fun b => .inl (true, b)
        else some (.inr ⟨c.p + 4 + propAdvance (dlenAt blob c.p), c.depth, c.inWanted⟩)
      else some (.inr ⟨c.p + 4 + propAdvance (dlenAt blob c.p), c.depth, c.inWanted⟩) := by
  have hname : strEqIf c.inWanted blob (nameAt blob offStrings c.p) regName =
      if c.inWanted = true then
        if blob.drop (nameAt blob offStrings c.p) <+: regName then none
        else some (decide (cstr (blob.drop (nameAt blob offStrings c.p)) = regName))
      else some false := by
    unfold strEqIf
    rw [strEq_eq _ _ regName_nonzero]
  unfold nodeTurn
  rw [if_neg (by omega), rdBe32_eq (by omega)]
  simp only [Option.bind_eq_bind, Option.bind_some]
  rw [rdBe32_eq (by omega), rdBe32_eq (by omega), ht, if_neg (by decide), if_neg (by decide),
    if_neg (by decide), if_pos rfl]
  show Option.bind (strEqIf c.inWanted blob (nameAt blob offStrings c.p) regName) _ = _
  rw [hname]
  by_cases hw : c.inWanted = true
  · rw [if_pos hw, if_pos hw]
    by_cases hpre : blob.drop (nameAt blob offStrings c.p) <+: regName
    · rw [if_pos hpre, if_pos hpre]
      rfl
    · rw [if_neg hpre, if_neg hpre, Option.bind_some]
      simp only [Bool.and_eq_true, decide_eq_true_eq]
      rfl
  · rw [if_neg hw, if_neg hw, Option.bind_some, Bool.false_and, if_neg Bool.false_ne_true]
    rfl

theorem nodeTurn_other {c : NodeCursor} (h : c.p + 4 ≤ blob.length)
    (ht : be32 (blob.drop c.p) ≠ fdtTokenProp) :
    nodeTurn blob offStrings base size c =
      if be32 (blob.drop c.p) = fdtTokenEnd then some (.inl (false, blob))
      else if be32 (blob.drop c.p) = fdtTokenEndNode then
        some (.inr ⟨c.p + 4, c.depth - 1, false⟩)
      else if be32 (blob.drop c.p) = fdtTokenBeginNode then
        some (.inr ⟨bodyAt blob c.p, c.depth + 1,
          isMemory blob (c.p + 4) c.depth (cstr (blob.drop (c.p + 4))).length⟩)
      else some (.inl (false, blob)) := by
  unfold nodeTurn
  rw [if_neg (by omega), rdBe32_eq h]
  simp only [Option.bind_eq_bind, Option.bind_some]
  rw [strnlen_rest h, Option.bind_some, if_neg ht]
  rfl

/-- **a turn of the walk** stays inside exactly where it fits -/
theorem nodeTurn_spec (offStrings : W32) (base size : W64) (c : NodeCursor) :
    (¬ NodeFits blob offStrings c ∧ nodeTurn blob offStrings base size c = none) ∨
      (NodeFits blob offStrings c ∧ ∃ r, nodeTurn blob offStrings base size c = some r ∧
        NodeOutcome blob offStrings base size c r) := by
  by_cases h4 : c.p + 4 ≤ blob.length
  · by_cases ht : be32 (blob.drop c.p) = fdtTokenProp
    · by_cases h12 : c.p + 12 ≤ blob.length
      · rw [nodeTurn_prop h12 ht]
        by_cases hw : c.inWanted = true
        · rw [if_pos hw]
          by_cases hpre : blob.drop (nameAt blob offStrings c.p) <+: regName
          · rw [if_pos hpre]
            exact .inl ⟨fun hf => ((hf h4 ht).2 hw).1 hpre, rfl⟩
          · rw [if_neg hpre]
            by_cases hreg : cstr (blob.drop (nameAt blob offStrings c.p)) = regName ∧
                (dlenAt blob c.p).toNat ≥ 16
            · rw [if_pos hreg]
              have his : IsReg blob offStrings c := ⟨hw, h12, ht, hreg.1, hreg.2⟩
              by_cases hin : c.p + 12 + 16 ≤ blob.length
              · obtain ⟨blob', hs, hr⟩ := @storeAt_rewritten blob (c.p + 4 + 8)
                  (cellBytes base ++ cellBytes size) (by rw [cells_length]; omega)
                rw [hs]
                refine .inr ⟨fun _ _ => ⟨h12, fun _ => ⟨hpre, fun _ _ => hin⟩⟩, _, rfl,
                  .inr (.inl ⟨his, blob', rfl, hr⟩)⟩
              · rw [storeAt_outside (by rw [cells_length]; omega)]
                exact .inl ⟨fun hf => hin (((hf h4 ht).2 hw).2 hreg.1 hreg.2), rfl⟩
            · rw [if_neg hreg]
              refine .inr ⟨fun _ _ => ⟨h12, fun _ => ⟨hpre, fun hn hd => absurd ⟨hn, hd⟩ hreg⟩⟩, _,
                rfl, .inr (.inr ⟨fun hb => hreg ⟨hb.name, hb.dlen⟩, h4, _, ?_, ?_, rfl⟩)⟩
              · show c.p < c.p + 4 + _
                omega
              · exact fun _ => .inr ⟨hw, rfl⟩
        · rw [if_neg hw]
          refine .inr ⟨fun _ _ => ⟨h12, fun hw' => absurd hw' hw⟩, _, rfl,
            .inr (.inr ⟨fun hb => hw hb.wanted, h4, _, ?_, ?_, rfl⟩)⟩
          · show c.p < c.p + 4 + _
            omega
          · exact fun hw' => absurd hw' hw
      · refine .inl ⟨fun hf => h12 (hf h4 ht).1, ?_⟩
        unfold nodeTurn
        rw [if_neg (by omega), rdBe32_eq h4]
        simp only [Option.bind_eq_bind, Option.bind_some]
        rw [ht, if_neg (by decide), if_neg (by decide), if_neg (by decide), if_pos rfl]
        by_cases h8 : c.p + 4 + 4 ≤ blob.length
        · rw [rdBe32_eq h8, Option.bind_some, show rdBe32 blob (c.p + 4 + 4) = none from
            if_neg (by omega)]
          rfl
        · rw [show rdBe32 blob (c.p + 4) = none from if_neg h8]
          rfl
    · rw [nodeTurn_other h4 ht]
      have hno : ¬ IsReg blob offStrings c := fun hb => ht hb.token
      have hfits : NodeFits blob offStrings c := fun _ ht' => absurd ht' ht
      refine .inr ⟨hfits, ?_⟩
      by_cases hend : be32 (blob.drop c.p) = fdtTokenEnd
      · rw [if_pos hend]
        exact ⟨_, rfl, .inl ⟨rfl, hno⟩⟩
      · rw [if_neg hend]
        by_cases hnode : be32 (blob.drop c.p) = fdtTokenEndNode
        · rw [if_pos hnode]
          refine ⟨_, rfl, .inr (.inr ⟨hno, h4, _, ?_, ?_, rfl⟩)⟩
          · show c.p < c.p + 4
            omega
          · exact fun hw => absurd hw Bool.false_ne_true
        · rw [if_neg hnode]
          by_cases hbegin : be32 (blob.drop c.p) = fdtTokenBeginNode
          · rw [if_pos hbegin]
            refine ⟨_, rfl, .inr (.inr ⟨hno, h4, _, ?_, ?_, rfl⟩)⟩
            · show c.p < c.p + 4 + _
              omega
            · intro hw
              obtain ⟨hdepth, hname⟩ := (isMemory_iff blob (c.p + 4) c.depth).mp hw
              refine .inl ⟨⟨h4, hbegin, hdepth, hname⟩, ?_⟩
              show c.depth + 1 = 2
              omega
          · rw [if_neg hbegin]
            exact ⟨_, rfl, .inl ⟨rfl, hno⟩⟩
  · refine .inr ⟨fun h4' => absurd h4' h4, _, if_pos (by omega), .inl ⟨rfl, fun hb => ?_⟩⟩
    have hbody := hb.body
    omega

theorem nodeTurn_shrinks : Shrinks (guarded (nodeTurn blob offStrings base size))
    fun c => blob.length - c.p := by
  intro c c' h
  have ht := guarded_next.mp h
  rcases nodeTurn_spec offStrings base size c with ⟨-, hn⟩ | ⟨-, r, hr, ho⟩
  · rw [hn] at ht
    cases ht
  · rw [hr] at ht
    cases ht
    rcases ho with ⟨ho, -⟩ | ⟨-, blob', ho, -⟩ | ⟨-, h4, c₁, hlt, -, ho⟩
    · cases ho
    · cases ho
    · cases ho
      show blob.length - c'.p < blob.length - c.p
      omega

/-- **the walk remembers a memory node** only while it is among its properties -/
theorem visits_wanted {c₁ c : NodeCursor} (h₁ : c₁.inWanted = false)
    (hv : Visits (guarded (nodeTurn blob offStrings base size)) c₁ c) (hw : c.inWanted = true) :
    c.depth = 2 ∧ ∃ c₀, Visits (guarded (nodeTurn blob offStrings base size)) c₁ c₀ ∧
      AtMemory blob c₀ ∧ Visits (guarded (nodeTurn blob offStrings base size)) c₀ c := by
  induction hv with
  | refl =>
    rw [h₁] at hw
    cases hw
  | tail hv hstep ih =>
    rename_i c c'
    have ht := guarded_next.mp hstep
    rcases nodeTurn_spec offStrings base size c with ⟨-, hn⟩ | ⟨-, r, hr, ho⟩
    · rw [hn] at ht
      cases ht
    · rw [hr] at ht
      cases ht
      rcases ho with ⟨ho, -⟩ | ⟨-, blob', ho, -⟩ | ⟨-, -, c₂, -, hrem, ho⟩
      · cases ho
      · cases ho
      · cases ho
        rcases hrem hw with ⟨hat, hdepth⟩ | ⟨hw', hdepth⟩
        · exact ⟨hdepth, c, hv, hat, .single hstep⟩
        · obtain ⟨h2, c₀, hv₀, hat, hv₁⟩ := ih hw'
          exact ⟨hdepth.trans h2, c₀, hv₀, hat, hv₁.tail hstep⟩

end

/-! ## the patchers -/

/-- where the walk starts -/
def structAt (blob : List Byte) : Nat := (be32 (blob.drop 8)).toNat

/-- where the names are counted from -/
def stringsAt (blob : List Byte) : W32 := be32 (blob.drop 12)

theorem bootHeaderOk_length (h : bootHeaderOk blob = true) : 40 ≤ blob.length := by
  unfold bootHeaderOk at h
  by_contra hlt
  have hdec : decide (blob.length < 40) = true := decide_eq_true (Nat.not_le.mp hlt)
  simp [hdec] at h

/-- the turns of the walk for the boot line -/
abbrev bootlineStep (blob cmdline : List Byte) : PatchCursor → Option Patched ⊕ PatchCursor :=
  guarded (bootlineTurn blob (stringsAt blob) cmdline)

abbrev chosenStep (blob cmdline : List Byte) : Nat → Option Patched ⊕ Nat :=
  guarded (chosenTurn blob (stringsAt blob) cmdline)

/-- the turns of the walk for the memory node -/
abbrev nodeStep (blob : List Byte) (base size : W64) : NodeCursor → Option Patched ⊕ NodeCursor :=
  guarded (nodeTurn blob (stringsAt blob) base size)

/-- what is asked of `dtb_patch_bootline`: it ends, it stays in the blob, it leaves a blob it fails on
alone, and else writes the value of the first boot line of the first chosen node -/
structure BootlinePatched (blob : List Byte) (cmdline : CStr) : Prop where
  ends : WellFounded fun c' c => Turn (bootlineStep blob cmdline.bytes) c c'
  endsChosen : WellFounded fun p' p => Turn (chosenStep blob cmdline.bytes) p p'
  inside : dtbPatchBootline blob cmdline.bytes ≠ none
  failed : ∀ blob', dtbPatchBootline blob cmdline.bytes = some (false, blob') → blob' = blob
  done : ∀ blob', dtbPatchBootline blob cmdline.bytes = some (true, blob') →
    ∃ c p, Visits (bootlineStep blob cmdline.bytes) ⟨structAt blob, 0⟩ c ∧ AtChosen blob c ∧
      (∀ c', Visits (bootlineStep blob cmdline.bytes) ⟨structAt blob, 0⟩ c' →
        AtChosen blob c' → c' = c) ∧
      BootlineWritten blob (stringsAt blob) cmdline.bytes (bodyAt blob c.p) p blob' ∧
      cstr ((blob'.drop (p + 12)).take bootBootlineLen) = cmdline.bytes

/-- what is asked of `dtb_patch_node` -/
structure NodePatched (blob : List Byte) (base size : W64) : Prop where
  ends : WellFounded fun c' c => Turn (nodeStep blob base size) c c'
  inside : dtbPatchNode blob base size ≠ none
  failed : ∀ blob', dtbPatchNode blob base size = some (false, blob') → blob' = blob
  done : ∀ blob', dtbPatchNode blob base size = some (true, blob') →
    ∃ c₀ c, Visits (nodeStep blob base size) ⟨structAt blob, 0, false⟩ c₀ ∧ AtMemory blob c₀ ∧
      Visits (nodeStep blob base size) c₀ c ∧ c.depth = 2 ∧ IsReg blob (stringsAt blob) c ∧
      (∀ c', Visits (nodeStep blob base size) ⟨structAt blob, 0, false⟩ c' →
        IsReg blob (stringsAt blob) c' → c' = c) ∧
      Rewritten blob blob' (c.p + 12) (cellBytes base ++ cellBytes size) ∧
      be32 (blob'.drop (c.p + 12)) ++ be32 (blob'.drop (c.p + 16)) = base ∧
      be32 (blob'.drop (c.p + 20)) ++ be32 (blob'.drop (c.p + 24)) = size

theorem dtbPatchBootline_eq {cmdline : List Byte} (hb : bootHeaderOk blob = true)
    (hc : cmdline.length < bootCmdlineMax) :
    dtbPatchBootline blob cmdline = loop (bootlineStep blob cmdline) (some (false, blob))
      (fun c => blob.length - c.p) ⟨structAt blob, 0⟩ := by
  have hlen := bootHeaderOk_length hb
  unfold dtbPatchBootline
  rw [if_neg (Nat.not_le.mpr hc), rdBe32_eq (by omega), rdBe32_eq (by omega)]
  rfl

theorem dtbPatchNode_eq (hlen : 40 ≤ blob.length) (base size : W64) :
    dtbPatchNode blob base size = loop (nodeStep blob base size) (some (false, blob))
      (fun c => blob.length - c.p) ⟨structAt blob, 0, false⟩ := by
  unfold dtbPatchNode
  rw [rdBe32_eq (by omega), rdBe32_eq (by omega)]
  rfl

theorem bootline_inside {cmdline : List Byte} (hb : bootHeaderOk blob = true)
    (hc : cmdline.length < bootCmdlineMax) :
    dtbPatchBootline blob cmdline ≠ none ↔
      ∀ c, Visits (bootlineStep blob cmdline) ⟨structAt blob, 0⟩ c →
        BootlineFits blob (stringsAt blob) cmdline c := by
  rw [dtbPatchBootline_eq hb hc, guarded_safe (bootlineTurn_shrinks hc)]
  refine forall_congr' fun c => imp_congr_right fun _ => ?_
  rcases bootlineTurn_spec _ hc c with ⟨hno, hn⟩ | ⟨hf, r, hr, -⟩
  · exact iff_of_false (fun h => h hn) hno
  · exact iff_of_true (fun h => by rw [hr] at h; cases h) hf

theorem node_inside (hb : bootHeaderOk blob = true) (base size : W64) :
    dtbPatchNode blob base size ≠ none ↔
      ∀ c, Visits (nodeStep blob base size) ⟨structAt blob, 0, false⟩ c →
        NodeFits blob (stringsAt blob) c := by
  rw [dtbPatchNode_eq (bootHeaderOk_length hb), guarded_safe nodeTurn_shrinks]
  refine forall_congr' fun c => imp_congr_right fun _ => ?_
  rcases nodeTurn_spec (stringsAt blob) base size c with ⟨hno, hn⟩ | ⟨hf, r, hr, -⟩
  · exact iff_of_false (fun h => h hn) hno
  · exact iff_of_true (fun h => by rw [hr] at h; cases h) hf

/-- a walk that answered did so on the turn it ended with -/
theorem bootline_answer {cmdline : List Byte} (hb : bootHeaderOk blob = true)
    (hc : cmdline.length < bootCmdlineMax) {ok : Bool}
    (h : dtbPatchBootline blob cmdline = some (ok, blob')) :
    ∃ c, Visits (bootlineStep blob cmdline) ⟨structAt blob, 0⟩ c ∧
      bootlineTurn blob (stringsAt blob) cmdline c = some (.inl (ok, blob')) ∧
      BootlineOutcome blob (stringsAt blob) cmdline c (.inl (ok, blob')) := by
  rw [dtbPatchBootline_eq hb hc] at h
  obtain ⟨c, hv, ht⟩ := guarded_answer (bootlineTurn_shrinks hc) h
  rcases bootlineTurn_spec _ hc c with ⟨-, hn⟩ | ⟨-, r, hr, ho⟩
  · rw [ht] at hn
    cases hn
  · rw [ht] at hr
    cases hr
    exact ⟨c, hv, ht, ho⟩

theorem node_answer (hlen : 40 ≤ blob.length) {base size : W64} {ok : Bool}
    (h : dtbPatchNode blob base size = some (ok, blob')) :
    ∃ c, Visits (nodeStep blob base size) ⟨structAt blob, 0, false⟩ c ∧
      nodeTurn blob (stringsAt blob) base size c = some (.inl (ok, blob')) ∧
      NodeOutcome blob (stringsAt blob) base size c (.inl (ok, blob')) := by
  rw [dtbPatchNode_eq hlen] at h
  obtain ⟨c, hv, ht⟩ := guarded_answer nodeTurn_shrinks h
  rcases nodeTurn_spec (stringsAt blob) base size c with ⟨-, hn⟩ | ⟨-, r, hr, ho⟩
  · rw [ht] at hn
    cases hn
  · rw [ht] at hr
    cases hr
    exact ⟨c, hv, ht, ho⟩

theorem bootline_rewritten {cmdline : List Byte} (hb : bootHeaderOk blob = true)
    (h : dtbPatchBootline blob cmdline = some (true, blob')) :
    ∃ a, Rewritten blob blob' a (bootlineValue cmdline) := by
  have hc : cmdline.length < bootCmdlineMax := by
    by_contra hlong
    unfold dtbPatchBootline at h
    rw [if_pos (Nat.not_lt.mp hlong)] at h
    cases h
  obtain ⟨c, -, -, ho⟩ := bootline_answer hb hc h
  rcases ho with ho | ⟨-, p, b, ho, hw⟩ | ⟨-, -, c', -, ho⟩
  · cases ho
  · cases ho
    exact ⟨p + 12, hw.written⟩
  · cases ho

theorem node_rewritten (hlen : 40 ≤ blob.length) {base size : W64} {ok : Bool}
    (h : dtbPatchNode blob base size = some (ok, blob')) :
    blob' = blob ∨ ∃ a, Rewritten blob blob' a (cellBytes base ++ cellBytes size) := by
  obtain ⟨c, -, -, ho⟩ := node_answer hlen h
  rcases ho with ⟨ho, -⟩ | ⟨-, b, ho, hw⟩ | ⟨-, -, c', -, -, ho⟩
  · cases ho
    exact .inl rfl
  · cases ho
    exact .inr ⟨c.p + 12, hw⟩
  · cases ho

theorem atChosen_turn {cmdline : List Byte} (hc : cmdline.length < bootCmdlineMax)
    {offStrings : W32} {c : PatchCursor} (ha : AtChosen blob c) :
    ∃ r, guarded (bootlineTurn blob offStrings cmdline) c = .inl r := by
  rcases bootlineTurn_spec offStrings hc c with ⟨-, hn⟩ | ⟨-, r, hr, ho⟩
  · exact ⟨none, guarded_none.mpr hn⟩
  · rcases ho with rfl | ⟨-, p, blob', rfl, -⟩ | ⟨hno, -⟩
    · exact ⟨_, guarded_some.mpr hr⟩
    · exact ⟨_, guarded_some.mpr hr⟩
    · exact absurd ha hno

/-- **the boot line**: the patcher does what is asked of it exactly when every turn of its walk fits -/
theorem bootline_safe {cmdline : CStr} (hb : bootHeaderOk blob = true)
    (hc : cmdline.bytes.length < bootCmdlineMax) :
    BootlinePatched blob cmdline ↔
      ∀ c, Visits (bootlineStep blob cmdline.bytes) ⟨structAt blob, 0⟩ c →
        BootlineFits blob (stringsAt blob) cmdline.bytes c := by
  constructor
  · exact fun h => (bootline_inside hb hc).mp h.inside
  · intro hfits
    refine ⟨(bootlineTurn_shrinks hc).wf, (chosenTurn_shrinks hc).wf,
      (bootline_inside hb hc).mpr hfits, fun blob' h => ?_, fun blob' h => ?_⟩
    · obtain ⟨c, -, -, ho⟩ := bootline_answer hb hc h
      rcases ho with ho | ⟨-, p, b, ho, -⟩ | ⟨-, -, c', -, ho⟩
      · cases ho
        rfl
      · cases ho
      · cases ho
    · obtain ⟨c, hv, ht, ho⟩ := bootline_answer hb hc h
      rcases ho with ho | ⟨hat, p, b, ho, hw⟩ | ⟨-, -, c', -, ho⟩
      · cases ho
      · cases ho
        refine ⟨c, p, hv, hat, fun c' hv' hat' => ?_, hw, ?_⟩
        · obtain ⟨r, hr⟩ := atChosen_turn hc hat'
          exact visits_end_unique hv (guarded_some.mpr ht) hv' hr
        · have hback := hw.written.back
          rw [bootlineValue_length hc] at hback
          rw [hback]
          exact bootlineValue_cstr cmdline
      · cases ho

theorem cells_back {a : Nat} {blob' : List Byte} {base size : W64}
    (h : Rewritten blob blob' a (cellBytes base ++ cellBytes size)) :
    be32 (blob'.drop a) ++ be32 (blob'.drop (a + 4)) = base ∧
      be32 (blob'.drop (a + 8)) ++ be32 (blob'.drop (a + 12)) = size := by
  have hvalue : blob'.drop a = cellBytes base ++ (cellBytes size ++ (blob'.drop a).drop 16) := by
    have hback := h.back
    rw [cells_length] at hback
    rw [← List.append_assoc, ← hback, List.take_append_drop]
  have hrest : (cellBytes base ++ (cellBytes size ++ (blob'.drop a).drop 16)).drop 8 =
      cellBytes size ++ (blob'.drop a).drop 16 := rfl
  have h8 : blob'.drop (a + 8) = cellBytes size ++ (blob'.drop a).drop 16 := by
    rw [← List.drop_drop, hvalue, hrest]
    rw [← hvalue]
  refine ⟨?_, ?_⟩
  · rw [← List.drop_drop, hvalue]
    exact cellBytes_back base _
  · have h12 : blob'.drop (a + 12) = (blob'.drop (a + 8)).drop 4 := by
      rw [List.drop_drop]
    rw [h12, h8]
    exact cellBytes_back size _

/-- **the memory node**: the same of the other patcher -/
theorem node_safe (hb : bootHeaderOk blob = true) (base size : W64) :
    NodePatched blob base size ↔
      ∀ c, Visits (nodeStep blob base size) ⟨structAt blob, 0, false⟩ c →
        NodeFits blob (stringsAt blob) c := by
  constructor
  · exact fun h => (node_inside hb base size).mp h.inside
  · intro hfits
    have hreg : ∀ c', Visits (nodeStep blob base size) ⟨structAt blob, 0, false⟩ c' →
        IsReg blob (stringsAt blob) c' → ∃ r, nodeStep blob base size c' = .inl r := by
      intro c' hv' hr'
      rcases nodeTurn_spec (stringsAt blob) base size c' with ⟨-, hn⟩ | ⟨-, r, hr, ho⟩
      · exact ⟨none, guarded_none.mpr hn⟩
      · rcases ho with ⟨-, hno⟩ | ⟨-, b, rfl, -⟩ | ⟨hno, -⟩
        · exact absurd hr' hno
        · exact ⟨_, guarded_some.mpr hr⟩
        · exact absurd hr' hno
    refine ⟨nodeTurn_shrinks.wf, (node_inside hb base size).mpr hfits, fun blob' h => ?_,
      fun blob' h => ?_⟩
    · obtain ⟨c, -, -, ho⟩ := node_answer (bootHeaderOk_length hb) h
      rcases ho with ⟨ho, -⟩ | ⟨-, b, ho, -⟩ | ⟨-, -, c', -, -, ho⟩
      · cases ho
        rfl
      · cases ho
      · cases ho
    · obtain ⟨c, hv, ht, ho⟩ := node_answer (bootHeaderOk_length hb) h
      rcases ho with ⟨ho, -⟩ | ⟨hr, b, ho, hw⟩ | ⟨-, -, c', -, -, ho⟩
      · cases ho
      · cases ho
        obtain ⟨h2, c₀, hv₀, hat, hv₁⟩ := visits_wanted rfl hv hr.wanted
        obtain ⟨hbase, hsize⟩ := cells_back hw
        refine ⟨c₀, c, hv₀, hat, hv₁, h2, hr, fun c' hv' hr' => ?_, hw, hbase, hsize⟩
        obtain ⟨q, hq⟩ := hreg c' hv' hr'
        exact visits_end_unique hv (guarded_some.mpr ht) hv' hq
      · cases ho

/-- **both patchers**, on every blob that passes the check of the header: each does what is asked of it
exactly when every turn of its walk stays inside the blob -/
theorem patchers_safe {cmdline : CStr} (hb : bootHeaderOk blob = true)
    (hc : cmdline.bytes.length < bootCmdlineMax) (base size : W64) :
    (BootlinePatched blob cmdline ↔
        ∀ c, Visits (bootlineStep blob cmdline.bytes) ⟨structAt blob, 0⟩ c →
          BootlineFits blob (stringsAt blob) cmdline.bytes c) ∧
      (NodePatched blob base size ↔
        ∀ c, Visits (nodeStep blob base size) ⟨structAt blob, 0, false⟩ c →
          NodeFits blob (stringsAt blob) c) :=
  ⟨bootline_safe hb hc, node_safe hb base size⟩

/-- a root with a chosen node, whose boot line has 257 bytes, and a memory node with two cell pairs -/
def sampleTree : List Byte :=
  putBe32 fdtMagic ++ putBe32 409 ++ putBe32 40 ++ putBe32 396 ++ zeros 24 ++
    putBe32 fdtTokenBeginNode ++ zeros 4 ++
    putBe32 fdtTokenBeginNode ++ chosenName ++ zeros 2 ++
    putBe32 fdtTokenProp ++ putBe32 257 ++ putBe32 0 ++ zeros 260 ++ putBe32 fdtTokenEndNode ++
    putBe32 fdtTokenBeginNode ++ memoryName ++ [0x34, 0x30, 0x30, 0x30, 0x30, 0x30, 0x30, 0x30, 0] ++
    putBe32 fdtTokenProp ++ putBe32 16 ++ putBe32 9 ++ zeros 16 ++ putBe32 fdtTokenEndNode ++
    putBe32 fdtTokenEndNode ++ putBe32 fdtTokenEnd ++ bootlineName ++ [0] ++ regName ++ [0]

/-- `ro` -/
def sampleLine : CStr := ⟨[0x72, 0x6F], by decide⟩

/-- both patchers on the tree: the boot line is written at 72, the cell pairs at 368 -/
theorem patchers_safe_tree :
    (BootlinePatched sampleTree sampleLine ∧ ∃ blob',
        dtbPatchBootline sampleTree sampleLine.bytes = some (true, blob') ∧
          (blob'.drop 72).take 4 = [0x72, 0x6F, 0, 0x20]) ∧
      NodePatched sampleTree 0x40000000 0x1000 ∧ ∃ blob',
        dtbPatchNode sampleTree 0x40000000 0x1000 = some (true, blob') ∧
          (blob'.drop 368).take 16 = cellBytes 0x40000000 ++ cellBytes 0x1000 := by
  have hb : bootHeaderOk sampleTree = true := by decide +kernel
  have hc : sampleLine.bytes.length < bootCmdlineMax := by decide
  have hline : ((dtbPatchBootline sampleTree sampleLine.bytes).map fun r =>
      (r.1, (r.2.drop 72).take 4)) = some (true, [0x72, 0x6F, 0, 0x20]) := by decide +kernel
  have hcells : ((dtbPatchNode sampleTree 0x40000000 0x1000).map fun r =>
      (r.1, (r.2.drop 368).take 16)) =
        some (true, cellBytes 0x40000000 ++ cellBytes 0x1000) := by decide +kernel
  obtain ⟨⟨ok₁, blob₁⟩, hrun₁, he₁⟩ := Option.map_eq_some_iff.mp hline
  obtain ⟨⟨ok₂, blob₂⟩, hrun₂, he₂⟩ := Option.map_eq_some_iff.mp hcells
  obtain ⟨rfl, hat₁⟩ := Prod.mk.inj he₁
  obtain ⟨rfl, hat₂⟩ := Prod.mk.inj he₂
  obtain ⟨hboot, hnode⟩ := patchers_safe hb hc 0x40000000 0x1000
  refine ⟨⟨hboot.mpr ((bootline_inside hb hc).mp ?_), blob₁, hrun₁, hat₁⟩,
    hnode.mpr ((node_inside hb _ _).mp ?_), blob₂, hrun₂, hat₂⟩
  · rw [hrun₁]
    exact Option.some_ne_none _
  · rw [hrun₂]
    exact Option.some_ne_none _

/-- a blob that ends behind a property token -/
def openProp : List Byte :=
  putBe32 fdtMagic ++ putBe32 44 ++ putBe32 40 ++ putBe32 0 ++ zeros 24 ++ putBe32 fdtTokenProp

/-- the length of that property is read outside the blob, by both -/
theorem open_prop_unsafe :
    bootHeaderOk openProp = true ∧ ¬ BootlinePatched openProp ⟨[], List.not_mem_nil⟩ ∧
      ¬ NodePatched openProp 0x40000000 0x1000 := by
  refine ⟨by decide +kernel, fun h => h.inside ?_, fun h => h.inside ?_⟩
  · decide +kernel
  · decide +kernel

end Oemu
