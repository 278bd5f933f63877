import Oemu.Sysreg

/-!
# The register file behind the table

What `MRS` and `MSR` see is a file of independent cells: the stack pointer banks wherever they live,
three fields of PSTATE, the flags, and the plain storage.  A write fills one cell, and a read is a
function of a few of them.  The callbacks and the storage of the table refine this file.

* `cells`             the file a state stands for;
* `rowWrite_cells`    an accepted write fills the one cell of its row;
* `rowRead_cells`     a read is the view of the cells;
* `kRows_separate`    the cell of a row is in the view of another only for the timers;
* `sysregWrite_view`  what a write changes of what is read.
-/

namespace Oemu

/-! ## the file -/

inductive Cell where
  | el | spSel | daif | nzcv | sp (e : El) | fld (f : SysField)
deriving DecidableEq

/-- the file a state stands for; what is banked has a cell of its own -/
def cells (r : Regs) (sr : Sysregs) : Cell → W64
  | .el => BitVec.ofNat 64 sr.el.num
  | .spSel => sr.pstate &&& 1
  | .daif => sr.pstate &&& daifField
  | .nzcv => r.nzcv.bits.setWidth 64
  | .sp e => spOf r sr e
  | .fld f => if f.isBanked then 0 else sr.val f

/-- the control word of a timer as it is read: the stored one with the status bit made anew -/
def ctlView (counter ctl cval : W64) : W64 :=
  (ctl &&& ~~~gtimerCtlIstat) ||| (if gtimerPending counter ctl cval then gtimerCtlIstat else 0)

def Getter.view (c : Cell → W64) : Getter → W64
  | .currentEl => c .el <<< 2
  | .spSel => c .spSel
  | .daif => c .daif
  | .nzcv => c .nzcv
  | .spEl0 => c (.sp .el0)
  | .spEl1 => c (.sp .el1)
  | .cntvct => c (.fld .cntvct) - c (.fld .cntvoffEl1)
  | .cntpct => c (.fld .cntvct)
  | .cntpTval => c (.fld .cntpCvalEl1) - c (.fld .cntvct)
  | .cntvCtl =>
    ctlView (c (.fld .cntvct) - c (.fld .cntvoffEl1)) (c (.fld .cntvCtlEl1))
      (c (.fld .cntvCvalEl1))
  | .cntpCtl => ctlView (c (.fld .cntvct)) (c (.fld .cntpCtlEl1)) (c (.fld .cntpCvalEl1))
  | .cntvTval => c (.fld .cntvCvalEl1) - (c (.fld .cntvct) - c (.fld .cntvoffEl1))

/-- the cells a view depends on -/
def Getter.support : Getter → List Cell
  | .currentEl => [.el]
  | .spSel => [.spSel]
  | .daif => [.daif]
  | .nzcv => [.nzcv]
  | .spEl0 => [.sp .el0]
  | .spEl1 => [.sp .el1]
  | .cntvct => [.fld .cntvct, .fld .cntvoffEl1]
  | .cntpct => [.fld .cntvct]
  | .cntpTval => [.fld .cntpCvalEl1, .fld .cntvct]
  | .cntvCtl => [.fld .cntvct, .fld .cntvoffEl1, .fld .cntvCtlEl1, .fld .cntvCvalEl1]
  | .cntpCtl => [.fld .cntvct, .fld .cntpCtlEl1, .fld .cntpCvalEl1]
  | .cntvTval => [.fld .cntvCvalEl1, .fld .cntvct, .fld .cntvoffEl1]

def Setter.cell : Setter → Cell
  | .spSel => .spSel
  | .daif => .daif
  | .nzcv => .nzcv
  | .spEl0 => .sp .el0
  | .spEl1 => .sp .el1
  | .cntvCtl => .fld .cntvCtlEl1
  | .cntpCtl => .fld .cntpCtlEl1
  | .cntvTval => .fld .cntvCvalEl1
  | .cntpTval => .fld .cntpCvalEl1

/-- and what with -/
def Setter.fill (c : Cell → W64) (value : W64) : Setter → W64
  | .spSel => value &&& 1
  | .daif => value &&& daifField
  | .nzcv => (value.setWidth 32 &&& nzcvMask).setWidth 64
  | .spEl0 => value
  | .spEl1 => value
  | .cntvCtl => value &&& ~~~gtimerCtlIstat
  | .cntpCtl => value &&& ~~~gtimerCtlIstat
  | .cntvTval => (c (.fld .cntvct) - c (.fld .cntvoffEl1)) + value
  | .cntpTval => c (.fld .cntvct) + value

namespace Row

variable (row : Row)

def view (c : Cell → W64) : W64 :=
  match row.get with
  | some g => g.view c
  | none =>
    if row.flags = .wi then 0
    else
      match row.field with
      | some f => c (.fld f) &&& row.writeMask
      | none => 0

def support : List Cell :=
  match row.get with
  | some g => g.support
  | none =>
    if row.flags = .wi then []
    else
      match row.field with
      | some f => [.fld f]
      | none => []

/-- the cell a write fills, if there is one -/
def cell : Option Cell :=
  if row.flags = .none then
    match row.set with
    | some g => some g.cell
    | none => row.field.map .fld
  else none

def fill (c : Cell → W64) (value : W64) : W64 :=
  match row.set with
  | some g => g.fill c value
  | none =>
    match row.field with
    | some f => (c (.fld f) &&& ~~~row.writeMask) ||| (value &&& row.writeMask)
    | none => 0

/-- the storage of a row is never banked -/
def storageOk : Bool :=
  match row.field with
  | some f => !f.isBanked
  | none => true

end Row

theorem kRows_storageOk : ∀ row ∈ kRows, row.storageOk = true := by decide

/-! ## a view depends on its support only -/

theorem Getter.view_congr {c c' : Cell → W64} (g : Getter) (h : ∀ k ∈ g.support, c k = c' k) :
    g.view c = g.view c' := by
  cases g <;> unfold Getter.view <;> unfold Getter.support at h <;> dsimp only <;>
    simp only [List.forall_mem_cons, List.not_mem_nil, false_implies, implies_true, and_true] at h
  case cntvct => rw [h.1, h.2]
  case cntpTval => rw [h.1, h.2]
  case cntvCtl => rw [h.1, h.2.1, h.2.2.1, h.2.2.2]
  case cntpCtl => rw [h.1, h.2.1, h.2.2]
  case cntvTval => rw [h.1, h.2.1, h.2.2]
  all_goals rw [h]

theorem Row.view_congr {c c' : Cell → W64} (row : Row) (h : ∀ k ∈ row.support, c k = c' k) :
    row.view c = row.view c' := by
  unfold Row.support at h
  unfold Row.view
  cases hg : row.get with
  | some g =>
    rw [hg] at h
    exact g.view_congr h
  | none =>
    rw [hg] at h
    dsimp only at h ⊢
    by_cases hw : row.flags = .wi
    · rw [if_pos hw, if_pos hw]
    · rw [if_neg hw] at h ⊢
      rw [if_neg hw]
      cases hf : row.field with
      | none => rfl
      | some f =>
        rw [hf] at h
        dsimp only at h ⊢
        rw [h _ (List.mem_singleton_self _)]

/-! ## reads are views -/

variable {r : Regs} {sr : Sysregs}

theorem cells_fld {f : SysField} (h : f.isBanked = false) : cells r sr (.fld f) = sr.val f := by
  unfold cells
  dsimp only
  rw [h]
  rfl

theorem Getter.run_cells (g : Getter) : g.run r sr = g.view (cells r sr) := by
  cases g
  case currentEl =>
    show BitVec.ofNat 64 ((pstateEl sr.pstate).num <<< 2) = BitVec.ofNat 64 sr.el.num <<< 2
    unfold Sysregs.el
    cases pstateEl sr.pstate <;> rfl
  case spEl0 => exact spOf_get (spEl0Active_iff sr)
  case spEl1 => exact spOf_get (spEl1Active_iff sr)
  all_goals rfl

/-- **a read is the view of the cells** -/
theorem rowRead_cells {row : Row} (hm : row ∈ kRows) :
    rowRead r sr row = row.view (cells r sr) := by
  have hs := kRows_storageOk row hm
  unfold Row.storageOk at hs
  unfold rowRead Row.view
  cases hg : row.get with
  | some g => exact g.run_cells
  | none =>
    dsimp only
    by_cases hw : row.flags = .wi
    · rw [if_pos hw, if_pos hw]
    · rw [if_neg hw, if_neg hw]
      cases hf : row.field with
      | none => rfl
      | some f =>
        rw [hf] at hs
        have hb : f.isBanked = false := by
          rw [Bool.not_eq_true'] at hs
          exact hs
        dsimp only
        rw [cells_fld hb]

/-- what a level may reach is decided by its cell -/
theorem rowAccessAllowed_cells (row : Row) :
    rowAccessAllowed sr row = decide (row.minEl.num ≤ (cells r sr .el).toNat) := by
  have he : (cells r sr .el).toNat = sr.el.num := by
    show (BitVec.ofNat 64 sr.el.num).toNat = sr.el.num
    cases sr.el <;> rfl
  rw [he]
  rfl

/-! ## writes fill one cell -/

theorem cells_set {f : SysField} (h : f.isBanked = false) (v : W64) :
    cells r (sr.set f v) = Function.update (cells r sr) (.fld f) v := by
  have hne : ∀ g : SysField, g.isBanked = true → g ≠ f := by
    intro g hg he
    rw [he, h] at hg
    cases hg
  have hp : (sr.set f v).pstate = sr.pstate := Sysregs.set_val_of_ne sr v (hne _ rfl)
  funext k
  by_cases hk : k = .fld f
  · rw [hk, Function.update_self, cells_fld h, Sysregs.set_val_self]
  · rw [Function.update_of_ne hk]
    cases k with
    | el =>
      show BitVec.ofNat 64 (pstateEl (sr.set f v).pstate).num = _
      rw [hp]
      rfl
    | spSel =>
      show (sr.set f v).pstate &&& 1 = _
      rw [hp]
      rfl
    | daif =>
      show (sr.set f v).pstate &&& daifField = _
      rw [hp]
      rfl
    | nzcv => rfl
    | sp e =>
      show spOf r (sr.set f v) e = spOf r sr e
      unfold spOf
      rw [hp, Sysregs.set_val_of_ne sr v (hne _ rfl)]
    | fld g =>
      have hgf : g ≠ f := fun he => hk (by rw [he])
      unfold cells
      dsimp only
      rw [Sysregs.set_val_of_ne sr v hgf]

theorem cells_pstate {r' : Regs} {sr' : Sysregs} (hel : sr'.el = sr.el)
    (hnzcv : r'.nzcv = r.nzcv) (hsp : ∀ e, spOf r' sr' e = spOf r sr e)
    (hval : ∀ f : SysField, f.isBanked = false → sr'.val f = sr.val f) (k : Cell)
    (h1 : k ≠ .spSel) (h2 : k ≠ .daif) : cells r' sr' k = cells r sr k := by
  cases k with
  | el =>
    show BitVec.ofNat 64 sr'.el.num = _
    rw [hel]
    rfl
  | spSel => exact absurd rfl h1
  | daif => exact absurd rfl h2
  | nzcv =>
    show r'.nzcv.bits.setWidth 64 = _
    rw [hnzcv]
    rfl
  | sp e => exact hsp e
  | fld f =>
    unfold cells
    dsimp only
    cases hb : f.isBanked with
    | true => rfl
    | false => exact hval f hb

theorem pstateEl_field (q : W64) : pstateEl (q &&& 0xC) = pstateEl q := by
  have e : ∀ x : W64, (x.toNat >>> 2) % 4 = ((x >>> 2) &&& 3).toNat := by
    intro x
    rw [BitVec.toNat_and, BitVec.toNat_ushiftRight]
    exact (Nat.and_two_pow_sub_one_eq_mod _ 2).symm
  unfold pstateEl
  rw [e, e, BitVec.ushiftRight_and_distrib, BitVec.and_assoc]
  rfl

theorem merge_self (p v m : W64) : ((p &&& ~~~m) ||| (v &&& m)) &&& m = v &&& m := by
  have h0 : ~~~m &&& m = 0#64 := by
    rw [BitVec.and_comm]
    exact BitVec.and_not_self m
  rw [BitVec.and_or_distrib_right, BitVec.and_assoc, BitVec.and_assoc, BitVec.and_self, h0,
    BitVec.and_zero, BitVec.zero_or]

theorem merge_keep {p v m k : W64} (h : ~~~m &&& k = k) (h0 : m &&& k = 0#64) :
    ((p &&& ~~~m) ||| (v &&& m)) &&& k = p &&& k := by
  rw [BitVec.and_or_distrib_right, BitVec.and_assoc, BitVec.and_assoc, h, h0, BitVec.and_zero,
    BitVec.or_zero]

theorem pstateEl_merge {p v m : W64} (h : ~~~m &&& 0xC = 0xC) (h0 : m &&& 0xC = 0#64) :
    pstateEl ((p &&& ~~~m) ||| (v &&& m)) = pstateEl p := by
  rw [← pstateEl_field, merge_keep h h0, pstateEl_field]

theorem cells_spSel (value : W64) :
    cells (switchSp r sr ((sr.pstate &&& ~~~1) ||| (value &&& 1))).1
        (switchSp r sr ((sr.pstate &&& ~~~1) ||| (value &&& 1))).2 =
      Function.update (cells r sr) .spSel (value &&& 1) := by
  have hp : (switchSp r sr ((sr.pstate &&& ~~~1) ||| (value &&& 1))).2.pstate =
      (sr.pstate &&& ~~~1) ||| (value &&& 1) := switchSp_pstate r sr _
  have hel : (switchSp r sr ((sr.pstate &&& ~~~1) ||| (value &&& 1))).2.el = sr.el := by
    unfold Sysregs.el
    rw [hp]
    exact pstateEl_merge rfl rfl
  have hval : ∀ f : SysField, f.isBanked = false →
      (switchSp r sr ((sr.pstate &&& ~~~1) ||| (value &&& 1))).2.val f = sr.val f := by
    intro f hf
    refine switchSp_val r sr _ ?_ ?_
    · intro he
      rw [he] at hf
      cases hf
    · intro e he
      rw [he] at hf
      cases hf
  funext k
  by_cases hk : k = .spSel
  · rw [hk, Function.update_self]
    show (switchSp r sr _).2.pstate &&& 1 = _
    rw [hp]
    exact merge_self _ _ _
  · rw [Function.update_of_ne hk]
    by_cases hd : k = .daif
    · rw [hd]
      show (switchSp r sr _).2.pstate &&& daifField = sr.pstate &&& daifField
      rw [hp]
      exact merge_keep rfl rfl
    · exact cells_pstate hel (switchSp_nzcv r sr _) (spOf_switchSp r sr _) hval k hk hd

theorem cells_daif (value : W64) :
    cells r (sr.set .pstate ((sr.pstate &&& ~~~daifField) ||| (value &&& daifField))) =
      Function.update (cells r sr) .daif (value &&& daifField) := by
  have hp : (sr.set .pstate ((sr.pstate &&& ~~~daifField) ||| (value &&& daifField))).pstate =
      (sr.pstate &&& ~~~daifField) ||| (value &&& daifField) := Sysregs.set_val_self sr _ _
  have hel : (sr.set .pstate ((sr.pstate &&& ~~~daifField) ||| (value &&& daifField))).el =
      sr.el := by
    unfold Sysregs.el
    rw [hp]
    exact pstateEl_merge rfl rfl
  have hsp : ∀ e, spOf r
      (sr.set .pstate ((sr.pstate &&& ~~~daifField) ||| (value &&& daifField))) e =
        spOf r sr e := by
    intro e
    unfold spOf
    rw [hp, ← spBank_mode, daif_mode, spBank_mode, Sysregs.set_val_of_ne sr _ SysField.noConfusion]
  have hval : ∀ f : SysField, f.isBanked = false →
      (sr.set .pstate ((sr.pstate &&& ~~~daifField) ||| (value &&& daifField))).val f =
        sr.val f := by
    intro f hf
    refine Sysregs.set_val_of_ne sr _ ?_
    intro he
    rw [he] at hf
    cases hf
  funext k
  by_cases hk : k = .daif
  · rw [hk, Function.update_self]
    show (sr.set _ _).pstate &&& daifField = _
    rw [hp]
    exact merge_self _ _ _
  · rw [Function.update_of_ne hk]
    by_cases hs : k = .spSel
    · rw [hs]
      show (sr.set _ _).pstate &&& 1 = sr.pstate &&& 1
      rw [hp]
      exact merge_keep rfl rfl
    · exact cells_pstate hel rfl hsp hval k hs hk

theorem cells_sp {k : El} {b : Bool} (hb : b = true ↔ spBank sr.pstate = k) (value : W64) :
    cells (if b then r.setSp value else r) (sr.set (.spEl k) value) =
      Function.update (cells r sr) (.sp k) value := by
  have hp : (sr.set (.spEl k) value).pstate = sr.pstate :=
    Sysregs.set_val_of_ne sr value SysField.noConfusion
  have hn : (if b then r.setSp value else r).nzcv = r.nzcv := by
    cases b <;> rfl
  funext c
  by_cases hc : c = .sp k
  · rw [hc, Function.update_self]
    show spOf _ _ k = value
    rw [spOf_set hb, if_pos rfl]
  · rw [Function.update_of_ne hc]
    cases c with
    | el =>
      show BitVec.ofNat 64 (pstateEl (sr.set (.spEl k) value).pstate).num = _
      rw [hp]
      rfl
    | spSel =>
      show (sr.set (.spEl k) value).pstate &&& 1 = _
      rw [hp]
      rfl
    | daif =>
      show (sr.set (.spEl k) value).pstate &&& daifField = _
      rw [hp]
      rfl
    | nzcv =>
      show (if b then r.setSp value else r).nzcv.bits.setWidth 64 = _
      rw [hn]
      rfl
    | sp e =>
      have he : e ≠ k := fun he => hc (by rw [he])
      show spOf _ _ e = spOf r sr e
      rw [spOf_set hb, if_neg he]
    | fld f =>
      unfold cells
      dsimp only
      cases hf : f.isBanked with
      | true => rfl
      | false =>
        rw [Sysregs.set_val_of_ne sr value]
        intro he
        rw [he] at hf
        cases hf

theorem cells_nzcv (value : W32) :
    cells (r.setNzcv value) sr =
      Function.update (cells r sr) .nzcv ((value &&& nzcvMask).setWidth 64) := by
  funext k
  by_cases hk : k = .nzcv
  · rw [hk, Function.update_self]
    rfl
  · rw [Function.update_of_ne hk]
    cases k with
    | nzcv => exact absurd rfl hk
    | _ => rfl

theorem Setter.run_cells (g : Setter) (value : W64) :
    cells (g.run r sr value).1 (g.run r sr value).2 =
      Function.update (cells r sr) g.cell (g.fill (cells r sr) value) := by
  cases g with
  | spSel => exact cells_spSel value
  | daif => exact cells_daif value
  | nzcv => exact cells_nzcv (value.setWidth 32)
  | spEl0 => exact cells_sp (spEl0Active_iff sr) value
  | spEl1 => exact cells_sp (spEl1Active_iff sr) value
  | cntvCtl => exact cells_set rfl _
  | cntpCtl => exact cells_set rfl _
  | cntvTval => exact cells_set rfl _
  | cntpTval => exact cells_set rfl _

/-- **an accepted write fills the one cell of its row** -/
theorem rowWrite_cells {row : Row} {k : Cell} (hm : row ∈ kRows) (hk : row.cell = some k)
    (value : W64) :
    cells (rowWrite r sr row value).1 (rowWrite r sr row value).2 =
      Function.update (cells r sr) k (row.fill (cells r sr) value) := by
  have hs := kRows_storageOk row hm
  unfold Row.storageOk at hs
  unfold Row.cell at hk
  unfold rowWrite Row.fill
  split at hk
  · cases hset : row.set with
    | some g =>
      rw [hset] at hk
      cases hk
      exact g.run_cells value
    | none =>
      rw [hset] at hk
      dsimp only at hk ⊢
      cases hf : row.field with
      | none =>
        rw [hf] at hk
        cases hk
      | some f =>
        rw [hf] at hk hs
        cases hk
        have hb : f.isBanked = false := by
          rw [Bool.not_eq_true'] at hs
          exact hs
        dsimp only
        rw [cells_set hb, cells_fld hb]
  · cases hk

/-! ## which views share a cell -/

def selNzcv : W32 := 0x1A10

def selCntvct : W32 := 0x1f02

def selCntvoff : W32 := 0x1f03

def selCntvctss : W32 := 0x1f06

def selCntpCtl : W32 := 0x1f11

def selCntpCval : W32 := 0x1f12

def selCntpTval : W32 := 0x1f13

def selCntvCtl : W32 := 0x1f19

def selCntvCval : W32 := 0x1f1a

def selCntvTval : W32 := 0x1f1b

/-- the registers a write moves beside its own: the rest of the timer whose comparator it sets, and,
for the offset, whatever is counted by the virtual counter -/
def moves (sel : W32) : List W32 :=
  if sel = selCntpCval then [selCntpCtl, selCntpTval]
  else if sel = selCntpTval then [selCntpCtl, selCntpCval]
  else if sel = selCntvCval then [selCntvCtl, selCntvTval]
  else if sel = selCntvTval then [selCntvCtl, selCntvCval]
  else if sel = selCntvoff then [selCntvCtl, selCntvTval, selCntvct, selCntvctss]
  else []

/-- no write moves the level -/
theorem kRows_el : ∀ row ∈ kRows, row.cell ≠ some .el := by decide

/-- is the cell of one row in the view of another -/
def Row.shares (row row' : Row) : Bool :=
  match row.cell with
  | some k => row'.support.contains k
  | none => false

/-- **the cell of a row is in the view of another only for the timers** -/
theorem kRows_separate : ∀ row ∈ kRows, ∀ row' ∈ kRows, row.sel ≠ row'.sel →
    row.shares row' = (moves row.sel).contains row'.sel := by
  decide +kernel

/-! ## what a row reads back -/

/-- the callback that reads what a callback wrote -/
def Setter.getter : Setter → Getter
  | .spSel => .spSel
  | .daif => .daif
  | .nzcv => .nzcv
  | .spEl0 => .spEl0
  | .spEl1 => .spEl1
  | .cntvCtl => .cntvCtl
  | .cntpCtl => .cntpCtl
  | .cntvTval => .cntvTval
  | .cntpTval => .cntpTval

/-- the row a callback belongs to -/
def Setter.sel : Setter → W32
  | .spSel => selSpsel
  | .daif => selDaif
  | .nzcv => selNzcv
  | .spEl0 => selSpEl0
  | .spEl1 => selSpEl1
  | .cntvCtl => selCntvCtl
  | .cntpCtl => selCntpCtl
  | .cntvTval => selCntvTval
  | .cntpTval => selCntpTval

/-- the rows whose callback keeps a field, or makes one anew -/
def fieldRows : List W32 := [selSpsel, selDaif, selNzcv, selCntvCtl, selCntpCtl]

/-- a row with a writing callback has the reading one, and the others have storage -/
def Row.pairOk (row : Row) : Bool :=
  match row.set with
  | some g => row.get == some g.getter && row.sel == g.sel && row.writeMask == full &&
      row.flags == .none
  | none => row.flags != .none ||
      row.get.isNone && row.field.isSome && !fieldRows.contains row.sel

theorem kRows_pairOk : ∀ row ∈ kRows, row.pairOk = true := by decide

def writtenView (p : Regs × Sysregs) (row : Row) (value : W64) : W64 :=
  if row.flags = .wi then 0
  else if row.sel = selSpsel then value &&& 1
  else if row.sel = selDaif then value &&& daifField
  else if row.sel = selNzcv then value &&& 0xF0000000
  else if row.sel = selCntvCtl then
    ctlView (p.2.val .cntvct - p.2.val .cntvoffEl1) value (p.2.val .cntvCvalEl1)
  else if row.sel = selCntpCtl then ctlView (p.2.val .cntvct) value (p.2.val .cntpCvalEl1)
  else value &&& row.writeMask

theorem ctlView_masked (counter value cval : W64) :
    ctlView counter (value &&& ~~~gtimerCtlIstat) cval = ctlView counter value cval := by
  have h : ∀ m : W64, ~~~gtimerCtlIstat &&& m = m →
      value &&& ~~~gtimerCtlIstat &&& m = value &&& m := by
    intro m hm
    rw [BitVec.and_assoc, hm]
  unfold ctlView gtimerPending
  rw [h gtimerCtlEnable rfl, h gtimerCtlImask rfl, BitVec.and_assoc, BitVec.and_self]

theorem nzcv_view (value : W64) :
    (value.setWidth 32 &&& nzcvMask).setWidth 64 = value &&& 0xF0000000 := by
  have hmask : ∀ i < 64, (nzcvMask.getLsbD i && decide (i < 32)) =
      (0xF0000000 : W64).getLsbD i := by decide
  apply BitVec.eq_of_getLsbD_eq
  intro i hi
  rw [BitVec.getLsbD_setWidth, BitVec.getLsbD_and, BitVec.getLsbD_setWidth, BitVec.getLsbD_and,
    ← hmask i hi, decide_eq_true hi, Bool.true_and]
  cases value.getLsbD i <;> cases nzcvMask.getLsbD i <;> cases decide (i < 32) <;> rfl

theorem tval_view (counter value : W64) : counter + value - counter = value &&& full := by
  rw [BitVec.add_comm, BitVec.add_sub_cancel]
  exact BitVec.and_allOnes.symm

/-- the view of a row after its own write -/
theorem view_written {row : Row} {k : Cell} (hm : row ∈ kRows) (hk : row.cell = some k)
    (value : W64) :
    row.view (cells (rowWrite r sr row value).1 (rowWrite r sr row value).2) =
      writtenView (rowWrite r sr row value) row value := by
  have hcells := @rowWrite_cells r sr row k hm hk value
  have hpair := kRows_pairOk row hm
  have hflags : row.flags = .none := by
    unfold Row.cell at hk
    split at hk
    · assumption
    · cases hk
  have hval : ∀ f : SysField, f.isBanked = false → (rowWrite r sr row value).2.val f =
      Function.update (cells r sr) k (row.fill (cells r sr) value) (.fld f) := by
    intro f hf
    rw [← hcells, cells_fld hf]
  unfold Row.cell at hk
  rw [if_pos hflags] at hk
  unfold Row.pairOk at hpair
  unfold writtenView
  rw [hcells, if_neg (by rw [hflags]; exact RowFlags.noConfusion), hval .cntvct rfl,
    hval .cntvoffEl1 rfl, hval .cntvCvalEl1 rfl, hval .cntpCvalEl1 rfl]
  unfold Row.view Row.fill
  cases hset : row.set with
  | some g =>
    rw [hset] at hk hpair
    cases hk
    simp only [Bool.and_eq_true, beq_iff_eq] at hpair
    obtain ⟨⟨⟨hget, hsel⟩, hmask⟩, -⟩ := hpair
    rw [hget, hsel, hmask]
    cases g with
    | spSel => rfl
    | daif => rfl
    | nzcv => exact nzcv_view value
    | spEl0 => exact (BitVec.and_allOnes).symm
    | spEl1 => exact (BitVec.and_allOnes).symm
    | cntvCtl => exact ctlView_masked _ _ _
    | cntpCtl => exact ctlView_masked _ _ _
    | cntvTval => exact tval_view _ value
    | cntpTval => exact tval_view _ value
  | none =>
    rw [hset] at hk hpair
    simp only [hflags, bne_self_eq_false, Bool.false_or, Bool.and_eq_true, Bool.not_eq_true',
      Option.isNone_iff_eq_none] at hpair
    obtain ⟨⟨hget, -⟩, hsel⟩ := hpair
    have hne : ∀ sel ∈ fieldRows, row.sel ≠ sel := by
      intro sel hs he
      rw [he, List.contains_eq_mem, decide_eq_true hs] at hsel
      cases hsel
    cases hf : row.field with
    | none =>
      rw [hf] at hk
      cases hk
    | some f =>
      rw [hf] at hk
      cases hk
      rw [hget, hflags, if_neg (hne selSpsel (by decide)), if_neg (hne selDaif (by decide)),
        if_neg (hne selNzcv (by decide)), if_neg (hne selCntvCtl (by decide)),
        if_neg (hne selCntpCtl (by decide))]
      dsimp only
      rw [if_neg RowFlags.noConfusion, Function.update_self]
      exact merge_self _ _ _

/-! ## the accessors -/

theorem sysregWrite_none_iff (sel : W32) (value : W64) :
    sysregWrite r sr sel value = none ↔
      ∀ row, sysregFind sel = some row → ¬ row.minEl.num ≤ sr.el.num ∨ row.flags = .ro := by
  unfold sysregWrite
  cases hf : sysregFind sel with
  | none => exact ⟨fun _ _ hr => absurd hr (Option.some_ne_none _).symm, fun _ => rfl⟩
  | some row =>
    dsimp only
    unfold rowAccessAllowed
    constructor
    · intro h row' hr
      cases hr
      by_cases hc : (!decide (row.minEl.num ≤ sr.el.num) || decide (row.flags = .ro)) = true
      · simpa using hc
      · rw [if_neg hc] at h
        split at h <;> cases h
    · intro h
      have hc : (!decide (row.minEl.num ≤ sr.el.num) || decide (row.flags = .ro)) = true := by
        simpa using h row rfl
      rw [if_pos hc]

/-- a read is a function of the file -/
theorem sysregRead_cells (sel : W32) :
    sysregRead r sr sel =
      match sysregFind sel with
      | some row =>
        if row.minEl.num ≤ (cells r sr .el).toNat then some (row.view (cells r sr)) else none
      | none => none := by
  unfold sysregRead
  cases hf : sysregFind sel with
  | none => rfl
  | some row =>
    dsimp only
    rw [@rowAccessAllowed_cells r sr row, rowRead_cells (List.mem_of_find?_eq_some hf)]
    simp only [decide_eq_true_eq]

theorem kRows_find : ∀ row ∈ kRows, sysregFind row.sel = some row := by decide +kernel

/-- the registers that drop a write read as zero -/
theorem kRows_wi : ∀ row ∈ kRows, row.flags = .wi → row.get = none := by decide

/-- the rows that are not read-only and do not drop a write have a cell -/
theorem kRows_cell : ∀ row ∈ kRows, row.flags = .none → row.cell.isSome = true := by decide

/-- a write that fills no cell in the view of a register does not move it -/
theorem read_unmoved {r' : Regs} {sr' : Sysregs} {sel : W32}
    (hel : cells r' sr' .el = cells r sr .el)
    (h : ∀ row, sysregFind sel = some row → ∀ k ∈ row.support, cells r' sr' k = cells r sr k) :
    sysregRead r' sr' sel = sysregRead r sr sel := by
  rw [@sysregRead_cells r' sr', @sysregRead_cells r sr, hel]
  cases hf : sysregFind sel with
  | none => rfl
  | some row =>
    dsimp only
    rw [row.view_congr (h row hf)]

theorem rowWrite_el {row : Row} {k : Cell} (hm : row ∈ kRows) (hk : row.cell = some k)
    (value : W64) :
    cells (rowWrite r sr row value).1 (rowWrite r sr row value).2 .el = cells r sr .el := by
  rw [@rowWrite_cells r sr row k hm hk value, Function.update_of_ne]
  intro he
  rw [← he] at hk
  exact kRows_el row hm hk

/-- a write to a row moves its own register and the timer's -/
theorem rowWrite_view {row : Row} {k : Cell} (hm : row ∈ kRows) (hk : row.cell = some k)
    (value : W64) {sel : W32} (hne : sel ≠ row.sel) (hmv : sel ∉ moves row.sel) :
    sysregRead (rowWrite r sr row value).1 (rowWrite r sr row value).2 sel =
      sysregRead r sr sel := by
  have hcells := @rowWrite_cells r sr row k hm hk value
  refine read_unmoved (rowWrite_el hm hk value) ?_
  intro row' hf k' hk'
  rw [hcells, Function.update_of_ne]
  intro he
  have hs' : row'.sel = sel := by
    have hb := List.find?_some (show kRows.find? (fun row => row.sel == sel) = some row' from hf)
    exact eq_of_beq hb
  have hsep := kRows_separate row hm row' (List.mem_of_find?_eq_some hf)
    (by rw [hs']; exact fun h => hne h.symm)
  unfold Row.shares at hsep
  rw [hk, hs'] at hsep
  dsimp only at hsep
  rw [List.contains_eq_mem, List.contains_eq_mem, decide_eq_false hmv,
    decide_eq_true (by rw [← he]; exact hk')] at hsep
  cases hsep

def sysregWriteCall (r : Regs) (sr : Sysregs) (sel : W32) (value : W64) :
    Status × Regs × Sysregs :=
  match sysregWrite r sr sel value with
  | some p => (.ok, p)
  | none => (.unsupported, r, sr)

/-- **what a write changes of what is read**: its own register reads back the bits its row keeps, the
rest of its timer may move, and nothing else does; a refusal has a reason and leaves the state -/
theorem sysregWrite_view (r : Regs) (sr : Sysregs) (sel : W32) (value : W64) :
    ((sysregWriteCall r sr sel value).1 = .ok → ∃ row ∈ kRows, row.sel = sel ∧
      sysregRead (sysregWriteCall r sr sel value).2.1 (sysregWriteCall r sr sel value).2.2 sel =
        some (writtenView (sysregWriteCall r sr sel value).2 row value) ∧
      ∀ sel', sel' ≠ sel → sel' ∉ moves sel →
        sysregRead (sysregWriteCall r sr sel value).2.1 (sysregWriteCall r sr sel value).2.2 sel' =
          sysregRead r sr sel') ∧
    ((sysregWriteCall r sr sel value).1 ≠ .ok →
      (sysregWriteCall r sr sel value).2 = (r, sr) ∧
      ∀ row, sysregFind sel = some row → ¬ row.minEl.num ≤ sr.el.num ∨ row.flags = .ro) := by
  unfold sysregWriteCall
  cases hw : sysregWrite r sr sel value with
  | none =>
    refine ⟨fun h => Status.noConfusion h, fun _ => ⟨rfl, ?_⟩⟩
    exact (sysregWrite_none_iff sel value).mp hw
  | some p =>
    refine ⟨fun _ => ?_, fun h => absurd rfl h⟩
    obtain ⟨row, hm, rfl, hlevel, -, hp⟩ := sysregWrite_cases hw
    refine ⟨row, hm, rfl, ?_⟩
    dsimp only
    rcases hp with ⟨hwi, rfl⟩ | ⟨hflags, rfl⟩
    · refine ⟨?_, fun _ _ _ => rfl⟩
      unfold sysregRead writtenView rowAccessAllowed rowRead
      rw [kRows_find row hm, if_pos hwi]
      dsimp only
      rw [if_pos (decide_eq_true hlevel), kRows_wi row hm hwi, if_pos hwi]
    · obtain ⟨k, hk⟩ := Option.isSome_iff_exists.mp (kRows_cell row hm hflags)
      refine ⟨?_, fun sel' hne hmv => rowWrite_view hm hk value hne hmv⟩
      have hlv : row.minEl.num ≤ (cells r sr .el).toNat := by
        have hallow := @rowAccessAllowed_cells r sr row
        unfold rowAccessAllowed at hallow
        rw [decide_eq_true hlevel] at hallow
        exact of_decide_eq_true hallow.symm
      rw [sysregRead_cells, kRows_find row hm, rowWrite_el hm hk value]
      dsimp only
      rw [if_pos hlv, view_written hm hk]

/-- a core at EL1 whose counter has run for a while -/
def countedSr : Sysregs := (Sysregs.init (Regs.init 0 0) .el1).set .cntvct 100

/-- the selectors of the two timers, and of the offset -/
def timerSels : List W32 :=
  [selCntpCtl, selCntpCval, selCntpTval, selCntvCtl, selCntvCval, selCntvTval, selCntvoff]

/-- the offset moves the virtual counter, which is no register of a timer -/
theorem cntvoff_moves_cntvct :
    (¬ ∀ (r : Regs) (sr : Sysregs) (sel : W32) (value : W64),
      (sysregWriteCall r sr sel value).1 = .ok → ∀ sel', sel' ≠ sel → sel ≠ selSpsel →
        ¬ (sel ∈ timerSels ∧ sel' ∈ timerSels) →
        sysregRead (sysregWriteCall r sr sel value).2.1 (sysregWriteCall r sr sel value).2.2 sel' =
          sysregRead r sr sel') ∧
    sysregRead (Regs.init 0 0) countedSr selCntvct = some 100 ∧
    (sysregWriteCall (Regs.init 0 0) countedSr selCntvoff 30).1 = .ok ∧
    sysregRead (sysregWriteCall (Regs.init 0 0) countedSr selCntvoff 30).2.1
      (sysregWriteCall (Regs.init 0 0) countedSr selCntvoff 30).2.2 selCntvct = some 70 := by
  have hbefore : sysregRead (Regs.init 0 0) countedSr selCntvct = some 100 := by decide +kernel
  have hok : (sysregWriteCall (Regs.init 0 0) countedSr selCntvoff 30).1 = .ok := by
    decide +kernel
  have hafter : sysregRead (sysregWriteCall (Regs.init 0 0) countedSr selCntvoff 30).2.1
      (sysregWriteCall (Regs.init 0 0) countedSr selCntvoff 30).2.2 selCntvct = some 70 := by
    decide +kernel
  refine ⟨?_, hbefore, hok, hafter⟩
  intro hall
  have heq := hall _ _ _ _ hok selCntvct (by decide) (by decide) (by decide)
  rw [hafter, hbefore] at heq
  exact absurd heq (by decide)

/-- `MSR TTBR0_EL1` at EL1 reads back, and leaves `TTBR1_EL1` -/
theorem ttbr0_reads_back :
    (sysregWriteCall (Regs.init 0 0) countedSr 0x0100 0x4000).1 = .ok ∧
      ∃ row ∈ kRows, row.sel = 0x0100 ∧
        sysregRead (sysregWriteCall (Regs.init 0 0) countedSr 0x0100 0x4000).2.1
          (sysregWriteCall (Regs.init 0 0) countedSr 0x0100 0x4000).2.2 0x0100 =
            some (writtenView (sysregWriteCall (Regs.init 0 0) countedSr 0x0100 0x4000).2 row
              0x4000) ∧
        sysregRead (sysregWriteCall (Regs.init 0 0) countedSr 0x0100 0x4000).2.1
          (sysregWriteCall (Regs.init 0 0) countedSr 0x0100 0x4000).2.2 0x0101 =
            sysregRead (Regs.init 0 0) countedSr 0x0101 := by
  have hok : (sysregWriteCall (Regs.init 0 0) countedSr 0x0100 0x4000).1 = .ok := by
    decide +kernel
  obtain ⟨row, hm, hs, hself, hother⟩ :=
    (sysregWrite_view (Regs.init 0 0) countedSr 0x0100 0x4000).1 hok
  exact ⟨hok, row, hm, hs, hself, hother 0x0101 (by decide) (by decide)⟩

end Oemu
