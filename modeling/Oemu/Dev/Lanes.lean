import Oemu.Dev.Preempt
import Oemu.Memory.Bytes

/-!
# The byte lanes of the priority registers

The priorities of the interrupt controller are a byte each, four to a register, and the architecture
lets a guest reach them by bytes, halfwords and words.  The distributor looks at neither the size of
an access nor the two low bits of its offset: it always serves the word around it.

* `distWrite_lanes`, `distRead_lanes`  what an access to the priority registers does;
* `priority_lanes_iff`  when the lanes an access names are the ones it reaches.
-/

namespace Oemu

/-- byte `b` of a word -/
def octet (v : W64) (b : Nat) : BitVec 8 := (v >>> (8 * b)).setWidth 8

theorem octet_bit (v : W64) (b i : Nat) :
    (octet v b).getLsbD i = (decide (i < 8) && v.getLsbD (8 * b + i)) := by
  unfold octet
  rw [BitVec.getLsbD_setWidth, BitVec.getLsbD_ushiftRight]

theorem octet_zero (b : Nat) : octet 0 b = 0 := by
  apply BitVec.eq_of_getLsbD_eq
  intro i hi
  rw [octet_bit, show (0 : W64).getLsbD (8 * b + i) = false from BitVec.getLsbD_zero,
    Bool.and_false]
  exact BitVec.getLsbD_zero.symm

theorem octet_extend (v : W64) {n b : Nat} (hb : b < n) (h8 : n ≤ 8) (sx : Bool) :
    octet (Aspace.extend v n sx) b = octet v b := by
  apply BitVec.eq_of_getLsbD_eq
  intro i hi
  rw [octet_bit, octet_bit, extend_loaded v (by omega) h8]
  cases sx with
  | true =>
    rw [loaded_bit v (by omega) (by omega), if_pos (by omega)]
  | false =>
    show (decide (i < 8) && (lowBytes v n).getLsbD (8 * b + i)) = _
    rw [lowBytes_bit, decide_eq_true (show 8 * b + i < 8 * n by omega), Bool.true_and]

theorem octet_extend_above (v : W64) {n b : Nat} (h0 : 0 < n) (hb : n ≤ b) (h8 : n ≤ 8) :
    octet (Aspace.extend v n false) b = 0 := by
  apply BitVec.eq_of_getLsbD_eq
  intro i hi
  rw [octet_bit, extend_loaded v h0 h8]
  show (decide (i < 8) && (lowBytes v n).getLsbD (8 * b + i)) = _
  rw [lowBytes_bit, decide_eq_false (show ¬ 8 * b + i < 8 * n by omega), Bool.false_and,
    Bool.and_false]
  exact BitVec.getLsbD_zero.symm

namespace Gicv2

/-! ## the register file -/

theorem Bank.fill_apply (s : Bank) (base n : Nat) (v : Nat → BitVec 8) (i : Fin 64) :
    s.fill base n v i =
      if base ≤ i.val ∧ i.val < base + n then v (i.val - base) else s i := by
  induction n with
  | zero => rw [if_neg (by omega)]; rfl
  | succ n ih =>
    have hstep : s.fill base (n + 1) v = (s.fill base n v).put (base + n) (v n) := by
      unfold Bank.fill
      rw [List.range_succ, List.foldl_concat]
    rw [hstep, Bank.put_apply, ih]
    by_cases hi : base + n = i.val
    · rw [if_pos hi, if_pos (by omega)]
      exact congrArg v (by omega)
    · rw [if_neg hi]
      by_cases hin : base ≤ i.val ∧ i.val < base + n
      · rw [if_pos hin, if_pos (by omega)]
      · rw [if_neg hin, if_neg (by omega)]

theorem within_iff {offset base span : W64} (h : base.toNat + span.toNat < 2 ^ 64) :
    within offset base span = true ↔
      base.toNat ≤ offset.toNat ∧ offset.toNat < base.toNat + span.toNat := by
  unfold within
  rw [Bool.and_eq_true, decide_eq_true_eq, decide_eq_true_eq, ge_iff_le, BitVec.le_def, BitVec.lt_def,
    BitVec.toNat_add, Nat.mod_eq_of_lt h]

/-- the word around an offset, as a number of the first line it holds -/
def wordLine (offset : W64) : Nat := (offset.toNat - 0x400) / 4 * 4

variable {g : Gicv2} {offset : W64}

theorem below_priority (h : 0x400 ≤ offset.toNat) {base span : W64}
    (hb : base.toNat + span.toNat ≤ 0x400) : within offset base span = false := by
  rw [Bool.eq_false_iff, Ne, within_iff (by omega)]
  omega

theorem above_priority (h : offset.toNat < 0x800) {base span : W64} (hb : 0x800 ≤ base.toNat) :
    within offset base span = false := by
  unfold within
  rw [decide_eq_false, Bool.false_and]
  rw [ge_iff_le, BitVec.le_def]
  omega

theorem priority_block (h : 0x400 ≤ offset.toNat) :
    within offset 0x400 0x100 = decide (offset.toNat < 0x500) := by
  rw [Bool.eq_iff_iff, within_iff (by decide), decide_eq_true_eq]
  exact ⟨fun hw => hw.2, fun hw => ⟨h, hw⟩⟩

theorem wordAt_priority (h : 0x400 ≤ offset.toNat) :
    wordAt offset 0x400 * 4 = wordLine offset := by
  unfold wordAt wordLine
  rw [BitVec.toNat_sub_of_le (by rw [BitVec.le_def]; exact h)]
  rfl

theorem regAt_eq (h : offset.toNat < 2 ^ 32) : regAt offset = offset.toNat / 4 * 4 := by
  have hbit : ∀ i : Fin 64, (~~~(3 : W64)).getLsbD i.val = decide (2 ≤ i.val) := by decide
  have hw : offset &&& ~~~(3 : W64) = offset >>> 2 <<< 2 := by
    apply BitVec.eq_of_getLsbD_eq
    intro i hi
    rw [BitVec.getLsbD_and, hbit ⟨i, hi⟩, BitVec.getLsbD_shiftLeft, BitVec.getLsbD_ushiftRight]
    by_cases h2 : i < 2
    · rw [decide_eq_false (show ¬ 2 ≤ i by omega), decide_eq_true h2, Bool.and_false,
        Bool.not_true, Bool.and_false, Bool.false_and]
    · rw [decide_eq_true (show 2 ≤ i by omega), decide_eq_false h2, decide_eq_true hi,
        Bool.and_true, Bool.not_false, Bool.and_self, Bool.true_and, show 2 + (i - 2) = i by omega]
  unfold regAt
  rw [hw, BitVec.toNat_shiftLeft, BitVec.toNat_ushiftRight, Nat.shiftLeft_eq,
    Nat.shiftRight_eq_div_pow]
  omega

theorem lane_octet (value : W64) {b : Nat} (hb : b < 4) :
    ((value.setWidth 32 >>> (b * 8)) &&& (0xFF : W32)).setWidth 8 = octet value b := by
  have hbit : ∀ i : Fin 8, (0xFF : W32).getLsbD i.val = true := by decide
  apply BitVec.eq_of_getLsbD_eq
  intro i hi
  rw [octet_bit, BitVec.getLsbD_setWidth, BitVec.getLsbD_and, hbit ⟨i, hi⟩, Bool.and_true,
    BitVec.getLsbD_ushiftRight, BitVec.getLsbD_setWidth,
    decide_eq_true (show b * 8 + i < 32 by omega), Bool.true_and, Nat.mul_comm b 8]

theorem Bank.fill_congr (s : Bank) (base n : Nat) {v v' : Nat → BitVec 8}
    (h : ∀ b < n, v b = v' b) : s.fill base n v = s.fill base n v' := by
  funext i
  rw [Bank.fill_apply, Bank.fill_apply]
  by_cases hi : base ≤ i.val ∧ i.val < base + n
  · rw [if_pos hi, if_pos hi]
    exact h _ (by omega)
  · rw [if_neg hi, if_neg hi]

theorem Bank.fill_outside (s : Bank) {base : Nat} (n : Nat) (v : Nat → BitVec 8)
    (h : 64 ≤ base) : s.fill base n v = s := by
  funext i
  have hi := i.isLt
  rw [Bank.fill_apply, if_neg (by omega)]

/-- a write stores the low half of the value over the word around it -/
theorem distWrite_lanes (hlow : 0x400 ≤ offset.toNat) (hhigh : offset.toNat < 0x800)
    (size : MemSize) (value : W64) :
    g.distWrite offset size value =
      (.ok, { g with priority := g.priority.fill (wordLine offset) 4 (octet value) }) := by
  have hb := fun base span => @below_priority offset hlow base span
  have ha := fun base span => @above_priority offset hhigh base span
  unfold distWrite
  dsimp only
  rw [hb 0x080 0x20 (by decide), hb 0x100 0x80 (by decide), hb 0x180 0x80 (by decide),
    hb 0x200 0x80 (by decide), hb 0x280 0x80 (by decide), hb 0x300 0x80 (by decide),
    hb 0x380 0x80 (by decide), ha 0x800 _ (by decide), ha 0xC00 _ (by decide)]
  simp only [Bool.false_eq_true, if_false]
  rw [priority_block hlow]
  by_cases hin : offset.toNat < 0x500
  · rw [if_pos (decide_eq_true hin), wordAt_priority hlow,
      Bank.fill_congr _ _ _ fun b hb => lane_octet value hb]
  · have hout : 64 ≤ wordLine offset := by
      unfold wordLine
      omega
    rw [if_neg (fun h => hin (of_decide_eq_true h)), Bank.fill_outside _ _ _ hout]
    have hreg := regAt_eq (show offset.toNat < 2 ^ 32 by omega)
    split
    · omega
    · omega
    · rfl

theorem pack_bit (p : Nat → BitVec 8) {n : Nat} (hn : n ≤ 4) {j : Nat} (hj : j < 32) :
    ((List.range n).foldl (fun v b => v ||| (p b).setWidth 32 <<< (b * 8)) (0 : W32)).getLsbD j =
      (decide (j < 8 * n) && (p (j / 8)).getLsbD (j % 8)) := by
  induction n with
  | zero =>
    rw [decide_eq_false (by omega), Bool.false_and]
    exact BitVec.getLsbD_zero
  | succ n ih =>
    rw [List.range_succ, List.foldl_concat, BitVec.getLsbD_or, ih (by omega),
      BitVec.getLsbD_shiftLeft, BitVec.getLsbD_setWidth, decide_eq_true hj, Bool.true_and]
    by_cases hlow : j < 8 * n
    · rw [decide_eq_true hlow, decide_eq_true (show j < n * 8 by omega),
        decide_eq_true (show j < 8 * (n + 1) by omega)]
      simp
    · rw [decide_eq_false hlow, decide_eq_false (show ¬ j < n * 8 by omega), Bool.false_and,
        Bool.false_or, Bool.not_false, Bool.true_and,
        decide_eq_true (show j - n * 8 < 32 by omega), Bool.true_and]
      by_cases hin : j < 8 * (n + 1)
      · rw [decide_eq_true hin, Bool.true_and, show j / 8 = n by omega,
          show j % 8 = j - n * 8 by omega]
      · rw [decide_eq_false hin, Bool.false_and]
        exact BitVec.getLsbD_of_ge _ _ (by omega)

theorem octet_pack (p : Nat → BitVec 8) {b : Nat} (hb : b < 4) :
    octet (((List.range 4).foldl (fun v b => v ||| (p b).setWidth 32 <<< (b * 8))
      (0 : W32)).setWidth 64) b = p b := by
  apply BitVec.eq_of_getLsbD_eq
  intro i hi
  rw [octet_bit, BitVec.getLsbD_setWidth, pack_bit p (Nat.le_refl 4) (show 8 * b + i < 32 by omega),
    decide_eq_true hi, decide_eq_true (show 8 * b + i < 64 by omega),
    decide_eq_true (show 8 * b + i < 8 * 4 by omega), show (8 * b + i) / 8 = b by omega,
    show (8 * b + i) % 8 = i by omega]
  rfl

theorem distRead_lanes (hlow : 0x400 ≤ offset.toNat) (hhigh : offset.toNat < 0x800)
    (size : MemSize) :
    (g.distRead offset size).1 = .ok ∧ (g.distRead offset size).2.2 = g ∧
      ∀ b < 4, octet (g.distRead offset size).2.1 b = g.priority.get (wordLine offset + b) := by
  have hb := fun base span => @below_priority offset hlow base span
  have ha := fun base span => @above_priority offset hhigh base span
  refine ⟨rfl, rfl, ?_⟩
  intro b hb4
  unfold distRead
  dsimp only
  rw [hb 0x080 0x20 (by decide), hb 0x100 0x80 (by decide), hb 0x180 0x80 (by decide),
    hb 0x200 0x80 (by decide), hb 0x280 0x80 (by decide), hb 0x300 0x80 (by decide),
    hb 0x380 0x80 (by decide), ha 0x800 _ (by decide), ha 0xC00 _ (by decide)]
  simp only [Bool.false_eq_true, if_false]
  rw [priority_block hlow]
  by_cases hin : offset.toNat < 0x500
  · rw [if_pos (decide_eq_true hin), wordAt_priority hlow]
    exact octet_pack (fun b => g.priority.get (wordLine offset + b)) hb4
  · have hreg := regAt_eq (show offset.toNat < 2 ^ 32 by omega)
    have hget : g.priority.get (wordLine offset + b) = 0 := by
      unfold Bank.get
      rw [dif_neg]
      unfold wordLine
      omega
    rw [if_neg (fun h => hin (of_decide_eq_true h)), hget]
    split
    all_goals first | omega | exact octet_zero b

/-! ## accesses over the bus -/

/-- a naturally aligned access of at most four bytes that the bus routes to the priority registers -/
structure PriorityAccess (as : Aspace Gicv2) (r : AspaceRegion Gicv2) (pa : W64)
    (size : MemSize) : Prop where
  reads : as.find pa (BitVec.ofNat 64 size.bytes) permRead = some r
  writes : as.find pa (BitVec.ofNat 64 size.bytes) permWrite = some r
  device : r.backing = .device distOps
  small : size.bytes ≤ 4
  low : 0x400 ≤ (pa - r.pa).toNat
  high : (pa - r.pa).toNat < 0x800
  aligned : pa.toNat % size.bytes = 0
  natural : (pa - r.pa).toNat % size.bytes = 0

def firstLine (r : AspaceRegion Gicv2) (pa : W64) : Nat := (pa - r.pa).toNat - 0x400

/-- the write sets the lines it names from the bytes of the value, and nothing else -/
structure LanesWritten (as : Aspace Gicv2) (r : AspaceRegion Gicv2) (pa : W64) (size : MemSize)
    (value : W64) : Prop where
  ok : (as.write pa size value).1 = .ok
  lanes : ∀ i : Fin 64, (as.write pa size value).2.dev.priority i =
    if firstLine r pa ≤ i.val ∧ i.val < firstLine r pa + size.bytes then
      octet value (i.val - firstLine r pa)
    else as.dev.priority i
  rest : (as.write pa size value).2 = { as with
    dev := { as.dev with priority := (as.write pa size value).2.dev.priority } }

/-- the read returns the lines it names in its low bytes, and changes nothing -/
structure LanesRead (as : Aspace Gicv2) (r : AspaceRegion Gicv2) (pa : W64) (size : MemSize)
    (sx : Bool) : Prop where
  ok : (as.read pa size sx).1 = .ok
  lanes : ∀ b < size.bytes,
    octet (as.read pa size sx).2.1 b = as.dev.priority.get (firstLine r pa + b)
  rest : (as.read pa size sx).2.2 = as

/-- a whole word, lines that do not exist, or a write that leaves the other lanes of the word zero
where they were zero -/
def WriteFits (g : Gicv2) (line : Nat) (size : MemSize) (value : W64) : Prop :=
  size = .word ∨ 64 ≤ line ∨
    (∀ i : Fin 64, i.val / 4 = line / 4 → ¬ (line ≤ i.val ∧ i.val < line + size.bytes) →
      g.priority i = 0) ∧
    (line % 4 = 0 ∨ ∀ b < size.bytes, octet value b = 0)

/-- the lines named are the first of their word, or have the priorities of the first -/
def ReadFits (g : Gicv2) (line : Nat) (size : MemSize) : Prop :=
  line % 4 = 0 ∨ ∀ b < size.bytes,
    g.priority.get (line / 4 * 4 + b) = g.priority.get (line + b)

variable {as : Aspace Gicv2} {r : AspaceRegion Gicv2} {pa : W64} {size : MemSize} {value : W64}

theorem PriorityAccess.width (h : PriorityAccess as r pa size) :
    size = .byte ∨ size = .half ∨ size = .word := by
  have hs := h.small
  cases size with
  | byte => exact .inl rfl
  | half => exact .inr (.inl rfl)
  | word => exact .inr (.inr rfl)
  | dword | m128 => exact absurd hs (by decide)

theorem PriorityAccess.line_aligned (h : PriorityAccess as r pa size) :
    firstLine r pa % size.bytes = 0 := by
  have hn := h.natural
  have hl := h.low
  unfold firstLine
  rcases h.width with rfl | rfl | rfl
  · exact Nat.mod_one _
  · change (pa - r.pa).toNat % 2 = 0 at hn
    show ((pa - r.pa).toNat - 0x400) % 2 = 0
    omega
  · change (pa - r.pa).toNat % 4 = 0 at hn
    show ((pa - r.pa).toNat - 0x400) % 4 = 0
    omega

theorem PriorityAccess.write (h : PriorityAccess as r pa size) (value : W64) :
    as.write pa size value = (.ok, { as with dev := { as.dev with
      priority := as.dev.priority.fill (firstLine r pa / 4 * 4) 4
        (octet (Aspace.extend value size.bytes false)) } }) := by
  unfold Aspace.write
  rw [h.writes]
  dsimp only
  rw [h.device]
  dsimp only
  rw [if_neg (not_not_intro h.aligned)]
  show ((as.dev.distWrite (pa - r.pa) size _).1,
    { as with dev := (as.dev.distWrite (pa - r.pa) size _).2 }) = _
  rw [distWrite_lanes h.low h.high]
  rfl

theorem PriorityAccess.read (h : PriorityAccess as r pa size) (sx : Bool) :
    (as.read pa size sx).1 = .ok ∧ (as.read pa size sx).2.2 = as ∧ ∀ b < size.bytes,
      octet (as.read pa size sx).2.1 b = as.dev.priority.get (firstLine r pa / 4 * 4 + b) := by
  obtain ⟨hok, hdev, hlanes⟩ := @distRead_lanes as.dev (pa - r.pa) h.low h.high size
  have hread : as.read pa size sx =
      (.ok, Aspace.extend (as.dev.distRead (pa - r.pa) size).2.1 size.bytes sx, as) := by
    unfold Aspace.read
    rw [h.reads]
    dsimp only
    rw [h.device]
    dsimp only
    rw [if_neg (not_not_intro h.aligned)]
    rfl
  rw [hread]
  refine ⟨rfl, rfl, ?_⟩
  intro b hb
  have hs := h.small
  rw [octet_extend _ hb (by omega) sx, hlanes b (by omega)]
  rfl

/-- **a write reaches the lines it names exactly when the rest of its word is not disturbed** -/
theorem lanesWritten_iff (h : PriorityAccess as r pa size) (value : W64) :
    LanesWritten as r pa size value ↔ WriteFits as.dev (firstLine r pa) size value := by
  have hw := h.write value
  have hal := h.line_aligned
  have hs := h.small
  have hpos := size.bytes_pos
  generalize hl : firstLine r pa = l at hw hal
  generalize hn : size.bytes = n at hw hal hs hpos
  have hdiv : l % 4 = 0 ∨ n ≤ l % 4 ∧ l % 4 + n ≤ 4 := by
    rcases h.width with rfl | rfl | rfl
    · obtain rfl : n = 1 := hn.symm
      omega
    · obtain rfl : n = 2 := hn.symm
      omega
    · obtain rfl : n = 4 := hn.symm
      omega
  have hcode : ∀ i : Fin 64, (as.write pa size value).2.dev.priority i =
      if l / 4 * 4 ≤ i.val ∧ i.val < l / 4 * 4 + 4 then
        if i.val - l / 4 * 4 < n then octet value (i.val - l / 4 * 4) else 0
      else as.dev.priority i := by
    intro i
    rw [hw]
    show as.dev.priority.fill (l / 4 * 4) 4 (octet (Aspace.extend value n false)) i = _
    rw [Bank.fill_apply]
    refine if_congr Iff.rfl ?_ rfl
    by_cases hb : i.val - l / 4 * 4 < n
    · rw [if_pos hb, octet_extend _ hb (by omega)]
    · rw [if_neg hb, octet_extend_above _ hpos (by omega) (by omega)]
  have hrest : (as.write pa size value).2 = { as with
      dev := { as.dev with priority := (as.write pa size value).2.dev.priority } } := by
    rw [hw]
  constructor
  · intro hwritten
    have hlanes := hwritten.lanes
    rw [hl, hn] at hlanes
    by_cases hfar : 64 ≤ l
    · exact .inr (.inl hfar)
    right
    right
    have hzero : l % 4 = 0 ∨ ∀ b < n, octet value b = 0 := by
      rcases hdiv with h0 | ⟨h1, h2⟩
      · exact .inl h0
      · right
        intro b hb
        have hi := hcode ⟨l + b, by omega⟩
        rw [hlanes, if_pos (by constructor <;> dsimp only <;> omega),
          if_pos (by constructor <;> dsimp only <;> omega), if_neg (by dsimp only; omega)] at hi
        rw [← hi]
        exact congrArg (octet value) (by dsimp only; omega)
    rw [hn]
    refine ⟨?_, hzero⟩
    intro i hi hout
    have hat := hcode i
    rw [hlanes, if_neg hout, if_pos (by omega)] at hat
    rw [hat]
    by_cases hb : i.val - l / 4 * 4 < n
    · rw [if_pos hb]
      rcases hzero with h0 | hz
      · omega
      · exact hz _ hb
    · rw [if_neg hb]
  · intro hfits
    refine ⟨by rw [hw], ?_, hrest⟩
    intro i
    rw [hl, hn, hcode i]
    have hi := i.isLt
    rcases hfits with hword | hfar | ⟨hout, hzero⟩
    · subst hword
      obtain rfl : n = 4 := hn.symm
      rw [show l / 4 * 4 = l by omega]
      by_cases hin : l ≤ i.val ∧ i.val < l + 4
      · rw [if_pos hin, if_pos hin, if_pos (by omega)]
      · rw [if_neg hin, if_neg hin]
    · rw [if_neg (by omega), if_neg (by omega)]
    · rw [hn] at hout hzero
      by_cases hword : l / 4 * 4 ≤ i.val ∧ i.val < l / 4 * 4 + 4
      · rw [if_pos hword]
        by_cases hin : l ≤ i.val ∧ i.val < l + n
        · rw [if_pos hin]
          rcases hzero with h0 | hz
          · rw [show l / 4 * 4 = l by omega, if_pos (by omega)]
          · rw [hz (i.val - l) (by omega)]
            by_cases hb : i.val - l / 4 * 4 < n
            · rw [if_pos hb, hz _ hb]
            · rw [if_neg hb]
        · rw [if_neg hin, hout i (by omega) hin]
          by_cases hb : i.val - l / 4 * 4 < n
          · rw [if_pos hb]
            rcases hzero with h0 | hz
            · omega
            · exact hz _ hb
          · rw [if_neg hb]
      · rw [if_neg hword, if_neg (by omega)]

theorem lanesRead_iff (h : PriorityAccess as r pa size) (sx : Bool) :
    LanesRead as r pa size sx ↔ ReadFits as.dev (firstLine r pa) size := by
  obtain ⟨hok, hsame, hlanes⟩ := h.read sx
  constructor
  · intro hread
    right
    intro b hb
    rw [← hlanes b hb]
    exact hread.lanes b hb
  · intro hfits
    refine ⟨hok, ?_, hsame⟩
    intro b hb
    rw [hlanes b hb]
    rcases hfits with h0 | heq
    · exact congrArg as.dev.priority.get (by omega)
    · exact heq b hb

/-- **the lanes an access names are the lanes it reaches exactly for word accesses, and otherwise where
the lanes it confuses happen to hold the same** -/
theorem priority_lanes_iff (h : PriorityAccess as r pa size) (value : W64) (sx : Bool) :
    (LanesWritten as r pa size value ↔ WriteFits as.dev (firstLine r pa) size value) ∧
      (LanesRead as r pa size sx ↔ ReadFits as.dev (firstLine r pa) size) :=
  ⟨lanesWritten_iff h value, lanesRead_iff h sx⟩

/-- a distributor behind the bus, where the boot machine has it -/
def distRegion : AspaceRegion Gicv2 where
  pa := 0x08000000
  size := 0x10000
  perms := permRead ||| permWrite
  backing := .device distOps

def distBus : Aspace Gicv2 where
  regions := [distRegion]
  capacity := 8
  heap := fun _ => 0
  dev := init 64

/-- a word of priorities written and read back -/
theorem priority_lanes_word :
    LanesWritten distBus distRegion 0x08000424 .word 0x40302010 ∧
      LanesRead distBus distRegion 0x08000424 .word false := by
  have h : PriorityAccess distBus distRegion 0x08000424 .word :=
    ⟨rfl, rfl, rfl, by decide, by decide, by decide, by decide, by decide⟩
  obtain ⟨hw, hr⟩ := priority_lanes_iff h 0x40302010 false
  exact ⟨hw.mpr (.inl rfl), hr.mpr (.inl (by decide))⟩

/-- a byte written to the priority of line 1 sets line 0, and line 1 keeps its own -/
theorem byte_write_misses :
    PriorityAccess distBus distRegion 0x08000401 .byte ∧ firstLine distRegion 0x08000401 = 1 ∧
      (distBus.write 0x08000401 .byte 0x40).2.dev.priority 0 = 0x40 ∧
      (distBus.write 0x08000401 .byte 0x40).2.dev.priority 1 = 0 ∧
      ¬ LanesWritten distBus distRegion 0x08000401 .byte 0x40 := by
  have ha : PriorityAccess distBus distRegion 0x08000401 .byte :=
    ⟨rfl, rfl, rfl, by decide, by decide, by decide, by decide, by decide⟩
  have hzero : (distBus.write 0x08000401 .byte 0x40).2.dev.priority 1 = 0 := by
    rw [ha.write 0x40]
    decide +kernel
  refine ⟨ha, by decide, ?_, hzero, ?_⟩
  · rw [ha.write 0x40]
    decide +kernel
  · intro hw
    have hlane := hw.lanes 1
    rw [hzero] at hlane
    exact absurd hlane (by decide +kernel)

end Gicv2

end Oemu
