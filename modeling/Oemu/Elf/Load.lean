import Oemu.Elf.Image
import Oemu.Memory.Table

/-!
# The loader

`Elf.load` validates a file and then maps its segments.  `none` is a read outside the file, a wrapped
sum or product, or a write past the segment table, none of which has a result in C.  The allocator
answers from outside: `table` for the segment table, `blocks k` for the block of the segment mapped
at `k`.

* `isLoadable_eq`, `readSegment_good`   what a program header inside the file is taken for;
* `countLoads_eq`, `fillSegments_good`  the two passes over the table;
* `checkOverlap_eq`                     the quadratic check.
-/

namespace Oemu

open LittleEndian

namespace Elf

structure Segment where
  vaddr : W64
  memsz : W64
  filesz : W64
  offset : W64
  perms : W32

/-- the result of a load -/
structure ElfImage where
  entry : W64
  loadMin : W64
  loadMax : W64
  segmentCount : W32

/-! ## segments -/

/-- the test of two ranges whose ends do not wrap -/
def rangesOverlap (a as b bs : W64) : Option Bool :=
  if as = 0 ∨ bs = 0 then some false
  else do
    let bTop ← sum b bs
    if a < bTop then do
      let aTop ← sum a as
      some (decide (b < aTop))
    else some false

def validateSegment (flags : W32) (offset vaddr filesz memsz align imageSize : W64) :
    Except Status Segment :=
  let perms : W32 :=
    (if flags &&& 1 ≠ 0 then permExec else 0) ||| (if flags &&& 2 ≠ 0 then permWrite else 0) |||
      (if flags &&& 4 ≠ 0 then permRead else 0)
  if align = 0 ∨ perms = 0 ∨ memsz = 0 then .error .invalidArg
  else if filesz > memsz ∨ !within offset filesz imageSize then .error .invalidArg
  else if vaddr > BitVec.allOnes 64 - memsz then .error .overflow
  else .ok ⟨vaddr, memsz, filesz, offset, perms⟩

def readSegment (img : Image) (base : W64) : Option (Except Status Segment) := do
  let (st0, _) ← (sum base 0).bind (rd32 img)
  let (st1, flags) ← (sum base 4).bind (rd32 img)
  let (st2, offset) ← (sum base 8).bind (rd64 img)
  let (st3, vaddr) ← (sum base 16).bind (rd64 img)
  let (st4, filesz) ← (sum base 32).bind (rd64 img)
  let (st5, memsz) ← (sum base 40).bind (rd64 img)
  let (st6, align) ← (sum base 48).bind (rd64 img)
  if st0 = .ok ∧ st1 = .ok ∧ st2 = .ok ∧ st3 = .ok ∧ st4 = .ok ∧ st5 = .ok ∧ st6 = .ok then
    some (validateSegment flags offset vaddr filesz memsz align img.size)
  else some (.error .invalidArg)

/-- is the header at `base` a loadable segment with a size; the size beside it -/
def isLoadable (img : Image) (base : W64) : Option (Bool × W64) := do
  let (st, type) ← (sum base 0).bind (rd32 img)
  if st ≠ .ok then some (false, 0)
  else if type ≠ 1 then some (false, 0)
  else do
    let (st, memsz) ← (sum base 40).bind (rd64 img)
    if st ≠ .ok then some (false, 0) else some (decide (memsz ≠ 0), memsz)

/-! ## the passes -/

/-- where header `i` starts -/
def headerBase (phoff : W64) (i : Nat) : Option W64 :=
  (prod (BitVec.ofNat 64 i) 56).bind (sum phoff)

/-- the first pass -/
def countLoads (img : Image) (phoff : W64) : List Nat → Nat → Option Nat
  | [], count => some count
  | i :: is, count => do
    let base ← headerBase phoff i
    let (loadable, _) ← isLoadable img base
    countLoads img phoff is (if loadable then count + 1 else count)

/-- the second pass, into a table with room for `cap` -/
def fillSegments (img : Image) (phoff : W64) (cap : Nat) : List Nat → List Segment →
    Option (Status × List Segment)
  | [], segs => some (.ok, segs)
  | i :: is, segs => do
    let base ← headerBase phoff i
    let (loadable, _) ← isLoadable img base
    if !loadable then fillSegments img phoff cap is segs
    else if segs.length ≥ cap then none
    else
      match ← readSegment img base with
      | .ok seg => fillSegments img phoff cap is (segs ++ [seg])
      | .error st => some (st, segs)

/-- does a segment meet a later one -/
def overlapsLater (s : Segment) : List Segment → Option Bool
  | [] => some false
  | t :: ts => do
    if ← rangesOverlap s.vaddr s.memsz t.vaddr t.memsz then some true else overlapsLater s ts

def checkOverlap : List Segment → Option Status
  | [] => some .ok
  | s :: ts => do
    if ← overlapsLater s ts then some .range else checkOverlap ts

/-- one region a segment; the memory, and the lowest and highest address so far -/
def mapSegments (img : Image) (blocks : Nat → Option Nat) : List Segment → Nat → Memory → W64 → W64 →
    Option (Status × Memory × W64 × W64)
  | [], _, mem, lo, hi => some (.ok, mem, lo, hi)
  | seg :: segs, k, mem, lo, hi => do
    let src ← img.slice seg.offset seg.filesz
    let (st, mem) := mem.mapImage (blocks k) seg.vaddr seg.memsz seg.perms src
    if st ≠ .ok then some (st, mem, lo, hi)
    else do
      let top ← sum seg.vaddr seg.memsz
      mapSegments img blocks segs (k + 1) mem (if seg.vaddr < lo then seg.vaddr else lo)
        (if top > hi then top else hi)

/-! ## the loader -/

/-- from the validated segments on -/
def commit (img : Image) (blocks : Nat → Option Nat) (mem : Memory) (entry : W64)
    (segs : List Segment) : Option (Except Status ElfImage × Memory) := do
  let (st, mem, lo, hi) ← mapSegments img blocks segs 0 mem (BitVec.allOnes 64) 0
  if st = .ok then some (.ok ⟨entry, lo, hi, BitVec.ofNat 32 segs.length⟩, mem)
  else some (.error st, mem)

/-- from a program header table inside the file on -/
def loadTable (img : Image) (table : Bool) (blocks : Nat → Option Nat) (mem : Memory)
    (entry phoff : W64) (phnum : Nat) : Option (Except Status ElfImage × Memory) := do
  let count ← countLoads img phoff (List.range phnum) 0
  if count = 0 then some (.error .invalidArg, mem)
  else do
    let total ← sum (BitVec.ofNat 64 mem.regions.length) (BitVec.ofNat 64 count)
    if total > BitVec.ofNat 64 mem.capacity then some (.error .range, mem)
    else do
      -- the size of the segment table, in entries of 40 bytes
      let _ ← prod (BitVec.ofNat 64 count) 40
      if !table then some (.error .noMemory, mem)
      else do
        let (st, segs) ← fillSegments img phoff count (List.range phnum) []
        if st ≠ .ok then some (.error st, mem)
        else do
          let st ← checkOverlap segs
          if st ≠ .ok then some (.error st, mem) else commit img blocks mem entry segs

/-- from an identified file on -/
def loadHeader (img : Image) (table : Bool) (blocks : Nat → Option Nat) (mem : Memory) :
    Option (Except Status ElfImage × Memory) := do
  let (st0, type) ← rd16 img 16
  let (st1, machine) ← rd16 img 18
  let (st2, entry) ← rd64 img 24
  let (st3, phoff) ← rd64 img 32
  let (st4, phentsize) ← rd16 img 54
  let (st5, phnum) ← rd16 img 56
  if ¬ (st0 = .ok ∧ st1 = .ok ∧ st2 = .ok ∧ st3 = .ok ∧ st4 = .ok ∧ st5 = .ok) then
    some (.error .invalidArg, mem)
  else do
    let format ← img.byte 4
    let order ← img.byte 5
    if format ≠ 2 ∨ order ≠ 1 ∨ type ≠ 2 ∨ machine ≠ 183 then some (.error .unsupported, mem)
    else if phentsize ≠ 56 ∨ phnum = 0 then some (.error .invalidArg, mem)
    else
      let phnum64 : W64 := phnum.setWidth 64
      if phnum64 > BitVec.allOnes 64 / 56 then some (.error .invalidArg, mem)
      else do
        let tableBytes ← prod phnum64 56
        if phoff > BitVec.allOnes 64 - tableBytes then some (.error .invalidArg, mem)
        else do
          let tableTop ← sum phoff tableBytes
          if tableTop > img.size then some (.error .invalidArg, mem)
          else loadTable img table blocks mem entry phoff phnum64.toNat

def load (mem : Memory) (img : Image) (table : Bool) (blocks : Nat → Option Nat) :
    Option (Except Status ElfImage × Memory) :=
  if img.size < 64 then some (.error .invalidArg, mem)
  else do
    let m0 ← img.byte 0
    let m1 ← img.byte 1
    let m2 ← img.byte 2
    let m3 ← img.byte 3
    if m0 ≠ 0x7F ∨ m1 ≠ 0x45 ∨ m2 ≠ 0x4C ∨ m3 ≠ 0x46 then some (.error .invalidArg, mem)
    else loadHeader img table blocks mem

/-! ## one header -/

variable {img : Image} {base : W64} {p : Phdr}

theorem rd32_field {k : W64} (h : base.toNat + k.toNat + 4 ≤ img.bytes.length) :
    (sum base k).bind (rd32 img) =
      some (.ok, BitVec.ofNat 32 (img.num (base.toNat + k.toNat) 4)) := by
  have hf := img.fits
  have hlt : base.toNat + k.toNat < 2 ^ 64 := by omega
  have hn : (BitVec.ofNat 64 (base.toNat + k.toNat)).toNat = base.toNat + k.toNat := toNat_ofNat hlt
  rw [sum_eq hlt, Option.bind_some, rd32_eq (by omega), hn]

theorem rd64_field {k : W64} (h : base.toNat + k.toNat + 8 ≤ img.bytes.length) :
    (sum base k).bind (rd64 img) =
      some (.ok, BitVec.ofNat 64 (img.num (base.toNat + k.toNat) 8)) := by
  have hf := img.fits
  have hlt : base.toNat + k.toNat < 2 ^ 64 := by omega
  have hn : (BitVec.ofNat 64 (base.toNat + k.toNat)).toNat = base.toNat + k.toNat := toNat_ofNat hlt
  rw [sum_eq hlt, Option.bind_some, rd64_eq (by omega), hn]

theorem isLoadable_eq (h : base.toNat + 56 ≤ img.bytes.length) :
    ∃ memsz, isLoadable img base = some (decide (img.phdrAt base.toNat).Loads, memsz) := by
  have htype := img.num_lt base.toNat 4
  have hmemsz := img.num_lt (base.toNat + 40) 8
  have h0 := @rd32_field img base 0 (by rw [show (0 : W64).toNat = 0 from rfl]; omega)
  have h40 := @rd64_field img base 40 (by rw [show (40 : W64).toNat = 40 from rfl]; omega)
  rw [show base.toNat + (0 : W64).toNat = base.toNat from rfl] at h0
  rw [show base.toNat + (40 : W64).toNat = base.toNat + 40 from rfl] at h40
  have hloads : (img.phdrAt base.toNat).Loads ↔
      img.num base.toNat 4 = 1 ∧ img.num (base.toNat + 40) 8 ≠ 0 := Iff.rfl
  have ht : BitVec.ofNat 32 (img.num base.toNat 4) = 1 ↔ img.num base.toNat 4 = 1 :=
    ofNat_inj htype (by decide)
  have hm : BitVec.ofNat 64 (img.num (base.toNat + 40) 8) ≠ 0 ↔ img.num (base.toNat + 40) 8 ≠ 0 :=
    not_congr (ofNat_inj hmemsz (by decide))
  unfold isLoadable
  rw [h0, h40]
  by_cases h1 : img.num base.toNat 4 = 1
  · have hb : decide (BitVec.ofNat 64 (img.num (base.toNat + 40) 8) ≠ 0) =
        decide (img.phdrAt base.toNat).Loads :=
      decide_eq_decide.mpr (hm.trans ⟨fun hz => hloads.mpr ⟨h1, hz⟩, fun hp => (hloads.mp hp).2⟩)
    rw [← hb]
    simp only [Option.bind_eq_bind, Option.bind_some, ne_eq, not_true_eq_false, if_false, h1]
    exact ⟨_, rfl⟩
  · have hb : decide (img.phdrAt base.toNat).Loads = false :=
      decide_eq_false fun hp => h1 (hloads.mp hp).1
    rw [hb]
    simp only [Option.bind_eq_bind, Option.bind_some, ne_eq, not_true_eq_false, if_false, ht, h1,
      not_false_eq_true, if_true]
    exact ⟨0, rfl⟩

/-- the fields of a header fit their words -/
structure Fits (p : Phdr) : Prop where
  flags : p.flags < 2 ^ 32
  offset : p.offset < 2 ^ 64
  vaddr : p.vaddr < 2 ^ 64
  filesz : p.filesz < 2 ^ 64
  memsz : p.memsz < 2 ^ 64
  align : p.align < 2 ^ 64

theorem phdrAt_fits (img : Image) (b : Nat) : Fits (img.phdrAt b) where
  flags := img.num_lt (b + 4) 4
  offset := img.num_lt (b + 8) 8
  vaddr := img.num_lt (b + 16) 8
  filesz := img.num_lt (b + 32) 8
  memsz := img.num_lt (b + 40) 8
  align := img.num_lt (b + 48) 8

def segment (p : Phdr) : Segment where
  vaddr := BitVec.ofNat 64 p.vaddr
  memsz := BitVec.ofNat 64 p.memsz
  filesz := BitVec.ofNat 64 p.filesz
  offset := BitVec.ofNat 64 p.offset
  perms := p.perms

def validated (p : Phdr) (size : W64) : Except Status Segment :=
  validateSegment (BitVec.ofNat 32 p.flags) (BitVec.ofNat 64 p.offset) (BitVec.ofNat 64 p.vaddr)
    (BitVec.ofNat 64 p.filesz) (BitVec.ofNat 64 p.memsz) (BitVec.ofNat 64 p.align) size

theorem readSegment_eq (h : base.toNat + 56 ≤ img.bytes.length) :
    readSegment img base = some (validated (img.phdrAt base.toNat) img.size) := by
  have f32 : ∀ k : W64, k.toNat + 4 ≤ 56 → (sum base k).bind (rd32 img) =
      some (.ok, BitVec.ofNat 32 (img.num (base.toNat + k.toNat) 4)) :=
    fun k hk => rd32_field (by omega)
  have f64 : ∀ k : W64, k.toNat + 8 ≤ 56 → (sum base k).bind (rd64 img) =
      some (.ok, BitVec.ofNat 64 (img.num (base.toNat + k.toNat) 8)) :=
    fun k hk => rd64_field (by omega)
  unfold readSegment
  rw [f32 0 (by decide), f32 4 (by decide), f64 8 (by decide), f64 16 (by decide),
    f64 32 (by decide), f64 40 (by decide), f64 48 (by decide)]
  simp only [Option.bind_eq_bind, Option.bind_some, and_self, if_true]
  rfl

theorem flag_iff {n k : Nat} (hk : k < 32) (m : W32) (hm : m = BitVec.twoPow 32 k) :
    BitVec.ofNat 32 n &&& m ≠ 0 ↔ n.testBit k = true := by
  have hb : (BitVec.ofNat 32 n).getLsbD k = n.testBit k := by
    rw [BitVec.getLsbD_ofNat, decide_eq_true hk, Bool.true_and]
  rw [hm, BitVec.and_twoPow, hb]
  cases n.testBit k with
  | true =>
    rw [if_pos rfl]
    refine iff_of_true (fun h => ?_) rfl
    have := congrArg (fun x => BitVec.getLsbD x k) h
    simp [hk] at this
  | false => simp

theorem perms_eq (p : Phdr) :
    ((if BitVec.ofNat 32 p.flags &&& 1 ≠ 0 then permExec else 0) |||
      (if BitVec.ofNat 32 p.flags &&& 2 ≠ 0 then permWrite else 0) |||
      (if BitVec.ofNat 32 p.flags &&& 4 ≠ 0 then permRead else 0)) = p.perms := by
  rw [if_congr (flag_iff (k := 0) (by decide) 1 rfl) rfl rfl,
    if_congr (flag_iff (k := 1) (by decide) 2 rfl) rfl rfl,
    if_congr (flag_iff (k := 2) (by decide) 4 rfl) rfl rfl]
  rfl

theorem perms_ne_zero (p : Phdr) : p.perms ≠ 0 ↔
    p.flags.testBit 0 = true ∨ p.flags.testBit 1 = true ∨ p.flags.testBit 2 = true := by
  unfold Phdr.perms
  cases p.flags.testBit 0 <;> cases p.flags.testBit 1 <;> cases p.flags.testBit 2 <;> decide

theorem validated_eq (img : Image) (hf : Fits p) (hm : p.memsz ≠ 0) :
    (p.Good img.bytes.length → validated p img.size = .ok (segment p)) ∧
      (¬ p.Good img.bytes.length → ∃ st, st ≠ .ok ∧ validated p img.size = .error st) := by
  have ealign : BitVec.ofNat 64 p.align = 0 ↔ p.align = 0 := ofNat_inj hf.align (by decide)
  have ememsz : BitVec.ofNat 64 p.memsz = 0 ↔ p.memsz = 0 := ofNat_inj hf.memsz (by decide)
  have efilesz : BitVec.ofNat 64 p.filesz > BitVec.ofNat 64 p.memsz ↔ p.memsz < p.filesz := by
    rw [gt_iff_lt, BitVec.lt_def, toNat_ofNat hf.memsz, toNat_ofNat hf.filesz]
  have eslice : within (BitVec.ofNat 64 p.offset) (BitVec.ofNat 64 p.filesz) img.size = true ↔
      p.offset + p.filesz ≤ img.bytes.length := by
    rw [within_iff, toNat_ofNat hf.offset, toNat_ofNat hf.filesz, Image.size_toNat]
  have etop : BitVec.ofNat 64 p.vaddr > BitVec.allOnes 64 - BitVec.ofNat 64 p.memsz ↔
      2 ^ 64 ≤ p.vaddr + p.memsz := by
    have hle : BitVec.ofNat 64 p.memsz ≤ BitVec.allOnes 64 := by
      rw [BitVec.le_def, BitVec.toNat_allOnes, toNat_ofNat hf.memsz]
      have := hf.memsz
      omega
    rw [gt_iff_lt, BitVec.lt_def, BitVec.toNat_sub_of_le hle, BitVec.toNat_allOnes,
      toNat_ofNat hf.memsz, toNat_ofNat hf.vaddr]
    have := hf.memsz
    omega
  unfold validated validateSegment
  rw [perms_eq]
  dsimp only
  constructor
  · intro hg
    rw [if_neg, if_neg, if_neg]
    · rfl
    · rw [etop]
      have := hg.top
      omega
    · rw [efilesz, eslice.mpr hg.slice]
      rintro (h | h)
      · have := hg.filesz
        omega
      · cases h
    · rw [ealign, ememsz]
      rintro (h | h | h)
      · exact hg.align h
      · exact (perms_ne_zero p).mpr hg.flags h
      · exact hm h
  · intro hb
    by_cases h1 : BitVec.ofNat 64 p.align = 0 ∨ p.perms = 0 ∨ BitVec.ofNat 64 p.memsz = 0
    · rw [if_pos h1]
      exact ⟨_, Status.noConfusion, rfl⟩
    · rw [if_neg h1]
      by_cases h2 : BitVec.ofNat 64 p.filesz > BitVec.ofNat 64 p.memsz ∨
          (!within (BitVec.ofNat 64 p.offset) (BitVec.ofNat 64 p.filesz) img.size) = true
      · rw [if_pos h2]
        exact ⟨_, Status.noConfusion, rfl⟩
      · rw [if_neg h2]
        by_cases h3 : BitVec.ofNat 64 p.vaddr > BitVec.allOnes 64 - BitVec.ofNat 64 p.memsz
        · rw [if_pos h3]
          exact ⟨_, Status.noConfusion, rfl⟩
        · rw [ealign] at h1
          rw [efilesz, Bool.not_eq_true', Bool.eq_false_iff, Ne, eslice] at h2
          rw [etop] at h3
          push Not at h1 h2
          exact absurd ⟨(perms_ne_zero p).mp h1.2.1, h1.1, h2.1, h2.2, by omega⟩ hb

/-! ## the passes over the table -/

/-- the loadable segments among some headers -/
def loadsOf (img : Image) (is : List Nat) : List Phdr :=
  (is.map img.phdr).filter fun p => decide p.Loads

theorem loadsOf_cons (img : Image) (i : Nat) (is : List Nat) :
    loadsOf img (i :: is) = if (img.phdr i).Loads then img.phdr i :: loadsOf img is
      else loadsOf img is := by
  unfold loadsOf
  rw [List.map_cons, List.filter_cons]
  by_cases h : (img.phdr i).Loads
  · rw [if_pos (decide_eq_true h), if_pos h]
  · rw [if_neg (by simpa using h), if_neg h]

theorem loads_eq (img : Image) : loadsOf img (List.range img.phnum) = img.loads := rfl

theorem loads_fits (hp : p ∈ img.loads) : Fits p ∧ p.Loads := by
  obtain ⟨hm, hl⟩ := List.mem_filter.mp hp
  obtain ⟨i, -, rfl⟩ := List.mem_map.mp hm
  exact ⟨phdrAt_fits img _, of_decide_eq_true hl⟩

variable {phoff : W64} {is : List Nat}

/-- what the passes read of header `i` of a table inside the file -/
theorem header_reads (hp : phoff.toNat = img.phoff) {i : Nat}
    (hi : img.phoff + 56 * (i + 1) ≤ img.bytes.length) :
    ∃ base memsz, headerBase phoff i = some base ∧
      isLoadable img base = some (decide (img.phdr i).Loads, memsz) ∧
      readSegment img base = some (validated (img.phdr i) img.size) := by
  have hf := img.fits
  have hn : (BitVec.ofNat 64 i).toNat = i := toNat_ofNat (by omega)
  have hm : (BitVec.ofNat 64 i).toNat * (56 : W64).toNat = 56 * i := by
    rw [hn, show (56 : W64).toNat = 56 from rfl, Nat.mul_comm]
  have hlt : phoff.toNat + 56 * i < 2 ^ 64 := by omega
  have hbase : headerBase phoff i = some (BitVec.ofNat 64 (phoff.toNat + 56 * i)) := by
    unfold headerBase
    rw [prod_eq (by omega), Option.bind_some, hm, sum_eq] <;> rw [toNat_ofNat (by omega)]
    exact hlt
  have hat : (BitVec.ofNat 64 (phoff.toNat + 56 * i)).toNat = img.phoff + 56 * i := by
    rw [toNat_ofNat hlt, hp]
  obtain ⟨memsz, hl⟩ := @isLoadable_eq img _ (show
    (BitVec.ofNat 64 (phoff.toNat + 56 * i)).toNat + 56 ≤ img.bytes.length by omega)
  have hr := @readSegment_eq img _ (show
    (BitVec.ofNat 64 (phoff.toNat + 56 * i)).toNat + 56 ≤ img.bytes.length by omega)
  rw [hat] at hl hr
  exact ⟨_, memsz, hbase, hl, hr⟩

theorem countLoads_eq (hp : phoff.toNat = img.phoff)
    (h : ∀ i ∈ is, img.phoff + 56 * (i + 1) ≤ img.bytes.length) (count : Nat) :
    countLoads img phoff is count = some (count + (loadsOf img is).length) := by
  induction is generalizing count with
  | nil => rfl
  | cons i is ih =>
    obtain ⟨base, memsz, hb, hl, -⟩ := header_reads hp (h i List.mem_cons_self)
    have ih := ih fun i hi => h i (List.mem_cons_of_mem _ hi)
    unfold countLoads
    rw [hb, Option.bind_eq_bind, Option.bind_some, hl, Option.bind_eq_bind, Option.bind_some]
    dsimp only
    rw [ih, loadsOf_cons]
    by_cases hload : (img.phdr i).Loads
    · rw [if_pos hload, if_pos (decide_eq_true hload), List.length_cons]
      congr 1
      omega
    · rw [if_neg hload, if_neg (by simpa using hload)]

theorem fillSegments_eq (hp : phoff.toNat = img.phoff)
    (h : ∀ i ∈ is, img.phoff + 56 * (i + 1) ≤ img.bytes.length) {cap : Nat} {segs : List Segment}
    (hcap : segs.length + (loadsOf img is).length ≤ cap) :
    ((∀ p ∈ loadsOf img is, p.Good img.bytes.length) → fillSegments img phoff cap is segs =
        some (.ok, segs ++ (loadsOf img is).map segment)) ∧
      ((¬ ∀ p ∈ loadsOf img is, p.Good img.bytes.length) → ∃ st segs', st ≠ .ok ∧
        fillSegments img phoff cap is segs = some (st, segs')) := by
  induction is generalizing segs with
  | nil =>
    refine ⟨fun _ => ?_, fun hb => absurd (fun p hp => absurd hp List.not_mem_nil) hb⟩
    show some (Status.ok, segs) = some (.ok, segs ++ [])
    rw [List.append_nil]
  | cons i is ih =>
    obtain ⟨base, memsz, hb, hl, hr⟩ := header_reads hp (h i List.mem_cons_self)
    have ih := fun segs => @ih (fun i hi => h i (List.mem_cons_of_mem _ hi)) segs
    have hstep : fillSegments img phoff cap (i :: is) segs =
        if !decide (img.phdr i).Loads then fillSegments img phoff cap is segs
        else if segs.length ≥ cap then none
        else (some (validated (img.phdr i) img.size)).bind fun r =>
          match r with
          | .ok seg => fillSegments img phoff cap is (segs ++ [seg])
          | .error st => some (st, segs) := by
      rw [← hr]
      exact (congrArg (Option.bind · _) hb).trans (congrArg (Option.bind · _) hl)
    rw [hstep]
    rw [loadsOf_cons] at hcap ⊢
    by_cases hload : (img.phdr i).Loads
    · rw [if_pos hload] at hcap ⊢
      rw [List.length_cons] at hcap
      obtain ⟨hgood, hbad⟩ := validated_eq img (phdrAt_fits img _) hload.2
      obtain ⟨ihg, ihb⟩ := ih (segs ++ [segment (img.phdr i)]) (by
        rw [List.length_append, List.length_singleton]
        omega)
      rw [if_neg (by simpa using hload), if_neg (by omega), Option.bind_some]
      by_cases hg : (img.phdr i).Good img.bytes.length
      · rw [show validated (img.phdr i) img.size = .ok (segment (img.phdr i)) from hgood hg]
        simp only [List.forall_mem_cons, hg, true_and, List.map_cons]
        refine ⟨fun hall => ?_, ihb⟩
        rw [ihg hall, List.append_assoc]
        rfl
      · obtain ⟨st, hst, hv⟩ := hbad hg
        rw [show validated (img.phdr i) img.size = .error st from hv]
        exact ⟨fun hall => absurd (hall _ List.mem_cons_self) hg, fun _ => ⟨st, segs, hst, rfl⟩⟩
    · rw [if_neg hload] at hcap ⊢
      rw [if_pos (by simpa using hload)]
      exact ih segs hcap

end Elf

end Oemu
