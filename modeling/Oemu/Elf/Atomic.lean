import Oemu.Elf.Commit

/-!
# What a load leaves

* `elf_load`          which files are taken, and the memory and the result of a load;
* `elf_load_atomic`   when a refused load leaves everything as it was.
-/

namespace Oemu

open LittleEndian

namespace Elf

variable {img : Image} {mem : Memory} {blocks : Nat → Option Nat}

/-! ## what a load leaves -/

/-- a region with the base, size, permissions and bytes of a program header: the slice of the file,
then zeros -/
structure Shows (img : Image) (heap : Nat → BitVec 8) (p : Phdr) (r : Region) : Prop where
  base : r.gva.toNat = p.vaddr
  size : r.size.toNat = p.memsz
  perms : r.perms = p.perms
  owned : r.owned = true
  contents : ∀ x < p.memsz, heap (r.host + x) = if x < p.filesz then img.octet (p.offset + x) else 0

/-- `mem'` is `mem` with the segments of the file, and `out` says where they are -/
structure Loaded (img : Image) (mem mem' : Memory) (out : ElfImage) : Prop where
  capacity : mem'.capacity = mem.capacity
  regions : ∃ rs, mem'.regions = mem.regions ++ rs ∧ List.Forall₂ (Shows img mem'.heap) img.loads rs ∧
    ∀ a, (∀ r ∈ rs, ¬ r.window.Covers a 1) → mem'.heap a = mem.heap a
  entry : out.entry.toNat = img.entry
  least : IsLeast {a | ∃ p ∈ img.loads, a = p.vaddr} out.loadMin.toNat
  greatest : IsGreatest {a | ∃ p ∈ img.loads, a = p.vaddr + p.memsz} out.loadMax.toNat
  count : out.segmentCount.toNat = img.loads.length

theorem backed_shows {p : Phdr} (hf : Fits p) {heap : Nat → BitVec 8} {r : Region}
    (h : Backed img heap (segment p) r) : Shows img heap p r := by
  have hm : (segment p).memsz.toNat = p.memsz := toNat_ofNat hf.memsz
  have hz : (segment p).filesz.toNat = p.filesz := toNat_ofNat hf.filesz
  have ho : (segment p).offset.toNat = p.offset := toNat_ofNat hf.offset
  refine ⟨?_, ?_, h.perms, h.owned, ?_⟩
  · rw [h.gva]
    exact toNat_ofNat hf.vaddr
  · rw [h.size]
    exact hm
  · intro x hx
    have := h.contents x (by omega)
    rwa [hz, ho] at this

theorem loads_free {p : Phdr} (hp : p ∈ img.loads) :
    Free mem (segment p) ↔ ∀ r ∈ mem.regions, p.span.Apart r.span := by
  unfold Free
  rw [segment_span (loads_fits hp).1]

/-- **the files the loader takes, and what it leaves**: with room in the table, no region in the way
and no block refused -/
theorem elf_load (mem : Memory) (img : Image) (blocks : Nat → Option Nat) (hok : mem.Ok)
    (hcap : mem.capacity < 2 ^ 32) (hroom : img.Header → Room mem img)
    (hfree : img.Header → ∀ p ∈ img.loads, ∀ r ∈ mem.regions, p.span.Apart r.span)
    (halloc : Grants blocks 0 (img.loads.map Phdr.memsz)) :
    ∃ res mem', load mem img true blocks = some (res, mem') ∧
      ((∃ out, res = .ok out) ↔ img.Loadable) ∧
      (∀ out, res = .ok out → Loaded img mem mem' out) ∧
      ((∀ out, res ≠ .ok out) → mem' = mem) := by
  obtain ⟨hgo, hstop⟩ := @load_eq img mem blocks hok hcap true
  by_cases hl : img.Loadable
  swap
  · obtain ⟨st, -, hrun⟩ := hstop fun h => hl h.1
    refine ⟨.error st, mem, hrun, iff_of_false ?_ hl, ?_, fun _ => rfl⟩
    · rintro ⟨out, h⟩
      cases h
    · intro out h
      cases h
  have hroom := hroom hl.header
  have hsizes : (img.loads.map segment).map (fun s => s.memsz.toNat) = img.loads.map Phdr.memsz := by
    rw [List.map_map]
    refine List.map_congr_left fun p hp => ?_
    exact toNat_ofNat (loads_fits hp).1.memsz
  obtain ⟨mem', lo, hi, rs, hrun, hcapacity, hregs, hback, -, hframe, hext⟩ :=
    mapSegments_ok (loads_sound hl.good) (loads_pairwise.mpr hl.disjoint) hok
      (by rw [List.length_map]; exact hroom)
      (by
        intro s hs
        obtain ⟨p, hp, rfl⟩ := List.mem_map.mp hs
        exact (loads_free hp).mpr (hfree hl.header p hp))
      (k := 0) (by rw [hsizes]; exact halloc) (BitVec.allOnes 64) 0
  have hload : load mem img true blocks = some (.ok ⟨BitVec.ofNat 64 img.entry, lo, hi,
      BitVec.ofNat 32 img.loads.length⟩, mem') := by
    rw [hgo hl hroom rfl]
    unfold commit
    rw [hrun, List.length_map]
    rfl
  refine ⟨_, mem', hload, iff_of_true ⟨_, rfl⟩ hl, ?_, fun h => absurd rfl (h _)⟩
  intro out hout
  cases hout
  have hfits : ∀ p ∈ img.loads, Fits p := fun p hp => (loads_fits hp).1
  obtain ⟨p₀, hp₀⟩ := List.exists_mem_of_ne_nil _ hl.nonempty
  have hlen : img.loads.length < 2 ^ 32 := by
    have := loads_length img
    have := num2_lt img 56
    unfold Image.phnum at *
    omega
  have hv : ∀ p ∈ img.loads, (segment p).vaddr.toNat = p.vaddr :=
    fun p hp => toNat_ofNat (hfits p hp).vaddr
  have hm : ∀ p ∈ img.loads, (segment p).memsz.toNat = p.memsz :=
    fun p hp => toNat_ofNat (hfits p hp).memsz
  refine ⟨hcapacity, ⟨rs, hregs, ?_, hframe⟩, toNat_ofNat (img.num_lt 24 8), ⟨?_, ?_⟩, ⟨?_, ?_⟩,
    toNat_ofNat hlen⟩
  · rw [List.forall₂_map_left_iff] at hback
    refine List.forall₂_iff_zip.mpr ⟨hback.length_eq, fun {p r} hpr => ?_⟩
    exact backed_shows (hfits p (List.of_mem_zip hpr).1) ((List.forall₂_iff_zip.mp hback).2 hpr)
  · rcases hext.lowest with h | ⟨s, hs, h⟩
    · -- every segment starts below the initial value
      have h1 := hext.low _ (List.mem_map_of_mem hp₀)
      have h2 := (hl.good p₀ hp₀).top
      have h3 := (loads_fits hp₀).2.2
      rw [hv p₀ hp₀, h, BitVec.toNat_allOnes] at h1
      omega
    · obtain ⟨p, hp, rfl⟩ := List.mem_map.mp hs
      exact ⟨p, hp, by rw [← hv p hp]; exact h⟩
  · rintro a ⟨p, hp, rfl⟩
    rw [← hv p hp]
    exact hext.low _ (List.mem_map_of_mem hp)
  · rcases hext.highest with h | ⟨s, hs, h⟩
    · have h1 := hext.high _ (List.mem_map_of_mem hp₀)
      have h3 := (loads_fits hp₀).2.2
      rw [hv p₀ hp₀, hm p₀ hp₀, h, show (0 : W64).toNat = 0 from rfl] at h1
      omega
    · obtain ⟨p, hp, rfl⟩ := List.mem_map.mp hs
      exact ⟨p, hp, by rw [← hv p hp, ← hm p hp]; exact h⟩
  · rintro a ⟨p, hp, rfl⟩
    rw [← hv p hp, ← hm p hp]
    exact hext.high _ (List.mem_map_of_mem hp)

/-! ### a small file -/

def leBytes (n v : Nat) : List (BitVec 8) := (List.range n).map fun i => BitVec.ofNat 8 (v / 256 ^ i)

/-- a header with a table of `phnum` entries after it -/
def headerBytes (phnum : Nat) : List (BitVec 8) :=
  [0x7F, 0x45, 0x4C, 0x46, 2, 1, 1, 0, 0, 0, 0, 0, 0, 0, 0, 0] ++ leBytes 2 2 ++ leBytes 2 183 ++
    leBytes 4 1 ++ leBytes 8 0x1000 ++ leBytes 8 64 ++ leBytes 14 0 ++ leBytes 2 56 ++
    leBytes 2 phnum ++ leBytes 6 0

/-- a loadable segment with the first four bytes of the file, and four zeros -/
def segmentBytes (vaddr : Nat) : List (BitVec 8) :=
  leBytes 4 1 ++ leBytes 4 5 ++ leBytes 8 0 ++ leBytes 8 vaddr ++ leBytes 8 vaddr ++ leBytes 8 4 ++
    leBytes 8 8 ++ leBytes 8 4096

/-- one segment at `0x1000` -/
def smallImage : Image where
  bytes := headerBytes 1 ++ segmentBytes 0x1000
  fits := by decide +kernel

/-- a segment at `0x1000` and one at `0x2000` -/
def pairImage : Image where
  bytes := headerBytes 2 ++ segmentBytes 0x1000 ++ segmentBytes 0x2000
  fits := by decide +kernel

theorem smallImage_loads : smallImage.loads = [⟨1, 5, 0, 0x1000, 4, 8, 4096⟩] := by
  decide +kernel

theorem pairImage_loads :
    pairImage.loads = [⟨1, 5, 0, 0x1000, 4, 8, 4096⟩, ⟨1, 5, 0, 0x2000, 4, 8, 4096⟩] := by
  decide +kernel

/-- the second segment goes to its own block -/
theorem elf_load_pair :
    ∃ out mem', load ⟨[], 2, fun _ => 0⟩ pairImage true (fun k => some (0x100 * k)) =
      some (.ok out, mem') ∧ Loaded pairImage ⟨[], 2, fun _ => 0⟩ mem' out := by
  have hgrants : Grants (fun k => some (0x100 * k)) 0 (pairImage.loads.map Phdr.memsz) := by
    rw [pairImage_loads]
    refine ⟨fun i _ => Option.some_ne_none _, ?_⟩
    intro i j m n b c hij hm hn hb hc
    have hj : j < 2 := (List.getElem?_eq_some_iff.mp hn).1
    obtain rfl : i = 0 := by omega
    obtain rfl : j = 1 := by omega
    cases hm
    cases hn
    cases hb
    cases hc
    exact .inl (by decide)
  obtain ⟨res, mem', hrun, hiff, hloaded, -⟩ := elf_load ⟨[], 2, fun _ => 0⟩ pairImage
    (fun k => some (0x100 * k)) (.nil _) (by decide)
    (fun _ => by
      unfold Room
      rw [pairImage_loads]
      decide)
    (fun _ p _ r hr => absurd hr List.not_mem_nil) hgrants
  obtain ⟨out, rfl⟩ := hiff.mpr (by
    refine ⟨?_, ?_, ?_, ?_⟩
    · constructor <;> decide +kernel
    · rw [pairImage_loads]
      exact List.cons_ne_nil _ _
    · rw [pairImage_loads]
      intro p hp
      rcases List.mem_cons.mp hp with rfl | hp
      · constructor <;> decide +kernel
      · rw [List.mem_singleton.mp hp]
        constructor <;> decide +kernel
    · rw [pairImage_loads]
      refine List.pairwise_pair.mpr ?_
      exact .inl (by decide))
  exact ⟨out, mem', hrun, hloaded out rfl⟩

/-! ## refused loads -/

/-- an old region is in the way of segment `n + 1`, and of none before it, and no block is refused
before it -/
def LateCollision (mem : Memory) (img : Image) (blocks : Nat → Option Nat) : Prop :=
  ∃ n p, img.loads[n + 1]? = some p ∧ (∃ r ∈ mem.regions, ¬ p.span.Apart r.span) ∧
    ∀ j ≤ n, (∀ q, img.loads[j]? = some q → ∀ r ∈ mem.regions, q.span.Apart r.span) ∧
      blocks j ≠ none

theorem lateCollision_iff : LateCollision mem img blocks ↔
    ∃ n, Collides mem blocks 0 (img.loads.map segment) (n + 1) := by
  unfold LateCollision Collides
  refine exists_congr fun n => ?_
  constructor
  · rintro ⟨p, hp, ⟨r, hr, hmeet⟩, hbefore⟩
    refine ⟨segment p, by rw [List.getElem?_map, hp]; rfl, fun hf => ?_, fun j hj => ?_⟩
    · exact hmeet ((loads_free (List.mem_of_getElem? hp)).mp hf r hr)
    · obtain ⟨hfree, hblock⟩ := hbefore j (by omega)
      refine ⟨fun t ht => ?_, by rwa [Nat.zero_add]⟩
      rw [List.getElem?_map, Option.map_eq_some_iff] at ht
      obtain ⟨q, hq, rfl⟩ := ht
      exact (loads_free (List.mem_of_getElem? hq)).mpr (hfree q hq)
  · rintro ⟨s, hs, hnf, hbefore⟩
    rw [List.getElem?_map, Option.map_eq_some_iff] at hs
    obtain ⟨p, hp, rfl⟩ := hs
    rw [loads_free (List.mem_of_getElem? hp)] at hnf
    push Not at hnf
    refine ⟨p, hp, hnf, fun j hj => ?_⟩
    obtain ⟨hfree, hblock⟩ := hbefore j (by omega)
    refine ⟨fun q hq => ?_, by rwa [Nat.zero_add] at hblock⟩
    exact (loads_free (List.mem_of_getElem? hq)).mp
      (hfree (segment q) (by rw [List.getElem?_map, hq]; rfl))

/-- **a load that is refused leaves everything as it was, unless an old region is in the way of a
later segment** of a file that is otherwise taken; it is then left half mapped -/
theorem elf_load_atomic (mem : Memory) (img : Image) (table : Bool) (blocks : Nat → Option Nat)
    (hok : mem.Ok) (hcap : mem.capacity < 2 ^ 32) :
    ∃ res mem', load mem img table blocks = some (res, mem') ∧
      ((∀ st, res = .error st → st ≠ .noMemory → mem' = mem) ↔
        ¬ (img.Loadable ∧ Room mem img ∧ table = true ∧ LateCollision mem img blocks)) := by
  obtain ⟨hgo, hstop⟩ := @load_eq img mem blocks hok hcap table
  by_cases hl : img.Loadable ∧ Room mem img ∧ table = true
  swap
  · obtain ⟨st, -, hrun⟩ := hstop hl
    exact ⟨.error st, mem, hrun, iff_of_true (fun _ _ _ => rfl)
      fun h => hl ⟨h.1, h.2.1, h.2.2.1⟩⟩
  obtain ⟨hl, hroom, ht⟩ := hl
  obtain ⟨st, mem', lo, hi, rs, hrun, hregs, hnil, hst, hiff⟩ :=
    @mapSegments_stops img mem blocks _ (loads_sound hl.good) (loads_pairwise.mpr hl.disjoint) hok
      (by rw [List.length_map]; exact hroom) 0 (BitVec.allOnes 64) 0
  have hload := hgo hl hroom ht
  unfold commit at hload
  rw [hrun, Option.bind_eq_bind, Option.bind_some] at hload
  dsimp only at hload
  have hlate : LateCollision mem img blocks ↔ st = .range ∧ rs ≠ [] := by
    rw [lateCollision_iff]
    constructor
    · rintro ⟨n, hn⟩
      obtain ⟨hr, hlen⟩ := (hiff (n + 1)).mpr hn
      refine ⟨hr, ?_⟩
      rintro rfl
      cases hlen
    · rintro ⟨hr, hne⟩
      obtain ⟨r, rs, rfl⟩ := List.exists_cons_of_ne_nil hne
      exact ⟨rs.length, (hiff _).mp ⟨hr, rfl⟩⟩
  have hchanged : rs ≠ [] → mem' ≠ mem := by
    intro hne he
    rw [he] at hregs
    exact hne (List.self_eq_append_right.mp hregs)
  by_cases hs : st = .ok
  · rw [if_pos hs] at hload
    refine ⟨_, _, hload, iff_of_true (fun st h => by cases h) fun h => ?_⟩
    have := (hlate.mp h.2.2.2).1
    rw [hs] at this
    cases this
  · rw [if_neg hs] at hload
    refine ⟨_, _, hload, ?_⟩
    rw [not_and, not_and, not_and]
    constructor
    · intro h _ _ _ hc
      obtain ⟨hr, hne⟩ := hlate.mp hc
      exact hchanged hne (h st rfl (by rw [hr]; exact Status.noConfusion))
    · intro h st' he hnm
      cases he
      have hc := h hl hroom ht
      rw [hlate] at hc
      have hr : st = .range := (hst.resolve_left hs).resolve_right hnm
      exact hnil (not_not.mp fun hne => hc ⟨hr, hne⟩)

/-- a region in the way of the only segment -/
theorem elf_load_atomic_small : ∃ res mem',
    load ⟨[⟨0x1000, 0x1000, 7, 0, true⟩], 2, fun _ => 0⟩ smallImage true (fun _ => some 0x100) =
      some (res, mem') ∧ ∀ st, res = .error st → st ≠ .noMemory →
        mem' = ⟨[⟨0x1000, 0x1000, 7, 0, true⟩], 2, fun _ => 0⟩ := by
  obtain ⟨res, mem', hrun, hiff⟩ := elf_load_atomic ⟨[⟨0x1000, 0x1000, 7, 0, true⟩], 2, fun _ => 0⟩
    smallImage true (fun _ => some 0x100)
    ⟨by decide, by decide, by decide, by decide, List.pairwise_singleton _ _⟩ (by decide)
  refine ⟨res, mem', hrun, hiff.mpr ?_⟩
  rintro ⟨-, -, -, n, p, hp, -⟩
  rw [smallImage_loads] at hp
  cases hp

def refusal : Except Status ElfImage → Option Status
  | .ok _ => none
  | .error st => some st

/-- a region at `0x2000` is in the way of the second segment -/
theorem load_half : ¬ ∀ (mem : Memory) (img : Image) (blocks : Nat → Option Nat),
    mem.Ok → mem.capacity < 2 ^ 32 → ∀ res mem', load mem img true blocks = some (res, mem') →
      ∀ st, res = .error st → st ≠ .noMemory → mem' = mem := by
  intro h
  have hrun : (load ⟨[⟨0x2000, 0x1000, 7, 0, true⟩], 4, fun _ => 0⟩ pairImage true
      fun k => some (0x10000 * (k + 1))).map (fun q => (refusal q.1, q.2.regions.length)) =
        some (some .range, 2) := by
    decide +kernel
  obtain ⟨⟨res, mem'⟩, hload, hq⟩ := Option.map_eq_some_iff.mp hrun
  have hok : Memory.Ok ⟨[⟨0x2000, 0x1000, 7, 0, true⟩], 4, fun _ => 0⟩ := by
    refine ⟨?_, ?_, ?_, ?_, List.pairwise_singleton _ _⟩
    · decide
    · decide
    · decide
    · decide
  cases res with
  | ok out => cases hq
  | error st =>
    have hst : st = .range := Option.some.inj (congrArg Prod.fst hq)
    have hlen : mem'.regions.length = 2 := congrArg Prod.snd hq
    rw [h _ _ _ hok (by decide) _ _ hload st rfl (by rw [hst]; exact Status.noConfusion)] at hlen
    exact absurd hlen (by decide)

end Elf

end Oemu
