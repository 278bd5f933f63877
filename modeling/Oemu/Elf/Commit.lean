import Oemu.Elf.Load

/-!
# Mapping the segments of a file

A file that is taken is mapped one region a segment.  The loader checks its segments against each
other and the table against its room, but never a segment against the regions that are there already;
that is left to the mapper, segment by segment.

* `checkOverlap_eq`    the check of the segments against each other;
* `mapSegments_ok`     segments that meet no region are mapped, each with its bytes;
* `mapSegments_stops`  where the mapper stops otherwise;
* `load_eq`            which files reach the mapper.
-/

namespace Oemu

open LittleEndian

namespace Elf

variable {img : Image} {mem : Memory} {blocks : Nat → Option Nat}

/-- the guest range of a segment -/
def Segment.span (s : Segment) : Span := ⟨s.vaddr.toNat, s.memsz.toNat⟩

/-- a segment that passed -/
structure Sound (img : Image) (s : Segment) : Prop where
  memsz : 0 < s.memsz.toNat
  perms : s.perms ≠ 0
  filesz : s.filesz.toNat ≤ s.memsz.toNat
  slice : s.offset.toNat + s.filesz.toNat ≤ img.bytes.length
  top : s.vaddr.toNat + s.memsz.toNat < 2 ^ 64

theorem segment_span {p : Phdr} (hf : Fits p) : (segment p).span = p.span := by
  unfold Segment.span Phdr.span segment
  dsimp only
  rw [toNat_ofNat hf.vaddr, toNat_ofNat hf.memsz]

theorem segment_sound {p : Phdr} (hf : Fits p) (hl : p.Loads) (hg : p.Good img.bytes.length) :
    Sound img (segment p) where
  memsz := by
    show 0 < (BitVec.ofNat 64 p.memsz).toNat
    rw [toNat_ofNat hf.memsz]
    exact Nat.pos_of_ne_zero hl.2
  perms := (perms_ne_zero p).mpr hg.flags
  filesz := by
    show (BitVec.ofNat 64 p.filesz).toNat ≤ (BitVec.ofNat 64 p.memsz).toNat
    rw [toNat_ofNat hf.memsz, toNat_ofNat hf.filesz]
    exact hg.filesz
  slice := by
    show (BitVec.ofNat 64 p.offset).toNat + (BitVec.ofNat 64 p.filesz).toNat ≤ img.bytes.length
    rw [toNat_ofNat hf.offset, toNat_ofNat hf.filesz]
    exact hg.slice
  top := by
    show (BitVec.ofNat 64 p.vaddr).toNat + (BitVec.ofNat 64 p.memsz).toNat < 2 ^ 64
    rw [toNat_ofNat hf.vaddr, toNat_ofNat hf.memsz]
    exact hg.top

/-! ## the segments against each other -/

theorem rangesOverlap_eq {s t : Segment} (hs : Sound img s) (ht : Sound img t) :
    ∃ b, rangesOverlap s.vaddr s.memsz t.vaddr t.memsz = some b ∧
      (b = false ↔ s.span.Apart t.span) := by
  have hs0 := hs.memsz
  have ht0 := ht.memsz
  have hsn : ¬ (s.memsz = 0 ∨ t.memsz = 0) := by
    rintro (h | h)
    · rw [h] at hs0
      exact absurd hs0 (by decide)
    · rw [h] at ht0
      exact absurd ht0 (by decide)
  have ha : s.span.Apart t.span ↔ s.vaddr.toNat + s.memsz.toNat ≤ t.vaddr.toNat ∨
      t.vaddr.toNat + t.memsz.toNat ≤ s.vaddr.toNat := Iff.rfl
  unfold rangesOverlap
  rw [if_neg hsn, sum_eq ht.top, Option.bind_eq_bind, Option.bind_some]
  by_cases h : s.vaddr < BitVec.ofNat 64 (t.vaddr.toNat + t.memsz.toNat)
  · rw [if_pos h, sum_eq hs.top, Option.bind_some]
    refine ⟨_, rfl, ?_⟩
    rw [BitVec.lt_def, toNat_ofNat ht.top] at h
    rw [decide_eq_false_iff_not, BitVec.lt_def, toNat_ofNat hs.top, ha]
    omega
  · rw [if_neg h]
    refine ⟨false, rfl, ?_⟩
    rw [BitVec.lt_def, toNat_ofNat ht.top] at h
    rw [ha]
    exact iff_of_true rfl (by omega)

theorem overlapsLater_eq {s : Segment} (hs : Sound img s) {ts : List Segment}
    (ht : ∀ t ∈ ts, Sound img t) :
    ∃ b, overlapsLater s ts = some b ∧ (b = false ↔ ∀ t ∈ ts, s.span.Apart t.span) := by
  induction ts with
  | nil => exact ⟨false, rfl, by simp⟩
  | cons t ts ih =>
    obtain ⟨b, hb, hiff⟩ := rangesOverlap_eq hs (ht t List.mem_cons_self)
    obtain ⟨c, hc, hrest⟩ := ih fun t hm => ht t (List.mem_cons_of_mem _ hm)
    have hstep : overlapsLater s (t :: ts) = if b then some true else overlapsLater s ts :=
      congrArg (Option.bind · _) hb
    rw [hstep, List.forall_mem_cons, ← hiff, ← hrest]
    cases b with
    | true => exact ⟨true, rfl, by simp⟩
    | false => exact ⟨c, hc, by simp⟩

theorem checkOverlap_eq {segs : List Segment} (h : ∀ s ∈ segs, Sound img s) :
    ∃ st, checkOverlap segs = some st ∧
      (st = .ok ↔ segs.Pairwise fun s t => s.span.Apart t.span) ∧ (st = .ok ∨ st = .range) := by
  induction segs with
  | nil => exact ⟨.ok, rfl, by simp, .inl rfl⟩
  | cons s ts ih =>
    obtain ⟨b, hb, hiff⟩ := overlapsLater_eq (h s List.mem_cons_self)
      fun t hm => h t (List.mem_cons_of_mem _ hm)
    obtain ⟨st, hst, hrest, hor⟩ := ih fun t hm => h t (List.mem_cons_of_mem _ hm)
    have hstep : checkOverlap (s :: ts) = if b then some .range else checkOverlap ts :=
      congrArg (Option.bind · _) hb
    rw [hstep, List.pairwise_cons, ← hiff]
    cases b with
    | true => exact ⟨.range, rfl, by simp, .inr rfl⟩
    | false => exact ⟨st, hst, by simpa using hrest, hor⟩

/-! ## one segment -/

/-- a segment that meets no region -/
def Free (mem : Memory) (s : Segment) : Prop := ∀ r ∈ mem.regions, s.span.Apart r.span

/-- the memory with a segment mapped at `host` -/
def mapped (img : Image) (mem : Memory) (s : Segment) (host : Nat) : Memory where
  regions := mem.regions ++ [⟨s.vaddr, s.memsz, s.perms, host, true⟩]
  capacity := mem.capacity
  heap i := if host ≤ i ∧ i < host + s.memsz.toNat then
      (if i - host < s.filesz.toNat then img.octet (s.offset.toNat + (i - host)) else 0)
    else mem.heap i

theorem Sound.checkMap {s : Segment} (hs : Sound img s)
    (hroom : mem.regions.length < mem.capacity) :
    mem.checkMap s.vaddr s.memsz s.perms = if (mem.regions.any fun r =>
      Memory.rangesOverlap s.vaddr s.memsz r.gva r.size) = true then .range else .ok := by
  have htop := hs.top
  unfold Memory.checkMap
  rw [checkMapArgs_eq_ok hs.memsz hs.perms (by omega)]
  dsimp only
  rw [if_neg (by omega)]

theorem Sound.any_iff {s : Segment} (hs : Sound img s) (hok : mem.Ok) :
    (mem.regions.any fun r => Memory.rangesOverlap s.vaddr s.memsz r.gva r.size) = false ↔
      Free mem s := by
  rw [List.any_eq_false]
  constructor
  · intro h r hr
    exact rangesOverlap_apart (Bool.eq_false_iff.mpr (h r hr))
  · intro h r hr
    exact Bool.eq_false_iff.mp
      (rangesOverlap_of_apart hs.memsz (Span.Table.nonempty hok r hr) (h r hr))

theorem slice_eq {off n : W64} (h : off.toNat + n.toNat ≤ img.bytes.length) :
    ∃ src, img.slice off n = some src ∧ src.length = n.toNat ∧
      ∀ i, src.getD i 0 = if i < n.toNat then img.octet (off.toNat + i) else 0 := by
  have hlen : ((img.bytes.drop off.toNat).take n.toNat).length = n.toNat := by
    rw [List.length_take, List.length_drop]
    omega
  refine ⟨_, if_pos h, hlen, fun i => ?_⟩
  unfold Image.octet
  rw [List.getD_eq_getElem?_getD, List.getD_eq_getElem?_getD, List.getElem?_take,
    List.getElem?_drop]
  split <;> rfl

theorem Sound.mapImage {s : Segment} (hs : Sound img s) (hok : mem.Ok)
    (hroom : mem.regions.length < mem.capacity) (block : Option Nat) :
    ∃ src, img.slice s.offset s.filesz = some src ∧
      (¬ Free mem s → mem.mapImage block s.vaddr s.memsz s.perms src = (.range, mem)) ∧
      (Free mem s → block = none →
        mem.mapImage block s.vaddr s.memsz s.perms src = (.noMemory, mem)) ∧
      ∀ host, Free mem s → block = some host →
        mem.mapImage block s.vaddr s.memsz s.perms src = (.ok, mapped img mem s host) := by
  obtain ⟨src, hsrc, hlen, hget⟩ := slice_eq hs.slice
  have hfit : ¬ src.length > s.memsz.toNat := by
    have := hs.filesz
    omega
  have hcheck := hs.checkMap hroom
  have hfree : Free mem s → mem.checkMap s.vaddr s.memsz s.perms = .ok := by
    intro hf
    rw [hcheck, (hs.any_iff hok).mpr hf]
    rfl
  refine ⟨src, hsrc, fun hf => ?_, fun hf hb => ?_, fun host hf hb => ?_⟩
  · have hany : (mem.regions.any fun r => Memory.rangesOverlap s.vaddr s.memsz r.gva r.size) =
        true := by
      rw [← Bool.not_eq_false, hs.any_iff hok]
      exact hf
    unfold Memory.mapImage
    rw [hcheck, hany]
    rfl
  · subst hb
    unfold Memory.mapImage
    rw [hfree hf]
    dsimp only
    rw [if_neg hfit]
  · subst hb
    unfold Memory.mapImage
    rw [hfree hf]
    dsimp only
    rw [if_neg hfit]
    refine congrArg (Prod.mk Status.ok) ?_
    unfold mapped
    refine congrArg (Memory.mk _ _) ?_
    funext i
    rw [hget]

theorem mapped_ok {s : Segment} (hs : Sound img s) (hok : mem.Ok)
    (hroom : mem.regions.length < mem.capacity) (hf : Free mem s) (host : Nat) :
    (mapped img mem s host).Ok := by
  refine hok.snoc ?_ host true
  rw [hs.checkMap hroom, (hs.any_iff hok).mpr hf]
  rfl

theorem free_mapped {s t : Segment} (hst : s.span.Apart t.span) (host : Nat) :
    Free (mapped img mem s host) t ↔ Free mem t := by
  show (∀ r ∈ mem.regions ++ [_], _) ↔ _
  rw [List.forall_mem_append, List.forall_mem_singleton]
  exact ⟨fun h => h.1, fun h => ⟨h, hst.symm⟩⟩

/-! ## all segments -/

/-- a region with the bytes of a segment -/
structure Backed (img : Image) (heap : Nat → BitVec 8) (s : Segment) (r : Region) : Prop where
  gva : r.gva = s.vaddr
  size : r.size = s.memsz
  perms : r.perms = s.perms
  owned : r.owned = true
  contents : ∀ x < s.memsz.toNat,
    heap (r.host + x) = if x < s.filesz.toNat then img.octet (s.offset.toNat + x) else 0

/-- blocks that the allocator grants to segments, none of which meets another -/
structure Grants (blocks : Nat → Option Nat) (k : Nat) (sizes : List Nat) : Prop where
  granted : ∀ i < sizes.length, blocks (k + i) ≠ none
  apart : ∀ i j m n b c, i < j → sizes[i]? = some m → sizes[j]? = some n →
    blocks (k + i) = some b → blocks (k + j) = some c → Span.Apart ⟨b, m⟩ ⟨c, n⟩

theorem Grants.tail {k m : Nat} {sizes : List Nat} (h : Grants blocks k (m :: sizes)) :
    Grants blocks (k + 1) sizes where
  granted i hi := by
    have := h.granted (i + 1) (by rw [List.length_cons]; omega)
    rwa [← Nat.add_assoc, Nat.add_right_comm] at this
  apart i j m n b c hij hm hn hb hc := by
    refine h.apart (i + 1) (j + 1) m n b c (by omega) hm hn ?_ ?_
    · rwa [← Nat.add_assoc, Nat.add_right_comm]
    · rwa [← Nat.add_assoc, Nat.add_right_comm]

/-- the extremes of the addresses so far and those of the segments -/
structure Extent (segs : List Segment) (lo hi lo' hi' : W64) : Prop where
  low : ∀ s ∈ segs, lo'.toNat ≤ s.vaddr.toNat
  high : ∀ s ∈ segs, s.vaddr.toNat + s.memsz.toNat ≤ hi'.toNat
  lowest : lo' = lo ∨ ∃ s ∈ segs, lo'.toNat = s.vaddr.toNat
  highest : hi' = hi ∨ ∃ s ∈ segs, hi'.toNat = s.vaddr.toNat + s.memsz.toNat
  below : lo'.toNat ≤ lo.toNat
  above : hi.toNat ≤ hi'.toNat

theorem Extent.cons {s : Segment} {segs : List Segment} {lo hi lo' hi' : W64} (hs : Sound img s)
    (h : Extent segs (if s.vaddr < lo then s.vaddr else lo)
      (if BitVec.ofNat 64 (s.vaddr.toNat + s.memsz.toNat) > hi then
        BitVec.ofNat 64 (s.vaddr.toNat + s.memsz.toNat) else hi) lo' hi') :
    Extent (s :: segs) lo hi lo' hi' := by
  have htop : (BitVec.ofNat 64 (s.vaddr.toNat + s.memsz.toNat)).toNat =
      s.vaddr.toNat + s.memsz.toNat := toNat_ofNat hs.top
  obtain ⟨hlow, hhigh, hlowest, hhighest, hbelow, habove⟩ := h
  generalize BitVec.ofNat 64 (s.vaddr.toNat + s.memsz.toNat) = top at *
  have hlo : (if s.vaddr < lo then s.vaddr else lo) = s.vaddr ∧ s.vaddr.toNat < lo.toNat ∨
      (if s.vaddr < lo then s.vaddr else lo) = lo ∧ lo.toNat ≤ s.vaddr.toNat := by
    by_cases h : s.vaddr < lo
    · exact .inl ⟨if_pos h, h⟩
    · exact .inr ⟨if_neg h, Nat.le_of_not_lt h⟩
  have hhi : (if top > hi then top else hi) = top ∧ hi.toNat < top.toNat ∨
      (if top > hi then top else hi) = hi ∧ top.toNat ≤ hi.toNat := by
    by_cases h : top > hi
    · exact .inl ⟨if_pos h, h⟩
    · exact .inr ⟨if_neg h, Nat.le_of_not_lt h⟩
  refine ⟨?_, ?_, ?_, ?_, ?_, ?_⟩
  · rw [List.forall_mem_cons]
    refine ⟨?_, hlow⟩
    rcases hlo with ⟨e, h⟩ | ⟨e, h⟩ <;> rw [e] at hbelow <;> omega
  · rw [List.forall_mem_cons]
    refine ⟨?_, hhigh⟩
    rcases hhi with ⟨e, h⟩ | ⟨e, h⟩ <;> rw [e] at habove <;> omega
  · rcases hlowest with h | ⟨t, ht, h⟩
    · rcases hlo with ⟨e, -⟩ | ⟨e, -⟩
      · exact .inr ⟨s, List.mem_cons_self, by rw [h, e]⟩
      · exact .inl (h.trans e)
    · exact .inr ⟨t, List.mem_cons_of_mem _ ht, h⟩
  · rcases hhighest with h | ⟨t, ht, h⟩
    · rcases hhi with ⟨e, -⟩ | ⟨e, -⟩
      · exact .inr ⟨s, List.mem_cons_self, by rw [h, e, htop]⟩
      · exact .inl (h.trans e)
    · exact .inr ⟨t, List.mem_cons_of_mem _ ht, h⟩
  · rcases hlo with ⟨e, h⟩ | ⟨e, h⟩ <;> rw [e] at hbelow <;> omega
  · rcases hhi with ⟨e, h⟩ | ⟨e, h⟩ <;> rw [e] at habove <;> omega

variable {segs : List Segment}

theorem mapSegments_cons {s : Segment} (hs : Sound img s) {src : List (BitVec 8)}
    (hsrc : img.slice s.offset s.filesz = some src) {k : Nat} {lo hi : W64} {st : Status}
    {mem' : Memory} (hm : mem.mapImage (blocks k) s.vaddr s.memsz s.perms src = (st, mem')) :
    mapSegments img blocks (s :: segs) k mem lo hi =
      if st ≠ .ok then some (st, mem', lo, hi)
      else mapSegments img blocks segs (k + 1) mem' (if s.vaddr < lo then s.vaddr else lo)
        (if BitVec.ofNat 64 (s.vaddr.toNat + s.memsz.toNat) > hi then
          BitVec.ofNat 64 (s.vaddr.toNat + s.memsz.toNat) else hi) := by
  rw [mapSegments, hsrc, Option.bind_eq_bind, Option.bind_some, hm]
  dsimp only
  rw [sum_eq hs.top]
  rfl

/-- **segments that meet no region are mapped**, one region each, and nothing else changes -/
theorem mapSegments_ok (h : ∀ s ∈ segs, Sound img s)
    (hpair : segs.Pairwise fun s t => s.span.Apart t.span) (hok : mem.Ok)
    (hroom : mem.regions.length + segs.length ≤ mem.capacity) (hfree : ∀ s ∈ segs, Free mem s)
    {k : Nat} (hg : Grants blocks k (segs.map fun s => s.memsz.toNat)) (lo hi : W64) :
    ∃ mem' lo' hi' rs, mapSegments img blocks segs k mem lo hi = some (.ok, mem', lo', hi') ∧
      mem'.capacity = mem.capacity ∧ mem'.regions = mem.regions ++ rs ∧
      List.Forall₂ (Backed img mem'.heap) segs rs ∧
      (∀ i r, rs[i]? = some r → blocks (k + i) = some r.host) ∧
      (∀ a, (∀ r ∈ rs, ¬ r.window.Covers a 1) → mem'.heap a = mem.heap a) ∧
      Extent segs lo hi lo' hi' := by
  induction segs generalizing k mem lo hi with
  | nil =>
    refine ⟨mem, lo, hi, [], rfl, rfl, (List.append_nil _).symm, .nil, ?_, fun _ _ => rfl, ?_⟩
    · intro i r hr
      cases hr
    · exact ⟨by simp, by simp, .inl rfl, .inl rfl, Nat.le_refl _, Nat.le_refl _⟩
  | cons s segs ih =>
    have hs := h s List.mem_cons_self
    have hf := hfree s List.mem_cons_self
    rw [List.length_cons] at hroom
    obtain ⟨host, hhost⟩ := Option.ne_none_iff_exists'.mp (hg.granted 0 (by simp))
    rw [Nat.add_zero] at hhost
    obtain ⟨src, hsrc, -, -, hmap⟩ := @Sound.mapImage img mem s hs hok (by omega) (blocks k)
    obtain ⟨hap, hpair⟩ := List.pairwise_cons.mp hpair
    obtain ⟨mem', lo', hi', rs, hrun, hcap, hregs, hback, hhosts, hframe, hext⟩ :=
      @ih (mapped img mem s host) (fun t ht => h t (List.mem_cons_of_mem _ ht)) hpair
        (mapped_ok hs hok (by omega) hf host)
        (by
          show (mem.regions ++ [_]).length + segs.length ≤ mem.capacity
          rw [List.length_append, List.length_singleton]
          omega)
        (fun t ht => (free_mapped (hap t ht) host).mpr (hfree t (List.mem_cons_of_mem _ ht)))
        (k + 1) hg.tail _ _
    refine ⟨mem', lo', hi', ⟨s.vaddr, s.memsz, s.perms, host, true⟩ :: rs, ?_, hcap, ?_, ?_, ?_, ?_,
      hext.cons hs⟩
    · rw [mapSegments_cons hs hsrc (hmap host hf hhost), if_neg (not_not_intro rfl)]
      exact hrun
    · rw [hregs]
      exact List.append_assoc _ _ _
    · refine .cons ⟨rfl, rfl, rfl, rfl, fun x hx => ?_⟩ hback
      -- the later blocks do not meet this one
      have hout : ∀ r ∈ rs, ¬ r.window.Covers (host + x) 1 := by
        intro r hr hc
        obtain ⟨i, hi, rfl⟩ := List.getElem_of_mem hr
        have hlen : i < segs.length := hback.length_eq ▸ hi
        have hsize : rs[i].size.toNat = segs[i].memsz.toNat := by
          have := (List.forall₂_iff_get.mp hback).2 i hlen hi
          exact congrArg BitVec.toNat this.size
        have hap' := hg.apart 0 (i + 1) s.memsz.toNat segs[i].memsz.toNat host
          rs[i].host (by omega) rfl (by simp [hlen])
          (by rw [Nat.add_zero]; exact hhost) (by
            have := hhosts i _ (List.getElem?_eq_getElem hi)
            rwa [Nat.add_right_comm, Nat.add_assoc] at this)
        have hc : rs[i].host ≤ host + x ∧ host + x + 1 ≤ rs[i].host + rs[i].size.toNat := hc
        have hap' : host + s.memsz.toNat ≤ rs[i].host ∨
          rs[i].host + segs[i].memsz.toNat ≤ host := hap'
        omega
      rw [hframe _ hout]
      show (if host ≤ host + x ∧ host + x < host + s.memsz.toNat then _ else _) = _
      rw [if_pos (by omega), Nat.add_sub_cancel_left]
    · intro i r hr
      cases i with
      | zero =>
        cases hr
        exact hhost
      | succ i =>
        have := hhosts i r hr
        rwa [Nat.add_right_comm, Nat.add_assoc] at this
    · intro a ha
      obtain ⟨ha0, ha⟩ := List.forall_mem_cons.mp ha
      rw [hframe a ha]
      refine if_neg fun hc => ha0 ?_
      exact ⟨hc.1, hc.2⟩

/-- segment `n` is the first that a region is in the way of, and no block is refused before it -/
def Collides (mem : Memory) (blocks : Nat → Option Nat) (k : Nat) (segs : List Segment) (n : Nat) :
    Prop :=
  ∃ s, segs[n]? = some s ∧ ¬ Free mem s ∧
    ∀ j < n, (∀ t, segs[j]? = some t → Free mem t) ∧ blocks (k + j) ≠ none

/-- **the mapper stops at the first segment in collision**, with the ones before it mapped -/
theorem mapSegments_stops (h : ∀ s ∈ segs, Sound img s)
    (hpair : segs.Pairwise fun s t => s.span.Apart t.span) (hok : mem.Ok)
    (hroom : mem.regions.length + segs.length ≤ mem.capacity) (k : Nat) (lo hi : W64) :
    ∃ st mem' lo' hi' rs, mapSegments img blocks segs k mem lo hi = some (st, mem', lo', hi') ∧
      mem'.regions = mem.regions ++ rs ∧ (rs = [] → mem' = mem) ∧
      (st = .ok ∨ st = .range ∨ st = .noMemory) ∧
      ∀ n, st = .range ∧ rs.length = n ↔ Collides mem blocks k segs n := by
  induction segs generalizing k mem lo hi with
  | nil =>
    refine ⟨.ok, mem, lo, hi, [], rfl, (List.append_nil _).symm, fun _ => rfl, .inl rfl, ?_⟩
    intro n
    refine iff_of_false (fun h => Status.noConfusion h.1) ?_
    rintro ⟨s, hs, -⟩
    cases hs
  | cons s segs ih =>
    have hs := h s List.mem_cons_self
    rw [List.length_cons] at hroom
    obtain ⟨src, hsrc, hmeet, hnone, hmap⟩ := @Sound.mapImage img mem s hs hok (by omega) (blocks k)
    obtain ⟨hap, hpair⟩ := List.pairwise_cons.mp hpair
    by_cases hf : Free mem s
    · have hzero : ¬ Collides mem blocks k (s :: segs) 0 := by
        rintro ⟨t, ht, hnf, -⟩
        cases ht
        exact hnf hf
      cases hb : blocks k with
      | none =>
        refine ⟨.noMemory, mem, lo, hi, [], ?_, (List.append_nil _).symm, fun _ => rfl,
          .inr (.inr rfl), ?_⟩
        · rw [mapSegments_cons hs hsrc (hnone hf hb), if_pos (by decide)]
        · intro n
          refine iff_of_false (fun h => Status.noConfusion h.1) ?_
          cases n with
          | zero => exact hzero
          | succ n =>
            rintro ⟨t, -, -, hbefore⟩
            exact (hbefore 0 (by omega)).2 hb
      | some host =>
        obtain ⟨st, mem', lo', hi', rs, hrun, hregs, -, hst, hiff⟩ :=
          @ih (mapped img mem s host) (fun t ht => h t (List.mem_cons_of_mem _ ht)) hpair
            (mapped_ok hs hok (by omega) hf host)
            (by
              show (mem.regions ++ [_]).length + segs.length ≤ mem.capacity
              rw [List.length_append, List.length_singleton]
              omega)
            (k + 1) (if s.vaddr < lo then s.vaddr else lo)
            (if BitVec.ofNat 64 (s.vaddr.toNat + s.memsz.toNat) > hi then
              BitVec.ofNat 64 (s.vaddr.toNat + s.memsz.toNat) else hi)
        refine ⟨st, mem', lo', hi', ⟨s.vaddr, s.memsz, s.perms, host, true⟩ :: rs, ?_, ?_,
          fun hnil => (by cases hnil), hst, ?_⟩
        · rw [mapSegments_cons hs hsrc (hmap host hf hb), if_neg (not_not_intro rfl)]
          exact hrun
        · rw [hregs]
          exact List.append_assoc _ _ _
        · intro n
          cases n with
          | zero => exact iff_of_false (fun h => by cases h.2) hzero
          | succ n =>
            rw [List.length_cons, Nat.add_right_cancel_iff, hiff n]
            have hfm : ∀ t ∈ segs, (Free (mapped img mem s host) t ↔ Free mem t) :=
              fun t ht => free_mapped (hap t ht) host
            constructor
            · rintro ⟨t, ht, hnf, hbefore⟩
              refine ⟨t, ht, fun hft => hnf ((hfm t (List.mem_of_getElem? ht)).mpr hft), ?_⟩
              intro j hj
              cases j with
              | zero =>
                refine ⟨fun t ht => ?_, by rw [Nat.add_zero, hb]; exact Option.some_ne_none _⟩
                cases ht
                exact hf
              | succ j =>
                obtain ⟨hfj, hbj⟩ := hbefore j (by omega)
                refine ⟨fun u hu => ?_, ?_⟩
                · exact (hfm u (List.mem_of_getElem? hu)).mp (hfj u hu)
                · rwa [Nat.add_right_comm, Nat.add_assoc] at hbj
            · rintro ⟨t, ht, hnf, hbefore⟩
              refine ⟨t, ht, fun hft => hnf ((hfm t (List.mem_of_getElem? ht)).mp hft), ?_⟩
              intro j hj
              obtain ⟨hfj, hbj⟩ := hbefore (j + 1) (by omega)
              refine ⟨fun u hu => ?_, ?_⟩
              · exact (hfm u (List.mem_of_getElem? hu)).mpr (hfj u hu)
              · rwa [← Nat.add_assoc, Nat.add_right_comm] at hbj
    · refine ⟨.range, mem, lo, hi, [], ?_, (List.append_nil _).symm, fun _ => rfl, .inr (.inl rfl), ?_⟩
      · rw [mapSegments_cons hs hsrc (hmeet hf), if_pos (by decide)]
      · intro n
        cases n with
        | zero => exact iff_of_true ⟨rfl, rfl⟩ ⟨s, rfl, hf, fun j hj => absurd hj (Nat.not_lt_zero j)⟩
        | succ n =>
          refine iff_of_false (fun h => by cases h.2) ?_
          rintro ⟨t, -, -, hbefore⟩
          exact hf ((hbefore 0 (by omega)).1 s rfl)

/-! ## the loader -/

theorem num2_lt (img : Image) (off : Nat) : img.num off 2 < 2 ^ 16 := img.num_lt off 2

theorem loads_length (img : Image) : img.loads.length ≤ img.phnum := by
  refine (List.length_filter_le _ _).trans ?_
  rw [List.length_map, List.length_range]

theorem loads_sound (hg : ∀ p ∈ img.loads, p.Good img.bytes.length) :
    ∀ s ∈ img.loads.map segment, Sound img s := by
  intro s hs
  obtain ⟨p, hp, rfl⟩ := List.mem_map.mp hs
  obtain ⟨hfits, hl⟩ := loads_fits hp
  exact segment_sound hfits hl (hg p hp)

theorem loads_pairwise : (img.loads.map segment).Pairwise (fun s t => s.span.Apart t.span) ↔
    img.loads.Pairwise fun p q => p.span.Apart q.span := by
  rw [List.pairwise_map]
  refine List.Pairwise.iff_of_mem fun {p q} hp hq => ?_
  rw [segment_span (loads_fits hp).1,
    segment_span (loads_fits hq).1]

def Room (mem : Memory) (img : Image) : Prop :=
  mem.regions.length + img.loads.length ≤ mem.capacity

/-- from the table on, in the order of the checks -/
theorem loadTable_eq (hok : mem.Ok) (hcap : mem.capacity < 2 ^ 32) {phoff : W64}
    (hp : phoff.toNat = img.phoff) (htable : img.phoff + 56 * img.phnum ≤ img.bytes.length)
    (table : Bool) (entry : W64) :
    (img.loads ≠ [] → Room mem img → table = true → (∀ p ∈ img.loads, p.Good img.bytes.length) →
      (img.loads.Pairwise fun p q => p.span.Apart q.span) →
      loadTable img table blocks mem entry phoff img.phnum =
        commit img blocks mem entry (img.loads.map segment)) ∧
    (¬ (img.loads ≠ [] ∧ Room mem img ∧ table = true ∧ (∀ p ∈ img.loads, p.Good img.bytes.length) ∧
        img.loads.Pairwise fun p q => p.span.Apart q.span) →
      ∃ st, st ≠ .ok ∧
        loadTable img table blocks mem entry phoff img.phnum = some (.error st, mem)) := by
  have hnum := num2_lt img 56
  have hlen := loads_length img
  have hlen16 : img.loads.length < 2 ^ 16 := lt_of_le_of_lt hlen hnum
  have hregs : mem.regions.length ≤ mem.capacity := hok.room
  have hin : ∀ i ∈ List.range img.phnum, img.phoff + 56 * (i + 1) ≤ img.bytes.length := by
    intro i hi
    have := List.mem_range.mp hi
    omega
  have hr : (BitVec.ofNat 64 mem.regions.length).toNat = mem.regions.length := toNat_ofNat (by omega)
  have hl : (BitVec.ofNat 64 img.loads.length).toNat = img.loads.length := toNat_ofNat (by omega)
  have hc : (BitVec.ofNat 64 mem.capacity).toNat = mem.capacity := toNat_ofNat (by omega)
  have h40 : (40 : W64).toNat = 40 := rfl
  have hcount := countLoads_eq hp hin 0
  rw [loads_eq, Nat.zero_add] at hcount
  have hsum := @sum_eq (BitVec.ofNat 64 mem.regions.length) (BitVec.ofNat 64 img.loads.length)
    (by omega)
  have hprod := @prod_eq (BitVec.ofNat 64 img.loads.length) 40 (by
    rw [hl, h40]
    omega)
  obtain ⟨hgood, hbad⟩ := @fillSegments_eq img phoff (List.range img.phnum) hp hin
    img.loads.length [] (by rw [loads_eq, List.length_nil, Nat.zero_add])
  rw [loads_eq] at hgood hbad
  rw [hr, hl] at hsum
  have hgt : BitVec.ofNat 64 (mem.regions.length + img.loads.length) >
      BitVec.ofNat 64 mem.capacity ↔ ¬ Room mem img := by
    rw [gt_iff_lt, BitVec.lt_def, hc, toNat_ofNat (by omega)]
    unfold Room
    omega
  have hstep : loadTable img table blocks mem entry phoff img.phnum =
      if img.loads.length = 0 then some (.error .invalidArg, mem)
      else if BitVec.ofNat 64 (mem.regions.length + img.loads.length) >
          BitVec.ofNat 64 mem.capacity then some (.error .range, mem)
      else if !table then some (.error .noMemory, mem)
      else (fillSegments img phoff img.loads.length (List.range img.phnum) []).bind fun q =>
        if q.1 ≠ .ok then some (.error q.1, mem)
        else (checkOverlap q.2).bind fun st =>
          if st ≠ .ok then some (.error st, mem) else commit img blocks mem entry q.2 := by
    unfold loadTable
    rw [hcount, Option.bind_eq_bind, Option.bind_some, hsum, hprod]
    rfl
  rw [hstep]
  by_cases hne : img.loads = []
  · rw [hne]
    exact ⟨fun h => absurd rfl h, fun _ => ⟨.invalidArg, by decide, rfl⟩⟩
  by_cases hroom : Room mem img
  swap
  · rw [if_neg (by rwa [List.length_eq_zero_iff]), if_pos (hgt.mpr hroom)]
    exact ⟨fun _ h => absurd h hroom, fun _ => ⟨.range, by decide, rfl⟩⟩
  rw [if_neg (by rwa [List.length_eq_zero_iff]), if_neg (fun h => hgt.mp h hroom)]
  cases table with
  | false => exact ⟨fun _ _ h => (by cases h), fun _ => ⟨.noMemory, by decide, rfl⟩⟩
  | true =>
    rw [if_neg (by decide)]
    by_cases hg : ∀ p ∈ img.loads, p.Good img.bytes.length
    swap
    · obtain ⟨st, segs, hst, hfill⟩ := hbad hg
      rw [hfill, Option.bind_some, if_pos hst]
      exact ⟨fun _ _ _ h => absurd h hg, fun _ => ⟨st, hst, rfl⟩⟩
    rw [hgood hg, Option.bind_some, if_neg (not_not_intro rfl), List.nil_append]
    obtain ⟨st, hst, hpair, -⟩ := checkOverlap_eq (loads_sound hg)
    rw [loads_pairwise] at hpair
    rw [hst, Option.bind_some]
    by_cases hpw : img.loads.Pairwise fun p q => p.span.Apart q.span
    · rw [if_neg (not_not_intro (hpair.mpr hpw))]
      exact ⟨fun _ _ _ _ _ => rfl, fun h => absurd ⟨hne, hroom, rfl, hg, hpw⟩ h⟩
    · have hno : st ≠ .ok := fun h => hpw (hpair.mp h)
      rw [if_pos hno]
      exact ⟨fun _ _ _ _ h => absurd h hpw, fun _ => ⟨st, hno, rfl⟩⟩

theorem some_fails {a b c d : Prop} : ¬ a ∨ ¬ b ∨ ¬ c ∨ ¬ d ↔ ¬ (a ∧ b ∧ c ∧ d) := by
  tauto

/-- from an identified file on, in the order of the checks -/
theorem loadHeader_eq (h64 : 64 ≤ img.bytes.length) (table : Bool) :
    (img.octet 4 = 2 ∧ img.octet 5 = 1 ∧ img.num 16 2 = 2 ∧ img.num 18 2 = 183 →
      img.num 54 2 = 56 → img.phnum ≠ 0 → img.phoff + 56 * img.phnum ≤ img.bytes.length →
      loadHeader img table blocks mem = loadTable img table blocks mem
        (BitVec.ofNat 64 img.entry) (BitVec.ofNat 64 img.phoff) img.phnum) ∧
    (¬ ((img.octet 4 = 2 ∧ img.octet 5 = 1 ∧ img.num 16 2 = 2 ∧ img.num 18 2 = 183) ∧
        img.num 54 2 = 56 ∧ img.phnum ≠ 0 ∧ img.phoff + 56 * img.phnum ≤ img.bytes.length) →
      ∃ st, st ≠ .ok ∧ loadHeader img table blocks mem = some (.error st, mem)) := by
  have f16 : ∀ off : W64, off.toNat + 2 ≤ 64 → rd16 img off =
      some (.ok, BitVec.ofNat 16 (img.num off.toNat 2)) := fun off h => rd16_eq (by omega)
  have f64 : ∀ off : W64, off.toNat + 8 ≤ 64 → rd64 img off =
      some (.ok, BitVec.ofNat 64 (img.num off.toNat 8)) := fun off h => rd64_eq (by omega)
  have fb : ∀ off : W64, off.toNat < 64 → img.byte off = some (img.octet off.toNat) :=
    fun off h => Image.byte_eq (by omega)
  have htype : BitVec.ofNat 16 (img.num 16 2) = 2 ↔ img.num 16 2 = 2 :=
    ofNat_inj (num2_lt img 16) (by decide)
  have hmachine : BitVec.ofNat 16 (img.num 18 2) = 183 ↔ img.num 18 2 = 183 :=
    ofNat_inj (num2_lt img 18) (by decide)
  have hent : BitVec.ofNat 16 (img.num 54 2) = 56 ↔ img.num 54 2 = 56 :=
    ofNat_inj (num2_lt img 54) (by decide)
  have hnum : BitVec.ofNat 16 (img.num 56 2) = 0 ↔ img.phnum = 0 :=
    ofNat_inj (num2_lt img 56) (by decide)
  have hphoff : (BitVec.ofNat 64 (img.num 32 8)).toNat = img.phoff := toNat_ofNat (img.num_lt 32 8)
  have hphnum : ((BitVec.ofNat 16 (img.num 56 2)).setWidth 64).toNat = img.phnum := by
    rw [BitVec.toNat_setWidth, toNat_ofNat (num2_lt img 56), Nat.mod_eq_of_lt]
    · rfl
    · have := num2_lt img 56
      omega
  have hstep : loadHeader img table blocks mem =
      if img.octet 4 ≠ 2 ∨ img.octet 5 ≠ 1 ∨ BitVec.ofNat 16 (img.num 16 2) ≠ 2 ∨
          BitVec.ofNat 16 (img.num 18 2) ≠ 183 then some (.error .unsupported, mem)
      else if BitVec.ofNat 16 (img.num 54 2) ≠ 56 ∨ BitVec.ofNat 16 (img.num 56 2) = 0 then
        some (.error .invalidArg, mem)
      else if (BitVec.ofNat 16 (img.num 56 2)).setWidth 64 > BitVec.allOnes 64 / 56 then
        some (.error .invalidArg, mem)
      else (prod ((BitVec.ofNat 16 (img.num 56 2)).setWidth 64) 56).bind fun tableBytes =>
        if BitVec.ofNat 64 (img.num 32 8) > BitVec.allOnes 64 - tableBytes then
          some (.error .invalidArg, mem)
        else (sum (BitVec.ofNat 64 (img.num 32 8)) tableBytes).bind fun tableTop =>
          if tableTop > img.size then some (.error .invalidArg, mem)
          else loadTable img table blocks mem (BitVec.ofNat 64 (img.num 24 8))
            (BitVec.ofNat 64 (img.num 32 8))
            ((BitVec.ofNat 16 (img.num 56 2)).setWidth 64).toNat := by
    unfold loadHeader
    rw [f16 16 (by decide), f16 18 (by decide), f64 24 (by decide), f64 32 (by decide),
      f16 54 (by decide), f16 56 (by decide), fb 4 (by decide), fb 5 (by decide)]
    rfl
  rw [hstep, hphnum]
  by_cases hid : img.octet 4 = 2 ∧ img.octet 5 = 1 ∧ img.num 16 2 = 2 ∧ img.num 18 2 = 183
  swap
  · rw [if_pos (some_fails.mpr (by rwa [htype, hmachine]))]
    exact ⟨fun h => absurd h hid, fun h => ⟨.unsupported, by decide, rfl⟩⟩
  rw [if_neg (fun h => some_fails.mp h (by rwa [htype, hmachine]))]
  by_cases htab : img.num 54 2 = 56 ∧ img.phnum ≠ 0
  swap
  · have hbad : BitVec.ofNat 16 (img.num 54 2) ≠ 56 ∨ BitVec.ofNat 16 (img.num 56 2) = 0 := by
      rcases not_and_or.mp htab with h | h
      · exact .inl fun he => h (hent.mp he)
      · exact .inr (hnum.mpr (not_not.mp h))
    rw [if_pos hbad]
    exact ⟨fun _ h1 h2 => absurd ⟨h1, h2⟩ htab, fun _ => ⟨.invalidArg, by decide, rfl⟩⟩
  have hgood : ¬ (BitVec.ofNat 16 (img.num 54 2) ≠ 56 ∨ BitVec.ofNat 16 (img.num 56 2) = 0) := by
    rintro (h | h)
    · exact h (hent.mpr htab.1)
    · exact htab.2 (hnum.mp h)
  rw [if_neg hgood]
  have hlt : img.phnum < 2 ^ 16 := num2_lt img 56
  have h56 : (56 : W64).toNat = 56 := rfl
  have hfew : ¬ (BitVec.ofNat 16 (img.num 56 2)).setWidth 64 > BitVec.allOnes 64 / 56 := by
    have hq : (BitVec.allOnes 64 / 56).toNat = (2 ^ 64 - 1) / 56 := by decide
    rw [gt_iff_lt, BitVec.lt_def, hphnum, hq]
    omega
  rw [if_neg hfew, prod_eq (by rw [hphnum, h56]; omega), Option.bind_some, hphnum, h56]
  have hbytes : (BitVec.ofNat 64 (img.phnum * 56)).toNat = img.phnum * 56 :=
    toNat_ofNat (by omega)
  have hle : BitVec.ofNat 64 (img.phnum * 56) ≤ BitVec.allOnes 64 := by
    rw [BitVec.le_def, BitVec.toNat_allOnes, hbytes]
    omega
  have hfits := img.fits
  by_cases hwrap : BitVec.ofNat 64 (img.num 32 8) >
      BitVec.allOnes 64 - BitVec.ofNat 64 (img.phnum * 56)
  · have hno : ¬ img.phoff + 56 * img.phnum ≤ img.bytes.length := by
      rw [gt_iff_lt, BitVec.lt_def, BitVec.toNat_sub_of_le hle, BitVec.toNat_allOnes, hbytes,
        hphoff] at hwrap
      omega
    rw [if_pos hwrap]
    exact ⟨fun _ _ _ h => absurd h hno, fun _ => ⟨.invalidArg, by decide, rfl⟩⟩
  · have hsum : img.phoff + img.phnum * 56 < 2 ^ 64 := by
      rw [gt_iff_lt, BitVec.lt_def, BitVec.toNat_sub_of_le hle, BitVec.toNat_allOnes, hbytes,
        hphoff] at hwrap
      omega
    rw [if_neg hwrap, sum_eq (by rw [hphoff, hbytes]; exact hsum), Option.bind_some, hphoff, hbytes]
    have htop : BitVec.ofNat 64 (img.phoff + img.phnum * 56) > img.size ↔
        ¬ img.phoff + 56 * img.phnum ≤ img.bytes.length := by
      rw [gt_iff_lt, BitVec.lt_def, toNat_ofNat hsum, Image.size_toNat]
      omega
    by_cases hin : img.phoff + 56 * img.phnum ≤ img.bytes.length
    · rw [if_neg (fun h => htop.mp h hin)]
      exact ⟨fun _ _ _ _ => rfl, fun h => absurd ⟨hid, htab.1, htab.2, hin⟩ h⟩
    · rw [if_pos (htop.mpr hin)]
      exact ⟨fun _ _ _ h => absurd h hin, fun _ => ⟨.invalidArg, by decide, rfl⟩⟩

/-- **which files reach the mapper**, and that the others leave everything as it was -/
theorem load_eq (hok : mem.Ok) (hcap : mem.capacity < 2 ^ 32) (table : Bool) :
    (img.Loadable → Room mem img → table = true → load mem img table blocks =
      commit img blocks mem (BitVec.ofNat 64 img.entry) (img.loads.map segment)) ∧
    (¬ (img.Loadable ∧ Room mem img ∧ table = true) →
      ∃ st, st ≠ .ok ∧ load mem img table blocks = some (.error st, mem)) := by
  by_cases h64 : 64 ≤ img.bytes.length
  swap
  · have hshort : img.size < 64 := by
      rw [BitVec.lt_def, Image.size_toNat]
      exact Nat.lt_of_not_le h64
    unfold load
    rw [if_pos hshort]
    exact ⟨fun h => absurd h.header.length h64, fun _ => ⟨.invalidArg, by decide, rfl⟩⟩
  have hlong : ¬ img.size < 64 := by
    rw [BitVec.lt_def, Image.size_toNat]
    exact Nat.not_lt.mpr h64
  have fb : ∀ off : W64, off.toNat < 64 → img.byte off = some (img.octet off.toNat) :=
    fun off h => Image.byte_eq (by omega)
  have hstep : load mem img table blocks =
      if img.octet 0 ≠ 0x7F ∨ img.octet 1 ≠ 0x45 ∨ img.octet 2 ≠ 0x4C ∨ img.octet 3 ≠ 0x46 then
        some (.error .invalidArg, mem)
      else loadHeader img table blocks mem := by
    unfold load
    rw [if_neg hlong, fb 0 (by decide), fb 1 (by decide), fb 2 (by decide), fb 3 (by decide)]
    rfl
  rw [hstep]
  by_cases hm : img.octet 0 = 0x7F ∧ img.octet 1 = 0x45 ∧ img.octet 2 = 0x4C ∧ img.octet 3 = 0x46
  swap
  · rw [if_pos (some_fails.mpr hm)]
    exact ⟨fun h => absurd h.header.magic hm, fun _ => ⟨.invalidArg, by decide, rfl⟩⟩
  rw [if_neg (fun h => some_fails.mp h hm)]
  obtain ⟨hacc, href⟩ := @loadHeader_eq img mem blocks h64 table
  by_cases hh : (img.octet 4 = 2 ∧ img.octet 5 = 1 ∧ img.num 16 2 = 2 ∧ img.num 18 2 = 183) ∧
      img.num 54 2 = 56 ∧ img.phnum ≠ 0 ∧ img.phoff + 56 * img.phnum ≤ img.bytes.length
  swap
  · refine ⟨fun hl => absurd ?_ hh, fun _ => href hh⟩
    have h := hl.header
    refine ⟨⟨h.format, h.order, h.type, h.machine⟩, h.phentsize, fun h0 => hl.nonempty ?_, h.table⟩
    exact List.length_eq_zero_iff.mp (Nat.le_zero.mp (h0 ▸ loads_length img))
  obtain ⟨hid, hent, hnum, htab⟩ := hh
  rw [hacc hid hent hnum htab]
  have hp : (BitVec.ofNat 64 img.phoff).toNat = img.phoff := toNat_ofNat (img.num_lt 32 8)
  obtain ⟨hgo, hstop⟩ := @loadTable_eq img mem blocks hok hcap _ hp htab table
    (BitVec.ofNat 64 img.entry)
  have hheader : img.Header := ⟨h64, hm, hid.1, hid.2.1, hid.2.2.1, hid.2.2.2, hent, htab⟩
  refine ⟨fun hl hr ht => hgo hl.nonempty hr ht hl.good hl.disjoint, fun h => hstop ?_⟩
  rintro ⟨hne, hr, ht, hg, hd⟩
  exact h ⟨⟨hheader, hne, hg, hd⟩, hr, ht⟩

end Elf

end Oemu
