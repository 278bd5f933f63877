import Oemu.Process
import Oemu.Elf.Atomic
import Oemu.ByteBuffer.Contents
import Oemu.Memory.View

/-!
# How a process starts

* `readFile_spec`    a file that is read is in the buffer, byte for byte;
* `loaded_fresh`     what the loader leaves in a memory of its own;
* `process_starts`   which files start, and what they start with.
-/

namespace Oemu

namespace Process

open Elf LittleEndian

/-! ## the file -/

theorem readTurn_shrinks (chunks : Nat → NewBlock) :
    Consume.Shrinks (Consume.guarded (readTurn chunks)) fun r => r.rest.length := by
  intro r r' h
  rw [Consume.guarded_next] at h
  unfold readTurn at h
  dsimp only at h
  split at h
  · rename_i hpos
    split at h
    · cases h
      rw [List.length_take] at hpos
      show (r.rest.drop chunkSize).length < r.rest.length
      rw [List.length_drop]
      unfold chunkSize at *
      omega
    · cases h
    · cases h
  · cases h

theorem readTurn_spec {chunks : Nat → NewBlock} {r : Reading} (hs : r.buf.Sound) :
    ∃ t, readTurn chunks r = some t ∧
      (∀ r', t = .inr r' → r'.buf.Sound ∧ r'.buf.contents ++ r'.rest = r.buf.contents ++ r.rest) ∧
      ∀ b, t = .inl (.ok, b) → b.contents = r.buf.contents ++ r.rest := by
  unfold readTurn
  dsimp only
  have hle : (r.rest.take chunkSize).length ≤ 4096 := by
    rw [List.length_take]
    exact Nat.min_le_left _ _
  by_cases hpos : (r.rest.take chunkSize).length > 0
  · rw [if_pos hpos]
    have hsize : (BitVec.ofNat 64 (r.rest.take chunkSize).length).toNat =
        (r.rest.take chunkSize).length := toNat_ofNat (by omega)
    have hbytes : ByteBuffer.bytesAt (some fun i => (r.rest.take chunkSize).getD i 0)
        (BitVec.ofNat 64 (r.rest.take chunkSize).length) = r.rest.take chunkSize := by
      unfold ByteBuffer.bytesAt
      dsimp only
      rw [hsize, Buffer.readout_getD]
    rcases ByteBuffer.append_spec hs (some fun i => (r.rest.take chunkSize).getD i 0)
      (BitVec.ofNat 64 (r.rest.take chunkSize).length) (chunks r.count) with
      ⟨st, hst, ha⟩ | ⟨b, ha, hb, hc⟩
    · rw [ha]
      cases st with
      | ok => exact absurd rfl hst
      | _ => exact ⟨_, rfl, nofun, nofun⟩
    · rw [ha]
      refine ⟨_, rfl, ?_, nofun⟩
      rintro r' hr
      cases hr
      refine ⟨hb, ?_⟩
      show b.contents ++ r.rest.drop chunkSize = _
      rw [hc, hbytes, List.append_assoc, List.take_append_drop]
  · rw [if_neg hpos]
    refine ⟨_, rfl, nofun, ?_⟩
    rintro b hb
    cases hb
    have hnil : r.rest = [] := by
      cases hr : r.rest with
      | nil => rfl
      | cons x l =>
        rw [hr] at hpos
        exact absurd (by simp [chunkSize]) hpos
    rw [hnil, List.append_nil]

theorem readLoop_spec (chunks : Nat → NewBlock) {r : Reading} (hs : r.buf.Sound) :
    ∃ st b, readLoop chunks r = some (st, b) ∧
      (st = .ok → b.contents = r.buf.contents ++ r.rest) := by
  have hinv : ∀ r', Consume.Visits (Consume.guarded (readTurn chunks)) r r' →
      r'.buf.Sound ∧ r'.buf.contents ++ r'.rest = r.buf.contents ++ r.rest := by
    intro r' hv
    induction hv with
    | refl => exact ⟨hs, rfl⟩
    | @tail a b _ ht ih =>
      obtain ⟨t, hturn, hnext, -⟩ := @readTurn_spec chunks _ ih.1
      have hb : readTurn chunks a = some (.inr b) := Consume.guarded_next.mp ht
      rw [hturn] at hb
      obtain ⟨h1, h2⟩ := hnext b (Option.some.inj hb)
      exact ⟨h1, h2.trans ih.2⟩
  obtain ⟨r', res, hv, hret, hloop⟩ := @Consume.loop_ends _ _ _ none _ (readTurn_shrinks chunks) r
  obtain ⟨h1, h2⟩ := hinv r' hv
  obtain ⟨t, hturn, -, hdone⟩ := @readTurn_spec chunks _ h1
  cases res with
  | none =>
    rw [Consume.guarded_none.mp hret] at hturn
    cases hturn
  | some p =>
    obtain ⟨st, b⟩ := p
    refine ⟨st, b, hloop, ?_⟩
    rintro rfl
    rw [Consume.guarded_some.mp hret] at hturn
    rw [hdone b (Option.some.inj hturn).symm, h2]

/-- **a file that is read is in the buffer**, in whatever chunks it came -/
theorem readFile_spec (h : Host) :
    ∃ b buf, readFile h ByteBuffer.empty = some (b, buf) ∧
      (b = true → ∃ f, h.file = some f ∧ buf.contents = f.bytes) := by
  unfold readFile
  cases h.file with
  | none => exact ⟨false, _, rfl, nofun⟩
  | some f =>
    obtain ⟨st, buf, hl, hok⟩ := readLoop_spec h.chunks (r := ⟨f.bytes, 0, ByteBuffer.empty⟩)
      ByteBuffer.empty_sound
    dsimp only
    rw [hl]
    refine ⟨_, _, rfl, ?_⟩
    intro hb
    exact ⟨f, rfl, hok (of_decide_eq_true hb).1⟩

/-! ## the segments -/

section

variable {img : Image} {blocks : Nat → Option Nat}

theorem mapImage_none (mem : Memory) (gva size : W64) (perms : W32) (src : List (BitVec 8)) :
    (mem.mapImage none gva size perms src).1 ≠ .ok := by
  unfold Memory.mapImage
  cases hc : mem.checkMap gva size perms with
  | ok =>
    dsimp only
    split <;> nofun
  | _ => nofun

theorem mapSegments_granted {segs : List Segment} {k : Nat} {mem mem' : Memory} {lo hi lo' hi' : W64}
    (h : mapSegments img blocks segs k mem lo hi = some (.ok, mem', lo', hi')) :
    ∀ i < segs.length, blocks (k + i) ≠ none := by
  induction segs generalizing k mem lo hi with
  | nil => exact fun i hi => absurd hi (Nat.not_lt_zero i)
  | cons s segs ih =>
    unfold mapSegments at h
    simp only [Option.bind_eq_bind, Option.bind_eq_some_iff] at h
    obtain ⟨src, -, h⟩ := h
    split at h
    · rename_i hst
      rw [(Prod.mk.inj (Option.some.inj h)).1] at hst
      exact absurd rfl hst
    · rename_i hst
      rw [Option.bind_eq_some_iff] at h
      obtain ⟨top, -, h⟩ := h
      have hrest := ih h
      intro i hi
      cases i with
      | zero =>
        intro hnone
        apply hst
        rw [Nat.add_zero] at hnone
        rw [hnone]
        exact mapImage_none mem _ _ _ src
      | succ i =>
        have := hrest i (by rw [List.length_cons] at hi; omega)
        rwa [Nat.add_right_comm, Nat.add_assoc] at this

theorem mapSegments_tableOk {segs : List Segment} {k : Nat} {mem mem' : Memory}
    {lo hi lo' hi' : W64} {st : Status} (hok : mem.Ok)
    (h : mapSegments img blocks segs k mem lo hi = some (st, mem', lo', hi')) : mem'.Ok := by
  induction segs generalizing k mem lo hi with
  | nil =>
    obtain ⟨-, hm⟩ := Prod.mk.inj (Option.some.inj h)
    rw [← (Prod.mk.inj hm).1]
    exact hok
  | cons s segs ih =>
    unfold mapSegments at h
    simp only [Option.bind_eq_bind, Option.bind_eq_some_iff] at h
    obtain ⟨src, -, h⟩ := h
    have hok' : (mem.mapImage (blocks k) s.vaddr s.memsz s.perms src).2.Ok :=
      hok.call (.mapImage (blocks k) s.vaddr s.memsz s.perms (some src))
    split at h
    · obtain ⟨-, hm⟩ := Prod.mk.inj (Option.some.inj h)
      rw [← (Prod.mk.inj hm).1]
      exact hok'
    · rw [Option.bind_eq_some_iff] at h
      obtain ⟨top, -, h⟩ := h
      exact ih hok' h

/-- blocks the allocator has handed out do not meet -/
def Fresh (blocks : Nat → Option Nat) (sizes : List Nat) : Prop :=
  ∀ i j m n b c, i < j → sizes[i]? = some m → sizes[j]? = some n →
    blocks i = some b → blocks j = some c → Span.Apart ⟨b, m⟩ ⟨c, n⟩

/-- a memory with the segments of a file and nothing else -/
structure Segmented (img : Image) (blocks : Nat → Option Nat) (out : ElfImage) (mem : Memory) :
    Prop where
  ok : mem.Ok
  capacity : mem.capacity = regionCapacity
  shows : List.Forall₂ (Elf.Shows img mem.heap) img.loads mem.regions
  hosts : ∀ i r, mem.regions[i]? = some r → blocks i = some r.host
  entry : out.entry = BitVec.ofNat 64 img.entry
  top : ∀ p ∈ img.loads, p.vaddr + p.memsz ≤ out.loadMax.toNat
  reached : ∃ p ∈ img.loads, out.loadMax.toNat = p.vaddr + p.memsz

/-- **what the loader leaves in a memory of its own**, and when it does -/
theorem loaded_fresh (heap : Nat → BitVec 8) (table : Bool)
    (hfresh : Fresh blocks (img.loads.map Phdr.memsz)) :
    (∀ out mem', load ⟨[], regionCapacity, heap⟩ img table blocks = some (.ok out, mem') →
        Segmented img blocks out mem') ∧
      ((∃ out mem', load ⟨[], regionCapacity, heap⟩ img table blocks = some (.ok out, mem')) ↔
        img.Loadable ∧ img.loads.length ≤ regionCapacity ∧ table = true ∧
          ∀ i < img.loads.length, blocks i ≠ none) := by
  obtain ⟨mem, hmem⟩ : ∃ mem : Memory, mem = ⟨[], regionCapacity, heap⟩ := ⟨_, rfl⟩
  have hnew : mem.regions = [] := by rw [hmem]
  have hcap : mem.capacity = regionCapacity := by rw [hmem]
  have hok : mem.Ok := by
    rw [hmem]
    exact .nil _
  rw [← hmem]
  obtain ⟨hgo, hstop⟩ := @load_eq img mem blocks hok (by rw [hcap]; decide) table
  have hroom : Room mem img ↔ img.loads.length ≤ regionCapacity := by
    unfold Room
    rw [hnew, hcap, List.length_nil, Nat.zero_add]
  by_cases hl : img.Loadable ∧ Room mem img ∧ table = true
  swap
  · obtain ⟨st, -, hrun⟩ := hstop hl
    constructor
    · intro out mem' h
      rw [hrun] at h
      cases h
    · refine iff_of_false ?_ fun h => hl ⟨h.1, hroom.mpr h.2.1, h.2.2.1⟩
      rintro ⟨out, mem', h⟩
      rw [hrun] at h
      cases h
  obtain ⟨hl, hr, ht⟩ := hl
  have hcommit := hgo hl hr ht
  have hsizes : (img.loads.map segment).map (fun s => s.memsz.toNat) = img.loads.map Phdr.memsz := by
    rw [List.map_map]
    exact List.map_congr_left fun p hp => toNat_ofNat (loads_fits hp).1.memsz
  by_cases hg : ∀ i < img.loads.length, blocks i ≠ none
  · have hgrants : Grants blocks 0 ((img.loads.map segment).map fun s => s.memsz.toNat) := by
      rw [hsizes]
      refine ⟨?_, ?_⟩
      · intro i hi
        rw [Nat.zero_add]
        exact hg i (by simpa using hi)
      · intro i j m n b c hij hm hn hb hc
        rw [Nat.zero_add] at hb hc
        exact hfresh i j m n b c hij hm hn hb hc
    obtain ⟨mem', lo, hi, rs, hrun, hcapacity, hregs, hback, hhosts, -, hext⟩ :=
      mapSegments_ok (loads_sound hl.good) (loads_pairwise.mpr hl.disjoint) hok
        (by rw [List.length_map]; exact hr)
        (fun s _ r hr => by rw [hnew] at hr; cases hr) hgrants (BitVec.allOnes 64) 0
    have hload : load mem img table blocks = some (.ok ⟨BitVec.ofNat 64 img.entry, lo, hi,
        BitVec.ofNat 32 (img.loads.map segment).length⟩, mem') := by
      rw [hcommit]
      unfold commit
      rw [hrun]
      rfl
    refine ⟨?_, iff_of_true ⟨_, _, hload⟩ ⟨hl, hroom.mp hr, ht, hg⟩⟩
    intro out mem'' h
    rw [hload] at h
    obtain ⟨hout, hmem⟩ := Prod.mk.inj (Option.some.inj h)
    obtain rfl := Except.ok.inj hout
    subst hmem
    rw [hnew, List.nil_append] at hregs
    subst hregs
    have hfits : ∀ p ∈ img.loads, Fits p := fun p hp => (loads_fits hp).1
    have hv : ∀ p ∈ img.loads, (segment p).vaddr.toNat = p.vaddr :=
      fun p hp => toNat_ofNat (hfits p hp).vaddr
    have hm : ∀ p ∈ img.loads, (segment p).memsz.toNat = p.memsz :=
      fun p hp => toNat_ofNat (hfits p hp).memsz
    refine ⟨mapSegments_tableOk hok hrun, hcapacity.trans hcap, ?_, ?_, rfl, ?_, ?_⟩
    · rw [List.forall₂_map_left_iff] at hback
      refine List.forall₂_iff_zip.mpr ⟨hback.length_eq, fun {p r} hpr => ?_⟩
      exact backed_shows (hfits p (List.of_mem_zip hpr).1)
        ((List.forall₂_iff_zip.mp hback).2 hpr)
    · intro i r hir
      have := hhosts i r hir
      rwa [Nat.zero_add] at this
    · intro p hp
      rw [← hv p hp, ← hm p hp]
      exact hext.high _ (List.mem_map_of_mem hp)
    · rcases hext.highest with h | ⟨s, hs, h⟩
      · obtain ⟨p₀, hp₀⟩ := List.exists_mem_of_ne_nil _ hl.nonempty
        have h1 := hext.high _ (List.mem_map_of_mem hp₀)
        have h3 := (loads_fits hp₀).2.2
        rw [hv p₀ hp₀, hm p₀ hp₀, h, show (0 : W64).toNat = 0 from rfl] at h1
        omega
      · obtain ⟨p, hp, rfl⟩ := List.mem_map.mp hs
        exact ⟨p, hp, by rw [← hv p hp, ← hm p hp]; exact h⟩
  · have hno : ∀ out mem', load mem img table blocks ≠ some (.ok out, mem') := by
      intro out mem' h
      rw [hcommit] at h
      unfold commit at h
      simp only [Option.bind_eq_bind, Option.bind_eq_some_iff] at h
      obtain ⟨⟨st, mem₁, lo, hi⟩, hrun, h⟩ := h
      dsimp only at h
      by_cases hst : st = .ok
      · subst hst
        refine hg fun i hi => ?_
        have := mapSegments_granted hrun i (by rwa [List.length_map])
        rwa [Nat.zero_add] at this
      · rw [if_neg hst] at h
        cases (Prod.mk.inj (Option.some.inj h)).1
    exact ⟨fun out mem' h => absurd h (hno out mem'),
      iff_of_false (fun ⟨out, mem', h⟩ => hno out mem' h) fun h => hg h.2.2.2⟩

end

/-! ## the stack -/

theorem toNat_and_not_ones (a : W64) (k : Nat) :
    (a &&& ~~~BitVec.ofNat 64 (2 ^ k - 1)).toNat = a.toNat / 2 ^ k * 2 ^ k := by
  have hshift : a &&& ~~~BitVec.ofNat 64 (2 ^ k - 1) = (a >>> k) <<< k := by
    apply BitVec.eq_of_getLsbD_eq
    intro i hi
    rw [BitVec.getLsbD_and, BitVec.getLsbD_not, BitVec.getLsbD_ofNat, Nat.testBit_two_pow_sub_one,
      BitVec.getLsbD_shiftLeft, BitVec.getLsbD_ushiftRight]
    by_cases h : i < k
    · simp [hi, h]
    · simp [hi, h, Nat.add_sub_cancel' (Nat.le_of_not_lt h)]
  have hlt : a.toNat / 2 ^ k * 2 ^ k < 2 ^ 64 := (Nat.div_mul_le_self _ _).trans_lt a.isLt
  rw [hshift, BitVec.toNat_shiftLeft, BitVec.toNat_ushiftRight, Nat.shiftLeft_eq,
    Nat.shiftRight_eq_div_pow, Nat.mod_eq_of_lt hlt]

theorem toNat_stackSize : stackSize.toNat = 0x100000 := rfl

theorem toNat_stackPlace : stackPlace.toNat = 0x10000000 := rfl

/-- where the stack goes: past an image that leaves room for it, and to its usual place past one that
does not -/
theorem stackBaseFor_spec (out : ElfImage) :
    (out.loadMax.toNat ≤ 2 ^ 64 - 2 * 0x100000 →
      out.loadMax.toNat ≤ (stackBaseFor out).toNat ∧
        (stackBaseFor out).toNat + 0x100000 ≤ 2 ^ 64) ∧
      (2 ^ 64 - 2 * 0x100000 < out.loadMax.toNat → stackBaseFor out = stackPlace) ∧
      (stackBaseFor out).toNat % 0x100000 = 0 := by
  have hones : stackSize - 1 = BitVec.ofNat 64 (2 ^ 20 - 1) := rfl
  have hv := out.loadMax.isLt
  have hup : (alignUp out.loadMax stackSize).toNat =
      (out.loadMax.toNat + 0xFFFFF) % 2 ^ 64 / 2 ^ 20 * 2 ^ 20 := by
    unfold alignUp
    rw [hones, toNat_and_not_ones _ 20, BitVec.toNat_add]
    rfl
  have hjust : (alignUp out.loadMax stackSize + stackSize).toNat =
      ((out.loadMax.toNat + 0xFFFFF) % 2 ^ 64 / 2 ^ 20 * 2 ^ 20 + 0x100000) % 2 ^ 64 := by
    rw [BitVec.toNat_add, hup]
    rfl
  unfold stackBaseFor
  dsimp only
  by_cases hgt : alignUp out.loadMax stackSize + stackSize > stackPlace
  · rw [if_pos hgt, hjust]
    rw [gt_iff_lt, BitVec.lt_def, hjust, toNat_stackPlace] at hgt
    refine ⟨?_, ?_, ?_⟩
    · intro h
      omega
    · intro h
      omega
    · omega
  · rw [if_neg hgt]
    rw [gt_iff_lt, BitVec.lt_def, hjust, toNat_stackPlace] at hgt
    refine ⟨?_, fun _ => rfl, rfl⟩
    intro h
    rw [toNat_stackPlace]
    omega

theorem map_ok_iff {mem : Memory} (hok : mem.Ok) (block : Option Nat) (gva size : W64)
    (perms : W32) (hs : 0 < size.toNat) (hp : perms ≠ 0) :
    (mem.map block gva size perms).1 = .ok ↔
      mem.regions.length < mem.capacity ∧ gva.toNat + size.toNat ≤ 2 ^ 64 ∧
        (∀ r ∈ mem.regions, r.span.Apart ⟨gva.toNat, size.toNat⟩) ∧ block ≠ none := by
  have hsize : ¬ ([] : List (BitVec 8)).length > size.toNat := Nat.not_lt_zero _
  unfold Memory.map Memory.mapImage
  constructor
  · intro h
    cases hc : mem.checkMap gva size perms with
    | ok =>
      rw [hc] at h
      dsimp only at h
      rw [if_neg hsize] at h
      obtain ⟨hroom, -, -, htop, hap⟩ := Memory.checkMap_ok hc
      refine ⟨hroom, htop, fun r hr => (hap r hr).symm, ?_⟩
      rintro rfl
      cases h
    | _ =>
      rw [hc] at h
      cases h
  · rintro ⟨hroom, htop, hfree, hb⟩
    have hc : mem.checkMap gva size perms = .ok := by
      unfold Memory.checkMap
      rw [checkMapArgs_eq_ok hs hp htop]
      dsimp only
      rw [if_neg (by omega), if_neg]
      rw [Bool.not_eq_true, List.any_eq_false]
      intro r hr hov
      rw [rangesOverlap_of_apart hs (hok.nonempty r hr) (hfree r hr).symm] at hov
      cases hov
    obtain ⟨c, rfl⟩ := Option.ne_none_iff_exists'.mp hb
    rw [hc]
    dsimp only
    rw [if_neg hsize]

theorem map_done {mem mem' : Memory} {c : Nat} {gva size : W64} {perms : W32}
    (h : mem.map (some c) gva size perms = (.ok, mem')) :
    mem'.regions = mem.regions ++ [⟨gva, size, perms, c, true⟩] ∧ mem'.capacity = mem.capacity ∧
      ∀ i, ¬ (c ≤ i ∧ i < c + size.toNat) → mem'.heap i = mem.heap i := by
  unfold Memory.map Memory.mapImage at h
  cases hc : mem.checkMap gva size perms with
  | ok =>
    rw [hc] at h
    dsimp only at h
    split at h
    · cases (Prod.mk.inj h).1
    · rw [← (Prod.mk.inj h).2]
      exact ⟨rfl, rfl, fun i hi => if_neg hi⟩
  | _ =>
    rw [hc] at h
    cases (Prod.mk.inj h).1

/-- blocks of the allocator for one file: none meets another -/
structure Host.Fresh (h : Host) (img : Image) : Prop where
  segments : Process.Fresh h.segments (img.loads.map Phdr.memsz)
  stack : ∀ i m b c, (img.loads.map Phdr.memsz)[i]? = some m → h.segments i = some b →
    h.stack = some c → Span.Apart ⟨b, m⟩ ⟨c, stackSize.toNat⟩

def stackSpan (base : W64) : Span := ⟨base.toNat, stackSize.toNat⟩

/-- what a file starts with: its segments and a stack that meets none of them, the entry point, and a
stack pointer at the top of the stack -/
structure Started (h : Host) (img : Image) (base : W64) (g : Guest) : Prop where
  pc : g.1.regs.pc = BitVec.ofNat 64 img.entry
  sp : g.1.regs.sp = base + stackSize
  aligned : base.toNat % stackSize.toNat = 0
  top : base.toNat + stackSize.toNat ≤ 2 ^ 64
  clear : ∀ p ∈ img.loads, p.span.Apart (stackSpan base)
  ok : g.2.1.Ok
  regions : ∃ rs c, h.stack = some c ∧
    g.2.1.regions = rs ++ [⟨base, stackSize, permRead ||| permWrite, c, true⟩] ∧
    List.Forall₂ (Elf.Shows img g.2.1.heap) img.loads rs ∧
    ∀ i r, rs[i]? = some r → h.segments i = some r.host
  env : g.2.2 = Sysenv.init (some h.stdout) h.stdout

/-- is there a place for the stack: past the segments, or where it usually is -/
def StackFits (img : Image) : Prop :=
  (∀ p ∈ img.loads, p.vaddr + p.memsz ≤ 2 ^ 64 - 2 * stackSize.toNat) ∨
    ∀ p ∈ img.loads, p.span.Apart (stackSpan stackPlace)

section

variable {h : Host} {img : Image} {out : ElfImage} {mem : Memory}

theorem shows_span {heap : Nat → BitVec 8} {p : Phdr} {r : Region} (hs : Elf.Shows img heap p r) :
    r.span = p.span := by
  unfold Region.span Phdr.span
  rw [hs.base, hs.size]

/-- the regions of the segments meet what the segments meet -/
theorem Segmented.apart_iff {blocks : Nat → Option Nat} (hseg : Segmented img blocks out mem)
    (s : Span) : (∀ r ∈ mem.regions, r.span.Apart s) ↔ ∀ p ∈ img.loads, p.span.Apart s := by
  have hlen := hseg.shows.length_eq
  have hget := (List.forall₂_iff_get.mp hseg.shows).2
  constructor
  · intro hr p hp
    obtain ⟨i, hi, rfl⟩ := List.getElem_of_mem hp
    have hsp : mem.regions[i].span = img.loads[i].span := shows_span (hget i hi (hlen ▸ hi))
    rw [← hsp]
    exact hr _ (List.getElem_mem _)
  · intro hp r hr
    obtain ⟨i, hi, rfl⟩ := List.getElem_of_mem hr
    have hsp : mem.regions[i].span = img.loads[i].span := shows_span (hget i (hlen ▸ hi) hi)
    rw [hsp]
    exact hp _ (List.getElem_mem _)

theorem Segmented.stack_iff {blocks : Nat → Option Nat} (hseg : Segmented img blocks out mem) :
    ((stackBaseFor out).toNat + stackSize.toNat ≤ 2 ^ 64 ∧
      ∀ p ∈ img.loads, p.span.Apart (stackSpan (stackBaseFor out))) ↔ StackFits img := by
  obtain ⟨hlow, hhigh, -⟩ := stackBaseFor_spec out
  obtain ⟨q, hq, hmax⟩ := hseg.reached
  rw [toNat_stackSize]
  by_cases hm : out.loadMax.toNat ≤ 2 ^ 64 - 2 * 0x100000
  · obtain ⟨h1, h2⟩ := hlow hm
    have hall : ∀ p ∈ img.loads, p.vaddr + p.memsz ≤ 2 ^ 64 - 2 * stackSize.toNat :=
      fun p hp => by rw [toNat_stackSize]; exact (hseg.top p hp).trans hm
    refine iff_of_true ⟨h2, fun p hp => ?_⟩ (.inl hall)
    have hbelow : p.vaddr + p.memsz ≤ (stackBaseFor out).toNat := (hseg.top p hp).trans h1
    unfold Span.Apart stackSpan
    dsimp only
    exact .inl hbelow
  · have hb : stackBaseFor out = stackPlace := hhigh (Nat.lt_of_not_le hm)
    rw [hb]
    have hno : ¬ ∀ p ∈ img.loads, p.vaddr + p.memsz ≤ 2 ^ 64 - 2 * stackSize.toNat := by
      intro hall
      have := hall q hq
      rw [toNat_stackSize] at this
      omega
    constructor
    · intro hc
      exact .inr hc.2
    · intro hfits
      exact ⟨by rw [toNat_stackPlace]; omega, hfits.resolve_left hno⟩

end

/-- the pointer to the top of the stack is aligned as it is -/
theorem stack_pointer (out : ElfImage) :
    (stackBaseFor out + stackSize) &&& ~~~(stackAlign - 1) = stackBaseFor out + stackSize := by
  have hal := (stackBaseFor_spec out).2.2
  have hones : stackAlign - 1 = BitVec.ofNat 64 (2 ^ 4 - 1) := rfl
  have hsum : (stackBaseFor out + stackSize).toNat = ((stackBaseFor out).toNat + 0x100000) % 2 ^ 64 := by
    rw [BitVec.toNat_add, toNat_stackSize]
  apply BitVec.eq_of_toNat_eq
  rw [hones, toNat_and_not_ones _ 4, hsum]
  omega

/-- the block of the stack is none of the segments' -/
theorem Segmented.shows_after {h : Host} {img : Image} {out : ElfImage} {mem : Memory}
    (hs : Segmented img h.segments out mem) (hfresh : h.Fresh img) {c : Nat} (hc : h.stack = some c)
    {heap : Nat → BitVec 8}
    (hheap : ∀ i, ¬ (c ≤ i ∧ i < c + stackSize.toNat) → heap i = mem.heap i) :
    List.Forall₂ (Elf.Shows img heap) img.loads mem.regions := by
  have hlen := hs.shows.length_eq
  have hget := (List.forall₂_iff_get.mp hs.shows).2
  refine List.forall₂_iff_get.mpr ⟨hlen, ?_⟩
  intro i h1 h2
  have hshow := hget i h1 h2
  refine ⟨hshow.base, hshow.size, hshow.perms, hshow.owned, ?_⟩
  intro x hx
  rw [← hshow.contents x hx]
  apply hheap
  have hblock := hs.hosts i (mem.regions.get ⟨i, h2⟩) (List.getElem?_eq_getElem h2)
  have hap := hfresh.stack i (img.loads.get ⟨i, h1⟩).memsz _ c
    (by rw [List.getElem?_map, List.getElem?_eq_getElem h1]; rfl) hblock hc
  unfold Span.Apart at hap
  dsimp only at hap
  omega

theorem start_cases {h : Host} {img : Image} {g : Guest} (hg : start h img = some (some g)) :
    ∃ out mem mem', h.table = true ∧
      load ⟨[], regionCapacity, h.heap⟩ img h.loader h.segments = some (.ok out, mem) ∧
      mem.map h.stack (stackBaseFor out) stackSize (permRead ||| permWrite) = (.ok, mem') ∧
      enter h out (.ok, mem') = some g := by
  unfold start at hg
  cases ht : h.table with
  | false =>
    rw [ht] at hg
    cases hg
  | true =>
    have hinit : Memory.init h.heap true regionCapacity = .ok ⟨[], regionCapacity, h.heap⟩ := rfl
    rw [ht, hinit] at hg
    obtain ⟨⟨res, mem⟩, hload, hplace⟩ := Option.map_eq_some_iff.mp hg
    cases res with
    | error st => cases hplace
    | ok out =>
      change enter h out (mem.map h.stack (stackBaseFor out) stackSize (permRead ||| permWrite)) =
        some g at hplace
      rcases hm : mem.map h.stack (stackBaseFor out) stackSize (permRead ||| permWrite) with
        ⟨st, mem'⟩
      rw [hm] at hplace
      cases st <;> first | exact ⟨out, mem, mem', rfl, hload, hm, hplace⟩ | cases hplace

theorem start_eq {h : Host} {img : Image} {out : ElfImage} {mem mem' : Memory}
    (ht : h.table = true)
    (hload : load ⟨[], regionCapacity, h.heap⟩ img h.loader h.segments = some (.ok out, mem))
    (hm : mem.map h.stack (stackBaseFor out) stackSize (permRead ||| permWrite) = (.ok, mem')) :
    start h img = some (enter h out (.ok, mem')) := by
  have hinit : Memory.init h.heap true regionCapacity = .ok ⟨[], regionCapacity, h.heap⟩ := rfl
  unfold start
  rw [ht, hinit]
  dsimp only
  rw [hload, ← hm]
  rfl

theorem started_of_start {h : Host} {img : Image} (hfresh : h.Fresh img) {g : Guest}
    (hg : start h img = some (some g)) : ∃ base, Started h img base g := by
  obtain ⟨out, mem, mem', -, hload, hm, henter⟩ := start_cases hg
  have hs : Segmented img h.segments out mem :=
    (loaded_fresh h.heap h.loader hfresh.segments).1 out mem hload
  have hmap := map_ok_iff hs.ok h.stack (stackBaseFor out) stackSize (permRead ||| permWrite)
    (by decide) (by decide)
  rw [hs.apart_iff, hm] at hmap
  obtain ⟨-, htop, hclear, hblock⟩ := hmap.mp rfl
  obtain ⟨c, hc⟩ := Option.ne_none_iff_exists'.mp hblock
  rw [hc] at hm
  obtain ⟨hregs, -, hheap⟩ := map_done hm
  have hok : mem'.Ok := by
    have := hs.ok.call (.map (some c) (stackBaseFor out) stackSize (permRead ||| permWrite))
    rwa [show mem.call (.map (some c) (stackBaseFor out) stackSize (permRead ||| permWrite)) =
      (Status.ok, mem') from hm] at this
  obtain rfl := Option.some.inj henter
  exact ⟨stackBaseFor out, hs.entry, stack_pointer out, (stackBaseFor_spec out).2.2, htop, hclear,
    hok, ⟨mem.regions, c, hc, hregs, hs.shows_after hfresh hc hheap, hs.hosts⟩, rfl⟩

/-- **which files start, and what they start with**: a file the loader takes, with fewer segments
than the table has room for and a place left for the stack, as long as the allocator answers -/
theorem process_starts (h : Host) (img : Image) (hfresh : h.Fresh img) :
    ((∃ g, start h img = some (some g)) ↔
        h.table = true ∧ h.loader = true ∧ img.Loadable ∧ img.loads.length < regionCapacity ∧
          (∀ i < img.loads.length, h.segments i ≠ none) ∧ h.stack ≠ none ∧ StackFits img) ∧
      ∀ g, start h img = some (some g) → ∃ base, Started h img base g := by
  refine ⟨?_, fun g hg => started_of_start hfresh hg⟩
  obtain ⟨hseg, hiff⟩ := loaded_fresh h.heap h.loader hfresh.segments
  constructor
  · rintro ⟨g, hg⟩
    obtain ⟨out, mem, mem', ht, hload, hm, -⟩ := start_cases hg
    have hs := hseg out mem hload
    obtain ⟨h1, -, h3, h4⟩ := hiff.mp ⟨out, mem, hload⟩
    have hmap := map_ok_iff hs.ok h.stack (stackBaseFor out) stackSize (permRead ||| permWrite)
      (by decide) (by decide)
    rw [hs.capacity, ← hs.shows.length_eq, hs.apart_iff, hm] at hmap
    obtain ⟨hroom, htop, hclear, hblock⟩ := hmap.mp rfl
    exact ⟨ht, h3, h1, hroom, h4, hblock, hs.stack_iff.mp ⟨htop, hclear⟩⟩
  · rintro ⟨ht, h3, h1, hroom, h4, hblock, hfit⟩
    obtain ⟨out, mem, hload⟩ := hiff.mpr ⟨h1, Nat.le_of_lt hroom, h3, h4⟩
    have hs := hseg out mem hload
    obtain ⟨htop, hclear⟩ := hs.stack_iff.mpr hfit
    have hmap := map_ok_iff hs.ok h.stack (stackBaseFor out) stackSize (permRead ||| permWrite)
      (by decide) (by decide)
    rw [hs.capacity, ← hs.shows.length_eq, hs.apart_iff] at hmap
    have hst := hmap.mpr ⟨hroom, htop, hclear, hblock⟩
    rcases hm : mem.map h.stack (stackBaseFor out) stackSize (permRead ||| permWrite) with
      ⟨st, mem'⟩
    rw [hm] at hst
    obtain rfl : st = .ok := hst
    exact ⟨_, start_eq ht hload hm⟩

/-- three instructions behind the headers, at `0x1000` and not for writing: `mov x0, #7`,
`mov x8, #93`, `svc #0` -/
def exitImage : Image where
  bytes := headerBytes 1 ++
    (leBytes 4 1 ++ leBytes 4 5 ++ leBytes 8 120 ++ leBytes 8 0x1000 ++ leBytes 8 0x1000 ++
      leBytes 8 12 ++ leBytes 8 12 ++ leBytes 8 4096) ++
    (leBytes 4 0xD28000E0 ++ leBytes 4 0xD2800BA8 ++ leBytes 4 0xD4000001)
  fits := by decide +kernel

theorem exitImage_loads : exitImage.loads = [⟨1, 5, 120, 0x1000, 12, 12, 4096⟩] := by
  decide +kernel

def exitHost : Host where
  file := some ⟨exitImage.bytes, false⟩
  chunks _ := some fun _ => 0
  heap _ := 0
  table := true
  loader := true
  segments _ := some 0
  stack := some 0x1000
  clock _ := none
  stdout := ⟨[], none⟩

theorem exitHost_fresh : exitHost.Fresh exitImage := by
  constructor
  · rw [exitImage_loads]
    intro i j m n b c hij _ hj
    cases j with
    | zero => exact absurd hij (Nat.not_lt_zero i)
    | succ j => cases hj
  · rw [exitImage_loads]
    intro i m b c hi hb hc
    cases i with
    | zero =>
      obtain rfl := Option.some.inj hi
      obtain rfl := Option.some.inj hb
      obtain rfl := Option.some.inj hc
      exact .inl (by decide)
    | succ i => cases hi

theorem process_starts_exit :
    ∃ base g, start exitHost exitImage = some (some g) ∧ Started exitHost exitImage base g := by
  obtain ⟨hiff, hstarted⟩ := process_starts exitHost exitImage exitHost_fresh
  obtain ⟨g, hg⟩ := hiff.mpr (by
    rw [StackFits, exitImage_loads]
    refine ⟨rfl, rfl, ⟨by constructor <;> decide +kernel, ?_, ?_, ?_⟩, by decide, ?_, ?_, .inr ?_⟩
    · rw [exitImage_loads]
      exact List.cons_ne_nil _ _
    · rw [exitImage_loads]
      intro p hp
      rw [List.mem_singleton.mp hp]
      constructor <;> decide +kernel
    · rw [exitImage_loads]
      exact List.pairwise_singleton _ _
    · exact fun i _ => Option.some_ne_none _
    · exact Option.some_ne_none _
    · intro p hp
      rw [List.mem_singleton.mp hp]
      exact .inl (by decide))
  obtain ⟨base, hs⟩ := hstarted g hg
  exact ⟨base, g, hg, hs⟩

end Process

end Oemu
