import Oemu.Sysenv
import Oemu.Memory.View

/-!
# What `write` emits

A guest range is `Readable` when it lies in one region the guest may read.  `write` copies such a
range to the stream in chunks of a bounce buffer, byte after byte, and refuses any other range before
it emits a byte.

* `readChunk_readable`   a chunk of a readable range is its bytes;
* `writeLoop_readable`   the loop emits the whole range, whatever the chunks are;
* `sysWrite_emits_iff`   the call follows `Emits` exactly when the range is not a readable one that
  ends at the top of the address space.
-/

namespace Oemu

namespace Memory

def bytesFrom (mem : Memory) (a n : Nat) : List (BitVec 8) := (List.range' a n).map mem.view

theorem bytesFrom_zero (mem : Memory) (a : Nat) : mem.bytesFrom a 0 = [] := rfl

theorem bytesFrom_succ (mem : Memory) (a n : Nat) :
    mem.bytesFrom a (n + 1) = mem.view a :: mem.bytesFrom (a + 1) n := rfl

theorem length_bytesFrom (mem : Memory) (a n : Nat) : (mem.bytesFrom a n).length = n := by
  simp [bytesFrom]

theorem bytesFrom_append (mem : Memory) (a n m : Nat) :
    mem.bytesFrom a n ++ mem.bytesFrom (a + n) m = mem.bytesFrom a (n + m) := by
  induction n generalizing a with
  | zero => rw [bytesFrom_zero, List.nil_append, Nat.add_zero, Nat.zero_add]
  | succ n ih =>
    rw [show n + 1 + m = n + m + 1 by omega, bytesFrom_succ, bytesFrom_succ, List.cons_append,
      show a + (n + 1) = a + 1 + n by omega, ih]

/-- the range lies in one region that may be read -/
def Readable (mem : Memory) (a n : Nat) : Prop :=
  ∃ r ∈ mem.regions, r.perms &&& permRead = permRead ∧ r.span.Covers a n

theorem Readable.sub {mem : Memory} {a n b m : Nat} (h : mem.Readable a n) (hb : a ≤ b)
    (hm : b + m ≤ a + n) : mem.Readable b m := by
  obtain ⟨r, hr, hp, hc⟩ := h
  exact ⟨r, hr, hp, hc.sub hb hm⟩

theorem Readable.top {mem : Memory} (hok : mem.Ok) {a n : Nat} (h : mem.Readable a n) :
    a + n ≤ 2 ^ 64 := by
  obtain ⟨r, hr, -, hc⟩ := h
  have hbelow := hok.below r hr
  unfold Span.Covers at hc
  omega

theorem validate_readable {mem : Memory} (hok : mem.Ok) {a n : W64} (hn : n ≠ 0) :
    mem.validate a n permRead = .ok ↔ mem.Readable a.toNat n.toNat := by
  unfold validate
  rw [if_neg hn]
  constructor
  · intro h
    cases hf : mem.find a n permRead with
    | some r =>
      obtain ⟨-, hr, hp, hc⟩ := (find_iff hok _ _ _ _).mp hf
      exact ⟨r, hr, hp, hc⟩
    | none =>
      rw [hf] at h
      cases h
  · rintro ⟨r, hr, hp, hc⟩
    rw [(find_iff hok a n permRead r).mpr ⟨hn, hr, hp, hc⟩]

theorem read_byte {mem : Memory} (hok : mem.Ok) {a : W64} (h : mem.Readable a.toNat 1) :
    mem.read a .byte false = (.ok, (mem.view a.toNat).setWidth 64) := by
  obtain ⟨r, hr, hp, hc⟩ := h
  have hf : mem.find a (BitVec.ofNat 64 MemSize.byte.bytes) permRead = some r :=
    (find_iff hok _ _ _ _).mpr ⟨by decide, hr, hp, hc⟩
  have hsub : (a - r.gva).toNat = a.toNat - r.gva.toNat :=
    BitVec.toNat_sub_of_le (BitVec.le_def.mpr hc.1)
  have hone : ∀ src : Nat → BitVec 8, disassemble src MemSize.byte.bytes = (src 0).setWidth 64 := by
    intro src
    show disassemble src (0 + 1) = _
    simp [disassemble]
  unfold read
  rw [hf, view_at hok hr hc]
  dsimp only
  rw [hone, hsub, Nat.add_zero, if_neg Bool.false_ne_true]

end Memory

/-- the stream after it took all the bytes -/
def HostFile.put (f : HostFile) (bytes : List (BitVec 8)) : HostFile :=
  { f with written := f.written ++ bytes }

theorem HostFile.put_nil (f : HostFile) : f.put [] = f := by
  simp [put]

theorem HostFile.put_put (f : HostFile) (bytes more : List (BitVec 8)) :
    (f.put bytes).put more = f.put (bytes ++ more) := by
  simp [put]

theorem HostFile.put_room (f : HostFile) (bytes : List (BitVec 8)) (h : f.room = none) :
    (f.put bytes).room = none := h

theorem HostFile.fwrite_all {f : HostFile} (h : f.room = none) (bytes : List (BitVec 8)) :
    f.fwrite bytes = (bytes.length, f.put bytes) := by
  cases f with
  | mk written room =>
    obtain rfl : room = none := h
    rfl

namespace Sysenv

open Memory (bytesFrom Readable)

/-- the environment after bytes went to its stream -/
def emit (env : Sysenv) (bytes : List (BitVec 8)) : Sysenv :=
  env.setStream (env.stream.put bytes)

theorem stream_emit (env : Sysenv) (bytes : List (BitVec 8)) :
    (env.emit bytes).stream = env.stream.put bytes := by
  unfold emit setStream stream
  cases env.out <;> rfl

/-- what `write` promises: all of a range that lies in one readable region, and nothing of another -/
def Emits (mem : Memory) (env : Sysenv) (buf count : W64) (out : W64 × Memory × Sysenv) : Prop :=
  (mem.Readable buf.toNat count.toNat →
      out = (count, mem, env.emit (mem.bytesFrom buf.toNat count.toNat))) ∧
    (¬ mem.Readable buf.toNat count.toNat → out = (-efault, mem, env))

/-! ## the copy loop -/

theorem toNat_add_ofNat {a : W64} {i : Nat} (h : a.toNat + i < 2 ^ 64) :
    (a + BitVec.ofNat 64 i).toNat = a.toNat + i := by
  rw [BitVec.toNat_add, BitVec.toNat_ofNat, Nat.mod_eq_of_lt (show i < 2 ^ 64 by omega),
    Nat.mod_eq_of_lt h]

/-- **a chunk of a readable range is its bytes** -/
theorem readChunk_readable {mem : Memory} (hok : mem.Ok) {a : W64} (n i : Nat)
    (h : mem.Readable (a.toNat + i) n) :
    readChunk Memory.memops a i n mem = (some (mem.bytesFrom (a.toNat + i) n), mem) := by
  induction n generalizing i with
  | zero => rfl
  | succ n ih =>
    have htop := h.top hok
    have hat : (a + BitVec.ofNat 64 i).toNat = a.toNat + i := toNat_add_ofNat (by omega)
    have hone : mem.Readable (a + BitVec.ofNat 64 i).toNat 1 := by
      rw [hat]
      exact h.sub (Nat.le_refl _) (by omega)
    have hrest : mem.Readable (a.toNat + (i + 1)) n := h.sub (by omega) (by omega)
    have hread : Memory.memops.read mem (a + BitVec.ofNat 64 i) .byte false =
        (.ok, (mem.view (a.toNat + i)).setWidth 64, mem) := by
      show (_, _, _) = _
      rw [Memory.read_byte hok hone, hat]
    unfold readChunk
    rw [hread]
    dsimp only
    rw [ih (i + 1) hrest, Memory.bytesFrom_succ, BitVec.setWidth_setWidth_of_le _ (by decide),
      BitVec.setWidth_eq]
    rfl

theorem writeTurn_shrinks {σ : Type} (mem : Memops σ) (buf : W64) (count : Nat) :
    Consume.Shrinks (writeTurn mem buf count) fun c => count - c.written := by
  intro c c' h
  unfold writeTurn at h
  by_cases hlt : c.written < count
  · rw [if_pos hlt] at h
    dsimp only at h
    cases hr : readChunk mem (buf + BitVec.ofNat 64 c.written) 0
        (min (count - c.written) chunkSize) c.bus with
    | mk bytes s =>
      rw [hr] at h
      cases bytes with
      | none => cases h
      | some chunk =>
        dsimp only at h
        by_cases hgot : (c.file.fwrite chunk).1 < min (count - c.written) chunkSize
        · rw [if_pos hgot] at h
          cases h
        · rw [if_neg hgot] at h
          cases h
          have hsize : 0 < chunkSize := by decide
          show count - (c.written + (c.file.fwrite chunk).1) < count - c.written
          omega
  · rw [if_neg hlt] at h
    cases h

theorem writeTurn_readable {mem : Memory} (hok : mem.Ok) {buf : W64} {count : Nat} {f : HostFile}
    {k : Nat} (hroom : f.room = none) (hk : k < count) (h : mem.Readable buf.toNat count) :
    writeTurn Memory.memops buf count ⟨mem, f, k⟩ =
      .inr ⟨mem, f.put (mem.bytesFrom (buf.toNat + k) (min (count - k) chunkSize)),
        k + min (count - k) chunkSize⟩ := by
  have htop := h.top hok
  have hat : (buf + BitVec.ofNat 64 k).toNat = buf.toNat + k := toNat_add_ofNat (by omega)
  have hchunk := readChunk_readable hok (a := buf + BitVec.ofNat 64 k)
    (min (count - k) chunkSize) 0
    (by rw [hat]; exact h.sub (by omega) (by omega))
  rw [hat, Nat.add_zero] at hchunk
  unfold writeTurn
  rw [if_pos hk]
  dsimp only
  rw [hchunk]
  dsimp only
  rw [HostFile.fwrite_all hroom, Memory.length_bytesFrom, if_neg (Nat.lt_irrefl _)]

/-- **the loop emits the whole range** -/
theorem writeLoop_readable {mem : Memory} (hok : mem.Ok) {buf : W64} {count : Nat} {f : HostFile}
    {k : Nat} (hroom : f.room = none) (hk : k ≤ count) (h : mem.Readable buf.toNat count)
    (stop : Copied Memory) :
    Consume.loop (writeTurn Memory.memops buf count) stop (fun c => count - c.written) ⟨mem, f, k⟩ =
      (BitVec.ofNat 64 count, mem, f.put (mem.bytesFrom (buf.toNat + k) (count - k))) := by
  induction hn : count - k using Nat.strong_induction_on generalizing f k with
  | _ n ih =>
    by_cases hlt : k < count
    · have hsize : 0 < chunkSize := by decide
      rw [Consume.loop_next (writeTurn_shrinks _ _ _) (writeTurn_readable hok hroom hlt h)]
      refine (ih (count - (k + min (count - k) chunkSize)) (by omega) (f.put_room _ hroom)
        (by omega) rfl).trans ?_
      rw [HostFile.put_put, ← Nat.add_assoc, Memory.bytesFrom_append,
        show min (count - k) chunkSize + (count - (k + min (count - k) chunkSize)) = n by omega]
    · obtain rfl : k = count := by omega
      have hdone : writeTurn Memory.memops buf k ⟨mem, f, k⟩ = .inl (BitVec.ofNat 64 k, mem, f) :=
        if_neg hlt
      rw [Consume.loop_return hdone, ← hn, Nat.sub_self, Memory.bytesFrom_zero, HostFile.put_nil]

/-! ## the call -/

variable {mem : Memory} {env : Sysenv} {fd buf count : W64}

/-- the test before the bus is asked -/
theorem wraps_iff (buf count : W64) :
    count > BitVec.allOnes 64 - buf ↔ 2 ^ 64 ≤ buf.toNat + count.toNat := by
  have hb := buf.isLt
  have hsub : (BitVec.allOnes 64 - buf).toNat = 2 ^ 64 - 1 - buf.toNat := by
    rw [BitVec.toNat_sub_of_le (by rw [BitVec.le_def, BitVec.toNat_allOnes]; omega),
      BitVec.toNat_allOnes]
  rw [gt_iff_lt, BitVec.lt_def, hsub]
  omega

/-- a range that reaches the top is refused, whatever is mapped there -/
theorem sysWrite_top (hfd : fd = 1 ∨ fd = 2) (hcount : count ≠ 0)
    (h : 2 ^ 64 ≤ buf.toNat + count.toNat) :
    sysWrite (some Memory.memops) fd buf count mem env = (-efault, mem, env) := by
  unfold sysWrite
  rw [if_neg (by rcases hfd with rfl | rfl <;> decide), if_neg hcount]
  exact if_pos ((wraps_iff buf count).mpr h)

theorem sysWrite_refused (hok : mem.Ok) (hfd : fd = 1 ∨ fd = 2) (hcount : count ≠ 0)
    (h : ¬ mem.Readable buf.toNat count.toNat) :
    sysWrite (some Memory.memops) fd buf count mem env = (-efault, mem, env) := by
  by_cases htop : 2 ^ 64 ≤ buf.toNat + count.toNat
  · exact sysWrite_top hfd hcount htop
  · have hval : mem.validate buf count permRead ≠ .ok :=
      fun hv => h ((Memory.validate_readable hok hcount).mp hv)
    have hbus : Memory.memops.validate mem buf count permRead =
        (mem.validate buf count permRead, mem) := rfl
    unfold sysWrite
    rw [if_neg (by rcases hfd with rfl | rfl <;> decide), if_neg hcount]
    dsimp only
    rw [if_neg (mt (wraps_iff buf count).mp htop), hbus]
    cases hs : mem.validate buf count permRead with
    | ok => exact absurd hs hval
    | _ => rfl

theorem sysWrite_readable (hok : mem.Ok) (hfd : fd = 1 ∨ fd = 2) (hcount : count ≠ 0)
    (hroom : env.stream.room = none) (h : mem.Readable buf.toNat count.toNat)
    (htop : buf.toNat + count.toNat < 2 ^ 64) :
    sysWrite (some Memory.memops) fd buf count mem env =
      (count, mem, env.emit (mem.bytesFrom buf.toNat count.toNat)) := by
  have hbus : Memory.memops.validate mem buf count permRead = (.ok, mem) := by
    show (mem.validate buf count permRead, mem) = (.ok, mem)
    rw [(Memory.validate_readable hok hcount).mpr h]
  unfold sysWrite
  rw [if_neg (by rcases hfd with rfl | rfl <;> decide), if_neg hcount]
  dsimp only
  rw [if_neg (mt (wraps_iff buf count).mp (Nat.not_le.mpr htop)), hbus]
  dsimp only
  unfold writeLoop
  rw [writeLoop_readable hok hroom (Nat.zero_le _) h, BitVec.ofNat_toNat, BitVec.setWidth_eq]
  rfl

/-- **`write` emits the range it is given**, unless that range is readable up to the very top of the
address space -/
theorem sysWrite_emits_iff (hok : mem.Ok) (hfd : fd = 1 ∨ fd = 2) (hcount : count ≠ 0)
    (hroom : env.stream.room = none) :
    Emits mem env buf count (sysWrite (some Memory.memops) fd buf count mem env) ↔
      ¬ (mem.Readable buf.toNat count.toNat ∧ buf.toNat + count.toNat = 2 ^ 64) := by
  constructor
  · rintro ⟨hall, -⟩ ⟨hr, htop⟩
    have hstop : sysWrite (some Memory.memops) fd buf count mem env = (-efault, mem, env) :=
      sysWrite_top hfd hcount htop.ge
    have hone := hstop.symm.trans (hall hr)
    have henv : env = env.emit (mem.bytesFrom buf.toNat count.toNat) :=
      congrArg (fun out => out.2.2) hone
    have hwritten := congrArg (fun e : Sysenv => e.stream.written.length) henv
    simp only [stream_emit, HostFile.put, List.length_append, Memory.length_bytesFrom] at hwritten
    have hpos := W64.toNat_pos hcount
    omega
  · intro hno
    refine ⟨fun hr => ?_, fun hr => sysWrite_refused hok hfd hcount hr⟩
    have hle := hr.top hok
    exact sysWrite_readable hok hfd hcount hroom hr
      (Nat.lt_of_le_of_ne hle fun htop => hno ⟨hr, htop⟩)

def pageAt (gva : W64) : Memory where
  regions := [⟨gva, 0x1000, permRead, 0, true⟩]
  capacity := 1
  heap := fun i => BitVec.ofNat 8 i

theorem pageAt_ok {gva : W64} (h : gva.toNat + 0x1000 ≤ 2 ^ 64) : (pageAt gva).Ok where
  room := Nat.le_refl _
  entry := fun r hr => by
    rw [List.mem_singleton.mp hr]
    exact (by decide : permRead ≠ 0)
  nonempty := fun r hr => by
    rw [List.mem_singleton.mp hr]
    exact (by decide : 0 < (0x1000 : W64).toNat)
  below := fun r hr => by
    rw [List.mem_singleton.mp hr]
    exact h
  apart := List.pairwise_singleton _ _

theorem pageAt_readable {gva : W64} {a n : Nat} (hlo : gva.toNat ≤ a)
    (hhi : a + n ≤ gva.toNat + 0x1000) : (pageAt gva).Readable a n :=
  ⟨_, List.mem_singleton.mpr rfl, BitVec.and_self, hlo, hhi⟩

/-- two chunks out of the middle of a page -/
theorem sysWrite_emits_page :
    Emits (pageAt 0x4000) (.init none ⟨[], none⟩) 0x4100 0x200
      (sysWrite (some Memory.memops) 1 0x4100 0x200 (pageAt 0x4000) (.init none ⟨[], none⟩)) :=
  (sysWrite_emits_iff (pageAt_ok (by decide)) (.inl rfl) (by decide) rfl).mpr
    fun h => absurd h.2 (by decide)

/-- the last byte of the address space is readable, and is not written -/
theorem last_byte_refused :
    (pageAt 0xFFFFFFFFFFFFF000).Ok ∧
      (pageAt 0xFFFFFFFFFFFFF000).Readable (0xFFFFFFFFFFFFFFFF : W64).toNat (1 : W64).toNat ∧
      ¬ Emits (pageAt 0xFFFFFFFFFFFFF000) (.init none ⟨[], none⟩) 0xFFFFFFFFFFFFFFFF 1
        (sysWrite (some Memory.memops) 1 0xFFFFFFFFFFFFFFFF 1 (pageAt 0xFFFFFFFFFFFFF000)
          (.init none ⟨[], none⟩)) := by
  have hr : (pageAt 0xFFFFFFFFFFFFF000).Readable (0xFFFFFFFFFFFFFFFF : W64).toNat
      (1 : W64).toNat := pageAt_readable (by decide) (by decide)
  refine ⟨pageAt_ok (by decide), hr, fun h => ?_⟩
  have hret := congrArg Prod.fst (h.1 hr)
  exact absurd hret (by decide)

end Sysenv

end Oemu
