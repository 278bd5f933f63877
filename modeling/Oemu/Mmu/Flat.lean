import Oemu.Mmu.Transparent
import Oemu.Exec.Sim

/-!
# One window of memory

`FlatBus w ops R`: the bus serves what lies in the window `w`, and `R s m` says that its state holds
the bytes `m` there.  Both providers are such buses when they hold one region of RAM with every
permission: `Memory.flat`, `Aspace.flat`.  So is the view of the layer over one of them, with
translation and the alignment policy off: `FlatBus.mmu`.  Two of them answer alike: `FlatBus.sim`.
-/

namespace Oemu

/-- the permissions to read, write and execute -/
def permAll : W32 := 7

def bytesAt (m : Nat → BitVec 8) (a : W64) (n : Nat) : W64 := disassemble (fun i => m (a.toNat + i)) n

structure FlatBus {σ : Type} (w : Span) (ops : Memops σ) (R : σ → (Nat → BitVec 8) → Prop) :
    Prop where
  fetch : ∀ {s m}, R s m → ∀ {a : W64}, a.toNat % 4 = 0 → w.Covers a.toNat 4 →
    ∃ s', ops.fetch32 s a = (.ok, (bytesAt m a 4).setWidth 32, s') ∧ R s' m
  fetchRefused : ∀ {s m}, R s m → ∀ {a : W64}, ¬ (a.toNat % 4 = 0 ∧ w.Covers a.toNat 4) →
    (ops.fetch32 s a).1 ≠ .ok ∧ R (ops.fetch32 s a).2.2 m
  read : ∀ {s m}, R s m → ∀ {a : W64} {n : MemSize}, n.bytes ≤ 8 → w.Covers a.toNat n.bytes →
    ∀ sx, ∃ s', ops.read s a n sx = (.ok, loaded (bytesAt m a n.bytes) n.bytes sx, s') ∧ R s' m
  readRefused : ∀ {s m}, R s m → ∀ {a : W64} {n : MemSize}, n.bytes ≤ 8 →
    ¬ w.Covers a.toNat n.bytes → ∀ sx, (ops.read s a n sx).1 ≠ .ok ∧ R (ops.read s a n sx).2.2 m
  write : ∀ {s m}, R s m → ∀ {a : W64} {n : MemSize}, n.bytes ≤ 8 → w.Covers a.toNat n.bytes →
    ∀ v, ∃ s', ops.write s a n v = (.ok, s') ∧ R s' (assemble m a.toNat n.bytes v)
  writeRefused : ∀ {s m}, R s m → ∀ {a : W64} {n : MemSize}, n.bytes ≤ 8 →
    ¬ w.Covers a.toNat n.bytes → ∀ v, (ops.write s a n v).1 ≠ .ok ∧ R (ops.write s a n v).2 m
  validate : ∀ {s m}, R s m → ∀ {a n : W64} {q : W32}, n ≠ 0 → permAll &&& q = q →
    w.Covers a.toNat n.toNat → ∃ s', ops.validate s a n q = (.ok, s') ∧ R s' m
  validateRefused : ∀ {s m}, R s m → ∀ {a n : W64} {q : W32}, n ≠ 0 →
    ¬ (permAll &&& q = q ∧ w.Covers a.toNat n.toNat) →
    (ops.validate s a n q).1 ≠ .ok ∧ R (ops.validate s a n q).2 m

/-! ## two of them -/

section

variable {σ σ' : Type} {w : Span} {ops : Memops σ} {ops' : Memops σ'}
  {R : σ → (Nat → BitVec 8) → Prop} {R' : σ' → (Nat → BitVec 8) → Prop}

def SameBytes (R : σ → (Nat → BitVec 8) → Prop) (R' : σ' → (Nat → BitVec 8) → Prop) (s : σ)
    (s' : σ') : Prop := ∃ m, R s m ∧ R' s' m

theorem MemSize.bytes_of_busSize {n : MemSize} (h : BusSize n.count) : n.bytes ≤ 8 := by
  cases n with
  | m128 => revert h; unfold BusSize; decide
  | _ => decide

theorem BusSize.ne_zero {n : W64} (h : BusSize n) : n ≠ 0 := by
  rcases h with rfl | rfl | rfl | rfl <;> decide

/-- **two flat buses over one window** answer every request of an instruction alike -/
theorem FlatBus.sim (hf : FlatBus w ops R) (hf' : FlatBus w ops' R') :
    BusSim BusSize (SameBytes R R') ops ops' where
  readOk := by
    rintro s s' ⟨m, hs, hs'⟩ a n sx hn
    have h8 := MemSize.bytes_of_busSize hn
    by_cases hc : w.Covers a.toNat n.bytes
    · obtain ⟨t, ht, -⟩ := hf.read hs h8 hc sx
      obtain ⟨t', ht', -⟩ := hf'.read hs' h8 hc sx
      rw [ht, ht']
    · exact ⟨fun h => absurd h (hf.readRefused hs h8 hc sx).1,
        fun h => absurd h (hf'.readRefused hs' h8 hc sx).1⟩
  read := by
    rintro s s' ⟨m, hs, hs'⟩ a n sx hn hok
    have h8 := MemSize.bytes_of_busSize hn
    by_cases hc : w.Covers a.toNat n.bytes
    · obtain ⟨t, ht, hR⟩ := hf.read hs h8 hc sx
      obtain ⟨t', ht', hR'⟩ := hf'.read hs' h8 hc sx
      rw [ht, ht']
      exact ⟨rfl, m, hR, hR'⟩
    · exact absurd hok (hf.readRefused hs h8 hc sx).1
  writeOk := by
    rintro s s' ⟨m, hs, hs'⟩ a n v hn
    have h8 := MemSize.bytes_of_busSize hn
    by_cases hc : w.Covers a.toNat n.bytes
    · obtain ⟨t, ht, -⟩ := hf.write hs h8 hc v
      obtain ⟨t', ht', -⟩ := hf'.write hs' h8 hc v
      rw [ht, ht']
    · exact ⟨fun h => absurd h (hf.writeRefused hs h8 hc v).1,
        fun h => absurd h (hf'.writeRefused hs' h8 hc v).1⟩
  write := by
    rintro s s' ⟨m, hs, hs'⟩ a n v hn hok
    have h8 := MemSize.bytes_of_busSize hn
    by_cases hc : w.Covers a.toNat n.bytes
    · obtain ⟨t, ht, hR⟩ := hf.write hs h8 hc v
      obtain ⟨t', ht', hR'⟩ := hf'.write hs' h8 hc v
      rw [ht, ht']
      exact ⟨_, hR, hR'⟩
    · exact absurd hok (hf.writeRefused hs h8 hc v).1
  validateOk := by
    rintro s s' ⟨m, hs, hs'⟩ a n q hn
    by_cases hc : permAll &&& q = q ∧ w.Covers a.toNat n.toNat
    · obtain ⟨t, ht, -⟩ := hf.validate hs hn.ne_zero hc.1 hc.2
      obtain ⟨t', ht', -⟩ := hf'.validate hs' hn.ne_zero hc.1 hc.2
      rw [ht, ht']
    · exact ⟨fun h => absurd h (hf.validateRefused hs hn.ne_zero hc).1,
        fun h => absurd h (hf'.validateRefused hs' hn.ne_zero hc).1⟩
  validate := by
    rintro s s' ⟨m, hs, hs'⟩ a n q hn
    by_cases hc : permAll &&& q = q ∧ w.Covers a.toNat n.toNat
    · obtain ⟨t, ht, hR⟩ := hf.validate hs hn.ne_zero hc.1 hc.2
      obtain ⟨t', ht', hR'⟩ := hf'.validate hs' hn.ne_zero hc.1 hc.2
      rw [ht, ht']
      exact ⟨m, hR, hR'⟩
    · exact ⟨m, (hf.validateRefused hs hn.ne_zero hc).2,
        (hf'.validateRefused hs' hn.ne_zero hc).2⟩

end

/-! ## the providers -/

/-- the backing of a window holds the bytes `m` -/
def Mirrors (heap : Nat → BitVec 8) (host : Nat) (w : Span) (m : Nat → BitVec 8) : Prop :=
  ∀ i < w.size, heap (host + i) = m (w.base + i)

section

variable {heap m : Nat → BitVec 8} {host : Nat} {w : Span} {a base : W64} {n : Nat}

theorem Span.Covers.offset (hb : base.toNat = w.base) (hc : w.Covers a.toNat n) :
    (a - base).toNat = a.toNat - w.base := by
  have hle := hc.1
  rw [BitVec.toNat_sub_of_le (by rw [BitVec.le_def, hb]; exact hle), hb]

theorem Mirrors.bytes (h : Mirrors heap host w m) (hb : base.toNat = w.base)
    (hc : w.Covers a.toNat n) :
    disassemble (fun i => heap (host + (a - base).toNat + i)) n = bytesAt m a n := by
  have hoff := Span.Covers.offset hb hc
  obtain ⟨hlo, hhi⟩ := hc
  refine disassemble_congr fun i hi => ?_
  have := h ((a - base).toNat + i) (by omega)
  rw [← Nat.add_assoc] at this
  rw [this, hoff]
  congr 1
  omega

theorem Mirrors.assemble (h : Mirrors heap host w m) (hb : base.toNat = w.base)
    (hc : w.Covers a.toNat n) (v : W64) :
    Mirrors (assemble heap (host + (a - base).toNat) n v) host w (assemble m a.toNat n v) := by
  have hoff := Span.Covers.offset hb hc
  obtain ⟨hlo, hhi⟩ := hc
  intro i hi
  by_cases hin : (a - base).toNat ≤ i ∧ i < (a - base).toNat + n
  · obtain ⟨j, rfl⟩ := Nat.exists_eq_add_of_le hin.1
    rw [← Nat.add_assoc, assemble_inside _ _ _ _ (by omega),
      show w.base + ((a - base).toNat + j) = a.toNat + j by omega,
      assemble_inside _ _ _ _ (by omega)]
  · rw [assemble_outside _ _ _ _ (by omega), assemble_outside _ _ _ _ (by omega)]
    exact h i hi

end

/-- one region with every permission, that holds the bytes `m` -/
def Memory.Holds (w : Span) (mem : Memory) (m : Nat → BitVec 8) : Prop :=
  mem.Ok ∧ ∃ r, mem.regions = [r] ∧ r.span = w ∧ r.perms = permAll ∧ Mirrors mem.heap r.host w m

/-- one region of RAM with every permission, that holds the bytes `m` -/
def Aspace.Holds {δ : Type} (w : Span) (as : Aspace δ) (m : Nat → BitVec 8) : Prop :=
  as.Ok ∧ ∃ r host owned, as.regions = [r] ∧ r.span = w ∧ r.perms = permAll ∧
    r.backing = .ram host owned ∧ Mirrors as.heap host w m

section

variable {w : Span} {mem : Memory} {r : Region}

theorem Memory.find_sole (hok : mem.Ok) (hone : mem.regions = [r]) (hp : r.perms = permAll)
    {a n : W64} {q : W32} (hn : n ≠ 0) (hq : permAll &&& q = q)
    (hc : r.span.Covers a.toNat n.toNat) : mem.find a n q = some r := by
  refine (Memory.find_iff hok _ _ _ _).mpr ⟨hn, ?_, ?_, hc⟩
  · rw [hone]
    exact List.mem_singleton_self r
  · rw [hp]
    exact hq

theorem Memory.find_outside (hok : mem.Ok) (hone : mem.regions = [r]) (hp : r.perms = permAll)
    {a n : W64} {q : W32} (h : ¬ (permAll &&& q = q ∧ r.span.Covers a.toNat n.toNat)) :
    mem.find a n q = none := by
  refine Option.eq_none_iff_forall_ne_some.mpr fun s hs => ?_
  obtain ⟨-, hmem, hq, hc⟩ := (Memory.find_iff hok _ _ _ _).mp hs
  rw [hone, List.mem_singleton] at hmem
  subst hmem
  rw [hp] at hq
  exact h ⟨hq, hc⟩

end

theorem and_three {a : W64} : a &&& 3 = 0 ↔ a.toNat % 4 = 0 := by
  have h : (a &&& 3).toNat = a.toNat % 4 := by
    rw [BitVec.toNat_and]
    exact Nat.and_two_pow_sub_one_eq_mod a.toNat 2
  rw [← h]
  exact ⟨fun h => congrArg BitVec.toNat h, fun h => BitVec.eq_of_toNat_eq h⟩

/-- **the flat memory** with one region -/
theorem Memory.flat (w : Span) : FlatBus w Memory.memops (Memory.Holds w) where
  fetch := by
    rintro mem m ⟨hok, r, hone, rfl, hp, hm⟩ a ha hc
    refine ⟨mem, ?_, hok, r, hone, rfl, hp, hm⟩
    show ((mem.fetch32 a).1, (mem.fetch32 a).2, mem) = _
    unfold Memory.fetch32
    rw [if_neg (not_not_intro (and_three.mpr ha)),
      Memory.find_sole hok hone hp (by decide) (by decide) hc]
    dsimp only
    rw [hm.bytes rfl hc]
  fetchRefused := by
    rintro mem m ⟨hok, r, hone, rfl, hp, hm⟩ a h
    refine ⟨?_, hok, r, hone, rfl, hp, hm⟩
    show (mem.fetch32 a).1 ≠ .ok
    unfold Memory.fetch32
    by_cases ha : a &&& 3 = 0
    · rw [if_neg (not_not_intro ha),
        Memory.find_outside hok hone hp fun hc => h ⟨and_three.mp ha, hc.2⟩]
      exact Status.noConfusion
    · rw [if_pos ha]
      exact Status.noConfusion
  read := by
    rintro mem m ⟨hok, r, hone, rfl, hp, hm⟩ a n h8 hc sx
    refine ⟨mem, ?_, hok, r, hone, rfl, hp, hm⟩
    show ((mem.read a n sx).1, (mem.read a n sx).2, mem) = _
    rw [Memory.read_loaded h8 sx (Memory.find_sole hok hone hp n.ofNat_ne_zero (by decide)
      (by rw [n.toNat_bytes]; exact hc)), hm.bytes rfl hc]
  readRefused := by
    rintro mem m ⟨hok, r, hone, rfl, hp, hm⟩ a n h8 hc sx
    refine ⟨?_, hok, r, hone, rfl, hp, hm⟩
    show (mem.read a n sx).1 ≠ .ok
    unfold Memory.read
    rw [Memory.find_outside hok hone hp (by rw [n.toNat_bytes]; exact fun h => hc h.2)]
    exact Status.noConfusion
  write := by
    rintro mem m ⟨hok, r, hone, rfl, hp, hm⟩ a n h8 hc v
    refine ⟨{ mem with heap := assemble mem.heap (r.host + (a - r.gva).toNat) n.bytes v }, ?_, hok,
      r, hone, rfl, hp, hm.assemble rfl hc v⟩
    show mem.write a n v = _
    unfold Memory.write
    rw [Memory.find_sole hok hone hp n.ofNat_ne_zero (by decide) (by rw [n.toNat_bytes]; exact hc)]
  writeRefused := by
    rintro mem m ⟨hok, r, hone, rfl, hp, hm⟩ a n h8 hc v
    have hw : mem.write a n v = (.fault, mem) := by
      unfold Memory.write
      rw [Memory.find_outside hok hone hp (by rw [n.toNat_bytes]; exact fun h => hc h.2)]
    show (mem.write a n v).1 ≠ .ok ∧ Memory.Holds r.span (mem.write a n v).2 m
    rw [hw]
    exact ⟨Status.noConfusion, hok, r, hone, rfl, hp, hm⟩
  validate := by
    rintro mem m ⟨hok, r, hone, rfl, hp, hm⟩ a n q hn hq hc
    refine ⟨mem, ?_, hok, r, hone, rfl, hp, hm⟩
    show (mem.validate a n q, mem) = _
    unfold Memory.validate
    rw [if_neg hn, Memory.find_sole hok hone hp hn hq hc]
  validateRefused := by
    rintro mem m ⟨hok, r, hone, rfl, hp, hm⟩ a n q hn hc
    refine ⟨?_, hok, r, hone, rfl, hp, hm⟩
    show mem.validate a n q ≠ .ok
    unfold Memory.validate
    rw [if_neg hn, Memory.find_outside hok hone hp hc]
    exact Status.noConfusion

section

variable {δ : Type} {as : Aspace δ} {r : AspaceRegion δ}

theorem Aspace.find_sole (hok : as.Ok) (hone : as.regions = [r]) (hp : r.perms = permAll)
    {a n : W64} {q : W32} (hn : n ≠ 0) (hq : permAll &&& q = q)
    (hc : r.span.Covers a.toNat n.toNat) : as.find a n q = some r := by
  refine (Aspace.find_iff hok _ _ _ _).mpr ⟨hn, ?_, ?_, hc⟩
  · rw [hone]
    exact List.mem_singleton_self r
  · rw [hp]
    exact hq

theorem Aspace.find_outside (hok : as.Ok) (hone : as.regions = [r]) (hp : r.perms = permAll)
    {a n : W64} {q : W32} (h : ¬ (permAll &&& q = q ∧ r.span.Covers a.toNat n.toNat)) :
    as.find a n q = none := by
  refine Option.eq_none_iff_forall_ne_some.mpr fun s hs => ?_
  obtain ⟨-, hmem, hq, hc⟩ := (Aspace.find_iff hok _ _ _ _).mp hs
  rw [hone, List.mem_singleton] at hmem
  subst hmem
  rw [hp] at hq
  exact h ⟨hq, hc⟩

end

/-- **the physical bus** with one region of RAM -/
theorem Aspace.flat {δ : Type} (w : Span) :
    FlatBus w (Aspace.memops : Memops (Aspace δ)) (Aspace.Holds w) where
  fetch := by
    rintro as m ⟨hok, r, host, owned, hone, rfl, hp, hb, hm⟩ a ha hc
    refine ⟨as, ?_, hok, r, host, owned, hone, rfl, hp, hb, hm⟩
    show ((as.fetch32 a).1, (as.fetch32 a).2, as) = _
    unfold Aspace.fetch32
    rw [if_neg (not_not_intro ha), Aspace.find_sole hok hone hp (by decide) (by decide) hc]
    dsimp only
    rw [hb]
    dsimp only
    rw [hm.bytes rfl hc]
  fetchRefused := by
    rintro as m ⟨hok, r, host, owned, hone, rfl, hp, hb, hm⟩ a h
    refine ⟨?_, hok, r, host, owned, hone, rfl, hp, hb, hm⟩
    show (as.fetch32 a).1 ≠ .ok
    unfold Aspace.fetch32
    by_cases ha : a.toNat % 4 = 0
    · rw [if_neg (not_not_intro ha), Aspace.find_outside hok hone hp fun hc => h ⟨ha, hc.2⟩]
      exact Status.noConfusion
    · rw [if_pos ha]
      exact Status.noConfusion
  read := by
    rintro as m ⟨hok, r, host, owned, hone, rfl, hp, hb, hm⟩ a n h8 hc sx
    refine ⟨as, ?_, hok, r, host, owned, hone, rfl, hp, hb, hm⟩
    show as.read a n sx = _
    rw [Aspace.read_loaded h8 sx (Aspace.find_sole hok hone hp n.ofNat_ne_zero (by decide)
      (by rw [n.toNat_bytes]; exact hc)) hb, hm.bytes rfl hc]
  readRefused := by
    rintro as m ⟨hok, r, host, owned, hone, rfl, hp, hb, hm⟩ a n h8 hc sx
    show (as.read a n sx).1 ≠ .ok ∧ Aspace.Holds r.span (as.read a n sx).2.2 m
    rw [Aspace.read_fault (Aspace.find_outside hok hone hp
      (by rw [n.toNat_bytes]; exact fun h => hc h.2))]
    exact ⟨Status.noConfusion, hok, r, host, owned, hone, rfl, hp, hb, hm⟩
  write := by
    rintro as m ⟨hok, r, host, owned, hone, rfl, hp, hb, hm⟩ a n h8 hc v
    refine ⟨{ as with heap := assemble as.heap (host + (a - r.pa).toNat) n.bytes v }, ?_, hok,
      r, host, owned, hone, rfl, hp, hb, hm.assemble rfl hc v⟩
    show as.write a n v = _
    unfold Aspace.write
    rw [Aspace.find_sole hok hone hp n.ofNat_ne_zero (by decide) (by rw [n.toNat_bytes]; exact hc)]
    dsimp only
    rw [hb]
  writeRefused := by
    rintro as m ⟨hok, r, host, owned, hone, rfl, hp, hb, hm⟩ a n h8 hc v
    show (as.write a n v).1 ≠ .ok ∧ Aspace.Holds r.span (as.write a n v).2 m
    rw [Aspace.write_fault (Aspace.find_outside hok hone hp
      (by rw [n.toNat_bytes]; exact fun h => hc h.2))]
    exact ⟨Status.noConfusion, hok, r, host, owned, hone, rfl, hp, hb, hm⟩
  validate := by
    rintro as m ⟨hok, r, host, owned, hone, rfl, hp, hb, hm⟩ a n q hn hq hc
    refine ⟨as, ?_, hok, r, host, owned, hone, rfl, hp, hb, hm⟩
    show (as.validate a n q, as) = _
    unfold Aspace.validate
    rw [if_neg hn, Aspace.find_sole hok hone hp hn hq hc]
  validateRefused := by
    rintro as m ⟨hok, r, host, owned, hone, rfl, hp, hb, hm⟩ a n q hn hc
    refine ⟨?_, hok, r, host, owned, hone, rfl, hp, hb, hm⟩
    show as.validate a n q ≠ .ok
    unfold Aspace.validate
    rw [if_neg hn, Aspace.find_outside hok hone hp hc]
    exact Status.noConfusion

/-! ## the view of the layer -/

/-- a window that does not wrap, and is not the whole space -/
structure Window (w : Span) : Prop where
  below : w.base + w.size ≤ 2 ^ 64
  proper : w.size < 2 ^ 64

/-- a range lies in a window when each of its bytes does -/
theorem Window.covers_bytes {w : Span} (hw : Window w) (a : W64) {n : Nat} (h0 : 0 < n)
    (hn : n < 2 ^ 64) :
    (∀ i < n, w.Covers (a + BitVec.ofNat 64 i).toNat 1) ↔ w.Covers a.toNat n := by
  have hbyte : ∀ i < n, (a + BitVec.ofNat 64 i).toNat = (a.toNat + i) % 2 ^ 64 := by
    intro i hi
    rw [BitVec.toNat_add, BitVec.toNat_ofNat, Nat.mod_eq_of_lt (show i < 2 ^ 64 by omega)]
  have ha := a.isLt
  have hbelow := hw.below
  have hproper := hw.proper
  constructor
  · intro h
    have hfirst := h 0 h0
    rw [hbyte 0 h0, Nat.add_zero, Nat.mod_eq_of_lt ha] at hfirst
    by_cases hwrap : a.toNat + n ≤ 2 ^ 64
    · have hlast := h (n - 1) (by omega)
      rw [hbyte _ (by omega), Nat.mod_eq_of_lt (by omega)] at hlast
      exact ⟨hfirst.1, by have := hlast.2; omega⟩
    · have htop := h (2 ^ 64 - 1 - a.toNat) (by omega)
      rw [hbyte _ (by omega), Nat.mod_eq_of_lt (by omega)] at htop
      have hzero := h (2 ^ 64 - a.toNat) (by omega)
      rw [hbyte _ (by omega), show a.toNat + (2 ^ 64 - a.toNat) = 2 ^ 64 by omega,
        Nat.mod_self] at hzero
      have h1 := htop.2
      have h2 := hzero.1
      omega
  · intro h i hi
    have hc := h.2
    rw [hbyte i hi, Nat.mod_eq_of_lt (by omega)]
    exact h.sub (by omega) (by omega)

theorem Window.covers_chunks {w : Span} (hw : Window w) (va size : W64) (fuel : Nat) (off : W64)
    (hfuel : size.toNat ≤ off.toNat + fuel)
    (h : ∀ c ∈ pageChunks va size fuel off, w.Covers c.1.toNat c.2.toNat) :
    ∀ i, off.toNat ≤ i → i < size.toNat → w.Covers (va + BitVec.ofNat 64 i).toNat 1 := by
  induction fuel generalizing off with
  | zero =>
    intro i hlo hhi
    omega
  | succ fuel ih =>
    intro i hlo hhi
    have hlt : off < size := by
      rw [BitVec.lt_def]
      omega
    unfold pageChunks at h
    rw [if_pos hlt] at h
    obtain ⟨hc, hrest⟩ := List.forall_mem_cons.mp h
    dsimp only at hc
    obtain ⟨hne, hle⟩ := pageChunk_spec va hlt
    have hpos := W64.toNat_pos hne
    have hsize := size.isLt
    by_cases hin : i < off.toNat + (pageChunk va size off).toNat
    · have hbytes := (hw.covers_bytes (va + off) hpos (by omega)).mpr hc (i - off.toNat) (by omega)
      have hadd : va + off + BitVec.ofNat 64 (i - off.toNat) = va + BitVec.ofNat 64 i := by
        rw [BitVec.add_assoc]
        congr 1
        apply BitVec.eq_of_toNat_eq
        rw [BitVec.toNat_add, BitVec.toNat_ofNat, BitVec.toNat_ofNat, Nat.add_mod_mod,
          show off.toNat + (i - off.toNat) = i by omega]
      rw [hadd] at hbytes
      exact hbytes
    · have hnext : (off + pageChunk va size off).toNat =
          off.toNat + (pageChunk va size off).toNat := by
        rw [BitVec.toNat_add, Nat.mod_eq_of_lt (by omega)]
      exact ih (off + pageChunk va size off) (by omega) hrest i (by omega) hhi

theorem Window.covers_pages {w : Span} (hw : Window w) (va : W64) {size : W64} (hs : size ≠ 0) :
    (∀ c ∈ pageChunks va size size.toNat 0, w.Covers c.1.toNat c.2.toNat) ↔
      w.Covers va.toNat size.toNat := by
  have hpos := W64.toNat_pos hs
  constructor
  · intro h
    refine (hw.covers_bytes va hpos size.isLt).mp fun i hi => ?_
    exact hw.covers_chunks va size size.toNat 0 (Nat.le_add_left _ _) h i (Nat.zero_le _) hi
  · intro h c hc
    obtain ⟨o, hva, hne, hle⟩ := mem_pageChunks hc
    have hbelow := hw.below
    have hhi := h.2
    have hpos' := W64.toNat_pos hne
    have hadd : (va + o).toNat = va.toNat + o.toNat := by
      rw [BitVec.toNat_add, Nat.mod_eq_of_lt (by omega)]
    rw [hva, hadd]
    exact h.sub (by omega) (by omega)

section

variable {σ : Type} {w : Span} {phys : Memops σ} {R : σ → (Nat → BitVec 8) → Prop}

theorem FlatBus.byteReads (hf : FlatBus w phys R) {m : Nat → BitVec 8} {va : W64} (k i : Nat)
    {p : σ} (hR : R p m)
    (hadd : ∀ j < i + k, (va + BitVec.ofNat 64 j).toNat = va.toNat + j)
    (hc : ∀ j < i + k, w.Covers (va + BitVec.ofNat 64 j).toNat 1) :
    (Oemu.byteReads phys va k i (bytesAt m va i) p).1 = some (bytesAt m va (i + k)) ∧
      R (Oemu.byteReads phys va k i (bytesAt m va i) p).2 m := by
  induction k generalizing i p with
  | zero => exact ⟨rfl, hR⟩
  | succ k ih =>
    obtain ⟨p', hread, hR'⟩ := hf.read hR (show MemSize.byte.bytes ≤ 8 by decide)
      (hc i (by omega)) false
    have hone : loaded (bytesAt m (va + BitVec.ofNat 64 i) 1) 1 false =
        (m (va.toNat + i)).setWidth 64 := by
      show lowBytes (disassemble _ 1) 1 = _
      rw [lowBytes_disassemble]
      show (0#64) ||| ((m _).setWidth 64 <<< 0) = _
      rw [BitVec.shiftLeft_zero, BitVec.zero_or, Nat.add_zero, hadd i (by omega)]
    rw [show MemSize.byte.bytes = 1 from rfl, hone] at hread
    unfold Oemu.byteReads
    rw [hread]
    dsimp only
    rw [setWidth_and_byte, Nat.mul_comm i 8]
    have hnext := ih (i + 1) hR' (fun j hj => hadd j (by omega)) (fun j hj => hc j (by omega))
    rw [Nat.add_right_comm] at hnext
    exact hnext

theorem FlatBus.byteWrites (hf : FlatBus w phys R) {m : Nat → BitVec 8} {va : W64} (value : W64)
    (k i : Nat) {p : σ} (hR : R p (assemble m va.toNat i value))
    (hadd : ∀ j < i + k, (va + BitVec.ofNat 64 j).toNat = va.toNat + j)
    (hc : ∀ j < i + k, w.Covers (va + BitVec.ofNat 64 j).toNat 1) :
    (Oemu.byteWrites phys va value k i p).1 = true ∧
      R (Oemu.byteWrites phys va value k i p).2 (assemble m va.toNat (i + k) value) := by
  induction k generalizing i p with
  | zero => exact ⟨rfl, hR⟩
  | succ k ih =>
    obtain ⟨p', hwrite, hR'⟩ := hf.write hR (show MemSize.byte.bytes ≤ 8 by decide)
      (hc i (by omega)) ((value >>> (i * 8)) &&& 0xFF)
    rw [show MemSize.byte.bytes = 1 from rfl, hadd i (by omega), assemble_snoc] at hR'
    unfold Oemu.byteWrites
    rw [hwrite]
    dsimp only
    have hnext := ih (i + 1) hR' (fun j hj => hadd j (by omega)) (fun j hj => hc j (by omega))
    rw [Nat.add_right_comm] at hnext
    exact hnext

/-! ### with translation and the alignment policy off -/

variable {sr : Sysregs}

/-- a state the physical bus relates is one the view relates -/
abbrev OnPhys (R : σ → (Nat → BitVec 8) → Prop) (wd : MmuWorld σ) (m : Nat → BitVec 8) : Prop :=
  R wd.phys m

theorem FlatBus.mmu_fetch (hf : FlatBus w phys R) (hoff : cacheable sr sr.el = false)
    {wd : MmuWorld σ} {m : Nat → BitVec 8} (hR : R wd.phys m) {a : W64} (ha : a.toNat % 4 = 0)
    (hc : w.Covers a.toNat 4) :
    ∃ wd', mmuFetch32 sr phys wd a = (.ok, (bytesAt m a 4).setWidth 32, wd') ∧ R wd'.phys m := by
  obtain ⟨p, hval, hR⟩ := hf.validate hR (n := 4) (q := permExec) (by decide) (by decide) hc
  obtain ⟨p', hfetch, hR⟩ := hf.fetch hR ha hc
  refine ⟨⟨epochCheck wd.mmu sr, p'⟩, ?_, hR⟩
  unfold mmuFetch32
  dsimp only
  rw [translate_off hoff]
  dsimp only
  rw [hval]
  dsimp only
  rw [hfetch]

theorem FlatBus.mmu_fetchRefused (hf : FlatBus w phys R) (hoff : cacheable sr sr.el = false)
    {wd : MmuWorld σ} {m : Nat → BitVec 8} (hR : R wd.phys m) {a : W64}
    (h : ¬ (a.toNat % 4 = 0 ∧ w.Covers a.toNat 4)) :
    (mmuFetch32 sr phys wd a).1 ≠ .ok ∧ R (mmuFetch32 sr phys wd a).2.2.phys m := by
  unfold mmuFetch32
  dsimp only
  rw [translate_off hoff]
  dsimp only
  by_cases hc : w.Covers a.toNat 4
  · obtain ⟨p, hval, hR⟩ := hf.validate hR (n := 4) (q := permExec) (by decide) (by decide) hc
    obtain ⟨hst, hR⟩ := hf.fetchRefused hR h
    rw [hval]
    dsimp only
    rcases hfetch : phys.fetch32 p a with ⟨st, word, p'⟩
    rw [hfetch] at hst hR
    cases st <;> first | exact absurd rfl hst | exact ⟨Status.noConfusion, hR⟩
  · obtain ⟨hst, hR⟩ := hf.validateRefused hR (a := a) (n := 4) (q := permExec) (by decide)
      (fun h => hc h.2)
    rcases hval : phys.validate wd.phys a 4 permExec with ⟨st, p⟩
    rw [hval] at hst hR
    cases st <;> first | exact absurd rfl hst | exact ⟨Status.noConfusion, hR⟩

/-- the layer may probe byte by byte what it then transfers -/
theorem FlatBus.bytes_granted (hf : FlatBus w phys R) (hw : Window w) {p : σ} {m : Nat → BitVec 8}
    (hR : R p m) {va : W64} {n : MemSize} {q : W32} (hq : permAll &&& q = q) :
    (∀ i < n.bytes, (phys.validate p (va + BitVec.ofNat 64 i) 1 q).1 = .ok) ↔
      w.Covers va.toNat n.bytes := by
  rw [← hw.covers_bytes va n.bytes_pos (lt_of_le_of_lt n.bytes_le (by decide))]
  refine forall_congr' fun i => forall_congr' fun _ => ?_
  by_cases hc : w.Covers (va + BitVec.ofNat 64 i).toNat 1
  · obtain ⟨p', hval, -⟩ := hf.validate hR (n := 1) (by decide) hq hc
    rw [hval]
    exact ⟨fun _ => hc, fun _ => rfl⟩
  · have hval := hf.validateRefused hR (a := va + BitVec.ofNat 64 i) (n := 1) (q := q) (by decide)
      (fun h => hc h.2)
    exact ⟨fun h => absurd h hval.1, fun h => absurd h hc⟩

theorem Window.bytes_add (hw : Window w) {va : W64} {n : Nat} (hc : w.Covers va.toNat n)
    (hn : n ≤ 16) : ∀ j < n, (va + BitVec.ofNat 64 j).toNat = va.toNat + j := by
  intro j hj
  have hbelow := hw.below
  have hhi := hc.2
  rw [BitVec.toNat_add, BitVec.toNat_ofNat, Nat.mod_eq_of_lt (show j < 2 ^ 64 by omega),
    Nat.mod_eq_of_lt (by omega)]

section

variable (hf : FlatBus w phys R) (hw : Window w) (hq : ∀ p a n q, (phys.validate p a n q).2 = p)
  (hoff : cacheable sr sr.el = false) (hpol : alignmentRequired sr (sr.el == .el0) = false)
  (f₀ : MmuFault)

include hf hw hq hoff hpol

theorem FlatBus.mmu_read {wd : MmuWorld σ} {m : Nat → BitVec 8} (hR : R wd.phys m) {a : W64}
    {n : MemSize} (h8 : n.bytes ≤ 8) (hc : w.Covers a.toNat n.bytes) (sx : Bool) :
    ∃ wd', mmuRead sr phys f₀ wd a n sx =
      (.ok, loaded (bytesAt m a n.bytes) n.bytes sx, wd') ∧ R wd'.phys m := by
  have hvalue : (if sx then mmuSignExtend (bytesAt m a n.bytes) n.bytes
      else bytesAt m a n.bytes) = loaded (bytesAt m a n.bytes) n.bytes sx := by
    have hlow : lowBytes (bytesAt m a n.bytes) n.bytes = bytesAt m a n.bytes :=
      lowBytes_disassemble _ _
    cases sx with
    | false => exact hlow.symm
    | true =>
      rw [if_pos rfl, ← mmuSignExtend_loaded _ n.bytes_pos h8]
      show _ = mmuSignExtend (lowBytes _ _) _
      rw [hlow]
  cases hmis : misaligned a n with
  | true =>
    obtain ⟨-, hsplit⟩ := mmuRead_split hoff hq f₀ wd hmis hpol sx
    obtain ⟨hst, hval, hphys⟩ := hsplit ((hf.bytes_granted hw hR (by decide)).mpr hc)
    have hbytes := (hw.covers_bytes a n.bytes_pos (lt_of_le_of_lt n.bytes_le (by decide))).mpr hc
    obtain ⟨hread, hR'⟩ := hf.byteReads n.bytes 0 hR
      (by rw [Nat.zero_add]; exact hw.bytes_add hc n.bytes_le) (by rw [Nat.zero_add]; exact hbytes)
    rw [Nat.zero_add] at hread
    rw [show bytesAt m a 0 = 0 from rfl] at hread hR'
    rw [hread, Option.elim_some] at hst hval
    rw [hvalue] at hval
    refine ⟨(mmuRead sr phys f₀ wd a n sx).2.2, ?_, ?_⟩
    · rw [← hst, ← hval]
    · rw [hphys]
      exact hR'
  | false =>
    have hpass : (misaligned a n && alignmentRequired sr (sr.el == .el0)) = false := by
      rw [hmis, Bool.false_and]
    obtain ⟨p, hval, hR⟩ := hf.validate hR (a := a) (q := permRead) n.ofNat_ne_zero (by decide)
      (by rw [n.toNat_bytes]; exact hc)
    obtain ⟨p', hread, hR⟩ := hf.read hR h8 hc false
    have hlow : loaded (bytesAt m a n.bytes) n.bytes false = bytesAt m a n.bytes :=
      lowBytes_disassemble _ _
    rw [hlow] at hread
    have hphys : mmuReadPhys sr phys f₀ { wd with mmu := epochCheck wd.mmu sr } a a n =
        (some (bytesAt m a n.bytes), ⟨epochCheck wd.mmu sr, p'⟩) := by
      unfold mmuReadPhys
      dsimp only
      rw [hmis, if_neg Bool.false_ne_true, hval]
      dsimp only
      rw [hread]
    refine ⟨⟨epochCheck wd.mmu sr, p'⟩, ?_, hR⟩
    rw [mmuRead_off hoff f₀ wd hpass phys sx hphys, ← hvalue]
    rfl

theorem FlatBus.mmu_readRefused {wd : MmuWorld σ} {m : Nat → BitVec 8} (hR : R wd.phys m)
    {a : W64} {n : MemSize} (hc : ¬ w.Covers a.toNat n.bytes) (sx : Bool) :
    (mmuRead sr phys f₀ wd a n sx).1 ≠ .ok ∧ R (mmuRead sr phys f₀ wd a n sx).2.2.phys m := by
  cases hmis : misaligned a n with
  | true =>
    obtain ⟨hsplit, -⟩ := mmuRead_split hoff hq f₀ wd hmis hpol sx
    obtain ⟨hst, hphys⟩ := hsplit (fun h => hc ((hf.bytes_granted hw hR (by decide)).mp h))
    rw [hst, hphys]
    exact ⟨Status.noConfusion, hR⟩
  | false =>
    have hpass : (misaligned a n && alignmentRequired sr (sr.el == .el0)) = false := by
      rw [hmis, Bool.false_and]
    obtain ⟨hst, hR⟩ := hf.validateRefused hR (a := a) (q := permRead) n.ofNat_ne_zero
      (by rw [n.toNat_bytes]; exact fun h => hc h.2)
    have hphys : ∃ wd', mmuReadPhys sr phys f₀ { wd with mmu := epochCheck wd.mmu sr } a a n =
        (none, wd') ∧ R wd'.phys m := by
      unfold mmuReadPhys
      dsimp only
      rw [hmis, if_neg Bool.false_ne_true]
      rcases hval : phys.validate wd.phys a (BitVec.ofNat 64 n.bytes) permRead with ⟨st, p⟩
      rw [hval] at hst hR
      cases st <;> first | exact absurd rfl hst | exact ⟨_, rfl, hR⟩
    obtain ⟨wd', hphys, hR⟩ := hphys
    rw [mmuRead_off hoff f₀ wd hpass phys sx hphys]
    exact ⟨Status.noConfusion, hR⟩

theorem FlatBus.mmu_write {wd : MmuWorld σ} {m : Nat → BitVec 8} (hR : R wd.phys m) {a : W64}
    {n : MemSize} (h8 : n.bytes ≤ 8) (hc : w.Covers a.toNat n.bytes) (v : W64) :
    ∃ wd', mmuWrite sr phys f₀ wd a n v = (.ok, wd') ∧
      R wd'.phys (assemble m a.toNat n.bytes v) := by
  cases hmis : misaligned a n with
  | true =>
    obtain ⟨-, hsplit⟩ := mmuWrite_split hoff hq f₀ wd hmis hpol v
    obtain ⟨hphys, hst⟩ := hsplit ((hf.bytes_granted hw hR (by decide)).mpr hc)
    have hbytes := (hw.covers_bytes a n.bytes_pos (lt_of_le_of_lt n.bytes_le (by decide))).mpr hc
    have hzero : assemble m a.toNat 0 v = m := by
      funext i
      exact assemble_outside _ _ _ _ (by omega)
    obtain ⟨hwrite, hR'⟩ := hf.byteWrites v n.bytes 0 (by rw [hzero]; exact hR)
      (by rw [Nat.zero_add]; exact hw.bytes_add hc n.bytes_le) (by rw [Nat.zero_add]; exact hbytes)
    rw [Nat.zero_add] at hR'
    rw [hwrite, if_pos rfl] at hst
    refine ⟨(mmuWrite sr phys f₀ wd a n v).2, ?_, ?_⟩
    · rw [← hst]
    · rw [hphys]
      exact hR'
  | false =>
    obtain ⟨p, hval, hR⟩ := hf.validate hR (a := a) (q := permWrite) n.ofNat_ne_zero (by decide)
      (by rw [n.toNat_bytes]; exact hc)
    obtain ⟨p', hwrite, hR⟩ := hf.write hR h8 hc v
    refine ⟨⟨epochCheck wd.mmu sr, p'⟩, ?_, hR⟩
    unfold mmuWrite
    dsimp only
    rw [translate_off hoff]
    dsimp only
    rw [hmis, Bool.false_and, if_neg Bool.false_ne_true, if_neg Bool.false_ne_true, hval]
    dsimp only
    rw [hwrite]

theorem FlatBus.mmu_writeRefused {wd : MmuWorld σ} {m : Nat → BitVec 8} (hR : R wd.phys m)
    {a : W64} {n : MemSize} (hc : ¬ w.Covers a.toNat n.bytes) (v : W64) :
    (mmuWrite sr phys f₀ wd a n v).1 ≠ .ok ∧ R (mmuWrite sr phys f₀ wd a n v).2.phys m := by
  cases hmis : misaligned a n with
  | true =>
    obtain ⟨hsplit, -⟩ := mmuWrite_split hoff hq f₀ wd hmis hpol v
    obtain ⟨hst, hphys⟩ := hsplit (fun h => hc ((hf.bytes_granted hw hR (by decide)).mp h))
    rw [hst, hphys]
    exact ⟨Status.noConfusion, hR⟩
  | false =>
    obtain ⟨hst, hR⟩ := hf.validateRefused hR (a := a) (q := permWrite) n.ofNat_ne_zero
      (by rw [n.toNat_bytes]; exact fun h => hc h.2)
    unfold mmuWrite
    dsimp only
    rw [translate_off hoff]
    dsimp only
    rw [hmis, Bool.false_and, if_neg Bool.false_ne_true, if_neg Bool.false_ne_true]
    rcases hval : phys.validate wd.phys a (BitVec.ofNat 64 n.bytes) permWrite with ⟨st, p⟩
    rw [hval] at hst hR
    cases st <;> first | exact absurd rfl hst | exact ⟨Status.noConfusion, hR⟩

omit hpol in
/-- the probe of the view: granted when the window covers the range -/
theorem FlatBus.mmu_validate {wd : MmuWorld σ} {m : Nat → BitVec 8} (hR : R wd.phys m) {a n : W64}
    {q : W32} (hn : n ≠ 0) :
    ((mmuValidate sr phys wd a n q).1 = .ok ↔
      permAll &&& q = q ∧ w.Covers a.toNat n.toNat) ∧
      (mmuValidate sr phys wd a n q).2.phys = wd.phys := by
  obtain ⟨hiff, hphys⟩ := validateLoop_off hoff hq a n q n.toNat 0 wd
  refine ⟨hiff.trans ?_, hphys⟩
  have hchunk : ∀ c ∈ pageChunks a n n.toNat 0, ((phys.validate wd.phys c.1 c.2 q).1 = .ok ↔
      permAll &&& q = q ∧ w.Covers c.1.toNat c.2.toNat) := by
    intro c hc
    obtain ⟨o, -, hne, -⟩ := mem_pageChunks hc
    by_cases hcov : permAll &&& q = q ∧ w.Covers c.1.toNat c.2.toNat
    · obtain ⟨p, hval, -⟩ := hf.validate hR hne hcov.1 hcov.2
      rw [hval]
      exact ⟨fun _ => hcov, fun _ => rfl⟩
    · exact ⟨fun h => absurd h (hf.validateRefused hR hne hcov).1, fun h => absurd h hcov⟩
  rw [forall₂_congr hchunk, ← hw.covers_pages a hn]
  constructor
  · intro h
    refine ⟨?_, fun c hc => (h c hc).2⟩
    have hlt : (0 : W64) < n := W64.toNat_pos hn
    obtain ⟨fuel, hfuel⟩ := Nat.exists_eq_add_of_lt (W64.toNat_pos hn)
    refine (h (a + 0, pageChunk a n 0) ?_).1
    rw [hfuel, Nat.zero_add]
    unfold pageChunks
    rw [if_pos hlt]
    exact List.mem_cons_self
  · intro h c hc
    exact ⟨h.1, h.2 c hc⟩

/-- **the view of the layer over a flat bus** is a flat bus -/
theorem FlatBus.mmu : FlatBus w (mmuMemops sr phys f₀) (OnPhys R) where
  fetch := fun hR _ ha hc => hf.mmu_fetch hoff hR ha hc
  fetchRefused := fun hR _ h => hf.mmu_fetchRefused hoff hR h
  read := fun hR _ _ h8 hc sx => hf.mmu_read hw hq hoff hpol f₀ hR h8 hc sx
  readRefused := fun hR _ _ _ hc sx => hf.mmu_readRefused hw hq hoff hpol f₀ hR hc sx
  write := fun hR _ _ h8 hc v => hf.mmu_write hw hq hoff hpol f₀ hR h8 hc v
  writeRefused := fun hR _ _ _ hc v => hf.mmu_writeRefused hw hq hoff hpol f₀ hR hc v
  validate := by
    intro wd m hR a n q hn hp hc
    obtain ⟨hiff, hphys⟩ := hf.mmu_validate hw hq hoff hR (a := a) (q := q) hn
    refine ⟨(mmuValidate sr phys wd a n q).2, ?_, ?_⟩
    · rw [← hiff.mpr ⟨hp, hc⟩]
      rfl
    · show R (mmuValidate sr phys wd a n q).2.phys m
      rw [hphys]
      exact hR
  validateRefused := by
    intro wd m hR a n q hn hc
    obtain ⟨hiff, hphys⟩ := hf.mmu_validate hw hq hoff hR (a := a) (q := q) hn
    refine ⟨fun h => hc (hiff.mp h), ?_⟩
    show R (mmuValidate sr phys wd a n q).2.phys m
    rw [hphys]
    exact hR

end

end

end Oemu
