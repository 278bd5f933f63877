import Oemu.Mmu.Served
import Oemu.Memory.Bytes

/-!
# The layer with translation off

With `SCTLR_EL1.M` clear or at EL3 a translation answers the address it is asked for and leaves the
physical bus alone: `translate_off`.  What is left of the view is its own handling of an access: bytes
for a misaligned one, pages for a probe.  `byteReads`, `byteWrites` and `pageChunks` are these parts
without the layer.
-/

namespace Oemu

variable {σ : Type}

/-! ## bytes and pages -/

/-- read `k` more bytes, from the `i`-th on -/
def byteReads (phys : Memops σ) (va : W64) : Nat → Nat → W64 → σ → Option W64 × σ
  | 0, _, value, p => (some value, p)
  | k + 1, i, value, p =>
    match phys.read p (va + BitVec.ofNat 64 i) .byte false with
    | (.ok, byte, p) =>
      byteReads phys va k (i + 1) (value ||| ((byte &&& 0xFF) <<< (i * 8))) p
    | (_, _, p) => (none, p)

/-- write `k` more bytes, from the `i`-th on -/
def byteWrites (phys : Memops σ) (va value : W64) : Nat → Nat → σ → Bool × σ
  | 0, _, p => (true, p)
  | k + 1, i, p =>
    match phys.write p (va + BitVec.ofNat 64 i) .byte ((value >>> (i * 8)) &&& 0xFF) with
    | (.ok, p) => byteWrites phys va value k (i + 1) p
    | (_, p) => (false, p)

/-- the part of a range that lies in the page of its first byte -/
def pageChunk (va size off : W64) : W64 :=
  let span := 4096 - ((va + off) &&& pageMask)
  if span ≤ size - off then span else size - off

theorem pageChunk_spec (va : W64) {size off : W64} (h : off < size) :
    pageChunk va size off ≠ 0 ∧ off.toNat + (pageChunk va size off).toNat ≤ size.toNat := by
  have hlt : off.toNat < size.toNat := h
  have hrest : (size - off).toNat = size.toNat - off.toNat :=
    BitVec.toNat_sub_of_le (BitVec.le_def.mpr (Nat.le_of_lt hlt))
  have hoff : ((va + off) &&& pageMask).toNat ≤ 4095 := by
    rw [BitVec.toNat_and, show pageMask.toNat = 4095 from rfl]
    exact Nat.and_le_right
  have hpage : (4096 : W64).toNat = 4096 := rfl
  have hspan : (4096 - ((va + off) &&& pageMask)).toNat =
      4096 - ((va + off) &&& pageMask).toNat := by
    rw [BitVec.toNat_sub_of_le (by rw [BitVec.le_def, hpage]; omega), hpage]
  have hne : ∀ {x : W64}, 0 < x.toNat → x ≠ 0 := by
    rintro x hx rfl
    exact absurd hx (by decide)
  unfold pageChunk
  dsimp only
  split
  · rename_i hle
    rw [BitVec.le_def] at hle
    exact ⟨hne (by omega), by omega⟩
  · exact ⟨hne (by omega), by omega⟩

theorem pageChunk_le (va size off : W64) : (pageChunk va size off).toNat ≤ 4096 := by
  have hoff : ((va + off) &&& pageMask).toNat ≤ 4095 := by
    rw [BitVec.toNat_and, show pageMask.toNat = 4095 from rfl]
    exact Nat.and_le_right
  have hpage : (4096 : W64).toNat = 4096 := rfl
  have hspan : (4096 - ((va + off) &&& pageMask)).toNat =
      4096 - ((va + off) &&& pageMask).toNat := by
    rw [BitVec.toNat_sub_of_le (by rw [BitVec.le_def, hpage]; omega), hpage]
  unfold pageChunk
  dsimp only
  split
  · omega
  · rename_i hgt
    rw [BitVec.le_def] at hgt
    omega

/-- a range cut at page boundaries, from `off` on -/
def pageChunks (va size : W64) : Nat → W64 → List (W64 × W64)
  | 0, _ => []
  | fuel + 1, off =>
    if off < size then
      (va + off, pageChunk va size off) :: pageChunks va size fuel (off + pageChunk va size off)
    else []

/-! ## the layer -/

section

variable {sr : Sysregs} {phys : Memops σ}

theorem translate_off (hoff : cacheable sr sr.el = false) (w : MmuWorld σ) (va : W64)
    (isWrite isFetch : Bool) :
    translate sr phys w va sr.el isWrite isFetch =
      (.ok va, { w with mmu := epochCheck w.mmu sr }) := by
  unfold translate translateMiss
  dsimp only
  rw [if_neg (by rw [hoff]; decide), walk_identity hoff]

theorem splitCheck_off (hoff : cacheable sr sr.el = false)
    (hq : ∀ p a n q, (phys.validate p a n q).2 = p) (f₀ : MmuFault) (va : W64) (isWrite : Bool)
    (k i : Nat) (w : MmuWorld σ) :
    ((splitCheck sr phys f₀ va sr.el isWrite k i w).1 = none ↔
      ∀ j < k, (phys.validate w.phys (va + BitVec.ofNat 64 (i + j)) 1 (accessPerm isWrite)).1 = .ok) ∧
      (splitCheck sr phys f₀ va sr.el isWrite k i w).2.phys = w.phys := by
  induction k generalizing i w with
  | zero =>
    refine ⟨⟨fun _ j hj => absurd hj (Nat.not_lt_zero j), fun _ => rfl⟩, rfl⟩
  | succ k ih =>
    unfold splitCheck
    rw [translate_off hoff]
    dsimp only
    have hp := hq w.phys (va + BitVec.ofNat 64 i) 1 (accessPerm isWrite)
    rcases hv : phys.validate w.phys (va + BitVec.ofNat 64 i) 1 (accessPerm isWrite) with ⟨st, p⟩
    rw [hv] at hp
    dsimp only at hp
    subst hp
    have hne : st ≠ .ok → ¬ ∀ j < k + 1,
        (phys.validate w.phys (va + BitVec.ofNat 64 (i + j)) 1 (accessPerm isWrite)).1 = .ok := by
      intro hst hall
      have := hall 0 (Nat.succ_pos k)
      rw [Nat.add_zero, hv] at this
      exact hst this
    cases st <;> dsimp only
    case ok =>
      obtain ⟨hiff, hphys⟩ := ih (i + 1) { mmu := epochCheck w.mmu sr, phys := w.phys }
      refine ⟨hiff.trans ⟨?_, ?_⟩, hphys⟩
      · intro hall j hj
        cases j with
        | zero => rw [Nat.add_zero, hv]
        | succ j =>
          have := hall j (Nat.lt_of_succ_lt_succ hj)
          rwa [Nat.add_assoc, Nat.add_comm 1 j] at this
      · intro hall j hj
        have := hall (j + 1) (Nat.succ_lt_succ hj)
        rwa [← Nat.add_assoc, Nat.add_right_comm] at this
    all_goals
      refine ⟨⟨fun h => ?_, fun h => absurd h (hne (Status.noConfusion ·))⟩, rfl⟩
      cases h

theorem splitRead_off (hoff : cacheable sr sr.el = false) (phys : Memops σ) (va : W64) (k i : Nat) (value : W64)
    (w : MmuWorld σ) :
    ((splitRead sr phys va sr.el k i value w).1, (splitRead sr phys va sr.el k i value w).2.phys) =
      byteReads phys va k i value w.phys := by
  induction k generalizing i value w with
  | zero => rfl
  | succ k ih =>
    unfold splitRead byteReads
    rw [translate_off hoff]
    dsimp only [outAddr]
    rcases phys.read w.phys (va + BitVec.ofNat 64 i) .byte false with ⟨st, byte, p⟩
    cases st <;> dsimp only
    exact ih _ _ _

theorem splitWrite_off (hoff : cacheable sr sr.el = false) (phys : Memops σ) (va value : W64) (k i : Nat)
    (w : MmuWorld σ) :
    ((splitWrite sr phys va sr.el value k i w).1, (splitWrite sr phys va sr.el value k i w).2.phys) =
      byteWrites phys va value k i w.phys := by
  induction k generalizing i w with
  | zero => rfl
  | succ k ih =>
    unfold splitWrite byteWrites
    rw [translate_off hoff]
    dsimp only [outAddr]
    rcases phys.write w.phys (va + BitVec.ofNat 64 i) .byte ((value >>> (i * 8)) &&& 0xFF)
      with ⟨st, p⟩
    cases st <;> dsimp only
    exact ih _ _

theorem validateLoop_off (hoff : cacheable sr sr.el = false)
    (hq : ∀ p a n q, (phys.validate p a n q).2 = p) (va size : W64) (perms : W32) (fuel : Nat)
    (off : W64) (w : MmuWorld σ) :
    ((validateLoop sr phys va size perms fuel off w).1 = .ok ↔
      ∀ c ∈ pageChunks va size fuel off, (phys.validate w.phys c.1 c.2 perms).1 = .ok) ∧
      (validateLoop sr phys va size perms fuel off w).2.phys = w.phys := by
  induction fuel generalizing off w with
  | zero => exact ⟨⟨fun _ c hc => absurd hc List.not_mem_nil, fun _ => rfl⟩, rfl⟩
  | succ fuel ih =>
    unfold validateLoop pageChunks
    by_cases hlt : off < size
    · rw [if_pos hlt, if_pos hlt]
      dsimp only
      rw [translate_off hoff]
      dsimp only
      have hp := hq w.phys (va + off) (pageChunk va size off) perms
      have hfold : (if 4096 - ((va + off) &&& pageMask) ≤ size - off then
          4096 - ((va + off) &&& pageMask) else size - off) = pageChunk va size off := rfl
      rw [hfold, List.forall_mem_cons]
      rcases hv : phys.validate w.phys (va + off) (pageChunk va size off) perms with ⟨st, p⟩
      rw [hv] at hp
      dsimp only at hp
      subst hp
      cases st <;> dsimp only
      case ok =>
        obtain ⟨hiff, hphys⟩ := ih (off + pageChunk va size off)
          { mmu := epochCheck w.mmu sr, phys := w.phys }
        refine ⟨hiff.trans ⟨fun h => ⟨rfl, h⟩, fun h => h.2⟩, hphys⟩
      all_goals
        refine ⟨⟨fun h => ?_, fun h => ?_⟩, rfl⟩
        · cases h
        · cases h.1
    · rw [if_neg hlt, if_neg hlt]
      exact ⟨⟨fun _ c hc => absurd hc List.not_mem_nil, fun _ => rfl⟩, rfl⟩

/-! ## reads and writes -/

theorem mmuRead_off (hoff : cacheable sr sr.el = false) (f₀ : MmuFault) (w : MmuWorld σ) {va : W64}
    {size : MemSize} (hpass : (misaligned va size && alignmentRequired sr (sr.el == .el0)) = false)
    (phys : Memops σ) (sx : Bool) {res : Option W64} {w' : MmuWorld σ}
    (h : mmuReadPhys sr phys f₀ { w with mmu := epochCheck w.mmu sr } va va size = (res, w')) :
    mmuRead sr phys f₀ w va size sx =
      (res.elim .fault fun _ => .ok,
        res.elim 0 fun value => if sx then mmuSignExtend value size.bytes else value, w') := by
  unfold mmuRead
  dsimp only
  rw [translate_off hoff]
  dsimp only
  rw [hpass, if_neg Bool.false_ne_true, h]
  cases res <;> rfl

theorem mmuRead_policy (hoff : cacheable sr sr.el = false) (f₀ : MmuFault) (w : MmuWorld σ)
    {va : W64} {size : MemSize}
    (hpol : (misaligned va size && alignmentRequired sr (sr.el == .el0)) = true)
    (phys : Memops σ) (sx : Bool) :
    (mmuRead sr phys f₀ w va size sx).1 = .fault ∧
      (mmuRead sr phys f₀ w va size sx).2.2.phys = w.phys := by
  unfold mmuRead
  dsimp only
  rw [translate_off hoff]
  dsimp only
  rw [if_pos hpol]
  exact ⟨rfl, rfl⟩

theorem mmuWrite_policy (hoff : cacheable sr sr.el = false) (f₀ : MmuFault) (w : MmuWorld σ)
    {va : W64} {size : MemSize}
    (hpol : (misaligned va size && alignmentRequired sr (sr.el == .el0)) = true)
    (phys : Memops σ) (value : W64) :
    (mmuWrite sr phys f₀ w va size value).1 = .fault ∧
      (mmuWrite sr phys f₀ w va size value).2.phys = w.phys := by
  unfold mmuWrite
  dsimp only
  rw [translate_off hoff]
  dsimp only
  rw [if_pos hpol]
  exact ⟨rfl, rfl⟩

/-- a misaligned read the policy lets pass: probed by bytes, then read by bytes -/
theorem mmuRead_split {phys : Memops σ} (hoff : cacheable sr sr.el = false)
    (hq : ∀ p a n q, (phys.validate p a n q).2 = p) (f₀ : MmuFault) (w : MmuWorld σ) {va : W64}
    {size : MemSize} (hmis : misaligned va size = true)
    (hpol : alignmentRequired sr (sr.el == .el0) = false) (sx : Bool) :
    (¬ (∀ i < size.bytes, (phys.validate w.phys (va + BitVec.ofNat 64 i) 1 permRead).1 = .ok) →
      (mmuRead sr phys f₀ w va size sx).1 = .fault ∧
        (mmuRead sr phys f₀ w va size sx).2.2.phys = w.phys) ∧
    ((∀ i < size.bytes, (phys.validate w.phys (va + BitVec.ofNat 64 i) 1 permRead).1 = .ok) →
      (mmuRead sr phys f₀ w va size sx).1 =
          ((byteReads phys va size.bytes 0 0 w.phys).1.elim .fault fun _ => .ok) ∧
        (mmuRead sr phys f₀ w va size sx).2.1 =
          ((byteReads phys va size.bytes 0 0 w.phys).1.elim 0 fun value =>
            if sx then mmuSignExtend value size.bytes else value) ∧
        (mmuRead sr phys f₀ w va size sx).2.2.phys =
          (byteReads phys va size.bytes 0 0 w.phys).2) := by
  have hpass : (misaligned va size && alignmentRequired sr (sr.el == .el0)) = false := by
    rw [hpol, Bool.and_false]
  obtain ⟨hiff, hphys⟩ := splitCheck_off hoff hq f₀ va false size.bytes 0
    { mmu := epochCheck w.mmu sr, phys := w.phys }
  simp only [Nat.zero_add] at hiff
  change _ ↔ ∀ i < size.bytes, (phys.validate w.phys (va + BitVec.ofNat 64 i) 1 permRead).1 = .ok
    at hiff
  rcases hc : splitCheck sr phys f₀ va sr.el false size.bytes 0
    { mmu := epochCheck w.mmu sr, phys := w.phys } with ⟨c, w'⟩
  rw [hc] at hiff hphys
  cases c with
  | some f =>
    have hread : mmuReadPhys sr phys f₀ { w with mmu := epochCheck w.mmu sr } va va size =
        (none, w'.pend f) := by
      unfold mmuReadPhys
      dsimp only
      rw [if_pos hmis, hc]
    rw [mmuRead_off hoff f₀ w hpass phys sx hread]
    refine ⟨fun _ => ⟨rfl, hphys⟩, fun h => ?_⟩
    cases hiff.mpr h
  | none =>
    refine ⟨fun h => absurd (hiff.mp rfl) h, fun _ => ?_⟩
    have hbytes := splitRead_off hoff phys va size.bytes 0 0 w'
    rw [hphys] at hbytes
    rcases hr : splitRead sr phys va sr.el size.bytes 0 0 w' with ⟨_ | value, w''⟩
    · have hread : mmuReadPhys sr phys f₀ { w with mmu := epochCheck w.mmu sr } va va size =
          (none, w''.pend (refuseRecord sr.el false false .translationNoWalk (-1) va)) := by
        unfold mmuReadPhys
        dsimp only
        rw [if_pos hmis, hc]
        dsimp only
        rw [hr]
      rw [hr] at hbytes
      rw [mmuRead_off hoff f₀ w hpass phys sx hread, ← hbytes]
      exact ⟨rfl, rfl, rfl⟩
    · have hread : mmuReadPhys sr phys f₀ { w with mmu := epochCheck w.mmu sr } va va size =
          (some value, w'') := by
        unfold mmuReadPhys
        dsimp only
        rw [if_pos hmis, hc]
        dsimp only
        rw [hr]
      rw [hr] at hbytes
      rw [mmuRead_off hoff f₀ w hpass phys sx hread, ← hbytes]
      exact ⟨rfl, rfl, rfl⟩

theorem mmuWrite_split (hoff : cacheable sr sr.el = false)
    (hq : ∀ p a n q, (phys.validate p a n q).2 = p) (f₀ : MmuFault) (w : MmuWorld σ) {va : W64}
    {size : MemSize} (hmis : misaligned va size = true)
    (hpol : alignmentRequired sr (sr.el == .el0) = false) (value : W64) :
    (¬ (∀ i < size.bytes, (phys.validate w.phys (va + BitVec.ofNat 64 i) 1 permWrite).1 = .ok) →
      (mmuWrite sr phys f₀ w va size value).1 = .fault ∧
        (mmuWrite sr phys f₀ w va size value).2.phys = w.phys) ∧
    ((∀ i < size.bytes, (phys.validate w.phys (va + BitVec.ofNat 64 i) 1 permWrite).1 = .ok) →
      (mmuWrite sr phys f₀ w va size value).2.phys =
        (byteWrites phys va value size.bytes 0 w.phys).2 ∧
      (mmuWrite sr phys f₀ w va size value).1 =
        if (byteWrites phys va value size.bytes 0 w.phys).1 then .ok else .fault) := by
  unfold mmuWrite
  dsimp only
  rw [translate_off hoff]
  dsimp only
  rw [if_neg (by rw [hpol, Bool.and_false]; exact Bool.false_ne_true), if_pos hmis]
  obtain ⟨hiff, hphys⟩ := splitCheck_off hoff hq f₀ va true size.bytes 0
    { mmu := epochCheck w.mmu sr, phys := w.phys }
  simp only [Nat.zero_add] at hiff
  change _ ↔ ∀ i < size.bytes, (phys.validate w.phys (va + BitVec.ofNat 64 i) 1 permWrite).1 = .ok
    at hiff
  rcases hc : splitCheck sr phys f₀ va sr.el true size.bytes 0
    { mmu := epochCheck w.mmu sr, phys := w.phys } with ⟨c, w'⟩
  rw [hc] at hiff hphys
  cases c with
  | some f =>
    refine ⟨fun _ => ⟨rfl, hphys⟩, fun h => ?_⟩
    cases hiff.mpr h
  | none =>
    refine ⟨fun h => absurd (hiff.mp rfl) h, fun _ => ?_⟩
    dsimp only
    have hwrite := splitWrite_off hoff phys va value size.bytes 0 w'
    rw [hphys] at hwrite
    rcases hr : splitWrite sr phys va sr.el value size.bytes 0 w' with ⟨_ | _, w''⟩
    · rw [hr] at hwrite
      rw [← hwrite]
      exact ⟨rfl, rfl⟩
    · rw [hr] at hwrite
      rw [← hwrite]
      exact ⟨rfl, rfl⟩

end

end Oemu
