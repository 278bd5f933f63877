import Oemu.Mmu.Off
import Oemu.Aspace.Agree

/-!
# Is the layer transparent with translation off?

`Transparent`: an access through the view of the layer succeeds when the bus beneath succeeds, with
the same value, and leaves the same bytes and the same device state.  `Clear` is when it is so: the
layer splits what it finds misaligned into bytes, applies the alignment policy of `SCTLR_EL1` to it,
and probes by pages, while the bus beneath asks for one region.

* `transparent_fetch`, `transparent_read_aligned`, `transparent_write_aligned`  always;
* `transparent_read_misaligned`, `transparent_write_misaligned`, `transparent_probe`  by what the
  regions hold;
* `mmu_off_transparent`  every access, over every bus, with a log of the device callbacks.
-/

namespace Oemu

variable {δ : Type}

/-- the view of the layer behaves as the bus beneath it -/
structure Transparent (sr : Sysregs) (f₀ : MmuFault) (mmu : Mmu) (as : Aspace δ) (op : BusOp) :
    Prop where
  status : (op.run (mmuMemops sr Aspace.memops f₀) ⟨mmu, as⟩).1 = .ok ↔
    (op.run Aspace.memops as).1 = .ok
  value : (op.run Aspace.memops as).1 = .ok →
    (op.run (mmuMemops sr Aspace.memops f₀) ⟨mmu, as⟩).2.1 = (op.run Aspace.memops as).2.1
  effect : (op.run (mmuMemops sr Aspace.memops f₀) ⟨mmu, as⟩).2.2.phys =
    (op.run Aspace.memops as).2.2

namespace Aspace

/-- one RAM region holds the range, with the permission -/
def OneRam (as : Aspace δ) (va : W64) (n : Nat) (perm : W32) : Prop :=
  ∃ r host owned, as.find va (BitVec.ofNat 64 n) perm = some r ∧ r.backing = .ram host owned

/-- every byte of the range lies in some region, with the permission -/
def Bytewise (as : Aspace δ) (va : W64) (n : Nat) (perm : W32) : Prop :=
  ∀ i < n, (as.find (va + BitVec.ofNat 64 i) 1 perm).isSome = true

/-- every page of the range lies in some region, with the permissions -/
def Pagewise (as : Aspace δ) (va size : W64) (perms : W32) : Prop :=
  ∀ c ∈ pageChunks va size size.toNat 0, (as.find c.1 c.2 perms).isSome = true

theorem validate_ok {as : Aspace δ} {pa size : W64} {perms : W32} :
    as.validate pa size perms = .ok ↔ (as.find pa size perms).isSome = true := by
  unfold validate
  by_cases hs : size = 0
  · rw [if_pos hs]
    unfold find
    rw [if_pos hs]
    simp
  · rw [if_neg hs]
    cases as.find pa size perms <;> simp

theorem memops_quiet (p : Aspace δ) (a n : W64) (q : W32) : (memops.validate p a n q).2 = p := rfl

end Aspace

/-! ## sign extension -/

theorem shift_and_one_ne {value : W64} {k : Nat} :
    (value >>> k) &&& 1 ≠ 0 ↔ value.getLsbD k = true := by
  have h : (value >>> k) &&& ((1 : W64) <<< 0) ≠ 0 ↔ (value >>> k).getLsbD 0 = true :=
    and_bit_ne (by decide)
  rw [BitVec.shiftLeft_zero, BitVec.getLsbD_ushiftRight, Nat.add_zero] at h
  exact h

theorem mmuSignExtend_loaded (value : W64) {n : Nat} (h0 : 0 < n) (h8 : n ≤ 8) :
    mmuSignExtend (loaded value n false) n = loaded value n true := by
  show mmuSignExtend (lowBytes value n) n = _
  apply BitVec.eq_of_getLsbD_eq
  intro i hi
  rw [loaded_bit value h0 hi]
  unfold mmuSignExtend
  have hsign : (lowBytes value n).getLsbD (n * 8 - 1) = value.getLsbD (8 * n - 1) := by
    rw [lowBytes_bit, Nat.mul_comm n 8]
    simp [h0]
  by_cases hs : value.getLsbD (8 * n - 1) = true
  · by_cases hn : n < 8
    · rw [if_pos ⟨hn, shift_and_one_ne.mpr (hsign.trans hs)⟩, BitVec.getLsbD_or, lowBytes_bit,
        BitVec.getLsbD_not, mask_bit (by omega), Nat.mul_comm n 8, hs]
      by_cases h : i < 8 * n <;> simp [h, hi]
    · rw [if_neg (fun h => hn h.1), lowBytes_bit, if_pos (by omega)]
      simp [show i < 8 * n by omega]
  · rw [if_neg (by rw [shift_and_one_ne, hsign]; exact fun h => hs h.2), lowBytes_bit,
      Bool.eq_false_iff.mpr hs]
    by_cases h : i < 8 * n <;> simp [h]

section

variable {sr : Sysregs} {f₀ : MmuFault} {mmu : Mmu} {as : Aspace δ}

/-! ## fetches and aligned accesses -/

theorem transparent_fetch (hoff : cacheable sr sr.el = false) (va : W64) :
    Transparent sr f₀ mmu as (.fetch32 va) := by
  rcases hf : as.fetch32 va with ⟨st, word⟩
  have hbus : (BusOp.fetch32 va).run Aspace.memops as = (st, word.setWidth 64, as) := by
    show ((as.fetch32 va).1, (as.fetch32 va).2.setWidth 64, as) = _
    rw [hf]
  have hrun : (BusOp.fetch32 va).run (mmuMemops sr Aspace.memops f₀) ⟨mmu, as⟩ =
      ((mmuFetch32 sr Aspace.memops ⟨mmu, as⟩ va).1,
        (mmuFetch32 sr Aspace.memops ⟨mmu, as⟩ va).2.1.setWidth 64,
        (mmuFetch32 sr Aspace.memops ⟨mmu, as⟩ va).2.2) := rfl
  by_cases hst : st = .ok
  · subst hst
    have hval : as.validate va 4 permExec = .ok := by
      rw [Aspace.validate_ok]
      unfold Aspace.fetch32 at hf
      split at hf
      · cases hf
      · cases h : as.find va 4 permExec with
        | none =>
          rw [h] at hf
          cases hf
        | some r => rfl
    have hview : mmuFetch32 sr Aspace.memops ⟨mmu, as⟩ va =
        (.ok, word, (⟨epochCheck mmu sr, as⟩ : MmuWorld (Aspace δ))) := by
      unfold mmuFetch32
      dsimp only
      rw [translate_off hoff]
      dsimp only [Aspace.memops]
      rw [hval]
      dsimp only
      rw [hf]
    refine ⟨?_, ?_, ?_⟩ <;> rw [hrun, hbus, hview]
    intro _
    rfl
  · have hview : mmuFetch32 sr Aspace.memops ⟨mmu, as⟩ va =
        (.fault, 0, (⟨epochCheck mmu sr, as⟩ : MmuWorld (Aspace δ)).pend
          (refuseRecord sr.el true false .translationNoWalk (-1) va)) := by
      unfold mmuFetch32
      dsimp only
      rw [translate_off hoff]
      dsimp only [Aspace.memops]
      cases as.validate va 4 permExec with
      | ok =>
        dsimp only
        rw [hf]
        cases st <;> first | rfl | exact absurd rfl hst
      | _ => rfl
    refine ⟨?_, ?_, ?_⟩ <;> rw [hrun, hbus, hview]
    · exact ⟨fun h => Status.noConfusion h, fun h => absurd h hst⟩
    · intro h
      exact absurd h hst
    · rfl

theorem Aspace.read_extended (as : Aspace δ) (va : W64) {size : MemSize} (h8 : size.bytes ≤ 8)
    (sx : Bool) :
    (as.read va size sx).1 = (as.read va size false).1 ∧
      (as.read va size sx).2.2 = (as.read va size false).2.2 ∧
      ((as.read va size false).1 = .ok → (as.read va size sx).2.1 =
        if sx then mmuSignExtend (as.read va size false).2.1 size.bytes
        else (as.read va size false).2.1) := by
  have hext : ∀ v : W64, extend v size.bytes sx =
      if sx then mmuSignExtend (extend v size.bytes false) size.bytes
      else extend v size.bytes false := by
    intro v
    rw [extend_loaded v size.bytes_pos h8, extend_loaded v size.bytes_pos h8]
    cases sx with
    | false => rfl
    | true => rw [if_pos rfl, mmuSignExtend_loaded v size.bytes_pos h8]
  unfold Aspace.read
  cases as.find va (BitVec.ofNat 64 size.bytes) permRead with
  | none => exact ⟨rfl, rfl, fun h => Status.noConfusion h⟩
  | some r =>
    dsimp only
    cases r.backing with
    | ram host owned => exact ⟨rfl, rfl, fun _ => hext _⟩
    | device ops =>
      dsimp only
      split
      · exact ⟨rfl, rfl, fun h => Status.noConfusion h⟩
      · rcases ops.read as.dev (va - r.pa) size with ⟨st, v, d⟩
        cases st <;> dsimp only
        case ok => exact ⟨rfl, rfl, fun _ => hext _⟩
        all_goals exact ⟨rfl, rfl, fun h => Status.noConfusion h⟩

theorem Aspace.read_fault {as : Aspace δ} {va : W64} {size : MemSize} {sx : Bool}
    (h : as.find va (BitVec.ofNat 64 size.bytes) permRead = none) :
    as.read va size sx = (.fault, 0, as) := by
  unfold Aspace.read
  rw [h]

theorem Aspace.write_fault {as : Aspace δ} {va value : W64} {size : MemSize}
    (h : as.find va (BitVec.ofNat 64 size.bytes) permWrite = none) :
    as.write va size value = (.fault, as) := by
  unfold Aspace.write
  rw [h]

/-- a read the bus serves was granted before it -/
theorem Aspace.validate_of_read {as : Aspace δ} {va : W64} {size : MemSize} {sx : Bool}
    (h : (as.read va size sx).1 = .ok) :
    as.validate va (BitVec.ofNat 64 size.bytes) permRead = .ok := by
  rw [Aspace.validate_ok]
  cases hf : as.find va (BitVec.ofNat 64 size.bytes) permRead with
  | none =>
    rw [Aspace.read_fault hf] at h
    cases h
  | some r => rfl

theorem Aspace.validate_of_write {as : Aspace δ} {va value : W64} {size : MemSize}
    (h : (as.write va size value).1 = .ok) :
    as.validate va (BitVec.ofNat 64 size.bytes) permWrite = .ok := by
  rw [Aspace.validate_ok]
  cases hf : as.find va (BitVec.ofNat 64 size.bytes) permWrite with
  | none =>
    rw [Aspace.write_fault hf] at h
    cases h
  | some r => rfl

theorem Aspace.find_of_not_validate {as : Aspace δ} {va n : W64} {perm : W32}
    (h : as.validate va n perm ≠ .ok) : as.find va n perm = none := by
  rw [Ne, Aspace.validate_ok, Bool.not_eq_true, Option.isSome_eq_false_iff, Option.isNone_iff_eq_none]
    at h
  exact h

theorem transparent_read_aligned (hoff : cacheable sr sr.el = false) {va : W64} {size : MemSize}
    (h8 : size.bytes ≤ 8) (hal : misaligned va size = false) (sx : Bool) :
    Transparent sr f₀ mmu as (.read va size sx) := by
  obtain ⟨hst, heff, hval⟩ := as.read_extended va h8 sx
  have hpass : (misaligned va size && alignmentRequired sr (sr.el == .el0)) = false := by
    rw [hal, Bool.false_and]
  have hrun : (BusOp.read va size sx).run (mmuMemops sr Aspace.memops f₀) ⟨mmu, as⟩ =
      mmuRead sr Aspace.memops f₀ ⟨mmu, as⟩ va size sx := rfl
  have hbus : (BusOp.read va size sx).run Aspace.memops as = as.read va size sx := rfl
  rcases hr : as.read va size false with ⟨st, v, p⟩
  rw [hr] at hst heff hval
  dsimp only at hst heff hval
  by_cases hok : st = .ok
  · subst hok
    have hphys : mmuReadPhys sr Aspace.memops f₀
        { (⟨mmu, as⟩ : MmuWorld (Aspace δ)) with mmu := epochCheck mmu sr } va va size =
        (some v, ⟨epochCheck mmu sr, p⟩) := by
      unfold mmuReadPhys
      dsimp only
      rw [hal, if_neg Bool.false_ne_true]
      dsimp only [Aspace.memops]
      rw [Aspace.validate_of_read (show (as.read va size false).1 = .ok by rw [hr])]
      dsimp only
      rw [hr]
    have hview := mmuRead_off hoff f₀ (⟨mmu, as⟩ : MmuWorld (Aspace δ)) hpass Aspace.memops sx hphys
    refine ⟨?_, ?_, ?_⟩ <;> rw [hrun, hbus, hview]
    · rw [hst]
      exact Iff.rfl
    · intro _
      rw [hval rfl]
      rfl
    · rw [heff]
  · have hphys : ∃ w, mmuReadPhys sr Aspace.memops f₀
        { (⟨mmu, as⟩ : MmuWorld (Aspace δ)) with mmu := epochCheck mmu sr } va va size =
        (none, w) ∧ w.phys = p := by
      unfold mmuReadPhys
      dsimp only
      rw [hal, if_neg Bool.false_ne_true]
      dsimp only [Aspace.memops]
      by_cases hv : as.validate va (BitVec.ofNat 64 size.bytes) permRead = .ok
      · rw [hv]
        dsimp only
        rw [hr]
        cases st <;> first | exact ⟨_, rfl, rfl⟩ | exact absurd rfl hok
      · rw [Aspace.read_fault (Aspace.find_of_not_validate hv)] at hr
        cases hr
        cases hvs : as.validate va (BitVec.ofNat 64 size.bytes) permRead <;>
          first | exact ⟨_, rfl, rfl⟩ | exact absurd hvs hv
    obtain ⟨w, hphys, hw⟩ := hphys
    have hview := mmuRead_off hoff f₀ (⟨mmu, as⟩ : MmuWorld (Aspace δ)) hpass Aspace.memops sx hphys
    refine ⟨?_, ?_, ?_⟩ <;> rw [hrun, hbus, hview]
    · rw [hst]
      exact ⟨fun h => Status.noConfusion h, fun h => absurd h hok⟩
    · intro h
      rw [hst] at h
      exact absurd h hok
    · rw [heff]
      exact hw

theorem transparent_write_aligned (hoff : cacheable sr sr.el = false) {va : W64} {size : MemSize}
    (hal : misaligned va size = false) (value : W64) :
    Transparent sr f₀ mmu as (.write va size value) := by
  have hview : ((mmuWrite sr Aspace.memops f₀ ⟨mmu, as⟩ va size value).1 = .ok ↔
      (as.write va size value).1 = .ok) ∧
      (mmuWrite sr Aspace.memops f₀ ⟨mmu, as⟩ va size value).2.phys = (as.write va size value).2 := by
    unfold mmuWrite
    dsimp only
    rw [translate_off hoff]
    dsimp only
    rw [hal, Bool.false_and, if_neg Bool.false_ne_true, if_neg Bool.false_ne_true]
    dsimp only [Aspace.memops]
    by_cases hv : as.validate va (BitVec.ofNat 64 size.bytes) permWrite = .ok
    · rw [hv]
      dsimp only
      rcases as.write va size value with ⟨st, p⟩
      cases st <;> first | exact ⟨Iff.rfl, rfl⟩ | exact ⟨⟨(Status.noConfusion ·),
        (Status.noConfusion ·)⟩, rfl⟩
    · rw [Aspace.write_fault (Aspace.find_of_not_validate hv)]
      cases hvs : as.validate va (BitVec.ofNat 64 size.bytes) permWrite <;>
        first | exact ⟨Iff.rfl, rfl⟩ | exact absurd hvs hv
  exact ⟨hview.1, fun _ => rfl, hview.2⟩

/-! ## misaligned accesses -/

theorem setWidth_and_byte (b : BitVec 8) : b.setWidth 64 &&& (0xFF : W64) = b.setWidth 64 := by
  apply BitVec.eq_of_getLsbD_eq
  intro k hk
  have hmask := mask_bit (show 8 < 64 by decide) k
  rw [show ((1 : W64) <<< 8) - 1 = 0xFF from rfl] at hmask
  rw [BitVec.getLsbD_and, hmask, BitVec.getLsbD_setWidth]
  by_cases h : k < 8
  · simp [h]
  · rw [BitVec.getLsbD_of_ge b k (by omega)]
    simp

theorem misaligned_iff {va : W64} {size : MemSize} :
    misaligned va size = true ↔ va.toNat % size.bytes ≠ 0 := by
  unfold misaligned
  have hmod : (va &&& BitVec.ofNat 64 (size.bytes - 1)).toNat = va.toNat % size.bytes := by
    rw [BitVec.toNat_and, BitVec.toNat_ofNat, MemSize.bytes,
      Nat.mod_eq_of_lt (by cases size <;> decide), Nat.and_two_pow_sub_one_eq_mod]
  rw [bne_iff_ne, Ne, Ne, ← hmod]
  constructor
  · intro h h0
    exact h (BitVec.eq_of_toNat_eq h0)
  · intro h h0
    exact h (congrArg BitVec.toNat h0)

theorem MemSize.bytes_dvd_page (n : MemSize) : n.bytes ∣ 4096 := by
  cases n <;> decide

theorem Aspace.OneRam.bytewise (hok : as.Ok) {va : W64} {size : MemSize} {perm : W32}
    (h : as.OneRam va size.bytes perm) : as.Bytewise va size.bytes perm := by
  obtain ⟨r, host, owned, hf, -⟩ := h
  intro i hi
  have hn : (BitVec.ofNat 64 size.bytes).toNat = size.bytes := size.toNat_bytes
  have hi' : (BitVec.ofNat 64 i).toNat = i := by
    rw [BitVec.toNat_ofNat]
    exact Nat.mod_eq_of_lt (by have := size.bytes_le; omega)
  rw [(Aspace.find_sub hok hf (BitVec.ofNat 64 i) 1 (by decide)
    (by rw [hn, hi', show (1 : W64).toNat = 1 from rfl]; omega)).1]
  rfl

/-- the bus beneath serves a misaligned read from one RAM region only -/
theorem Aspace.read_misaligned (as : Aspace δ) {va : W64} {size : MemSize} (hmis : misaligned va size = true)
    (sx : Bool) :
    ((as.read va size sx).1 = .ok ↔ as.OneRam va size.bytes permRead) ∧
      (as.read va size sx).2.2 = as := by
  unfold Aspace.read Aspace.OneRam
  cases as.find va (BitVec.ofNat 64 size.bytes) permRead with
  | none =>
    refine ⟨⟨fun h => Status.noConfusion h, ?_⟩, rfl⟩
    rintro ⟨r, host, owned, h, -⟩
    cases h
  | some r =>
    dsimp only
    cases hb : r.backing with
    | ram host owned => exact ⟨⟨fun _ => ⟨r, host, owned, rfl, hb⟩, fun _ => rfl⟩, rfl⟩
    | device ops =>
      dsimp only
      rw [if_pos (misaligned_iff.mp hmis)]
      refine ⟨⟨fun h => Status.noConfusion h, ?_⟩, rfl⟩
      rintro ⟨s, host, owned, h, hs⟩
      cases h
      rw [hb] at hs
      cases hs

theorem Aspace.write_misaligned (as : Aspace δ) {va : W64} (value : W64) {size : MemSize}
    (hmis : misaligned va size = true) :
    ((as.write va size value).1 = .ok ↔ as.OneRam va size.bytes permWrite) ∧
      ((as.write va size value).1 ≠ .ok → (as.write va size value).2 = as) := by
  unfold Aspace.write Aspace.OneRam
  cases as.find va (BitVec.ofNat 64 size.bytes) permWrite with
  | none =>
    refine ⟨⟨fun h => Status.noConfusion h, ?_⟩, fun _ => rfl⟩
    rintro ⟨r, host, owned, h, -⟩
    cases h
  | some r =>
    dsimp only
    cases hb : r.backing with
    | ram host owned =>
      exact ⟨⟨fun _ => ⟨r, host, owned, rfl, hb⟩, fun _ => rfl⟩, fun h => absurd rfl h⟩
    | device ops =>
      dsimp only
      rw [if_pos (misaligned_iff.mp hmis)]
      refine ⟨⟨fun h => Status.noConfusion h, ?_⟩, fun _ => rfl⟩
      rintro ⟨s, host, owned, h, hs⟩
      cases h
      rw [hb] at hs
      cases hs

theorem byteReads_ram (hok : as.Ok) {va : W64} {size : MemSize} {r : AspaceRegion δ} {host : Nat}
    {owned : Bool} (hf : as.find va (BitVec.ofNat 64 size.bytes) permRead = some r)
    (hb : r.backing = .ram host owned) (k i : Nat) (hk : i + k ≤ size.bytes) :
    byteReads Aspace.memops va k i
        (disassemble (fun j => as.heap (host + (va - r.pa).toNat + j)) i) as =
      (some (disassemble (fun j => as.heap (host + (va - r.pa).toNat + j)) (i + k)), as) := by
  induction k generalizing i with
  | zero => rfl
  | succ k ih =>
    have hn : (BitVec.ofNat 64 size.bytes).toNat = size.bytes := size.toNat_bytes
    have h16 := size.bytes_le
    have hi : (BitVec.ofNat 64 i).toNat = i := by
      rw [BitVec.toNat_ofNat]
      exact Nat.mod_eq_of_lt (by omega)
    obtain ⟨hfi, hadd⟩ := Aspace.find_sub hok hf (BitVec.ofNat 64 i) 1 (by decide)
      (by rw [hn, hi, show (1 : W64).toNat = 1 from rfl]; omega)
    have hcov := ((Aspace.find_iff hok _ _ _ _).mp hf).2.2.2
    have hle : r.pa.toNat ≤ va.toNat := hcov.1
    have hoff : (va + BitVec.ofNat 64 i - r.pa).toNat = (va - r.pa).toNat + i := by
      rw [BitVec.toNat_sub_of_le (by rw [BitVec.le_def, hadd]; omega), hadd, hi,
        BitVec.toNat_sub_of_le hle]
      omega
    have hbyte := Aspace.read_loaded (show MemSize.byte.bytes ≤ 8 by decide) false hfi hb
    have hone : loaded (disassemble
        (fun j => as.heap (host + (va + BitVec.ofNat 64 i - r.pa).toNat + j)) 1) 1 false =
        (as.heap (host + (va - r.pa).toNat + i)).setWidth 64 := by
      show lowBytes (disassemble _ 1) 1 = _
      rw [lowBytes_disassemble, hoff]
      show (0#64) ||| ((as.heap _).setWidth 64 <<< 0) = _
      rw [BitVec.shiftLeft_zero, BitVec.zero_or, Nat.add_zero, Nat.add_assoc]
    unfold byteReads
    rw [show (Aspace.memops : Memops (Aspace δ)).read as (va + BitVec.ofNat 64 i) .byte false =
      as.read (va + BitVec.ofNat 64 i) .byte false from rfl, hbyte]
    dsimp only
    rw [show MemSize.byte.bytes = 1 from rfl, hone, setWidth_and_byte, Nat.mul_comm i 8]
    have := ih (i + 1) (by omega)
    rw [Nat.add_right_comm] at this
    exact this

theorem byteWrites_ram (value : W64) (hok : as.Ok) {va : W64} {size : MemSize}
    {r : AspaceRegion δ} {host : Nat} {owned : Bool} (hf : as.find va (BitVec.ofNat 64 size.bytes) permWrite = some r)
    (hb : r.backing = .ram host owned) (k i : Nat) (hk : i + k ≤ size.bytes) :
    byteWrites Aspace.memops va value k i
        { as with heap := assemble as.heap (host + (va - r.pa).toNat) i value } =
      (true, { as with heap := assemble as.heap (host + (va - r.pa).toNat) (i + k) value }) := by
  induction k generalizing i with
  | zero => rfl
  | succ k ih =>
    have hn : (BitVec.ofNat 64 size.bytes).toNat = size.bytes := size.toNat_bytes
    have h16 := size.bytes_le
    have hi : (BitVec.ofNat 64 i).toNat = i := by
      rw [BitVec.toNat_ofNat]
      exact Nat.mod_eq_of_lt (by omega)
    obtain ⟨hfi, hadd⟩ := Aspace.find_sub hok hf (BitVec.ofNat 64 i) 1 (by decide)
      (by rw [hn, hi, show (1 : W64).toNat = 1 from rfl]; omega)
    have hcov := ((Aspace.find_iff hok _ _ _ _).mp hf).2.2.2
    have hle : r.pa.toNat ≤ va.toNat := hcov.1
    have hoff : (va + BitVec.ofNat 64 i - r.pa).toNat = (va - r.pa).toNat + i := by
      rw [BitVec.toNat_sub_of_le (by rw [BitVec.le_def, hadd]; omega), hadd, hi,
        BitVec.toNat_sub_of_le hle]
      omega
    have hstep : Aspace.write
        { as with heap := assemble as.heap (host + (va - r.pa).toNat) i value }
        (va + BitVec.ofNat 64 i) .byte ((value >>> (i * 8)) &&& 0xFF) =
        (.ok, { as with heap := assemble as.heap (host + (va - r.pa).toNat) (i + 1) value }) := by
      have hfi' : Aspace.find { as with heap := assemble as.heap (host + (va - r.pa).toNat) i value }
          (va + BitVec.ofNat 64 i) (BitVec.ofNat 64 MemSize.byte.bytes) permWrite = some r := hfi
      unfold Aspace.write
      rw [hfi']
      dsimp only
      rw [hb]
      dsimp only
      rw [hoff, ← Nat.add_assoc, show MemSize.byte.bytes = 1 from rfl, assemble_snoc]
    unfold byteWrites
    rw [show (Aspace.memops : Memops (Aspace δ)).write
      { as with heap := assemble as.heap (host + (va - r.pa).toNat) i value }
      (va + BitVec.ofNat 64 i) .byte ((value >>> (i * 8)) &&& 0xFF) = _ from hstep]
    dsimp only
    have := ih (i + 1) (by omega)
    rw [Nat.add_right_comm] at this
    exact this

/-! ### bytes that reach devices -/

/-- every callback of a device shows in the device state, by a count that grows -/
def Aspace.Counted (count : δ → Nat) (regions : List (AspaceRegion δ)) : Prop :=
  ∀ r ∈ regions, ∀ ops, r.backing = .device ops →
    (∀ d off size, count d < count (ops.read d off size).2.2) ∧
      ∀ d off size value, count d < count (ops.write d off size value).2

theorem byte_aligned (va : W64) : ¬ va.toNat % MemSize.byte.bytes ≠ 0 := by
  rw [show MemSize.byte.bytes = 1 from rfl, Nat.mod_one]
  exact not_not_intro rfl

theorem Aspace.byte_read {count : δ → Nat} (hc : Aspace.Counted count as.regions) {va : W64}
    (hf : (as.find va 1 permRead).isSome = true) :
    (as.read va .byte false).2.2.regions = as.regions ∧
      count as.dev ≤ count (as.read va .byte false).2.2.dev ∧
      ((as.read va .byte false).1 ≠ .ok → count as.dev < count (as.read va .byte false).2.2.dev) := by
  unfold Aspace.read
  rw [show BitVec.ofNat 64 MemSize.byte.bytes = 1 from rfl]
  cases hr : as.find va 1 permRead with
  | none =>
    rw [hr] at hf
    cases hf
  | some r =>
    have hmem : r ∈ as.regions := by
      unfold Aspace.find at hr
      rw [if_neg (by decide)] at hr
      exact List.mem_of_find?_eq_some hr
    dsimp only
    cases hb : r.backing with
    | ram host owned => exact ⟨rfl, le_refl _, fun h => absurd rfl h⟩
    | device ops =>
      dsimp only
      rw [if_neg (byte_aligned va)]
      have hlt := (hc r hmem ops hb).1 as.dev (va - r.pa) .byte
      rcases hres : ops.read as.dev (va - r.pa) .byte with ⟨st, v, d⟩
      rw [hres] at hlt
      cases st <;> exact ⟨rfl, le_of_lt hlt, fun _ => hlt⟩

theorem Aspace.byte_write {count : δ → Nat} (hc : Aspace.Counted count as.regions) {va : W64}
    (hf : (as.find va 1 permWrite).isSome = true) (value : W64) :
    (as.write va .byte value).2.regions = as.regions ∧
      count as.dev ≤ count (as.write va .byte value).2.dev ∧
      ((as.write va .byte value).1 ≠ .ok → count as.dev < count (as.write va .byte value).2.dev) := by
  unfold Aspace.write
  rw [show BitVec.ofNat 64 MemSize.byte.bytes = 1 from rfl]
  cases hr : as.find va 1 permWrite with
  | none =>
    rw [hr] at hf
    cases hf
  | some r =>
    have hmem : r ∈ as.regions := by
      unfold Aspace.find at hr
      rw [if_neg (by decide)] at hr
      exact List.mem_of_find?_eq_some hr
    dsimp only
    cases hb : r.backing with
    | ram host owned => exact ⟨rfl, le_refl _, fun h => absurd rfl h⟩
    | device ops =>
      dsimp only
      rw [if_neg (byte_aligned va)]
      have hlt := (hc r hmem ops hb).2 as.dev (va - r.pa) .byte
        (Aspace.extend value MemSize.byte.bytes false)
      exact ⟨rfl, le_of_lt hlt, fun _ => hlt⟩

/-- bytes read one by one: a refusal comes from a device that was called -/
theorem byteReads_count {count : δ → Nat} {as : Aspace δ} (hc : Aspace.Counted count as.regions)
    {va : W64} (k i : Nat) (value : W64)
    (hf : ∀ j < k, (as.find (va + BitVec.ofNat 64 (i + j)) 1 permRead).isSome = true) :
    count as.dev ≤ count (byteReads Aspace.memops va k i value as).2.dev ∧
      ((byteReads Aspace.memops va k i value as).1 = none →
        count as.dev < count (byteReads Aspace.memops va k i value as).2.dev) := by
  induction k generalizing i value as with
  | zero => exact ⟨le_refl _, fun h => by cases h⟩
  | succ k ih =>
    obtain ⟨hreg, hle, hlt⟩ := as.byte_read hc (hf 0 (Nat.succ_pos k))
    rw [Nat.add_zero] at hreg hle hlt
    unfold byteReads
    rw [show (Aspace.memops : Memops (Aspace δ)).read as (va + BitVec.ofNat 64 i) .byte false =
      as.read (va + BitVec.ofNat 64 i) .byte false from rfl]
    rcases hres : as.read (va + BitVec.ofNat 64 i) .byte false with ⟨st, v, p⟩
    rw [hres] at hreg hle hlt
    dsimp only at hreg hle hlt
    by_cases hst : st = .ok
    · subst hst
      dsimp only
      obtain ⟨h1, h2⟩ := ih (show Aspace.Counted count p.regions by rw [hreg]; exact hc) (i + 1)
        (value ||| ((v &&& 0xFF) <<< (i * 8))) (by
          intro j hj
          have := hf (j + 1) (Nat.succ_lt_succ hj)
          rw [← Nat.add_assoc, Nat.add_right_comm] at this
          unfold Aspace.find at this ⊢
          rw [hreg]
          exact this)
      exact ⟨hle.trans h1, fun h => lt_of_le_of_lt hle (h2 h)⟩
    · have := hlt hst
      cases st <;> first | exact absurd rfl hst | exact ⟨le_of_lt this, fun _ => this⟩

theorem byteWrites_count {count : δ → Nat} {as : Aspace δ} (hc : Aspace.Counted count as.regions)
    {va : W64} (value : W64) (k i : Nat)
    (hf : ∀ j < k, (as.find (va + BitVec.ofNat 64 (i + j)) 1 permWrite).isSome = true) :
    count as.dev ≤ count (byteWrites Aspace.memops va value k i as).2.dev ∧
      ((byteWrites Aspace.memops va value k i as).1 = false →
        count as.dev < count (byteWrites Aspace.memops va value k i as).2.dev) := by
  induction k generalizing i as with
  | zero => exact ⟨le_refl _, fun h => by cases h⟩
  | succ k ih =>
    obtain ⟨hreg, hle, hlt⟩ := as.byte_write hc (hf 0 (Nat.succ_pos k))
      ((value >>> (i * 8)) &&& 0xFF)
    rw [Nat.add_zero] at hreg hle hlt
    unfold byteWrites
    rw [show (Aspace.memops : Memops (Aspace δ)).write as (va + BitVec.ofNat 64 i) .byte
      ((value >>> (i * 8)) &&& 0xFF) =
      as.write (va + BitVec.ofNat 64 i) .byte ((value >>> (i * 8)) &&& 0xFF) from rfl]
    rcases hres : as.write (va + BitVec.ofNat 64 i) .byte ((value >>> (i * 8)) &&& 0xFF) with ⟨st, p⟩
    rw [hres] at hreg hle hlt
    dsimp only at hreg hle hlt
    by_cases hst : st = .ok
    · subst hst
      dsimp only
      obtain ⟨h1, h2⟩ := ih (show Aspace.Counted count p.regions by rw [hreg]; exact hc) (i + 1) (by
        intro j hj
        have := hf (j + 1) (Nat.succ_lt_succ hj)
        rw [← Nat.add_assoc, Nat.add_right_comm] at this
        unfold Aspace.find at this ⊢
        rw [hreg]
        exact this)
      exact ⟨hle.trans h1, fun h => lt_of_le_of_lt hle (h2 h)⟩
    · have := hlt hst
      cases st <;> first | exact absurd rfl hst | exact ⟨le_of_lt this, fun _ => this⟩

/-! ### the verdict -/

/-- what the layer needs of the regions to be transparent for a misaligned access -/
def ClearMisaligned (sr : Sysregs) (as : Aspace δ) (va : W64) (size : MemSize) (perm : W32) : Prop :=
  if alignmentRequired sr (sr.el == .el0) then ¬ as.OneRam va size.bytes perm
  else as.OneRam va size.bytes perm ∨ ¬ as.Bytewise va size.bytes perm

theorem Aspace.bytewise_iff {va : W64} {n : Nat} {perm : W32} :
    as.Bytewise va n perm ↔ ∀ i < n,
      ((Aspace.memops : Memops (Aspace δ)).validate as (va + BitVec.ofNat 64 i) 1 perm).1 = .ok := by
  constructor
  · intro h i hi
    exact Aspace.validate_ok.mpr (h i hi)
  · intro h i hi
    exact Aspace.validate_ok.mp (h i hi)

/-- a view that refuses without touching the bus is transparent where the bus refuses -/
theorem transparent_of_fault (sr : Sysregs) (f₀ : MmuFault) (mmu : Mmu) (as : Aspace δ) (op : BusOp)
    (hv : (op.run (mmuMemops sr Aspace.memops f₀) ⟨mmu, as⟩).1 = .fault)
    (hp : (op.run (mmuMemops sr Aspace.memops f₀) ⟨mmu, as⟩).2.2.phys = as)
    (hb : (op.run Aspace.memops as).1 ≠ .ok → (op.run Aspace.memops as).2.2 = as) :
    Transparent sr f₀ mmu as op ↔ (op.run Aspace.memops as).1 ≠ .ok := by
  constructor
  · intro h hok
    have := h.status.mpr hok
    rw [hv] at this
    cases this
  · intro hne
    refine ⟨⟨fun h => ?_, fun h => absurd h hne⟩, fun h => absurd h hne, hp.trans (hb hne).symm⟩
    rw [hv] at h
    cases h

theorem transparent_read_misaligned (hoff : cacheable sr sr.el = false) (hok : as.Ok)
    {count : δ → Nat} (hc : Aspace.Counted count as.regions) {va : W64} {size : MemSize}
    (h8 : size.bytes ≤ 8) (hmis : misaligned va size = true) (sx : Bool) :
    Transparent sr f₀ mmu as (.read va size sx) ↔ ClearMisaligned sr as va size permRead := by
  obtain ⟨hbok, hbst⟩ := Aspace.read_misaligned as hmis sx
  unfold ClearMisaligned
  cases hpol : alignmentRequired sr (sr.el == .el0) with
  | true =>
    rw [if_pos rfl]
    obtain ⟨hv, hp⟩ := mmuRead_policy hoff f₀ (⟨mmu, as⟩ : MmuWorld (Aspace δ))
      (show (misaligned va size && _) = true by rw [hmis, hpol]; rfl) Aspace.memops sx
    exact (transparent_of_fault sr f₀ mmu as (.read va size sx) hv hp (fun _ => hbst)).trans (not_congr hbok)
  | false =>
    rw [if_neg Bool.false_ne_true]
    obtain ⟨hfail, hpass⟩ := mmuRead_split hoff Aspace.memops_quiet f₀ (⟨mmu, as⟩ : MmuWorld (Aspace δ))
      hmis hpol sx
    rw [← Aspace.bytewise_iff] at hfail hpass
    by_cases hbw : as.Bytewise va size.bytes permRead
    · obtain ⟨hres, hvalue, hphys⟩ := hpass hbw
      by_cases hone : as.OneRam va size.bytes permRead
      · refine ⟨fun _ => .inl hone, fun _ => ?_⟩
        obtain ⟨r, host, owned, hf, hb⟩ := hone
        have hreads := byteReads_ram hok hf hb size.bytes 0 (by omega)
        rw [show disassemble (fun j => as.heap (host + (va - r.pa).toNat + j)) 0 = 0 from rfl,
          Nat.zero_add] at hreads
        rw [show (⟨mmu, as⟩ : MmuWorld (Aspace δ)).phys = as from rfl, hreads] at hphys hres hvalue
        have hbus := Aspace.read_loaded h8 sx hf hb
        refine ⟨⟨fun _ => hbok.mpr ⟨r, host, owned, hf, hb⟩, fun _ => hres⟩, fun _ => ?_, ?_⟩
        · refine hvalue.trans ?_
          show _ = (as.read va size sx).2.1
          rw [hbus]
          dsimp only [Option.elim_some]
          cases sx with
          | false =>
            rw [if_neg Bool.false_ne_true]
            exact (lowBytes_disassemble _ _).symm
          | true =>
            rw [if_pos rfl, ← mmuSignExtend_loaded _ size.bytes_pos h8]
            show _ = mmuSignExtend (lowBytes _ _) _
            rw [lowBytes_disassemble]
        · refine hphys.trans ?_
          exact hbst.symm
      · refine ⟨fun ht => ?_, fun h => ?_⟩
        · have hne : (as.read va size sx).1 ≠ .ok := fun h => hone (hbok.mp h)
          obtain ⟨-, hlt⟩ := byteReads_count hc size.bytes 0 0 (fun j hj => by
            rw [Nat.zero_add]
            exact hbw j hj)
          cases hr : (byteReads Aspace.memops va size.bytes 0 0 as).1 with
          | some value =>
            rw [show (⟨mmu, as⟩ : MmuWorld (Aspace δ)).phys = as from rfl, hr] at hres
            exact absurd (ht.status.mp hres) hne
          | none =>
            have hgrow := hlt hr
            have heff := ht.effect
            change (mmuRead sr Aspace.memops f₀ ⟨mmu, as⟩ va size sx).2.2.phys =
              (as.read va size sx).2.2 at heff
            rw [hphys, hbst] at heff
            change (byteReads Aspace.memops va size.bytes 0 0 as).2 = as at heff
            rw [heff] at hgrow
            exact absurd hgrow (lt_irrefl _)
        · rcases h with h | h
          · exact absurd h hone
          · exact absurd hbw h
    · obtain ⟨hv, hp⟩ := hfail hbw
      refine ⟨fun _ => .inr hbw, fun _ => ?_⟩
      refine (transparent_of_fault sr f₀ mmu as (.read va size sx) hv hp (fun _ => hbst)).mpr ?_
      intro h
      exact hbw (Aspace.OneRam.bytewise hok (hbok.mp h))

theorem transparent_write_misaligned (hoff : cacheable sr sr.el = false) (hok : as.Ok)
    {count : δ → Nat} (hc : Aspace.Counted count as.regions) {va : W64} {size : MemSize}
    (hmis : misaligned va size = true) (value : W64) :
    Transparent sr f₀ mmu as (.write va size value) ↔ ClearMisaligned sr as va size permWrite := by
  obtain ⟨hbok, hbst⟩ := Aspace.write_misaligned as value hmis
  unfold ClearMisaligned
  cases hpol : alignmentRequired sr (sr.el == .el0) with
  | true =>
    rw [if_pos rfl]
    obtain ⟨hv, hp⟩ := mmuWrite_policy hoff f₀ (⟨mmu, as⟩ : MmuWorld (Aspace δ))
      (show (misaligned va size && _) = true by rw [hmis, hpol]; rfl) Aspace.memops value
    exact (transparent_of_fault sr f₀ mmu as (.write va size value) hv hp hbst).trans (not_congr hbok)
  | false =>
    rw [if_neg Bool.false_ne_true]
    obtain ⟨hfail, hpass⟩ := mmuWrite_split hoff Aspace.memops_quiet f₀ (⟨mmu, as⟩ : MmuWorld (Aspace δ))
      hmis hpol value
    rw [← Aspace.bytewise_iff] at hfail hpass
    by_cases hbw : as.Bytewise va size.bytes permWrite
    · obtain ⟨hphys, hres⟩ := hpass hbw
      by_cases hone : as.OneRam va size.bytes permWrite
      · refine ⟨fun _ => .inl hone, fun _ => ?_⟩
        obtain ⟨r, host, owned, hf, hb⟩ := hone
        have hwrites := byteWrites_ram value hok hf hb size.bytes 0 (by omega)
        have hzero : assemble as.heap (host + (va - r.pa).toNat) 0 value = as.heap := by
          funext i
          exact assemble_outside _ _ _ _ (by omega)
        rw [hzero, Nat.zero_add] at hwrites
        rw [show (⟨mmu, as⟩ : MmuWorld (Aspace δ)).phys = as from rfl, hwrites] at hphys hres
        dsimp only at hphys hres
        have hbus : as.write va size value = (.ok, { as with
            heap := assemble as.heap (host + (va - r.pa).toNat) size.bytes value }) := by
          unfold Aspace.write
          rw [hf]
          dsimp only
          rw [hb]
        refine ⟨⟨fun _ => hbok.mpr ⟨r, host, owned, hf, hb⟩, fun _ => hres⟩, fun _ => rfl, ?_⟩
        refine hphys.trans ?_
        show _ = (as.write va size value).2
        rw [hbus]
      · refine ⟨fun ht => ?_, fun h => ?_⟩
        · have hne : (as.write va size value).1 ≠ .ok := fun h => hone (hbok.mp h)
          obtain ⟨-, hlt⟩ := byteWrites_count hc value size.bytes 0 (fun j hj => by
            rw [Nat.zero_add]
            exact hbw j hj)
          cases hr : (byteWrites Aspace.memops va value size.bytes 0 as).1 with
          | true =>
            rw [show (⟨mmu, as⟩ : MmuWorld (Aspace δ)).phys = as from rfl, hr] at hres
            exact absurd (ht.status.mp hres) hne
          | false =>
            have hgrow := hlt hr
            have heff := ht.effect
            change (mmuWrite sr Aspace.memops f₀ ⟨mmu, as⟩ va size value).2.phys =
              (as.write va size value).2 at heff
            rw [hphys, hbst hne] at heff
            change (byteWrites Aspace.memops va value size.bytes 0 as).2 = as at heff
            rw [heff] at hgrow
            exact absurd hgrow (lt_irrefl _)
        · rcases h with h | h
          · exact absurd h hone
          · exact absurd hbw h
    · obtain ⟨hv, hp⟩ := hfail hbw
      refine ⟨fun _ => .inr hbw, fun _ => ?_⟩
      refine (transparent_of_fault sr f₀ mmu as (.write va size value) hv hp hbst).mpr ?_
      intro h
      exact hbw (Aspace.OneRam.bytewise hok (hbok.mp h))

/-! ## probes -/

theorem mem_pageChunks {va size : W64} {fuel : Nat} {off : W64} {c : W64 × W64}
    (h : c ∈ pageChunks va size fuel off) :
    ∃ o : W64, c.1 = va + o ∧ c.2 ≠ 0 ∧ o.toNat + c.2.toNat ≤ size.toNat := by
  induction fuel generalizing off with
  | zero => exact absurd h List.not_mem_nil
  | succ fuel ih =>
    unfold pageChunks at h
    split at h
    · rename_i hlt
      rcases List.mem_cons.mp h with hc | h
      · refine ⟨off, ?_, ?_⟩
        · rw [hc]
        · rw [hc]
          dsimp only
          exact pageChunk_spec va hlt
      · exact ih h
    · exact absurd h List.not_mem_nil

theorem Aspace.pagewise_of_find (hok : as.Ok) {va size : W64} {perms : W32}
    (h : (as.find va size perms).isSome = true) : as.Pagewise va size perms := by
  obtain ⟨r, hr⟩ := Option.isSome_iff_exists.mp h
  intro c hc
  obtain ⟨o, hva, hne, hle⟩ := mem_pageChunks hc
  rw [hva, (Aspace.find_sub hok hr o c.2 hne hle).1]
  rfl

theorem transparent_probe (hoff : cacheable sr sr.el = false) (hok : as.Ok) (va size : W64)
    (perms : W32) :
    Transparent sr f₀ mmu as (.validate va size perms) ↔
      ((as.find va size perms).isSome = true ∨ ¬ as.Pagewise va size perms) := by
  obtain ⟨hiff, hphys⟩ := validateLoop_off hoff Aspace.memops_quiet va size perms size.toNat 0
    (⟨mmu, as⟩ : MmuWorld (Aspace δ))
  have hview : (mmuValidate sr Aspace.memops ⟨mmu, as⟩ va size perms).1 = .ok ↔
      as.Pagewise va size perms := by
    refine hiff.trans (forall_congr' fun c => forall_congr' fun _ => ?_)
    exact Aspace.validate_ok
  have hbus : as.validate va size perms = .ok ↔ (as.find va size perms).isSome = true :=
    Aspace.validate_ok
  constructor
  · intro h
    by_cases hp : as.Pagewise va size perms
    · exact .inl (hbus.mp (h.status.mp (hview.mpr hp)))
    · exact .inr hp
  · intro h
    refine ⟨?_, fun _ => rfl, hphys⟩
    show (mmuValidate sr Aspace.memops ⟨mmu, as⟩ va size perms).1 = .ok ↔
      as.validate va size perms = .ok
    rw [hview, hbus]
    constructor
    · intro hp
      exact h.resolve_right (not_not_intro hp)
    · exact Aspace.pagewise_of_find hok

/-! ## every access -/

/-- an access the view of the layer serves as the bus does -/
def BusOp.Clear (sr : Sysregs) (as : Aspace δ) : BusOp → Prop
  | .fetch32 _ => True
  | .read va size _ => misaligned va size = true → ClearMisaligned sr as va size permRead
  | .write va size _ => misaligned va size = true → ClearMisaligned sr as va size permWrite
  | .validate va size perms =>
    (as.find va size perms).isSome = true ∨ ¬ as.Pagewise va size perms

theorem transparent_iff (hoff : cacheable sr sr.el = false) (hok : as.Ok) {count : δ → Nat}
    (hc : Aspace.Counted count as.regions) {op : BusOp} (hop : op.Sized) :
    Transparent sr f₀ mmu as op ↔ op.Clear sr as := by
  cases op with
  | fetch32 va => exact ⟨fun _ => trivial, fun _ => transparent_fetch hoff va⟩
  | read va size sx =>
    by_cases hmis : misaligned va size = true
    · rw [transparent_read_misaligned hoff hok hc hop hmis sx]
      exact ⟨fun h _ => h, fun h => h hmis⟩
    · refine ⟨fun _ h => absurd h hmis, fun _ => ?_⟩
      exact transparent_read_aligned hoff hop (Bool.eq_false_iff.mpr hmis) sx
  | write va size value =>
    by_cases hmis : misaligned va size = true
    · rw [transparent_write_misaligned hoff hok hc hmis value]
      exact ⟨fun h _ => h, fun h => h hmis⟩
    · refine ⟨fun _ h => absurd h hmis, fun _ => ?_⟩
      exact transparent_write_aligned hoff (Bool.eq_false_iff.mpr hmis) value
  | validate va size perms => exact transparent_probe hoff hok va size perms

end

/-! ## devices that log their callbacks -/

inductive DeviceCall where
  | read (window off : W64) (size : MemSize)
  | write (window off : W64) (size : MemSize) (value : W64)

/-- the device, with a log of its callbacks -/
def DeviceOps.traced (window : W64) (ops : DeviceOps δ) : DeviceOps (δ × List DeviceCall) where
  read d off size := ((ops.read d.1 off size).1, (ops.read d.1 off size).2.1,
    ((ops.read d.1 off size).2.2, d.2 ++ [.read window off size]))
  write d off size value := ((ops.write d.1 off size value).1,
    ((ops.write d.1 off size value).2, d.2 ++ [.write window off size value]))

def Backing.traced (window : W64) : Backing δ → Backing (δ × List DeviceCall)
  | .ram host owned => .ram host owned
  | .device ops => .device (ops.traced window)

def AspaceRegion.traced (r : AspaceRegion δ) : AspaceRegion (δ × List DeviceCall) where
  pa := r.pa
  size := r.size
  perms := r.perms
  backing := r.backing.traced r.pa

/-- the bus, with a log of the callbacks of its devices -/
def Aspace.traced (as : Aspace δ) : Aspace (δ × List DeviceCall) where
  regions := as.regions.map AspaceRegion.traced
  capacity := as.capacity
  heap := as.heap
  dev := (as.dev, [])

section

variable {as : Aspace δ}

theorem Aspace.find_traced (pa size : W64) (perms : W32) :
    as.traced.find pa size perms = (as.find pa size perms).map AspaceRegion.traced := by
  unfold Aspace.find Aspace.traced
  split
  · rfl
  · rw [List.find?_map]
    rfl

theorem Aspace.Ok.traced (hok : as.Ok) : as.traced.Ok where
  room := by
    show (as.regions.map AspaceRegion.traced).length ≤ as.capacity
    rw [List.length_map]
    exact hok.room
  entry := List.forall_mem_map.mpr hok.entry
  nonempty := List.forall_mem_map.mpr hok.nonempty
  below := List.forall_mem_map.mpr hok.below
  apart := List.pairwise_map.mpr hok.apart

/-- no callback is missed by the log -/
theorem Aspace.traced_counted (as : Aspace δ) :
    Aspace.Counted (fun d => d.2.length) as.traced.regions := by
  refine List.forall_mem_map.mpr ?_
  intro r _ ops hb
  change r.backing.traced r.pa = .device ops at hb
  cases hr : r.backing with
  | ram host owned =>
    rw [hr] at hb
    cases hb
  | device inner =>
    rw [hr] at hb
    cases hb
    refine ⟨fun d off size => ?_, fun d off size value => ?_⟩
    · show d.2.length < (d.2 ++ [_]).length
      rw [List.length_append]
      exact Nat.lt_succ_self _
    · show d.2.length < (d.2 ++ [_]).length
      rw [List.length_append]
      exact Nat.lt_succ_self _

theorem Aspace.isSome_find_traced (pa size : W64) (perms : W32) :
    (as.traced.find pa size perms).isSome = (as.find pa size perms).isSome := by
  rw [Aspace.find_traced, Option.isSome_map]

theorem Aspace.oneRam_traced {va : W64} {n : Nat} {perm : W32} :
    as.traced.OneRam va n perm ↔ as.OneRam va n perm := by
  constructor
  · rintro ⟨r, host, owned, hf, hb⟩
    rw [Aspace.find_traced] at hf
    obtain ⟨s, hs, rfl⟩ := Option.map_eq_some_iff.mp hf
    refine ⟨s, host, owned, hs, ?_⟩
    change s.backing.traced s.pa = .ram host owned at hb
    cases hr : s.backing with
    | ram host' owned' =>
      rw [hr] at hb
      cases hb
      rfl
    | device ops =>
      rw [hr] at hb
      cases hb
  · rintro ⟨r, host, owned, hf, hb⟩
    refine ⟨r.traced, host, owned, ?_, ?_⟩
    · rw [Aspace.find_traced, hf]
      rfl
    · show r.backing.traced r.pa = _
      rw [hb]
      rfl

/-- the log changes nothing in what the layer needs of the regions -/
theorem BusOp.clear_traced (sr : Sysregs) (op : BusOp) : op.Clear sr as.traced ↔ op.Clear sr as := by
  have hmis : ∀ (va : W64) (size : MemSize) (perm : W32),
      ClearMisaligned sr as.traced va size perm ↔ ClearMisaligned sr as va size perm := by
    intro va size perm
    unfold ClearMisaligned Aspace.Bytewise
    simp only [Aspace.oneRam_traced, Aspace.isSome_find_traced]
  cases op with
  | fetch32 va => exact Iff.rfl
  | read va size sx => exact imp_congr_right fun _ => hmis va size permRead
  | write va size value => exact imp_congr_right fun _ => hmis va size permWrite
  | validate va size perms =>
    unfold BusOp.Clear Aspace.Pagewise
    simp only [Aspace.isSome_find_traced]

end

/-! ## every history of the bus -/

/-- what can happen to a bus: a mapping call, or an access -/
inductive Aspace.Move : Aspace δ → Aspace.Call δ ⊕ BusOp → Aspace δ → Prop where
  | call (as : Aspace δ) (c : Aspace.Call δ) : Move as (.inl c) (as.call c).2
  | access (as : Aspace δ) (op : BusOp) : Move as (.inr op) (op.run Aspace.memops as).2.2

theorem Aspace.Ok.access {as : Aspace δ} (hok : as.Ok) (op : BusOp) :
    (op.run Aspace.memops as).2.2.Ok := by
  cases op with
  | fetch32 va => exact hok
  | read va size sx =>
    have hram := as.read_ram va size sx
    show Span.Table _ _ _ (as.read va size sx).2.2.capacity (as.read va size sx).2.2.regions
    rw [show (as.read va size sx).2.2.regions = as.regions from congrArg Prod.fst hram,
      show (as.read va size sx).2.2.capacity = as.capacity from
        congrArg (fun t => t.2.1) hram]
    exact hok
  | write va size value => exact hok.call (.write va size value)
  | validate va size perms => exact hok

theorem Aspace.ok_moves {heap : Nat → BitVec 8} {dev : δ} {table : Bool} {capacity : Nat}
    {as₀ as : Aspace δ} {l : List (Aspace.Call δ ⊕ BusOp)}
    (h : Aspace.init heap dev table capacity = .ok as₀) (hrun : Lts.Run Aspace.Move as₀ l as) :
    as.Ok := by
  refine hrun.invariant (A := fun _ => True) ?_ (fun _ _ => trivial) (Aspace.ok_init h).1
  rintro s i s' hs - hstep
  cases hstep with
  | call c => exact hs.call c
  | access op => exact hs.access op

/-- **with translation off the view is the bus, except where it splits**: over every bus, an access
through the view has the status, the value, the memory and the device callbacks of the bus beneath
exactly when it is clear -/
theorem mmu_off_transparent {heap : Nat → BitVec 8} {dev : δ} {table : Bool} {capacity : Nat}
    {as₀ as : Aspace δ} {l : List (Aspace.Call δ ⊕ BusOp)}
    (hinit : Aspace.init heap dev table capacity = .ok as₀)
    (hrun : Lts.Run Aspace.Move as₀ l as) (sr : Sysregs)
    (hoff : sctlrM (sr.val .sctlrEl1) = false ∨ sr.el = .el3) (f₀ : MmuFault) (mmu : Mmu)
    (op : BusOp) (hop : op.Sized) :
    Transparent sr f₀ mmu as.traced op ↔ op.Clear sr as := by
  have hcache : cacheable sr sr.el = false := by
    unfold cacheable
    rcases hoff with h | h
    · rw [h, Bool.false_and]
    · rw [h]
      exact Bool.and_false _
  rw [← op.clear_traced sr]
  exact transparent_iff hcache (Aspace.ok_moves hinit hrun).traced as.traced_counted hop

/-- a device that answers every callback -/
def quietDevice : DeviceOps Unit where
  read d _ _ := (.ok, 0, d)
  write d _ _ _ := (.ok, d)

/-- one device, attached at `0x1000` -/
def deviceBus : Aspace Unit := (emptyAspace.call (.attachDevice 0x1000 0x1000 (some quietDevice))).2

theorem deviceBus_run : Lts.Run Aspace.Move emptyAspace
    [.inl (.attachDevice 0x1000 0x1000 (some quietDevice))] deviceBus :=
  .cons (.call _ _) (.nil _)

/-- the kernel's system registers at reset: `SCTLR_EL1` is zero -/
def resetSysregs : Sysregs := Sysregs.init (Regs.init 0 0) .el1

theorem mmu_off_transparent_device :
    Transparent resetSysregs ⟨0, 0⟩ Mmu.init deviceBus.traced (.read 0x1008 .word true) := by
  refine (mmu_off_transparent (show Aspace.init (fun _ => 0) () true 1 = .ok emptyAspace from rfl)
    deviceBus_run resetSysregs (.inl (by decide)) ⟨0, 0⟩ Mmu.init (.read 0x1008 .word true)
    (show MemSize.word.bytes ≤ 8 by decide)).mpr ?_
  intro h
  exact absurd h (by decide)

/-- a misaligned read of a device: the bus refuses it, and the view asks the device for two bytes -/
theorem split_reaches_device :
    Lts.Run Aspace.Move emptyAspace [.inl (.attachDevice 0x1000 0x1000 (some quietDevice))]
        deviceBus ∧
      sctlrM (resetSysregs.val .sctlrEl1) = false ∧
      (Aspace.read deviceBus.traced 0x1001 .half false).1 = .fault ∧
      (mmuRead resetSysregs Aspace.memops ⟨0, 0⟩ ⟨Mmu.init, deviceBus.traced⟩ 0x1001 .half false).1 =
        .ok ∧
      ¬ Transparent resetSysregs ⟨0, 0⟩ Mmu.init deviceBus.traced (.read 0x1001 .half false) := by
  refine ⟨deviceBus_run, by decide, by decide, by decide, ?_⟩
  intro h
  have := h.status
  revert this
  decide

end Oemu
