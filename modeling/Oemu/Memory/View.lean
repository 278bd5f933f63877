import Oemu.Memory.Table

/-!
# The bytes a guest sees

`ByteStore mem Good view` says of a bus that a write it accepts stores the bytes of the value where
it says, and no others, in the states `Good` describes.  A table of regions with buffers of their
own is such a bus: `Memory.byteStore`.
-/

namespace Oemu

/-- a bus whose state shows bytes: a write stores, a check does not -/
structure ByteStore {σ : Type} (mem : Memops σ) (Good : σ → Prop) (view : σ → Nat → BitVec 8) :
    Prop where
  write : ∀ {s}, Good s → ∀ a (n : MemSize) v, (mem.write s a n v).1 = .ok →
    Good (mem.write s a n v).2 ∧
      view (mem.write s a n v).2 = assemble (view s) a.toNat n.bytes v
  validate : ∀ {s}, Good s → ∀ a n q, Good (mem.validate s a n q).2 ∧
    view (mem.validate s a n q).2 = view s

def Region.shows (r : Region) (x : Nat) : Bool :=
  decide (r.gva.toNat ≤ x) && decide (x < r.gva.toNat + r.size.toNat)

theorem Region.shows_iff {r : Region} {x : Nat} : r.shows x = true ↔ r.span.Covers x 1 := by
  unfold Region.shows
  rw [Bool.and_eq_true, decide_eq_true_iff, decide_eq_true_iff]
  rfl

namespace Memory

/-- the byte at an address, zero where nothing is mapped -/
def view (mem : Memory) (x : Nat) : BitVec 8 :=
  match mem.regions.find? fun r => r.shows x with
  | some r => mem.heap (r.host + (x - r.gva.toNat))
  | none => 0

/-- a good table, and a buffer for each region -/
structure Separate (mem : Memory) : Prop where
  ok : mem.Ok
  buffers : ∀ r ∈ mem.regions, mem.NonAliased r

theorem Separate.single {mem : Memory} {r : Region} (hok : mem.Ok) (h : mem.regions = [r]) :
    mem.Separate where
  ok := hok
  buffers := by
    intro s hs t ht hne
    rw [h, List.mem_singleton] at hs ht
    exact absurd (ht.trans hs.symm) hne

theorem view_at {mem : Memory} (hok : mem.Ok) {r : Region} (hr : r ∈ mem.regions) {x : Nat}
    (hx : r.span.Covers x 1) : mem.view x = mem.heap (r.host + (x - r.gva.toNat)) := by
  unfold view
  cases hf : mem.regions.find? fun r => r.shows x with
  | none => exact absurd (Region.shows_iff.mpr hx) (List.find?_eq_none.mp hf r hr)
  | some s =>
    have hs := List.find?_some hf
    obtain rfl := Span.Table.unique hok Nat.one_pos (List.mem_of_find?_eq_some hf) hr
      (Region.shows_iff.mp hs) hx
    rfl

theorem view_unmapped {mem : Memory} {x : Nat} (h : ∀ r ∈ mem.regions, ¬ r.span.Covers x 1) :
    mem.view x = 0 := by
  unfold view
  rw [List.find?_eq_none.mpr fun r hr hs => h r hr (Region.shows_iff.mp hs)]

theorem write_regions (mem : Memory) (gva : W64) (size : MemSize) (value : W64) :
    (mem.write gva size value).2.regions = mem.regions := by
  unfold write
  cases mem.find gva (BitVec.ofNat 64 size.bytes) permWrite <;> rfl

theorem Separate.write {mem : Memory} (h : mem.Separate) (gva : W64) (size : MemSize)
    (value : W64) : (mem.write gva size value).2.Separate where
  ok := h.ok.call (.write gva size value)
  buffers := by
    unfold NonAliased
    rw [write_regions]
    exact h.buffers

theorem write_view {mem : Memory} (h : mem.Separate) {gva value : W64} {size : MemSize}
    (hw : (mem.write gva size value).1 = .ok) :
    (mem.write gva size value).2.view = assemble mem.view gva.toNat size.bytes value := by
  have hok' := (h.write gva size value).ok
  funext x
  by_cases hin : gva.toNat ≤ x ∧ x < gva.toNat + size.bytes
  · obtain ⟨r, hf, -⟩ := write_ok hw
    obtain ⟨-, hr, -, hcov⟩ := (find_iff h.ok _ _ _ _).mp hf
    rw [size.toNat_bytes] at hcov
    have hcov : r.gva.toNat ≤ gva.toNat ∧ gva.toNat + size.bytes ≤ r.gva.toNat + r.size.toNat :=
      hcov
    have hx : r.span.Covers x 1 :=
      ⟨show r.gva.toNat ≤ x by omega, show x + 1 ≤ r.gva.toNat + r.size.toNat by omega⟩
    have hr' : r ∈ (mem.write gva size value).2.regions := by
      rw [write_regions]
      exact hr
    have hat := write_inside h.ok hw hr (show x - r.gva.toNat < r.size.toNat by omega) (by omega)
      (by omega)
    rw [view_at hok' hr' hx, hat, show r.gva.toNat + (x - r.gva.toNat) = x by omega]
    exact (if_pos hin).symm
  · rw [show assemble mem.view gva.toNat size.bytes value x = mem.view x from if_neg hin]
    by_cases hmap : ∃ r ∈ mem.regions, r.span.Covers x 1
    · obtain ⟨r, hr, hx⟩ := hmap
      have hr' : r ∈ (mem.write gva size value).2.regions := by
        rw [write_regions]
        exact hr
      have hx' : r.gva.toNat ≤ x ∧ x + 1 ≤ r.gva.toNat + r.size.toNat := hx
      rw [view_at hok' hr' hx, view_at h.ok hr hx]
      exact write_other h.ok hw hr (h.buffers r hr) (by omega) (by omega)
    · have hno : ∀ r ∈ mem.regions, ¬ r.span.Covers x 1 := fun r hr hx => hmap ⟨r, hr, hx⟩
      rw [view_unmapped hno, view_unmapped]
      rw [write_regions]
      exact hno

/-- **a table of separate regions** shows the bytes written -/
theorem byteStore : ByteStore memops Separate view where
  write := fun h a n v hok => ⟨Separate.write h a n v, write_view h hok⟩
  validate := fun h _ _ _ => ⟨h, rfl⟩

end Memory

end Oemu
