import Oemu.Aspace.Agree

/-!
# The RAM a guest sees

`Aspace.view` is the byte of RAM at an address of the bus.  A write that lands in RAM stores its
bytes there and nothing else: `Aspace.write_view`, the counterpart on the bus of `Memory.write_view`.
-/

namespace Oemu

variable {δ : Type}

/-- the cell of host memory behind an address of the region, if there is one -/
def AspaceRegion.cell (r : AspaceRegion δ) (x : Nat) : Option Nat :=
  if r.pa.toNat ≤ x ∧ x < r.pa.toNat + r.size.toNat then
    r.window.map fun w => w.base + (x - r.pa.toNat)
  else none

theorem AspaceRegion.cell_ram {r : AspaceRegion δ} {host : Nat} {owned : Bool}
    (hb : r.backing = .ram host owned) {x : Nat} (hx : r.span.Covers x 1) :
    r.cell x = some (host + (x - r.pa.toNat)) := by
  have hin : r.pa.toNat ≤ x ∧ x < r.pa.toNat + r.size.toNat := hx
  unfold cell window
  rw [if_pos hin, hb]
  rfl

theorem AspaceRegion.cell_eq_some {r : AspaceRegion δ} {x i : Nat} (h : r.cell x = some i) :
    r.span.Covers x 1 ∧ ∃ host owned, r.backing = .ram host owned := by
  unfold cell window at h
  by_cases hin : r.pa.toNat ≤ x ∧ x < r.pa.toNat + r.size.toNat
  · rw [if_pos hin] at h
    cases hb : r.backing with
    | ram host owned => exact ⟨hin, host, owned, rfl⟩
    | device ops =>
      rw [hb] at h
      cases h
  · rw [if_neg hin] at h
    cases h

namespace Aspace

/-- the cell behind an address of the bus -/
def cell (as : Aspace δ) (x : Nat) : Option Nat := as.regions.findSome? fun r => r.cell x

/-- the byte of RAM at an address, zero where there is none -/
def view (as : Aspace δ) (x : Nat) : BitVec 8 :=
  match as.cell x with
  | some i => as.heap i
  | none => 0

def OnRam (as : Aspace δ) (x : Nat) : Prop :=
  ∃ r ∈ as.regions, r.span.Covers x 1 ∧ ∃ host owned, r.backing = .ram host owned

/-- a good table, and host memory of its own for each region -/
structure Separate (as : Aspace δ) : Prop where
  ok : as.Ok
  buffers : ∀ r ∈ as.regions, as.NonAliased r

theorem Separate.single {as : Aspace δ} {r : AspaceRegion δ} (hok : as.Ok)
    (h : as.regions = [r]) : as.Separate where
  ok := hok
  buffers := by
    intro s hs t ht hne
    rw [h, List.mem_singleton] at hs ht
    exact absurd (ht.trans hs.symm) hne

theorem cell_at {as : Aspace δ} (hok : as.Ok) {r : AspaceRegion δ} (hr : r ∈ as.regions)
    {host : Nat} {owned : Bool} (hb : r.backing = .ram host owned) {x : Nat}
    (hx : r.span.Covers x 1) : as.cell x = some (host + (x - r.pa.toNat)) := by
  unfold cell
  cases hf : as.regions.findSome? fun r => r.cell x with
  | none =>
    rw [List.findSome?_eq_none_iff] at hf
    have := hf r hr
    rw [AspaceRegion.cell_ram hb hx] at this
    cases this
  | some i =>
    obtain ⟨s, hs, hi⟩ := List.exists_of_findSome?_eq_some hf
    obtain ⟨hc, -⟩ := AspaceRegion.cell_eq_some hi
    obtain rfl := Span.Table.unique hok Nat.one_pos hs hr hc hx
    rw [← hi, AspaceRegion.cell_ram hb hx]

theorem cell_off {as : Aspace δ} {x : Nat} (h : ¬ as.OnRam x) : as.cell x = none := by
  unfold cell
  rw [List.findSome?_eq_none_iff]
  intro r hr
  cases hi : r.cell x with
  | none => rfl
  | some i =>
    obtain ⟨hc, hb⟩ := AspaceRegion.cell_eq_some hi
    exact absurd ⟨r, hr, hc, hb⟩ h

theorem view_at {as : Aspace δ} (hok : as.Ok) {r : AspaceRegion δ} (hr : r ∈ as.regions)
    {host : Nat} {owned : Bool} (hb : r.backing = .ram host owned) {x : Nat}
    (hx : r.span.Covers x 1) : as.view x = as.heap (host + (x - r.pa.toNat)) := by
  unfold view
  rw [cell_at hok hr hb hx]

theorem view_off {as : Aspace δ} {x : Nat} (h : ¬ as.OnRam x) : as.view x = 0 := by
  unfold view
  rw [cell_off h]

theorem write_regions (as : Aspace δ) (pa : W64) (size : MemSize) (value : W64) :
    (as.write pa size value).2.regions = as.regions := (as.write_table pa size value).1

theorem Separate.write {as : Aspace δ} (h : as.Separate) (pa : W64) (size : MemSize) (value : W64) :
    (as.write pa size value).2.Separate where
  ok := h.ok.call (.write pa size value)
  buffers := by
    unfold NonAliased
    rw [write_regions]
    exact h.buffers

theorem OnRam.write {as : Aspace δ} (pa : W64) (size : MemSize) (value : W64) {x : Nat} :
    (as.write pa size value).2.OnRam x ↔ as.OnRam x := by
  unfold OnRam
  rw [write_regions]

theorem write_found {as : Aspace δ} (h : as.Ok) {pa value : W64} {size : MemSize}
    (hw : (as.write pa size value).1 = .ok) (hram : as.OnRam pa.toNat) :
    ∃ r ∈ as.regions, r.span.Covers pa.toNat size.bytes ∧
      ∃ host owned, r.backing = .ram host owned := by
  obtain ⟨r, hf, -⟩ := write_ok hw
  obtain ⟨-, hr, -, hcov⟩ := (find_iff h _ _ _ _).mp hf
  rw [size.toNat_bytes] at hcov
  have hpos := size.bytes_pos
  obtain ⟨s, hs, hx, hb⟩ := hram
  obtain rfl := Span.Table.unique h Nat.one_pos hs hr hx (hcov.sub (Nat.le_refl _) (by omega))
  exact ⟨s, hs, hcov, hb⟩

/-- **a write into RAM** stores the bytes of the value at its address, and no others -/
theorem write_view {as : Aspace δ} (h : as.Separate) {pa value : W64} {size : MemSize}
    (hw : (as.write pa size value).1 = .ok) (hram : as.OnRam pa.toNat) :
    (as.write pa size value).2.view = assemble as.view pa.toNat size.bytes value := by
  have hok' := (h.write pa size value).ok
  have hregs := write_regions as pa size value
  funext x
  by_cases hin : pa.toNat ≤ x ∧ x < pa.toNat + size.bytes
  · obtain ⟨r, hr, hcov, host, owned, hb⟩ := write_found h.ok hw hram
    have hcov : r.pa.toNat ≤ pa.toNat ∧ pa.toNat + size.bytes ≤ r.pa.toNat + r.size.toNat := hcov
    have hx : r.span.Covers x 1 :=
      ⟨show r.pa.toNat ≤ x by omega, show x + 1 ≤ r.pa.toNat + r.size.toNat by omega⟩
    have hat := write_inside h.ok hw hr hb (show x - r.pa.toNat < r.size.toNat by omega) (by omega)
      (by omega)
    rw [view_at hok' (hregs ▸ hr) hb hx, hat, show r.pa.toNat + (x - r.pa.toNat) = x by omega]
    exact (if_pos hin).symm
  · rw [show assemble as.view pa.toNat size.bytes value x = as.view x from if_neg hin]
    by_cases hmap : as.OnRam x
    · obtain ⟨r, hr, hx, host, owned, hb⟩ := hmap
      have hx' : r.pa.toNat ≤ x ∧ x + 1 ≤ r.pa.toNat + r.size.toNat := hx
      rw [view_at hok' (hregs ▸ hr) hb hx, view_at h.ok hr hb hx]
      exact write_other h.ok hw hr (h.buffers r hr) hb (by omega) (by omega)
    · rw [view_off hmap, view_off (fun hx => hmap ((OnRam.write pa size value).mp hx))]

end Aspace

end Oemu
