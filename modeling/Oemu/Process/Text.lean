import Oemu.Process.Start
import Oemu.Exec.Keep

/-!
# What a process cannot change

The segments of a file that may not be written hold what the file says for as long as the process
runs, whatever it does, through its stores and through its system calls.

* `Started.separate`     the memory a file starts with has a block for each region;
* `process_text_kept`    what may not be written stays as the file has it.
-/

namespace Oemu

namespace Process

open Elf

variable {h : Host} {img : Image} {base : W64} {g : Guest}

theorem Started.separate (hs : Started h img base g) (hfresh : h.Fresh img) : g.2.1.Separate := by
  obtain ⟨rs, c, hc, hregs, hshows, hhosts⟩ := hs.regions
  have hlen := hshows.length_eq
  have hsize : ∀ i (hi : i < rs.length), (img.loads.map Phdr.memsz)[i]? = some rs[i].size.toNat := by
    intro i hi
    rw [List.getElem?_map, List.getElem?_eq_getElem (hlen ▸ hi)]
    have hshow := (List.forall₂_iff_get.mp hshows).2 i (hlen ▸ hi) hi
    exact congrArg some hshow.size.symm
  have hstack : ∀ r ∈ rs, r.window.Apart ⟨c, stackSize.toNat⟩ := by
    intro r hr
    obtain ⟨i, hi, rfl⟩ := List.getElem_of_mem hr
    exact hfresh.stack i _ _ c (hsize i hi) (hhosts i _ (List.getElem?_eq_getElem hi)) hc
  have hseg : ∀ i j (hi : i < rs.length) (hj : j < rs.length), i < j →
      rs[i].window.Apart rs[j].window := by
    intro i j hi hj hij
    exact hfresh.segments i j _ _ _ _ hij (hsize i hi) (hsize j hj)
      (hhosts i _ (List.getElem?_eq_getElem hi)) (hhosts j _ (List.getElem?_eq_getElem hj))
  refine ⟨hs.ok, ?_⟩
  intro r hr s hr' hne
  rw [hregs] at hr hr'
  rcases List.mem_append.mp hr with hr | hr
  · rcases List.mem_append.mp hr' with hr' | hr'
    · obtain ⟨i, hi, rfl⟩ := List.getElem_of_mem hr
      obtain ⟨j, hj, rfl⟩ := List.getElem_of_mem hr'
      rcases Nat.lt_trichotomy i j with hij | rfl | hij
      · exact hseg i j hi hj hij
      · exact absurd rfl hne
      · exact (hseg j i hj hi hij).symm
    · rw [List.mem_singleton.mp hr']
      exact hstack r hr
  · rw [List.mem_singleton.mp hr] at hne ⊢
    rcases List.mem_append.mp hr' with hr' | hr'
    · exact (hstack s hr').symm
    · exact absurd (List.mem_singleton.mp hr') hne

theorem Started.region (hs : Started h img base g) {p : Phdr} (hp : p ∈ img.loads) :
    ∃ r ∈ g.2.1.regions, Elf.Shows img g.2.1.heap p r := by
  obtain ⟨rs, c, -, hregs, hshows, -⟩ := hs.regions
  obtain ⟨i, hi, rfl⟩ := List.getElem_of_mem hp
  have hi' : i < rs.length := hshows.length_eq ▸ hi
  refine ⟨rs[i], ?_, (List.forall₂_iff_get.mp hshows).2 i hi hi'⟩
  rw [hregs]
  exact List.mem_append_left _ (List.getElem_mem hi')

theorem Started.view (hs : Started h img base g) {p : Phdr} (hp : p ∈ img.loads) {x : Nat}
    (hx : x < p.memsz) :
    g.2.1.view (p.vaddr + x) = if x < p.filesz then img.octet (p.offset + x) else 0 := by
  obtain ⟨r, hr, hshow⟩ := hs.region hp
  have hcov : r.span.Covers (p.vaddr + x) 1 := by
    rw [shows_span hshow]
    exact ⟨show p.vaddr ≤ p.vaddr + x by omega, show p.vaddr + x + 1 ≤ p.vaddr + p.memsz by omega⟩
  rw [Memory.view_at hs.ok hr hcov, hshow.base, Nat.add_sub_cancel_left]
  exact hshow.contents x hx

/-- and one that may not be written is out of the way of every write -/
theorem Started.not_writable (hs : Started h img base g) {p : Phdr} (hp : p ∈ img.loads)
    (hro : p.perms &&& permWrite = 0) {x : Nat} (hx : x < p.memsz) :
    ¬ g.2.1.Writable (p.vaddr + x) := by
  rintro ⟨s, hs', hw, hcov'⟩
  obtain ⟨r, hr, hshow⟩ := hs.region hp
  have hcov : r.span.Covers (p.vaddr + x) 1 := by
    rw [shows_span hshow]
    exact ⟨show p.vaddr ≤ p.vaddr + x by omega, show p.vaddr + x + 1 ≤ p.vaddr + p.memsz by omega⟩
  obtain rfl := Span.Table.unique hs.ok Nat.one_pos hr hs' hcov hcov'
  rw [hshow.perms, hro] at hw
  exact absurd hw (by decide)

/-- what has been run is what the file started with, run -/
theorem runProcess_started {maxInsns : W64} {code : W32} {failed : Bool}
    (hfile : h.file = some ⟨img.bytes, failed⟩)
    (hrun : runProcess h maxInsns = some (code, some g)) :
    ∃ g₀, start h img = some (some g₀) ∧ runGuest h maxInsns g₀ = some (code, some g) := by
  obtain ⟨b, buf, hread, hok⟩ := readFile_spec h
  unfold runProcess at hrun
  rw [hread, Option.bind_some] at hrun
  cases b with
  | false => cases hrun
  | true =>
    obtain ⟨f, hf, hcont⟩ := hok rfl
    rw [hfile] at hf
    obtain rfl := Option.some.inj hf
    have himg : imageOf buf = img := by
      unfold imageOf
      obtain ⟨bytes, hfits⟩ := img
      congr
    rw [if_pos rfl, himg] at hrun
    obtain ⟨g₀, hstart, hrun⟩ := Option.bind_eq_some_iff.mp hrun
    cases g₀ with
    | none => cases hrun
    | some g₀ => exact ⟨g₀, hstart, hrun⟩

/-- **what may not be written stays as the file has it**, and no region comes, goes or changes its
permissions: in every process, however it ends, for every budget -/
theorem process_text_kept (h : Host) (img : Image) {failed : Bool} {maxInsns : W64} {code : W32}
    {g : Guest} (hfile : h.file = some ⟨img.bytes, failed⟩) (hfresh : h.Fresh img)
    (hrun : runProcess h maxInsns = some (code, some g)) :
    (∀ p ∈ img.loads, p.perms &&& permWrite = 0 → ∀ x < p.memsz,
        g.2.1.view (p.vaddr + x) = if x < p.filesz then img.octet (p.offset + x) else 0) ∧
      ∃ g₀, start h img = some (some g₀) ∧ g.2.1.regions = g₀.2.1.regions := by
  obtain ⟨g₀, hstart, hrun⟩ := runProcess_started hfile hrun
  obtain ⟨base, hs⟩ : ∃ base, Started h img base g₀ := started_of_start hfresh hstart
  unfold runGuest at hrun
  obtain ⟨r, hexec, hr⟩ := Option.map_eq_some_iff.mp hrun
  have hg : r.2.2 = g := Option.some.inj (Prod.mk.inj hr).2
  have hkeep : Memory.Guarded g₀.2.1 r.2.2.2.1 :=
    execRunBus_keeps Memory.keeps (Sysenv.envops_keeps Memory.keeps h.clock)
      (show execRunBus Memory.memops (some (Sysenv.envops h.clock)) maxInsns g₀ =
        some (r.1, r.2.1, r.2.2) from hexec) (hs.separate hfresh)
  rw [hg] at hkeep
  refine ⟨?_, g₀, hstart, hkeep.regions⟩
  intro p hp hro x hx
  rw [hkeep.view _ (hs.not_writable hp hro hx)]
  exact hs.view hp hx

theorem exitHost_run : ∃ g, runProcess exitHost 3 = some (7, some g) := by
  have h : (runProcess exitHost 3).map (fun p => (p.1, p.2.isSome)) = some (7, true) := by
    decide +kernel
  obtain ⟨⟨code, g⟩, hrun, hg⟩ := Option.map_eq_some_iff.mp h
  obtain ⟨rfl, hsome⟩ := Prod.mk.inj hg
  obtain ⟨g, rfl⟩ := Option.isSome_iff_exists.mp hsome
  exact ⟨g, hrun⟩

/-- its code is still what the file says -/
theorem process_text_kept_exit :
    ∃ g, runProcess exitHost 3 = some (7, some g) ∧
      ∀ x < 12, g.2.1.view (0x1000 + x) = exitImage.octet (120 + x) := by
  obtain ⟨g, hrun⟩ := exitHost_run
  refine ⟨g, hrun, ?_⟩
  intro x hx
  have hkept := (process_text_kept exitHost exitImage rfl exitHost_fresh hrun).1
  rw [exitImage_loads] at hkept
  have hview := hkept _ (List.mem_singleton.mpr rfl) (by decide) x hx
  rwa [if_pos hx] at hview

end Process

end Oemu
