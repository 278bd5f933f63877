import Oemu.Aspace.Table

/-!
# The two providers agree

`Same mem as`: the flat memory and an address space with RAM only hold the same regions and the same
bytes.  The hosts behind the regions may differ, since each provider was given blocks of its own.

* `Same.find`           both searches answer paired regions;
* `Same.map`            a mapping request answers alike and keeps the pairing;
* `providers_agree`     every history, every access: alike but for the status of a misaligned fetch.
-/

namespace Oemu

variable {δ : Type}

/-- a region of the flat memory and the RAM region beside it -/
structure Paired (r : Region) (s : AspaceRegion δ) : Prop where
  base : r.gva = s.pa
  size : r.size = s.size
  perms : r.perms = s.perms
  ram : ∃ host owned, s.backing = .ram host owned

structure Same (mem : Memory) (as : Aspace δ) : Prop where
  memOk : mem.Ok
  asOk : as.Ok
  capacity : mem.capacity = as.capacity
  regions : List.Forall₂ Paired mem.regions as.regions
  bytes : ∀ r ∈ mem.regions, ∀ s ∈ as.regions, Paired r s → ∀ host owned,
    s.backing = .ram host owned →
    ∀ i < r.size.toNat, mem.heap (r.host + i) = as.heap (host + i)
  memOwn : ∀ r ∈ mem.regions, mem.NonAliased r
  asOwn : ∀ s ∈ as.regions, as.NonAliased s

/-! ## searches -/

theorem Paired.holds {r : Region} {s : AspaceRegion δ} (h : Paired r s) (hs : 0 < r.size.toNat)
    {gva size : W64} (hsize : size ≠ 0) (perms : W32) :
    Memory.holds r gva size perms = Aspace.holds s gva size perms := by
  rw [Bool.eq_iff_iff, Memory.holds_iff, Aspace.holds_iff (by rw [← h.size]; exact hs) hsize,
    ← h.perms]
  unfold Span.Covers AspaceRegion.span
  dsimp only
  rw [← h.base, ← h.size]
  have := W64.toNat_pos hsize
  constructor
  · rintro ⟨h1, h2, h3, h4⟩
    exact ⟨h1, h2, by omega⟩
  · rintro ⟨h1, h2, h3⟩
    exact ⟨h1, h2, by omega, by omega⟩

theorem find?_forall₂ {α β : Type} {R : α → β → Prop} {p : α → Bool} {q : β → Bool} {l : List α}
    {l' : List β} (h : List.Forall₂ R l l') (hp : ∀ a ∈ l, ∀ b, R a b → p a = q b) :
    Option.Rel R (l.find? p) (l'.find? q) := by
  induction h with
  | nil => exact .none
  | cons hab _ ih =>
    rename_i a b l l' _
    rw [List.find?_cons, List.find?_cons, ← hp a List.mem_cons_self b hab]
    cases p a with
    | true => exact .some hab
    | false => exact ih fun a ha => hp a (List.mem_cons_of_mem _ ha)

theorem Same.find {mem : Memory} {as : Aspace δ} (h : Same mem as) (gva size : W64) (perms : W32) :
    Option.Rel Paired (mem.find gva size perms) (as.find gva size perms) := by
  unfold Memory.find Aspace.find
  by_cases hs : size = 0
  · rw [if_pos hs, if_pos hs]
    exact .none
  · rw [if_neg hs, if_neg hs]
    refine find?_forall₂ h.regions ?_
    intro r hr s hrs
    exact hrs.holds (h.memOk.nonempty r hr) hs perms

theorem Same.found {mem : Memory} {as : Aspace δ} (h : Same mem as) {gva size : W64} {perms : W32}
    {r : Region} (hr : mem.find gva size perms = some r) :
    ∃ s host owned, as.find gva size perms = some s ∧ Paired r s ∧ s.backing = .ram host owned ∧
      gva - r.gva = gva - s.pa ∧
      ∀ i < size.toNat, mem.heap (r.host + (gva - r.gva).toNat + i) =
        as.heap (host + (gva - s.pa).toNat + i) := by
  have hrel := h.find gva size perms
  rw [hr] at hrel
  cases hs : as.find gva size perms with
  | none =>
    rw [hs] at hrel
    cases hrel
  | some s =>
    rw [hs] at hrel
    cases hrel with
    | some hp =>
      obtain ⟨host, owned, hb⟩ := hp.ram
      refine ⟨s, host, owned, rfl, hp, hb, by rw [hp.base], ?_⟩
      intro i hi
      obtain ⟨-, hrm, -, hcov⟩ := (Memory.find_iff h.memOk _ _ _ _).mp hr
      obtain ⟨-, hsm, -, -⟩ := (Aspace.find_iff h.asOk _ _ _ _).mp hs
      have hle : r.gva.toNat ≤ gva.toNat := hcov.1
      have hend : gva.toNat + size.toNat ≤ r.gva.toNat + r.size.toNat := hcov.2
      have hoff : (gva - r.gva).toNat = gva.toNat - r.gva.toNat := BitVec.toNat_sub_of_le hle
      have := h.bytes r hrm s hsm hp host owned hb ((gva - r.gva).toNat + i) (by omega)
      rw [← Nat.add_assoc, ← Nat.add_assoc] at this
      rw [← hp.base]
      exact this

/-! ## accesses -/

section

variable {mem : Memory} {as : Aspace δ}

theorem Same.find_none (h : Same mem as) {gva size : W64} {perms : W32} :
    mem.find gva size perms = none ↔ as.find gva size perms = none := by
  have hrel := h.find gva size perms
  constructor
  · intro hn
    rw [hn] at hrel
    cases hs : as.find gva size perms with
    | none => rfl
    | some s =>
      rw [hs] at hrel
      cases hrel
  · intro hn
    rw [hn] at hrel
    cases hr : mem.find gva size perms with
    | none => rfl
    | some r =>
      rw [hr] at hrel
      cases hrel

theorem Same.validate (h : Same mem as) (gva size : W64) (perms : W32) :
    mem.validate gva size perms = as.validate gva size perms := by
  unfold Memory.validate Aspace.validate
  split
  · rfl
  · cases hr : mem.find gva size perms with
    | none => rw [h.find_none.mp hr]
    | some r =>
      obtain ⟨s, -, -, hs, -⟩ := h.found hr
      rw [hs]

theorem Same.read (h : Same mem as) (gva : W64) {size : MemSize} (h8 : size.bytes ≤ 8) (sx : Bool) :
    as.read gva size sx = ((mem.read gva size sx).1, (mem.read gva size sx).2, as) := by
  cases hr : mem.find gva (BitVec.ofNat 64 size.bytes) permRead with
  | none =>
    unfold Memory.read Aspace.read
    rw [hr, h.find_none.mp hr]
  | some r =>
    obtain ⟨s, host, owned, hs, -, hb, -, hbytes⟩ := h.found hr
    have hn : (BitVec.ofNat 64 size.bytes).toNat = size.bytes := size.toNat_bytes
    rw [hn] at hbytes
    rw [Memory.read_loaded h8 sx hr, Aspace.read_loaded h8 sx hs hb, disassemble_congr hbytes]

theorem Same.fetch32 (h : Same mem as) {pc : W64} (ha : pc.toNat % 4 = 0) :
    mem.fetch32 pc = as.fetch32 pc := by
  have ha' : ¬ pc &&& 3 ≠ 0 := by
    rw [not_not]
    apply BitVec.eq_of_toNat_eq
    rw [BitVec.toNat_and, show (3 : W64).toNat = 2 ^ 2 - 1 from rfl, Nat.and_two_pow_sub_one_eq_mod]
    exact ha
  unfold Memory.fetch32 Aspace.fetch32
  rw [if_neg ha', if_neg (not_not_intro ha)]
  cases hr : mem.find pc 4 permExec with
  | none => rw [h.find_none.mp hr]
  | some r =>
    obtain ⟨s, host, owned, hs, -, hb, -, hbytes⟩ := h.found hr
    rw [hs]
    dsimp only
    rw [hb]
    dsimp only
    rw [show (4 : W64).toNat = 4 from rfl] at hbytes
    rw [disassemble_congr hbytes]

theorem Same.write_status (h : Same mem as) (gva : W64) (size : MemSize) (value : W64) :
    (mem.write gva size value).1 = (as.write gva size value).1 := by
  unfold Memory.write Aspace.write
  cases hr : mem.find gva (BitVec.ofNat 64 size.bytes) permWrite with
  | none => rw [h.find_none.mp hr]
  | some r =>
    obtain ⟨s, host, owned, hs, -, hb, -⟩ := h.found hr
    rw [hs]
    dsimp only
    rw [hb]

theorem Memory.write_table (mem : Memory) (gva : W64) (size : MemSize) (value : W64) :
    (mem.write gva size value).2.regions = mem.regions ∧
      (mem.write gva size value).2.capacity = mem.capacity := by
  unfold Memory.write
  cases mem.find gva (BitVec.ofNat 64 size.bytes) permWrite with
  | none => exact ⟨rfl, rfl⟩
  | some r => exact ⟨rfl, rfl⟩

theorem Aspace.write_table (as : Aspace δ) (pa : W64) (size : MemSize) (value : W64) :
    (as.write pa size value).2.regions = as.regions ∧
      (as.write pa size value).2.capacity = as.capacity := by
  unfold Aspace.write
  cases as.find pa (BitVec.ofNat 64 size.bytes) permWrite with
  | none => exact ⟨rfl, rfl⟩
  | some r =>
    dsimp only
    cases r.backing with
    | ram host owned => exact ⟨rfl, rfl⟩
    | device ops =>
      dsimp only
      split <;> exact ⟨rfl, rfl⟩

theorem Same.write (h : Same mem as) (gva : W64) (size : MemSize) (value : W64) :
    Same (mem.write gva size value).2 (as.write gva size value).2 := by
  by_cases hw : (mem.write gva size value).1 = .ok
  · have hw' := (h.write_status gva size value).symm.trans hw
    obtain ⟨hmr, hmc⟩ := mem.write_table gva size value
    obtain ⟨har, hac⟩ := as.write_table gva size value
    refine ⟨?_, ?_, ?_, ?_, ?_, ?_, ?_⟩
    · unfold Memory.Ok
      rw [hmr, hmc]
      exact h.memOk
    · unfold Aspace.Ok
      rw [har, hac]
      exact h.asOk
    · rw [hmc, hac, h.capacity]
    · rw [hmr, har]
      exact h.regions
    · rw [hmr, har]
      intro r hr s hs hp host owned hb i hi
      have hi' : i < s.size.toNat := by
        rw [← hp.size]
        exact hi
      have hbase : s.pa.toNat = r.gva.toNat := congrArg BitVec.toNat hp.base.symm
      by_cases hlo : gva.toNat ≤ r.gva.toNat + i
      · by_cases hhi : r.gva.toNat + i < gva.toNat + size.bytes
        · rw [Memory.write_inside h.memOk hw hr hi hlo hhi,
            Aspace.write_inside h.asOk hw' hs hb hi' (by omega) (by omega), hbase]
        · rw [Memory.write_other h.memOk hw hr (h.memOwn r hr) hi (by omega),
            Aspace.write_other h.asOk hw' hs (h.asOwn s hs) hb hi' (by omega)]
          exact h.bytes r hr s hs hp host owned hb i hi
      · rw [Memory.write_other h.memOk hw hr (h.memOwn r hr) hi (by omega),
          Aspace.write_other h.asOk hw' hs (h.asOwn s hs) hb hi' (by omega)]
        exact h.bytes r hr s hs hp host owned hb i hi
    · unfold Memory.NonAliased
      rw [hmr]
      exact h.memOwn
    · unfold Aspace.NonAliased
      rw [har]
      exact h.asOwn
  · have hm : (mem.write gva size value).2 = mem := Memory.call_failed (c := .write gva size value) hw
    have ha : (as.write gva size value).2 = as := by
      unfold Memory.write at hw
      unfold Aspace.write
      cases hr : mem.find gva (BitVec.ofNat 64 size.bytes) permWrite with
      | none => rw [h.find_none.mp hr]
      | some r =>
        rw [hr] at hw
        exact absurd rfl hw
    rw [hm, ha]
    exact h

/-! ## mapping -/

theorem any_forall₂ {α β : Type} {R : α → β → Prop} {p : α → Bool} {q : β → Bool} {l : List α}
    {l' : List β} (h : List.Forall₂ R l l') (hp : ∀ a b, R a b → p a = q b) :
    l.any p = l'.any q := by
  induction h with
  | nil => rfl
  | cons hab _ ih => rw [List.any_cons, List.any_cons, hp _ _ hab, ih]

theorem Same.checkMap (h : Same mem as) (gva size : W64) (perms : W32) :
    mem.checkMap gva size perms = as.mapCommon gva size perms := by
  unfold Memory.checkMap Aspace.mapCommon
  cases Memory.checkMapArgs gva size perms with
  | ok =>
    dsimp only
    unfold Aspace.checkRoom
    rw [any_forall₂ (q := fun s => Memory.rangesOverlap gva size s.pa s.size) h.regions
      (fun r s hrs => by rw [hrs.base, hrs.size])]
    have hlen := h.regions.length_eq
    have hroom := h.asOk.room
    have hcap := h.capacity
    by_cases hfull : as.regions.length = as.capacity
    · rw [if_pos (show mem.regions.length ≥ mem.capacity by omega), if_pos hfull]
      split <;> rfl
    · rw [if_neg (show ¬ mem.regions.length ≥ mem.capacity by omega), if_neg hfull]
  | _ => rfl

end

/-- map RAM and fill it through `host_out`, as the caller does -/
def Aspace.mapRamImage (as : Aspace δ) (block : Option Nat) (pa size : W64) (perms : W32)
    (contents : List (BitVec 8)) : Status × Aspace δ :=
  match as.mapRam block pa size perms, block with
  | (.ok, as), some host =>
    (.ok, { as with
      heap := fun i =>
        if host ≤ i ∧ i < host + contents.length then contents.getD (i - host) 0 else as.heap i })
  | p, _ => p

/-- one request to both providers; the blocks are what their allocators answer -/
structure Request where
  gva : W64
  size : W64
  perms : W32
  contents : List (BitVec 8)
  memBlock : Option Nat
  asBlock : Option Nat

/-- the contents fit, and the allocators answer alike, each with memory that backs no region -/
structure Request.Fits (q : Request) (mem : Memory) (as : Aspace δ) : Prop where
  contents : q.contents.length ≤ q.size.toNat
  alike : q.memBlock.isSome = q.asBlock.isSome
  memFresh : ∀ b ∈ q.memBlock, ∀ r ∈ mem.regions, Span.Apart ⟨b, q.size.toNat⟩ r.window
  asFresh : ∀ b ∈ q.asBlock, ∀ s ∈ as.regions, ∀ w ∈ s.window, Span.Apart ⟨b, q.size.toNat⟩ w

def Request.toMemory (q : Request) (mem : Memory) : Status × Memory :=
  mem.mapImage q.memBlock q.gva q.size q.perms q.contents

def Request.toAspace (q : Request) (as : Aspace δ) : Status × Aspace δ :=
  as.mapRamImage q.asBlock q.gva q.size q.perms q.contents

section

variable {mem : Memory} {as : Aspace δ}

theorem Same.snoc (h : Same mem as) {gva size : W64} {perms : W32}
    (hc : mem.checkMap gva size perms = .ok) {b b' : Nat} {heap heap' : Nat → BitVec 8}
    (hfresh : ∀ r ∈ mem.regions, Span.Apart ⟨b, size.toNat⟩ r.window)
    (hfresh' : ∀ s ∈ as.regions, ∀ w ∈ s.window, Span.Apart ⟨b', size.toNat⟩ w)
    (hold : ∀ i, i < b ∨ b + size.toNat ≤ i → heap i = mem.heap i)
    (hold' : ∀ i, i < b' ∨ b' + size.toNat ≤ i → heap' i = as.heap i)
    (hnew : ∀ i < size.toNat, heap (b + i) = heap' (b' + i)) :
    Same { mem with
        regions := mem.regions ++ [⟨gva, size, perms, b, true⟩]
        heap := heap }
      { as with
        regions := as.regions ++ [⟨gva, size, perms, .ram b' true⟩]
        heap := heap' } := by
  have hc' : as.mapCommon gva size perms = .ok := (h.checkMap gva size perms).symm.trans hc
  obtain ⟨-, hpos, -, -, hap⟩ := Memory.checkMap_ok hc
  obtain ⟨-, -, -, -, hap'⟩ := Aspace.mapCommon_ok hc'
  have hbase : ∀ r ∈ mem.regions, r.gva ≠ gva := by
    rintro r hr rfl
    have h0 := h.memOk.nonempty r hr
    have := hap r hr
    unfold Span.Apart Region.span at this
    unfold Region.span at h0
    dsimp only at this h0
    omega
  have hbase' : ∀ s ∈ as.regions, s.pa ≠ gva := by
    rintro s hs rfl
    have h0 := h.asOk.nonempty s hs
    have := hap' s hs
    unfold Span.Apart AspaceRegion.span at this
    unfold AspaceRegion.span at h0
    dsimp only at this h0
    omega
  refine ⟨h.memOk.snoc hc b true, h.asOk.snoc hc' _, h.capacity, ?_, ?_, ?_, ?_⟩
  · refine List.rel_append h.regions (.cons ⟨rfl, rfl, rfl, b', true, rfl⟩ .nil)
  · intro r hr s hs hp host owned hb i hi
    rcases List.mem_append.mp hr with hr | hr
    · rcases List.mem_append.mp hs with hs | hs
      · have hw : (⟨host, s.size.toNat⟩ : Span) ∈ s.window := by
          unfold AspaceRegion.window
          rw [hb]
          rfl
        have h1 : b + size.toNat ≤ r.host ∨ r.host + r.size.toNat ≤ b := hfresh r hr
        have h2 : b' + size.toNat ≤ host ∨ host + s.size.toNat ≤ b' := hfresh' s hs _ hw
        have h3 : s.size.toNat = r.size.toNat := congrArg BitVec.toNat hp.size.symm
        show heap (r.host + i) = heap' (host + i)
        rw [hold _ (by omega), hold' _ (by omega)]
        exact h.bytes r hr s hs hp host owned hb i hi
      · rw [List.mem_singleton.mp hs] at hp
        exact absurd hp.base (hbase r hr)
    · rcases List.mem_append.mp hs with hs | hs
      · rw [List.mem_singleton.mp hr] at hp
        exact absurd hp.base.symm (hbase' s hs)
      · rw [List.mem_singleton.mp hs] at hb
        rw [List.mem_singleton.mp hr] at hi ⊢
        cases hb
        exact hnew i hi
  · intro r hr s hs hne
    rcases List.mem_append.mp hr with hr | hr
    · rcases List.mem_append.mp hs with hs | hs
      · exact h.memOwn r hr s hs hne
      · rw [List.mem_singleton.mp hs]
        exact (hfresh r hr).symm
    · rcases List.mem_append.mp hs with hs | hs
      · rw [List.mem_singleton.mp hr]
        exact hfresh s hs
      · rw [List.mem_singleton.mp hr, List.mem_singleton.mp hs] at hne
        exact absurd rfl hne
  · intro r hr s hs hne w hw u hu
    rcases List.mem_append.mp hr with hr | hr
    · rcases List.mem_append.mp hs with hs | hs
      · exact h.asOwn r hr s hs hne w hw u hu
      · rw [List.mem_singleton.mp hs] at hu
        cases hu
        exact (hfresh' r hr w hw).symm
    · rcases List.mem_append.mp hs with hs | hs
      · rw [List.mem_singleton.mp hr] at hw
        cases hw
        exact hfresh' s hs u hu
      · rw [List.mem_singleton.mp hr, List.mem_singleton.mp hs] at hne
        exact absurd rfl hne

theorem Same.map (h : Same mem as) {q : Request} (hq : q.Fits mem as) :
    (q.toMemory mem).1 = (q.toAspace as).1 ∧ Same (q.toMemory mem).2 (q.toAspace as).2 := by
  have hcheck := h.checkMap q.gva q.size q.perms
  unfold Request.toMemory Request.toAspace Memory.mapImage Aspace.mapRamImage Aspace.mapRam
  rw [← hcheck]
  cases hc : mem.checkMap q.gva q.size q.perms with
  | ok =>
    dsimp only
    rw [if_neg (by have := hq.contents; omega)]
    have halike := hq.alike
    have hfresh := hq.memFresh
    have hfresh' := hq.asFresh
    cases hb : q.memBlock with
    | none =>
      cases hb' : q.asBlock with
      | none => exact ⟨rfl, h⟩
      | some b' =>
        rw [hb, hb'] at halike
        cases halike
    | some b =>
      cases hb' : q.asBlock with
      | none =>
        rw [hb, hb'] at halike
        cases halike
      | some b' =>
        refine ⟨rfl, h.snoc hc (hfresh b hb) (hfresh' b' hb') ?_ ?_ ?_⟩
        · intro i hi
          rw [if_neg (by omega)]
        · intro i hi
          have := hq.contents
          dsimp only
          rw [if_neg (by omega), if_neg (by omega)]
        · intro i hi
          dsimp only
          rw [if_pos (by omega), Nat.add_sub_cancel_left, Nat.add_sub_cancel_left]
          by_cases hin : i < q.contents.length
          · rw [if_pos (by omega)]
          · rw [if_neg (by omega), if_pos (by omega), List.getD_eq_getElem?_getD,
              List.getElem?_eq_none (by omega)]
            rfl
  | _ => exact ⟨rfl, h⟩

end

/-! ## histories -/

/-- an access over the bus view -/
inductive BusOp where
  | fetch32 (pa : W64)
  | read (pa : W64) (size : MemSize) (sx : Bool)
  | write (pa : W64) (size : MemSize) (value : W64)
  | validate (pa size : W64) (perms : W32)

/-- an access through a view: status, value and the provider after it -/
def BusOp.run {σ : Type} (ops : Memops σ) (s : σ) : BusOp → Status × W64 × σ
  | .fetch32 pa => ((ops.fetch32 s pa).1, (ops.fetch32 s pa).2.1.setWidth 64, (ops.fetch32 s pa).2.2)
  | .read pa size sx => ops.read s pa size sx
  | .write pa size value => ((ops.write s pa size value).1, 0, (ops.write s pa size value).2)
  | .validate pa size perms =>
    ((ops.validate s pa size perms).1, 0, (ops.validate s pa size perms).2)

/-- accesses are of one, two, four or eight bytes -/
def BusOp.Sized : BusOp → Prop
  | .read _ size _ => size.bytes ≤ 8
  | .write _ size _ => size.bytes ≤ 8
  | _ => True

/-- a fetch from an address that is no multiple of four -/
def BusOp.Misfetch : BusOp → Prop
  | .fetch32 pa => pa.toNat % 4 ≠ 0
  | _ => False

/-- an access that the executor cannot tell apart: one status, one value, one effect -/
structure Agrees (mem : Memory) (as : Aspace δ) (op : BusOp) : Prop where
  status : (op.run Memory.memops mem).1 = (op.run Aspace.memops as).1
  value : (op.run Memory.memops mem).2.1 = (op.run Aspace.memops as).2.1
  effect : Same (op.run Memory.memops mem).2.2 (op.run Aspace.memops as).2.2

/-- a history on both sides: requests and accesses -/
inductive BothMove : Memory × Aspace δ → Request ⊕ BusOp → Memory × Aspace δ → Prop where
  | map (mem : Memory) (as : Aspace δ) (q : Request) (hq : q.Fits mem as) :
      BothMove (mem, as) (.inl q) ((q.toMemory mem).2, (q.toAspace as).2)
  | access (mem : Memory) (as : Aspace δ) (op : BusOp) (hop : op.Sized) :
      BothMove (mem, as) (.inr op) ((op.run Memory.memops mem).2.2, (op.run Aspace.memops as).2.2)

section

variable {mem : Memory} {as : Aspace δ}

theorem Same.effect (h : Same mem as) {op : BusOp} (hop : op.Sized) :
    Same (op.run Memory.memops mem).2.2 (op.run Aspace.memops as).2.2 := by
  cases op with
  | fetch32 pa => exact h
  | read pa size sx =>
    show Same mem (as.read pa size sx).2.2
    rw [h.read pa hop sx]
    exact h
  | write pa size value => exact h.write pa size value
  | validate pa size perms => exact h

/-- the accesses on which the providers agree: all but the misaligned fetches -/
theorem Same.agrees (h : Same mem as) {op : BusOp} (hop : op.Sized) :
    Agrees mem as op ↔ ¬ op.Misfetch := by
  constructor
  · intro ha hm
    cases op with
    | fetch32 pa =>
      change pa.toNat % 4 ≠ 0 at hm
      have h1 : (mem.fetch32 pa).1 = .fault := by
        unfold Memory.fetch32
        rw [if_pos]
        intro h0
        apply hm
        have := congrArg BitVec.toNat h0
        rwa [BitVec.toNat_and, show (3 : W64).toNat = 2 ^ 2 - 1 from rfl,
          Nat.and_two_pow_sub_one_eq_mod] at this
      have h2 : (as.fetch32 pa).1 = .invalidArg := by
        unfold Aspace.fetch32
        rw [if_pos hm]
      have := ha.status
      change (mem.fetch32 pa).1 = (as.fetch32 pa).1 at this
      rw [h1, h2] at this
      cases this
    | _ => exact hm
  · intro hm
    refine ⟨?_, ?_, h.effect hop⟩
    · cases op with
      | fetch32 pa => exact congrArg Prod.fst (h.fetch32 (not_not.mp hm))
      | read pa size sx => exact (congrArg Prod.fst (h.read pa hop sx)).symm
      | write pa size value => exact h.write_status pa size value
      | validate pa size perms => exact h.validate pa size perms
    · cases op with
      | fetch32 pa =>
        exact congrArg (fun p => p.2.setWidth 64) (h.fetch32 (not_not.mp hm))
      | read pa size sx => exact (congrArg (fun p => p.2.1) (h.read pa hop sx)).symm
      | write pa size value => rfl
      | validate pa size perms => rfl

theorem same_init {heap heap' : Nat → BitVec 8} {dev : δ} {table : Bool} {capacity : Nat}
    (hm : Memory.init heap table capacity = .ok mem)
    (ha : Aspace.init heap' dev table capacity = .ok as) : Same mem as := by
  unfold Memory.init at hm
  unfold Aspace.init at ha
  by_cases hc : capacity = 0
  · rw [if_pos hc] at hm
    cases hm
  · rw [if_neg hc] at hm ha
    cases table with
    | false => cases hm
    | true =>
      cases hm
      cases ha
      exact ⟨.nil _, .nil _, rfl, .nil, fun r hr => absurd hr List.not_mem_nil,
        fun r hr => absurd hr List.not_mem_nil, fun r hr => absurd hr List.not_mem_nil⟩

theorem same_run {l : List (Request ⊕ BusOp)} {p p' : Memory × Aspace δ}
    (hrun : Lts.Run BothMove p l p') (h : Same p.1 p.2) : Same p'.1 p'.2 := by
  refine hrun.invariant (A := fun _ => True) (I := fun p => Same p.1 p.2) ?_
    (fun _ _ => trivial) h
  rintro s i s' hs - hstep
  cases hstep with
  | map mem as q hq => exact (Same.map hs hq).2
  | access mem as op hop => exact Same.effect hs hop

end

/-- **one contract**: after every history of requests and accesses, a further request is answered
alike, and an access agrees in status, value and effect exactly when it is no misaligned fetch -/
theorem providers_agree (δ : Type) (heap heap' : Nat → BitVec 8) (dev : δ) (table : Bool)
    (capacity : Nat) (mem₀ mem : Memory) (as₀ as : Aspace δ)
    (hm : Memory.init heap table capacity = .ok mem₀)
    (ha : Aspace.init heap' dev table capacity = .ok as₀) (l : List (Request ⊕ BusOp))
    (hrun : Lts.Run BothMove (mem₀, as₀) l (mem, as)) :
    (∀ q : Request, q.Fits mem as → (q.toMemory mem).1 = (q.toAspace as).1) ∧
      ∀ op : BusOp, op.Sized → (Agrees mem as op ↔ ¬ op.Misfetch) := by
  have h : Same mem as := same_run hrun (same_init hm ha)
  exact ⟨fun q hq => (h.map hq).1, fun op hop => h.agrees hop⟩

/-- one page of RAM, asked for at `0x1000` -/
def pageOf (code : List (BitVec 8)) : Request := ⟨0x1000, 0x1000, 7, code, some 0, some 64⟩

def emptyAspace : Aspace Unit := ⟨[], 1, fun _ => 0, ()⟩

theorem pageOf_run {code : List (BitVec 8)} (h : code.length ≤ 0x1000) :
    Lts.Run BothMove ((⟨[], 1, fun _ => 0⟩ : Memory), emptyAspace) [.inl (pageOf code)]
      (((pageOf code).toMemory ⟨[], 1, fun _ => 0⟩).2, ((pageOf code).toAspace emptyAspace).2) := by
  refine .cons (.map _ _ (pageOf code) ⟨h, rfl, ?_, ?_⟩) (.nil _)
  · intro b _ r hr
    exact absurd hr List.not_mem_nil
  · intro b _ s hs
    exact absurd hs List.not_mem_nil

/-- a page that starts with a `NOP`, fetched on either side -/
theorem providers_agree_page :
    Agrees ((pageOf [0x1F, 0x20, 0x03, 0xD5]).toMemory ⟨[], 1, fun _ => 0⟩).2 ((pageOf [0x1F, 0x20, 0x03, 0xD5]).toAspace emptyAspace).2
      (.fetch32 0x1000) := by
  refine ((providers_agree Unit (fun _ => 0) (fun _ => 0) () true 1 ⟨[], 1, fun _ => 0⟩ _ emptyAspace
    _ rfl rfl [.inl (pageOf [0x1F, 0x20, 0x03, 0xD5])] (pageOf_run (by decide))).2 (.fetch32 0x1000) trivial).mpr ?_
  intro h
  exact h (by decide)

/-- a misaligned fetch is a fault on one side and an invalid argument on the other -/
theorem misfetch_differs :
    (((pageOf [0x1F, 0x20, 0x03, 0xD5]).toMemory ⟨[], 1, fun _ => 0⟩).2.fetch32 0x1002).1 = .fault ∧
      (((pageOf [0x1F, 0x20, 0x03, 0xD5]).toAspace emptyAspace).2.fetch32 0x1002).1 = .invalidArg ∧
      ¬ Agrees ((pageOf [0x1F, 0x20, 0x03, 0xD5]).toMemory ⟨[], 1, fun _ => 0⟩).2 ((pageOf [0x1F, 0x20, 0x03, 0xD5]).toAspace emptyAspace).2
        (.fetch32 0x1002) := by
  refine ⟨by decide, by decide, ?_⟩
  intro h
  have := h.status
  revert this
  decide

end Oemu
