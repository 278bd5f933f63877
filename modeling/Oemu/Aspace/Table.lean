import Oemu.Memory.Table

/-!
# The region table of the address space

The table of the physical bus follows that of the flat memory, with its own containment test and with
windows that are answered by devices.  `region_tables` states the rules of both.
-/

namespace Oemu

variable {δ : Type}

def AspaceRegion.span (r : AspaceRegion δ) : Span := ⟨r.pa.toNat, r.size.toNat⟩

/-- the bytes behind a region, if it has any -/
def AspaceRegion.window (r : AspaceRegion δ) : Option Span :=
  match r.backing with
  | .ram host _ => some ⟨host, r.size.toNat⟩
  | .device _ => none

namespace Aspace

/-- the table is in order -/
def Ok (as : Aspace δ) : Prop :=
  Span.Table AspaceRegion.span (fun r => r.perms ≠ 0) (2 ^ 64) as.capacity as.regions

theorem ok_init {heap : Nat → BitVec 8} {dev : δ} {table : Bool} {capacity : Nat} {as : Aspace δ}
    (h : init heap dev table capacity = .ok as) : as.Ok ∧ as.regions = [] := by
  unfold init at h
  split at h
  · cases h
  · split at h
    · cases h
      exact ⟨.nil _, rfl⟩
    · cases h

theorem mapCommon_ok {as : Aspace δ} {pa size : W64} {perms : W32}
    (h : as.mapCommon pa size perms = .ok) :
    as.regions.length ≠ as.capacity ∧ 0 < size.toNat ∧ perms ≠ 0 ∧
      pa.toNat + size.toNat ≤ 2 ^ 64 ∧
      ∀ s ∈ as.regions, Span.Apart ⟨pa.toNat, size.toNat⟩ s.span := by
  unfold mapCommon at h
  cases hargs : Memory.checkMapArgs pa size perms with
  | ok =>
    rw [hargs] at h
    dsimp only at h
    unfold checkRoom at h
    split at h
    · cases h
    · rename_i hany
      split at h
      · cases h
      · rename_i hroom
        obtain ⟨hpos, hp, htop⟩ := checkMapArgs_ok hargs
        refine ⟨hroom, hpos, hp, htop, ?_⟩
        intro s hs
        refine rangesOverlap_apart ?_
        rw [Bool.not_eq_true, List.any_eq_false] at hany
        exact Bool.not_eq_true _ ▸ hany s hs
  | _ =>
    rw [hargs] at h
    cases h

theorem Ok.snoc {as : Aspace δ} (hok : as.Ok) {pa size : W64} {perms : W32}
    (h : as.mapCommon pa size perms = .ok) (b : Backing δ) :
    Span.Table AspaceRegion.span (fun r => r.perms ≠ 0) (2 ^ 64) as.capacity
      (as.regions ++ [⟨pa, size, perms, b⟩]) := by
  obtain ⟨hroom, hpos, hp, htop, hap⟩ := mapCommon_ok h
  exact Span.Table.snoc hok (lt_of_le_of_ne hok.room hroom) hp hpos htop hap

theorem holds_iff {r : AspaceRegion δ} (hr : 0 < r.size.toNat) {pa size : W64} {perms : W32}
    (hs : size ≠ 0) :
    holds r pa size perms = true ↔
      r.perms &&& perms = perms ∧ r.span.Covers pa.toNat size.toNat := by
  have hpos := W64.toNat_pos hs
  have h1 : (r.size - 1).toNat = r.size.toNat - 1 :=
    BitVec.toNat_sub_of_le (by rw [BitVec.le_def]; exact hr)
  unfold holds Span.Covers AspaceRegion.span
  dsimp only
  rw [Bool.and_eq_true, Bool.and_eq_true, Bool.and_eq_true, decide_eq_true_eq, decide_eq_true_eq,
    decide_eq_true_eq, beq_iff_eq, ge_iff_le, ge_iff_le, BitVec.le_def, BitVec.le_def,
    BitVec.le_def, h1]
  by_cases hle : r.pa.toNat ≤ pa.toNat
  · have h2 : (pa - r.pa).toNat = pa.toNat - r.pa.toNat :=
      BitVec.toNat_sub_of_le (by rw [BitVec.le_def]; exact hle)
    rw [h2]
    by_cases hin : pa.toNat - r.pa.toNat ≤ r.size.toNat - 1
    · have h3 : (r.size - (pa - r.pa)).toNat = r.size.toNat - (pa.toNat - r.pa.toNat) := by
        rw [BitVec.toNat_sub_of_le (by rw [BitVec.le_def, h2]; omega), h2]
      rw [h3]
      constructor
      · rintro ⟨⟨⟨-, -⟩, hsz⟩, hp⟩
        exact ⟨hp, hle, by omega⟩
      · rintro ⟨hp, -, hsz⟩
        exact ⟨⟨⟨hle, hin⟩, by omega⟩, hp⟩
    · constructor
      · rintro ⟨⟨⟨-, h⟩, -⟩, -⟩
        exact absurd h hin
      · rintro ⟨-, -, h⟩
        omega
  · constructor
    · rintro ⟨⟨⟨h, -⟩, -⟩, -⟩
      exact absurd h hle
    · rintro ⟨-, h, -⟩
      exact absurd h hle

theorem find_iff {as : Aspace δ} (hok : as.Ok) (pa size : W64) (perms : W32) (r : AspaceRegion δ) :
    as.find pa size perms = some r ↔
      size ≠ 0 ∧ r ∈ as.regions ∧ r.perms &&& perms = perms ∧
        r.span.Covers pa.toNat size.toNat := by
  unfold find
  by_cases hs : size = 0
  · rw [if_pos hs]
    constructor
    · intro h
      cases h
    · rintro ⟨h, -⟩
      exact absurd hs h
  · rw [if_neg hs, Span.Table.find hok (Q := fun r => r.perms &&& perms = perms)
      (W64.toNat_pos hs)]
    · constructor
      · intro h
        exact ⟨hs, h⟩
      · intro h
        exact h.2
    · intro r hr
      exact holds_iff (hok.nonempty r hr) hs

theorem find_sub {as : Aspace δ} (hok : as.Ok) {pa size : W64} {perms : W32} {r : AspaceRegion δ}
    (h : as.find pa size perms = some r) (off len : W64) (hlen : len ≠ 0)
    (hle : off.toNat + len.toNat ≤ size.toNat) :
    as.find (pa + off) len perms = some r ∧ (pa + off).toNat = pa.toNat + off.toNat := by
  obtain ⟨-, hr, hp, hcov⟩ := (find_iff hok _ _ _ _).mp h
  have hpos := W64.toNat_pos hlen
  have htop : r.pa.toNat + r.size.toNat ≤ 2 ^ 64 := hok.below r hr
  have hend : pa.toNat + size.toNat ≤ r.pa.toNat + r.size.toNat := hcov.2
  have hadd : (pa + off).toNat = pa.toNat + off.toNat := by
    rw [BitVec.toNat_add]
    exact Nat.mod_eq_of_lt (by omega)
  refine ⟨(find_iff hok _ _ _ _).mpr ⟨hlen, hr, hp, ?_⟩, hadd⟩
  rw [hadd]
  exact hcov.sub (by omega) (by omega)

/-! ### calls -/

/-- the calls that map or write.  A block is what the allocator answers, a null pointer is `none` -/
inductive Call (δ : Type) where
  | mapRam (block : Option Nat) (pa size : W64) (perms : W32)
  | mapRamAlias (pa : W64) (host : Option Nat) (size : W64) (perms : W32)
  | attachDevice (pa size : W64) (ops : Option (DeviceOps δ))
  | write (pa : W64) (size : MemSize) (value : W64)

def call (as : Aspace δ) : Call δ → Status × Aspace δ
  | .mapRam block pa size perms => as.mapRam block pa size perms
  | .mapRamAlias pa (some host) size perms => as.mapRamAlias pa host size perms
  | .mapRamAlias _ none _ _ => (.invalidArg, as)
  | .attachDevice pa size (some ops) => as.attachDevice pa size ops
  | .attachDevice _ _ none => (.invalidArg, as)
  | .write pa size value => as.write pa size value

/-- what a call can do: nothing; a change of the devices, which may refuse; a change of bytes; or one
new region that passed the checks -/
inductive Called (as : Aspace δ) : Status → Aspace δ → Prop where
  | same (st : Status) : Called as st as
  | device (st : Status) (dev : δ) : Called as st { as with dev := dev }
  | bytes (heap : Nat → BitVec 8) : Called as .ok { as with heap := heap }
  | mapped (pa size : W64) (perms : W32) (b : Backing δ) (heap : Nat → BitVec 8)
      (h : as.mapCommon pa size perms = .ok) :
      Called as .ok { as with regions := as.regions ++ [⟨pa, size, perms, b⟩], heap := heap }

theorem call_called (as : Aspace δ) (c : Call δ) : Called as (as.call c).1 (as.call c).2 := by
  cases c with
  | mapRam block pa size perms =>
    show Called as (as.mapRam block pa size perms).1 (as.mapRam block pa size perms).2
    unfold mapRam
    cases h : as.mapCommon pa size perms with
    | ok =>
      cases block with
      | none => exact .same _
      | some host => exact .mapped pa size perms (.ram host true) _ h
    | _ => exact .same _
  | mapRamAlias pa host size perms =>
    cases host with
    | none => exact .same _
    | some host =>
      show Called as (as.mapRamAlias pa host size perms).1 (as.mapRamAlias pa host size perms).2
      unfold mapRamAlias
      cases h : as.mapCommon pa size perms with
      | ok => exact .mapped pa size perms (.ram host false) as.heap h
      | _ => exact .same _
  | attachDevice pa size ops =>
    cases ops with
    | none => exact .same _
    | some ops =>
      show Called as (as.attachDevice pa size ops).1 (as.attachDevice pa size ops).2
      unfold attachDevice
      split
      · exact .same _
      · cases h : as.mapCommon pa size (permRead ||| permWrite) with
        | ok => exact .mapped pa size (permRead ||| permWrite) (.device ops) as.heap h
        | _ => exact .same _
  | write pa size value =>
    show Called as (as.write pa size value).1 (as.write pa size value).2
    unfold write
    cases as.find pa (BitVec.ofNat 64 size.bytes) permWrite with
    | none => exact .same _
    | some r =>
      dsimp only
      cases r.backing with
      | ram host owned => exact .bytes _
      | device ops =>
        dsimp only
        split
        · exact .same _
        · exact .device _ _

theorem Ok.call {as : Aspace δ} (hok : as.Ok) (c : Call δ) : (as.call c).2.Ok := by
  have hc := call_called as c
  generalize as.call c = p at hc
  obtain ⟨st, as'⟩ := p
  cases hc with
  | same st => exact hok
  | device st dev => exact hok
  | bytes heap => exact hok
  | mapped pa size perms b heap h => exact hok.snoc h b

theorem call_failed {as : Aspace δ} {c : Call δ} (h : (as.call c).1 ≠ .ok) :
    (as.call c).2.ram = as.ram := by
  have hc := call_called as c
  generalize as.call c = p at h hc
  obtain ⟨st, as'⟩ := p
  cases hc with
  | same st => rfl
  | device st dev => rfl
  | bytes heap => exact absurd rfl h
  | mapped => exact absurd rfl h

/-! ### bytes -/

/-- no other region is backed by the same bytes -/
def NonAliased (as : Aspace δ) (r : AspaceRegion δ) : Prop :=
  ∀ s ∈ as.regions, s ≠ r → ∀ w ∈ r.window, ∀ u ∈ s.window, w.Apart u

theorem find_same {as : Aspace δ} (hok : as.Ok) {pa size : W64} {p q : W32} {r s : AspaceRegion δ}
    (hr : as.find pa size p = some r) (hs : as.find pa size q = some s) : r = s := by
  obtain ⟨h0, hr, -, hcr⟩ := (find_iff hok _ _ _ _).mp hr
  obtain ⟨-, hs, -, hcs⟩ := (find_iff hok _ _ _ _).mp hs
  exact Span.Table.unique hok (W64.toNat_pos h0) hr hs hcr hcs

theorem write_ok {as : Aspace δ} {pa value : W64} {size : MemSize}
    (h : (as.write pa size value).1 = .ok) :
    ∃ r, as.find pa (BitVec.ofNat 64 size.bytes) permWrite = some r ∧
      ((∃ host owned, r.backing = .ram host owned ∧ (as.write pa size value).2 =
        { as with heap := assemble as.heap (host + (pa - r.pa).toNat) size.bytes value }) ∨
      ∃ ops, r.backing = .device ops ∧ (as.write pa size value).2.heap = as.heap) := by
  unfold write at h ⊢
  cases hf : as.find pa (BitVec.ofNat 64 size.bytes) permWrite with
  | none =>
    rw [hf] at h
    cases h
  | some r =>
    refine ⟨r, rfl, ?_⟩
    dsimp only
    cases hb : r.backing with
    | ram host owned => exact .inl ⟨host, owned, rfl, rfl⟩
    | device ops =>
      refine .inr ⟨ops, rfl, ?_⟩
      dsimp only
      split <;> rfl

theorem read_ok {as : Aspace δ} {pa : W64} {size : MemSize} {sx : Bool}
    (h : (as.read pa size sx).1 = .ok) :
    ∃ r, as.find pa (BitVec.ofNat 64 size.bytes) permRead = some r := by
  unfold read at h
  cases hf : as.find pa (BitVec.ofNat 64 size.bytes) permRead with
  | none =>
    rw [hf] at h
    cases h
  | some r => exact ⟨r, rfl⟩

theorem read_loaded {as : Aspace δ} {pa : W64} {size : MemSize} (h8 : size.bytes ≤ 8) (sx : Bool)
    {r : AspaceRegion δ} (h : as.find pa (BitVec.ofNat 64 size.bytes) permRead = some r) {host : Nat}
    {owned : Bool} (hb : r.backing = .ram host owned) :
    as.read pa size sx = (.ok, loaded
      (disassemble (fun i => as.heap (host + (pa - r.pa).toNat + i)) size.bytes) size.bytes sx,
      as) := by
  unfold read
  rw [h]
  dsimp only
  rw [hb]
  dsimp only
  rw [extend_loaded _ size.bytes_pos h8]

theorem write_read {as : Aspace δ} (hok : as.Ok) {pa value : W64} {size : MemSize} {sx : Bool}
    (h8 : size.bytes ≤ 8) (hw : (as.write pa size value).1 = .ok)
    (hr : (as.read pa size sx).1 = .ok) {r : AspaceRegion δ}
    (hf : as.find pa (BitVec.ofNat 64 size.bytes) permWrite = some r) {host : Nat} {owned : Bool}
    (hb : r.backing = .ram host owned) :
    (as.write pa size value).2.read pa size sx =
      (.ok, loaded value size.bytes sx, (as.write pa size value).2) := by
  obtain ⟨r', hfw, hwr⟩ := write_ok hw
  cases find_same hok hfw hf
  obtain ⟨s, hfr⟩ := read_ok hr
  cases find_same hok hfr hf
  rcases hwr with ⟨host', owned', hb', hmem⟩ | ⟨ops, hb', -⟩
  · rw [hb] at hb'
    cases hb'
    have hfind : (as.write pa size value).2.find pa (BitVec.ofNat 64 size.bytes) permRead =
        some r := by
      rw [hmem]
      exact hfr
    rw [read_loaded h8 sx hfind hb, hmem]
    dsimp only
    rw [disassemble_assemble, loaded_lowBytes]
  · rw [hb] at hb'
    cases hb'

theorem write_inside {as : Aspace δ} (hok : as.Ok) {pa value : W64} {size : MemSize}
    (hw : (as.write pa size value).1 = .ok) {s : AspaceRegion δ} (hs : s ∈ as.regions) {host : Nat}
    {owned : Bool} (hb : s.backing = .ram host owned) {i : Nat} (hi : i < s.size.toNat)
    (hlo : pa.toNat ≤ s.pa.toNat + i) (hhi : s.pa.toNat + i < pa.toNat + size.bytes) :
    (as.write pa size value).2.heap (host + i) =
      (value >>> (8 * (s.pa.toNat + i - pa.toNat))).setWidth 8 := by
  obtain ⟨r, hf, hwr⟩ := write_ok hw
  obtain ⟨-, hr, -, hcov⟩ := (find_iff hok _ _ _ _).mp hf
  have hn : (BitVec.ofNat 64 size.bytes).toNat = size.bytes := size.toNat_bytes
  rw [hn] at hcov
  have hle : r.pa.toNat ≤ pa.toNat := hcov.1
  cases Span.Table.unique hok Nat.one_pos hr hs
    (hcov.sub hlo (show s.pa.toNat + i + 1 ≤ _ by omega))
    ⟨show s.pa.toNat ≤ _ by omega, show s.pa.toNat + i + 1 ≤ s.pa.toNat + s.size.toNat by omega⟩
  rcases hwr with ⟨host', owned', hb', hmem⟩ | ⟨ops, hb', -⟩
  · rw [hb] at hb'
    cases hb'
    have hoff : (pa - s.pa).toNat = pa.toNat - s.pa.toNat := BitVec.toNat_sub_of_le hle
    rw [hmem]
    dsimp only
    have hidx : host + i = host + (pa - s.pa).toNat + (s.pa.toNat + i - pa.toNat) := by omega
    rw [hidx, assemble_inside _ _ _ _ (by omega)]
  · rw [hb] at hb'
    cases hb'

/-- every other byte stays, unless another region is backed by the bytes written -/
theorem write_other {as : Aspace δ} (hok : as.Ok) {pa value : W64} {size : MemSize}
    (hw : (as.write pa size value).1 = .ok) {s : AspaceRegion δ} (hs : s ∈ as.regions)
    (hna : as.NonAliased s) {host : Nat} {owned : Bool} (hb : s.backing = .ram host owned) {i : Nat}
    (hi : i < s.size.toNat)
    (hout : s.pa.toNat + i < pa.toNat ∨ pa.toNat + size.bytes ≤ s.pa.toNat + i) :
    (as.write pa size value).2.heap (host + i) = as.heap (host + i) := by
  obtain ⟨r, hf, hwr⟩ := write_ok hw
  rcases hwr with ⟨host', owned', hb', hmem⟩ | ⟨ops, -, hmem⟩
  · obtain ⟨-, hr, -, hcov⟩ := (find_iff hok _ _ _ _).mp hf
    have hn : (BitVec.ofNat 64 size.bytes).toNat = size.bytes := size.toNat_bytes
    rw [hn] at hcov
    have hle : r.pa.toNat ≤ pa.toNat := hcov.1
    have hend : pa.toNat + size.bytes ≤ r.pa.toNat + r.size.toNat := hcov.2
    have hoff : (pa - r.pa).toNat = pa.toNat - r.pa.toNat := BitVec.toNat_sub_of_le hle
    rw [hmem]
    refine assemble_outside _ _ _ _ ?_
    rw [hoff]
    by_cases hrs : r = s
    · subst hrs
      rw [hb] at hb'
      cases hb'
      omega
    · have hws : (⟨host, s.size.toNat⟩ : Span) ∈ s.window := by
        unfold AspaceRegion.window
        rw [hb]
        rfl
      have hwr : (⟨host', r.size.toNat⟩ : Span) ∈ r.window := by
        unfold AspaceRegion.window
        rw [hb']
        rfl
      have hap : host + s.size.toNat ≤ host' ∨ host' + r.size.toNat ≤ host :=
        hna r hr hrs _ hws _ hwr
      omega
  · rw [hmem]

/-! ### the rules of a table -/

/-- the region contains the range, with the permissions -/
def Serves (r : AspaceRegion δ) (pa size : W64) (perms : W32) : Prop :=
  r.perms &&& perms = perms ∧ r.span.Covers pa.toNat size.toNat

structure Rules (as : Aspace δ) : Prop where
  ok : as.Ok
  failed : ∀ c, (as.call c).1 ≠ .ok → (as.call c).2.ram = as.ram
  found : ∀ pa size perms, size ≠ 0 →
    ((∃ r, as.find pa size perms = some r) ↔ ∃ r ∈ as.regions, Serves r pa size perms) ∧
      ∀ r, as.find pa size perms = some r →
        Serves r pa size perms ∧ ∀ s ∈ as.regions, Serves s pa size perms → s = r
  back : ∀ pa size sx value, size.bytes ≤ 8 → (as.write pa size value).1 = .ok →
    (as.read pa size sx).1 = .ok →
    ∀ r host owned, as.find pa (BitVec.ofNat 64 size.bytes) permWrite = some r →
      r.backing = .ram host owned →
      (as.write pa size value).2.read pa size sx =
        (.ok, loaded value size.bytes sx, (as.write pa size value).2)
  other : ∀ pa size value, (as.write pa size value).1 = .ok →
    ∀ s ∈ as.regions, as.NonAliased s → ∀ host owned, s.backing = .ram host owned →
      ∀ i < s.size.toNat,
        s.pa.toNat + i < pa.toNat ∨ pa.toNat + size.bytes ≤ s.pa.toNat + i →
        (as.write pa size value).2.heap (host + i) = as.heap (host + i)

theorem Ok.rules {as : Aspace δ} (hok : as.Ok) : as.Rules where
  ok := hok
  failed c h := call_failed h
  found pa size perms hs := by
    constructor
    · constructor
      · rintro ⟨r, h⟩
        obtain ⟨-, hr, hp, hc⟩ := (find_iff hok _ _ _ _).mp h
        exact ⟨r, hr, hp, hc⟩
      · rintro ⟨r, hr, hp, hc⟩
        exact ⟨r, (find_iff hok _ _ _ _).mpr ⟨hs, hr, hp, hc⟩⟩
    · intro r h
      obtain ⟨-, hr, hp, hc⟩ := (find_iff hok _ _ _ _).mp h
      refine ⟨⟨hp, hc⟩, ?_⟩
      rintro s hsm ⟨-, hcs⟩
      exact Span.Table.unique hok (W64.toNat_pos hs) hsm hr hcs hc
  back _ _ _ _ h8 hw hr _ _ _ hf hb := write_read hok h8 hw hr hf hb
  other _ _ _ hw _ hs hna _ _ hb _ hi hout := write_other hok hw hs hna hb hi hout

def Calls : Aspace δ → Call δ → Aspace δ → Prop := fun as c as' => (as.call c).2 = as'

theorem ok_calls {heap : Nat → BitVec 8} {dev : δ} {table : Bool} {capacity : Nat}
    {as₀ as : Aspace δ} {l : List (Call δ)} (h : init heap dev table capacity = .ok as₀)
    (hrun : Lts.Run Calls as₀ l as) : as.Ok := by
  refine hrun.invariant (A := fun _ => True) ?_ (fun _ _ => trivial) (ok_init h).1
  rintro s c s' hs - rfl
  exact hs.call c

end Aspace

/-! ## both providers -/

/-- **the region tables of both providers, after any history of calls**: in order, unchanged by what
fails, searched exactly, and backed by bytes that a write reaches and others keep -/
theorem region_tables (δ : Type) :
    (∀ (heap : Nat → BitVec 8) (table : Bool) (capacity : Nat) (mem₀ mem : Memory)
      (l : List Memory.Call), Memory.init heap table capacity = .ok mem₀ →
      Lts.Run Memory.Calls mem₀ l mem → mem.Rules) ∧
    ∀ (heap : Nat → BitVec 8) (dev : δ) (table : Bool) (capacity : Nat) (as₀ as : Aspace δ)
      (l : List (Aspace.Call δ)), Aspace.init heap dev table capacity = .ok as₀ →
      Lts.Run Aspace.Calls as₀ l as → as.Rules := by
  refine ⟨?_, ?_⟩
  · intro heap table capacity mem₀ mem l h hrun
    exact (Memory.ok_calls h hrun).rules
  · intro heap dev table capacity as₀ as l h hrun
    exact (Aspace.ok_calls h hrun).rules

/-- a table of two regions that abut, with a call in between that is refused -/
def twoCalls : List Memory.Call :=
  [.map (some 0) 0x1000 0x1000 7, .map (some 0x2000) 0x1800 0x1000 7,
    .map (some 0x3000) 0x2000 0x1000 permRead]

def twoRegions : Memory := twoCalls.foldl (fun m c => (m.call c).2) ⟨[], 2, fun _ => 0⟩

theorem region_tables_two :
    twoRegions.regions.map Region.gva = [0x1000, 0x2000] ∧ twoRegions.Rules := by
  refine ⟨by decide +kernel, ?_⟩
  exact (region_tables Unit).1 (fun _ => 0) true 2 ⟨[], 2, fun _ => 0⟩ twoRegions twoCalls rfl
    (.cons rfl (.cons rfl (.cons rfl (.nil _))))

/-- a table with one region, mapped by a history of one call -/
def oneRegion (perms : W32) : Memory :=
  ((⟨[], 1, fun _ => 0⟩ : Memory).call (.map (some 0) 0x1000 0x1000 perms)).2

/-- a region that may only be written answers no read, and no region answers an empty range -/
theorem write_only_region :
    Lts.Run Memory.Calls ⟨[], 1, fun _ => 0⟩ [.map (some 0) 0x1000 0x1000 permWrite]
        (oneRegion permWrite) ∧
      ((oneRegion permWrite).write 0x1000 .byte 0x42).1 = .ok ∧
      (((oneRegion permWrite).write 0x1000 .byte 0x42).2.read 0x1000 .byte false).1 = .fault ∧
      (oneRegion permWrite).find 0x1000 0 permWrite = none ∧
      ∃ r ∈ (oneRegion permWrite).regions, Memory.Serves r 0x1000 0 permWrite := by
  refine ⟨.cons rfl (.nil _), by decide, by decide, by decide, ?_⟩
  refine ⟨⟨0x1000, 0x1000, permWrite, 0, true⟩, by decide, by decide, by decide, by decide⟩

end Oemu
