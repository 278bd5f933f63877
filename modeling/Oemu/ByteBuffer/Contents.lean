import Oemu.ByteBuffer
import Oemu.Lib.Run

/-!
# What the byte buffer holds

The growth loop ends for every pair of sizes, with room for what was asked.  `Sound` is what ties the
fields to the block, and every call on a sound buffer stays inside the block, keeps the buffer sound,
and either does what it says or leaves the buffer as it was.

* `growCapacity_ends`     the loop of the growth policy returns;
* `growCapacity_covers`   what it returns is enough;
* `grow_spec`, `append_spec`, `cstr_spec`   one rule for each kind of call;
* `calls_hold`            what a history of calls leaves in the buffer.
-/

namespace Oemu.ByteBuffer

open Buffer

/-! ## the growth policy -/

theorem growTurn_shrinks (required : W64) :
    Consume.Shrinks (growTurn required) (shortfall required) := by
  intro cap cap' h
  unfold growTurn at h
  by_cases hlt : cap < required
  · rw [if_pos hlt] at h
    dsimp only at h
    by_cases hwrap : cap > BitVec.allOnes 64 - cap / 2
    · rw [if_pos hwrap] at h
      cases h
    · rw [if_neg hwrap] at h
      by_cases hstill : cap + cap / 2 ≤ cap
      · rw [if_pos hstill] at h
        cases h
      · rw [if_neg hstill] at h
        obtain rfl : cap + cap / 2 = cap' := Sum.inr.inj h
        have h1 := BitVec.lt_def.mp hlt
        have h2 := BitVec.lt_def.mp (BitVec.not_le.mp hstill)
        show required.toNat - (cap + cap / 2).toNat < required.toNat - cap.toNat
        omega
  · rw [if_neg hlt] at h
    cases h

theorem growTurn_covers {required cap cap' : W64} (h : growTurn required cap = .inl cap') :
    required ≤ cap' := by
  unfold growTurn at h
  by_cases hlt : cap < required
  · rw [if_pos hlt] at h
    dsimp only at h
    by_cases hwrap : cap > BitVec.allOnes 64 - cap / 2
    · rw [if_pos hwrap] at h
      exact BitVec.le_of_eq (Sum.inl.inj h)
    · rw [if_neg hwrap] at h
      by_cases hstill : cap + cap / 2 ≤ cap
      · rw [if_pos hstill] at h
        exact BitVec.le_of_eq (Sum.inl.inj h)
      · rw [if_neg hstill] at h
        cases h
  · rw [if_neg hlt] at h
    rw [← Sum.inl.inj h]
    exact BitVec.not_lt.mp hlt

/-- **the loop ends**, for every pair of sizes, after the states it visits from the start on -/
theorem growCapacity_ends {currentCap required : W64} (h : currentCap < required) :
    ∃ cap, Consume.Visits (growTurn required) (growStart currentCap) cap ∧
      growTurn required cap = .inl (growCapacity currentCap required) := by
  obtain ⟨cap, r, hv, hr, hl⟩ : ∃ cap r,
      Consume.Visits (growTurn required) (growStart currentCap) cap ∧
        growTurn required cap = .inl r ∧ Consume.loop (growTurn required) required
          (shortfall required) (growStart currentCap) = r :=
    Consume.loop_ends (growTurn_shrinks required) (growStart currentCap)
  refine ⟨cap, hv, ?_⟩
  unfold growCapacity
  rw [if_neg (BitVec.not_le.mpr h), hl, hr]

/-- **the new capacity is enough**, and no less than the old one -/
theorem growCapacity_covers (currentCap required : W64) :
    required ≤ growCapacity currentCap required ∧
      currentCap ≤ growCapacity currentCap required := by
  by_cases h : currentCap < required
  · obtain ⟨cap, -, hr⟩ := growCapacity_ends h
    have hc := growTurn_covers hr
    exact ⟨hc, BitVec.le_trans (BitVec.le_of_lt h) hc⟩
  · unfold growCapacity
    rw [if_pos (BitVec.not_lt.mp h)]
    exact ⟨BitVec.not_lt.mp h, BitVec.le_refl _⟩

theorem checkedAdd_ok {a b s : W64} (h : checkedAdd a b = .ok s) :
    s.toNat = a.toNat + b.toNat := by
  unfold checkedAdd at h
  by_cases hgt : a > BitVec.allOnes 64 - b
  · rw [if_pos hgt] at h
    cases h
  · rw [if_neg hgt] at h
    obtain rfl : a + b = s := Except.ok.inj h
    have hb := b.isLt
    have hle := BitVec.le_def.mp (BitVec.not_lt.mp hgt)
    rw [BitVec.toNat_sub_of_le (by rw [BitVec.le_def, BitVec.toNat_allOnes]; omega),
      BitVec.toNat_allOnes] at hle
    rw [BitVec.toNat_add, Nat.mod_eq_of_lt (by omega)]

/-! ## sound buffers -/

/-- the fields and the block belong together -/
structure Sound (b : ByteBuffer) : Prop where
  inUse : b.len.toNat ≤ b.room
  block : b.cap.toNat = b.room
  null : b.data = none → b.room = 0

theorem empty_sound : empty.Sound := ⟨Nat.le_refl _, rfl, fun _ => rfl⟩

variable {b : ByteBuffer}

theorem Sound.len_le (h : b.Sound) : b.len ≤ b.cap := by
  rw [BitVec.le_def, h.block]
  exact h.inUse

theorem Sound.data (h : b.Sound) (hroom : 0 < b.room) : ∃ m, b.data = some m := by
  cases hd : b.data with
  | some m => exact ⟨m, rfl⟩
  | none =>
    have hnull := h.null hd
    omega

theorem realloc_contents (h : b.Sound) (garbage : Nat → BitVec 8) (newCap : W64) :
    (b.realloc garbage newCap).contents = b.contents := by
  have huse := h.inUse
  cases hd : b.data with
  | none =>
    have hlen : b.len.toNat = 0 := by
      have hnull := h.null hd
      omega
    simp [contents, realloc, hd, hlen, readout]
  | some m =>
    simp only [contents, realloc, hd, readout]
    apply List.map_congr_left
    intro i hi
    have hi := List.mem_range.mp hi
    rw [if_pos (by omega)]
    rfl

theorem realloc_sound (garbage : Nat → BitVec 8) {newCap : W64} (h : b.len ≤ newCap) :
    (b.realloc garbage newCap).Sound where
  inUse := BitVec.le_def.mp h
  block := rfl
  null hd := absurd hd (Option.some_ne_none _)

/-- **growing** leaves the buffer as it was, or makes room and nothing else -/
theorem grow_spec (h : b.Sound) (additional : W64) (block : NewBlock) :
    (∃ st, st ≠ .ok ∧ b.grow additional block = (st, b)) ∨
      ∃ b', b.grow additional block = (.ok, b') ∧ b'.Sound ∧ b'.len = b.len ∧
        b'.contents = b.contents ∧ b.len.toNat + additional.toNat ≤ b'.room := by
  unfold grow
  cases hadd : checkedAdd b.len additional with
  | error st =>
    refine .inl ⟨st, ?_, rfl⟩
    intro hst
    subst hst
    unfold checkedAdd at hadd
    by_cases hgt : b.len > BitVec.allOnes 64 - additional
    · rw [if_pos hgt] at hadd
      cases hadd
    · rw [if_neg hgt] at hadd
      cases hadd
  | ok required =>
    have hsum := checkedAdd_ok hadd
    unfold growTo
    dsimp only
    by_cases hfits : required ≤ b.cap
    · rw [if_pos hfits]
      have hle := BitVec.le_def.mp hfits
      have hblock := h.block
      exact .inr ⟨b, rfl, h, rfl, rfl, by omega⟩
    · rw [if_neg hfits]
      cases block with
      | none => exact .inl ⟨.noMemory, by decide, rfl⟩
      | some garbage =>
        have hc := (growCapacity_covers b.cap required).1
        generalize growCapacity b.cap required = newCap at hc ⊢
        have hc := BitVec.le_def.mp hc
        refine .inr ⟨b.realloc garbage newCap, rfl, realloc_sound garbage ?_, rfl,
          realloc_contents h garbage newCap, ?_⟩
        · rw [BitVec.le_def]
          omega
        · show b.len.toNat + additional.toNat ≤ newCap.toNat
          omega

theorem store_spec (h : b.Sound) (bytes : List (BitVec 8)) (hne : bytes ≠ [])
    (hroom : b.len.toNat + bytes.length ≤ b.room) :
    ∃ m, b.data = some m ∧
      b.store bytes = some { b with data := some (poke m b.len.toNat bytes) } := by
  have hpos := List.length_pos_iff.mpr hne
  obtain ⟨m, hm⟩ := h.data (by omega)
  refine ⟨m, hm, ?_⟩
  unfold store
  rw [hm, Option.bind_some, if_pos hroom]

/-- the bytes at a pointer, and none at a null pointer -/
def bytesAt (bytes : Option (Nat → BitVec 8)) (size : W64) : List (BitVec 8) :=
  match bytes with
  | some src => readout src 0 size.toNat
  | none => []

theorem bytesAt_zero (bytes : Option (Nat → BitVec 8)) : bytesAt bytes 0 = [] := by
  cases bytes <;> rfl

/-- **appending** leaves the buffer as it was, or puts the bytes behind the others -/
theorem append_spec (h : b.Sound) (bytes : Option (Nat → BitVec 8)) (size : W64)
    (block : NewBlock) :
    (∃ st, st ≠ .ok ∧ b.append bytes size block = some (st, b)) ∨
      ∃ b', b.append bytes size block = some (.ok, b') ∧ b'.Sound ∧
        b'.contents = b.contents ++ bytesAt bytes size := by
  unfold append
  by_cases hzero : size = 0
  · rw [if_pos hzero, hzero, bytesAt_zero, List.append_nil]
    exact .inr ⟨b, rfl, h, rfl⟩
  · rw [if_neg hzero]
    cases bytes with
    | none => exact .inl ⟨.invalidArg, by decide, rfl⟩
    | some src =>
      dsimp only
      rcases grow_spec h size block with ⟨st, hst, hg⟩ | ⟨b₁, hg, h₁, hlen, hcont, hroom⟩
      · rw [hg]
        cases st with
        | ok => exact absurd rfl hst
        | _ => exact .inl ⟨_, hst, rfl⟩
      · rw [hg]
        unfold copyBehind
        dsimp only
        have hlength : (readout src 0 size.toNat).length = size.toNat := readout_length _ _ _
        have hsize : size.toNat ≠ 0 := fun h0 => hzero (BitVec.eq_of_toNat_eq h0)
        obtain ⟨m, hm, hs⟩ := store_spec h₁ (readout src 0 size.toNat)
          (fun hnil => hsize (by rw [← hlength, hnil]; rfl)) (by rw [hlength, hlen]; exact hroom)
        have hsum : (b₁.len + size).toNat = b₁.len.toNat + size.toNat := by
          have hblock := h₁.block
          have hcap := b₁.cap.isLt
          rw [BitVec.toNat_add, Nat.mod_eq_of_lt (by rw [hlen]; omega)]
        rw [hs]
        refine .inr ⟨_, rfl, ⟨?_, h₁.block, fun hd => absurd hd (Option.some_ne_none _)⟩, ?_⟩
        · show (b₁.len + size).toNat ≤ b₁.room
          rw [hsum, hlen]
          exact hroom
        · have hend := readout_poke_end m 0 b₁.len.toNat (readout src 0 size.toNat)
          rw [hlength, Nat.zero_add] at hend
          show readout (poke m b₁.len.toNat (readout src 0 size.toNat)) 0
            (b₁.len + size).toNat = _
          rw [hsum, hend, ← hcont]
          simp [contents, hm, bytesAt]

/-- **the terminator** goes behind the last byte in use, which stays the last -/
theorem cstr_spec (h : b.Sound) (block : NewBlock) :
    b.cstr block = some (none, b) ∨
      ∃ m b', b.cstr block = some (some m, b') ∧ b'.Sound ∧ b'.len = b.len ∧
        b'.contents = b.contents ∧ readout m 0 (b.len.toNat + 1) = b.contents ++ [0] := by
  unfold cstr
  rcases grow_spec h 1 block with ⟨st, hst, hg⟩ | ⟨b₁, hg, h₁, hlen, hcont, hroom⟩
  · rw [hg]
    cases st with
    | ok => exact absurd rfl hst
    | _ => exact .inl rfl
  · rw [hg]
    unfold terminate
    dsimp only
    obtain ⟨m, hm, hs⟩ := store_spec h₁ [0] (List.cons_ne_nil _ _)
      (by rw [hlen]; exact hroom)
    have hold : readout m 0 b.len.toNat = b.contents := by
      rw [← hcont]
      simp [contents, hm, hlen]
    rw [hs]
    refine .inr ⟨_, _, rfl, ⟨?_, h₁.block, fun hd => absurd hd (Option.some_ne_none _)⟩, hlen,
      ?_, ?_⟩
    · exact h₁.inUse
    · show readout (poke m b₁.len.toNat [0]) 0 b₁.len.toNat = _
      rw [readout_poke_off m (.inl (by omega)), hlen, hold]
    · have hend := readout_poke_end m 0 b.len.toNat [(0 : BitVec 8)]
      rw [Nat.zero_add] at hend
      rw [hlen]
      exact hend.trans (by rw [hold])

theorem init_spec (initialCap : W64) (block : NewBlock) :
    (init initialCap block).2.Sound ∧ (init initialCap block).2.contents = [] ∧
      ((init initialCap block).1 ≠ .ok → (init initialCap block).2 = empty) := by
  unfold init
  by_cases hzero : initialCap = 0
  · rw [if_pos hzero]
    exact ⟨empty_sound, rfl, fun _ => rfl⟩
  · rw [if_neg hzero]
    cases block with
    | none => exact ⟨empty_sound, rfl, fun _ => rfl⟩
    | some garbage =>
      exact ⟨⟨Nat.zero_le _, rfl, fun hd => absurd hd (Option.some_ne_none _)⟩, rfl,
        fun h => absurd rfl h⟩

/-! ## histories -/

/-- the bytes a call appends when it succeeds -/
def Op.text : Op → List (BitVec 8)
  | .append bytes size _ => bytesAt bytes size
  | .appendStr (some s) _ => s.bytes
  | _ => []

def Op.isInit : Op → Bool
  | .init _ _ => true
  | _ => false

def Op.isCstr : Op → Bool
  | .cstr _ => true
  | _ => false

/-- the contents after one more call, from the contents before -/
def saying (acc : List (BitVec 8)) : Op × Bool → List (BitVec 8)
  | (.init _ _, _) => []
  | (.clear, _) => []
  | (op, ok) => if ok then acc ++ op.text else acc

/-- the appended bytes since the last `clear` or `init` -/
def said (calls : List (Op × Bool)) : List (BitVec 8) := calls.foldl saying []

def Calls : ByteBuffer → Op × Bool → ByteBuffer → Prop :=
  fun b c b' => b.serve c.1 = some (c.2, b')

/-- what one call does to a sound buffer -/
structure Served (b : ByteBuffer) (op : Op) (ok : Bool) (b' : ByteBuffer) : Prop where
  served : b.serve op = some (ok, b')
  sound : b'.Sound
  contents : b'.contents = saying b.contents (op, ok)
  failed : ok = false → op.isInit = false → b' = b
  failedInit : ok = false → op.isInit = true → b' = empty
  text : op.isCstr = true → b'.contents = b.contents ∧ b'.len = b.len

theorem bytesAt_str (s : HostStr) :
    bytesAt (some fun i => s.bytes.getD i 0) (BitVec.ofNat 64 s.bytes.length) = s.bytes := by
  have hfit := s.addressable
  have hlen : (BitVec.ofNat 64 s.bytes.length).toNat = s.bytes.length := by
    rw [BitVec.toNat_ofNat]
    exact Nat.mod_eq_of_lt hfit
  unfold bytesAt
  dsimp only
  rw [hlen, readout_getD]

theorem Served.refused (h : b.Sound) {op : Op} (hop : op.isInit = false)
    (hserve : b.serve op = some (false, b)) (hsaid : saying b.contents (op, false) = b.contents) :
    Served b op false b where
  served := hserve
  sound := h
  contents := hsaid.symm
  failed _ _ := rfl
  failedInit _ hi := absurd (hop.symm.trans hi) Bool.false_ne_true
  text _ := ⟨rfl, rfl⟩

theorem Served.done {op : Op} {b' : ByteBuffer} (hserve : b.serve op = some (true, b'))
    (hsound : b'.Sound) (hsaid : b'.contents = saying b.contents (op, true))
    (htext : op.isCstr = true → b'.contents = b.contents ∧ b'.len = b.len) :
    Served b op true b' where
  served := hserve
  sound := hsound
  contents := hsaid
  failed hf _ := absurd hf.symm Bool.false_ne_true
  failedInit hf _ := absurd hf.symm Bool.false_ne_true
  text := htext

theorem serve_append (h : b.Sound) {op : Op} {bytes : Option (Nat → BitVec 8)} {size : W64}
    {block : NewBlock}
    (hserve : b.serve op = (b.append bytes size block).map fun r => (decide (r.1 = .ok), r.2))
    (hinit : op.isInit = false) (hcstr : op.isCstr = false)
    (hsaid : ∀ ok, saying b.contents (op, ok) =
      if ok then b.contents ++ bytesAt bytes size else b.contents) :
    ∃ ok b', Served b op ok b' := by
  rcases append_spec h bytes size block with ⟨st, hst, ha⟩ | ⟨b', ha, hs, hcont⟩
  · refine ⟨false, b, .refused h hinit ?_ (hsaid false)⟩
    rw [hserve, ha, Option.map_some, decide_eq_false hst]
  · refine ⟨true, b', .done ?_ hs (hcont.trans (hsaid true).symm) fun hi => ?_⟩
    · rw [hserve, ha, Option.map_some, decide_eq_true rfl]
    · exact absurd (hcstr.symm.trans hi) Bool.false_ne_true

/-- **every call on a sound buffer** stays in the block and is served -/
theorem serve_spec (h : b.Sound) (op : Op) : ∃ ok b', Served b op ok b' := by
  cases op with
  | init initialCap block =>
    obtain ⟨hs, hc, hf⟩ := init_spec initialCap block
    exact ⟨_, _, rfl, hs, hc, fun _ hi => absurd hi.symm Bool.false_ne_true,
      fun hok _ => hf (of_decide_eq_false hok), fun hi => absurd hi Bool.false_ne_true⟩
  | reserve additional block =>
    rcases grow_spec h additional block with ⟨st, hst, hg⟩ | ⟨b', hg, hs, hlen, hcont, -⟩
    · refine ⟨false, b, .refused h rfl ?_ rfl⟩
      simp only [serve, reserve, hg, decide_eq_false hst]
    · refine ⟨true, b', .done ?_ hs ?_ fun hi => absurd hi Bool.false_ne_true⟩
      · simp only [serve, reserve, hg, decide_true]
      · simp only [saying, Op.text, hcont, if_true, List.append_nil]
  | append bytes size block => exact serve_append h rfl rfl rfl fun _ => rfl
  | appendStr str block =>
    cases str with
    | none => exact ⟨false, b, .refused h rfl rfl rfl⟩
    | some s =>
      have hserve : b.serve (.appendStr (some s) block) =
          (b.append (some fun i => s.bytes.getD i 0) (BitVec.ofNat 64 s.bytes.length) block).map
            fun r => (decide (r.1 = .ok), r.2) := rfl
      refine serve_append h hserve rfl rfl fun ok => ?_
      rw [bytesAt_str]
      rfl
  | clear =>
    refine ⟨true, b.clear, .done rfl ⟨Nat.zero_le _, h.block, h.null⟩ ?_
      fun hi => absurd hi Bool.false_ne_true⟩
    unfold ByteBuffer.contents clear
    cases b.data <;> rfl
  | cstr block =>
    rcases cstr_spec h block with hc | ⟨m, b', hc, hs, hlen, hcont, -⟩
    · refine ⟨false, b, .refused h rfl ?_ rfl⟩
      simp only [serve, hc, Option.map_some, Option.isSome_none]
    · refine ⟨true, b', .done ?_ hs ?_ fun _ => ⟨hcont, hlen⟩⟩
      · simp only [serve, hc, Option.map_some, Option.isSome_some]
      · simp only [saying, Op.text, hcont, if_true, List.append_nil]

theorem calls_step {calls : List (Op × Bool)} {c : Op × Bool} {b' : ByteBuffer}
    (h : b.Sound ∧ b.contents = said calls) (hc : Calls b c b') :
    b'.Sound ∧ b'.contents = said (calls ++ [c]) := by
  obtain ⟨ok, b₁, hs⟩ := serve_spec h.1 c.1
  have heq : (c.2, b') = (ok, b₁) := Option.some.inj (hc.symm.trans hs.served)
  obtain ⟨rfl, rfl⟩ := Prod.mk.inj heq
  refine ⟨hs.sound, ?_⟩
  rw [hs.contents, h.2]
  simp [said]

theorem init_any (b b' : ByteBuffer) (initialCap : W64) (block : NewBlock) :
    b.serve (.init initialCap block) = b'.serve (.init initialCap block) := rfl

/-- **what a history of calls leaves**, from an `init` of any memory on: the bytes in use fit the
block, they are the appended ones since the last `clear` or `init`, every further call is served, and
the growth policy ends with enough -/
theorem calls_hold {b₀ : ByteBuffer} {initialCap : W64} {block : NewBlock} {ok₀ : Bool}
    {calls : List (Op × Bool)}
    (hrun : Lts.Run Calls b₀ ((.init initialCap block, ok₀) :: calls) b) :
    b.len ≤ b.cap ∧
      b.contents = said calls ∧
      (∀ op, ∃ ok b', b.serve op = some (ok, b') ∧
        (ok = false → op.isInit = false →
          b'.contents = b.contents ∧ b'.len = b.len ∧ b'.cap = b.cap) ∧
        (ok = false → op.isInit = true → b' = empty) ∧
        (op.isCstr = true → b'.contents = b.contents ∧ b'.len = b.len)) ∧
      ∀ currentCap required : W64,
        (currentCap < required →
          ∃ cap, Consume.Visits (growTurn required) (growStart currentCap) cap ∧
            growTurn required cap = .inl (growCapacity currentCap required)) ∧
          required ≤ growCapacity currentCap required ∧
          currentCap ≤ growCapacity currentCap required := by
  have hhist : b.Sound ∧ b.contents = said ((.init initialCap block, ok₀) :: calls) := by
    cases hrun with
    | cons hfirst hrest =>
      have hempty : Calls empty (.init initialCap block, ok₀) _ :=
        (init_any empty b₀ initialCap block).trans hfirst
      have hnothing : empty.Sound ∧ empty.contents = said [] := ⟨empty_sound, rfl⟩
      have hstart := calls_step hnothing hempty
      exact Lts.Run.history (I := fun calls b => b.Sound ∧ b.contents = said calls)
        (fun calls b c b' h hc => calls_step h hc) hrest hstart
  refine ⟨hhist.1.len_le, hhist.2, fun op => ?_, fun currentCap required =>
    ⟨growCapacity_ends, growCapacity_covers currentCap required⟩⟩
  obtain ⟨ok, b', hs⟩ := serve_spec hhist.1 op
  refine ⟨ok, b', hs.served, fun hf hi => ?_, hs.failedInit, hs.text⟩
  rw [hs.failed hf hi]
  exact ⟨rfl, rfl, rfl⟩

def oneByte : ByteBuffer := ⟨some (poke (fun _ => 0) 0 [7]), 16, 1, 16⟩

theorem oneByte_run :
    Lts.Run Calls empty
      [(.init 16 (some fun _ => 0), true), (.append (some fun _ => 7) 1 none, true)] oneByte :=
  .cons rfl (.cons rfl (.nil _))

/-- a second append of twenty bytes moves them to a new block -/
theorem calls_hold_grown :
    ∃ b, Lts.Run Calls empty
        [(.init 16 (some fun _ => 0), true), (.append (some fun _ => 7) 1 none, true),
          (.append (some fun _ => 9) 20 (some fun _ => 0xFF), true)] b ∧
      b.cap = 24 ∧ b.len ≤ b.cap ∧ b.contents = 7 :: List.replicate 20 9 := by
  have hrun : Lts.Run Calls empty
      [(.init 16 (some fun _ => 0), true), (.append (some fun _ => 7) 1 none, true),
        (.append (some fun _ => 9) 20 (some fun _ => 0xFF), true)] _ :=
    .cons rfl (.cons rfl (.cons rfl (.nil _)))
  obtain ⟨hlen, hcontents, -⟩ := calls_hold hrun
  exact ⟨_, hrun, by decide +kernel, hlen, hcontents.trans (by decide +kernel)⟩

/-- an `init` in the middle forgets what was appended, and so does one that fails -/
theorem init_forgets :
    Lts.Run Calls empty
        [(.init 16 (some fun _ => 0), true), (.append (some fun _ => 7) 1 none, true)] oneByte ∧
      oneByte.contents = [7] ∧
      oneByte.serve (.init 0 none) = some (true, empty) ∧
      oneByte.serve (.init 16 none) = some (false, empty) ∧
      empty.contents ≠ oneByte.contents ∧ empty.len ≠ oneByte.len ∧ empty.cap ≠ oneByte.cap :=
  ⟨oneByte_run, rfl, rfl, rfl, by decide, by decide, by decide⟩

end Oemu.ByteBuffer
