import Oemu.Dev.Pl011
import Oemu.Lib.Ring

/-!
# The receive side of the console UART

The receive ring is filled by the host and by the loopback, and popped by reads of the data register.
`Receiver` is the invariant of its three indices and of the receive status; `serve_receives` says of
every request what it takes in and what it gives to the guest, in one equation on the queue.

* `taken`, `given`   the bytes a request takes in and the values it reads from a filled ring;
* `stirs`            the requests that recompute the flags;
* `serve_receives`   what is read and what stays queued is what was queued and what came in.
-/

namespace Oemu

namespace Pl011

/-- the bytes that wait for the guest, oldest first -/
def received (u : Pl011) : List (BitVec 8) := Ring.contents pl011RxRing u.rx u.rxHead u.rxCount

/-- the data register's view of received bytes -/
def wide (l : List (BitVec 8)) : List W64 := l.map (·.setWidth 64)

@[simp] theorem wide_append (l l' : List (BitVec 8)) : wide (l ++ l') = wide l ++ wide l' :=
  List.map_append

/-- the bytes the receiver takes in during a request -/
def taken (u : Pl011) : Req → List (BitVec 8)
  | .write offset size value =>
    if atData offset size ∧ u.cr &&& crLbe ≠ 0 ∧ u.cr &&& crRxe ≠ 0 ∧ u.accepts then
      [(value.setWidth 32).setWidth 8]
    else []
  | .inject byte => if u.accepts then [byte] else []
  | _ => []

/-- what a request reads out of a ring that is not empty -/
def given (u : Pl011) : Req → List W64
  | .read offset size =>
    if atData offset size ∧ u.rxCount ≠ 0 then [(u.read offset size).2.1] else []
  | _ => []

/-- the requests that recompute the flags -/
def stirs (u : Pl011) : Req → Bool
  | .read offset size => atData offset size
  | .write _ size _ => decide (size.log2 ≤ MemSize.dword.log2)
  | .pump => true
  | .inject _ => u.accepts

/-- the indices of the receive ring agree, and an empty ring raises no receive status -/
structure Receiver (u : Pl011) : Prop where
  head : u.rxHead < pl011RxRing
  tail : u.rxTail = Ring.slot pl011RxRing u.rxHead u.rxCount
  count : u.rxCount ≤ pl011RxRing
  quiet : u.rxCount = 0 → u.ris &&& intRx = 0

variable {u u' u'' : Pl011}

/-- the ring is the same, and no receive status was raised -/
structure SameRing (u u' : Pl011) : Prop where
  rx : u'.rx = u.rx
  rxHead : u'.rxHead = u.rxHead
  rxTail : u'.rxTail = u.rxTail
  rxCount : u'.rxCount = u.rxCount
  ris : u.ris &&& intRx = 0 → u'.ris &&& intRx = 0

theorem SameRing.rfl : SameRing u u := ⟨Eq.refl _, Eq.refl _, Eq.refl _, Eq.refl _, id⟩

theorem SameRing.received (h : SameRing u u') : u'.received = u.received := by
  unfold Pl011.received
  rw [h.rx, h.rxHead, h.rxCount]

theorem Receiver.frame (h : Receiver u) (hs : SameRing u u') : Receiver u' where
  head := by
    rw [hs.rxHead]
    exact h.head
  tail := by
    rw [hs.rxTail, hs.rxHead, hs.rxCount]
    exact h.tail
  count := by
    rw [hs.rxCount]
    exact h.count
  quiet := by
    rw [hs.rxCount]
    exact fun h0 => hs.ris (h.quiet h0)

theorem Receiver.start (sink : Option (List (BitVec 8))) : Receiver (init sink) :=
  ⟨show 0 < pl011RxRing by decide, rfl, Nat.zero_le _, fun _ => show (0 : W32) &&& intRx = 0 by decide⟩

theorem updateFlags_sameRing (u : Pl011) : SameRing u u.updateFlags :=
  ⟨rfl, rfl, rfl, rfl, id⟩

theorem Quiet.sameRing (h : Quiet u u') : SameRing u u' where
  rx := h.rx
  rxHead := h.rxHead
  rxTail := h.rxTail
  rxCount := h.rxCount
  ris := by
    obtain ⟨m, hm⟩ := h.ris
    intro h0
    rw [hm, BitVec.and_assoc, BitVec.and_comm m, ← BitVec.and_assoc, h0]
    exact BitVec.zero_and

theorem updateFlags_rxfe (u : Pl011) :
    u.updateFlags.fr &&& frRxfe ≠ 0 ↔ u.updateFlags.rxCount = 0 := by
  show (if u.rxCount = 0 then frTxfe ||| frRxfe else frTxfe) &&& frRxfe ≠ 0 ↔ u.rxCount = 0
  by_cases h : u.rxCount = 0
  · rw [if_pos h]
    exact iff_of_true (by decide) h
  · rw [if_neg h]
    exact iff_of_false (by decide) h

/-! ## the data register -/

theorem inject_received (h : Receiver u) (hacc : u.accepts = true) (byte : BitVec 8) :
    Receiver (u.inject byte).2 ∧ (u.inject byte).2.received = u.received ++ [byte] := by
  unfold accepts at hacc
  rw [Bool.and_eq_true, decide_eq_true_eq] at hacc
  have hroom := hacc.2
  unfold inject
  rw [hacc.1, if_neg (by decide), if_neg (Nat.not_le_of_lt hroom)]
  refine ⟨⟨h.head, ?_, hroom, fun h0 => absurd h0 (Nat.succ_ne_zero _)⟩, ?_⟩
  · show (u.rxTail + 1) % pl011RxRing = Ring.slot pl011RxRing u.rxHead (u.rxCount + 1)
    rw [h.tail, ← Ring.slot_slot]
    rfl
  · show Ring.contents pl011RxRing (Function.update u.rx u.rxTail byte) u.rxHead (u.rxCount + 1) = _
    rw [h.tail, Ring.contents_push hroom]
    rfl

theorem readDr_received (h : Receiver u) (hne : u.rxCount ≠ 0) :
    Receiver u.readDr.2 ∧ u.readDr.1.setWidth 64 :: wide u.readDr.2.received = wide u.received := by
  obtain ⟨m, hm⟩ := Nat.exists_eq_succ_of_ne_zero hne
  have hcount := h.count
  have htail : u.rxTail = Ring.slot pl011RxRing (Ring.slot pl011RxRing u.rxHead 1) m := by
    rw [h.tail, hm, Ring.slot_slot, Nat.add_comm 1 m]
  have hcontents : u.received = u.rx u.rxHead ::
      Ring.contents pl011RxRing u.rx (Ring.slot pl011RxRing u.rxHead 1) m := by
    unfold received
    rw [hm, Ring.contents_cons h.head]
  have hbyte : ((u.rx u.rxHead).setWidth 32).setWidth 64 = (u.rx u.rxHead).setWidth 64 := by
    apply BitVec.eq_of_toNat_eq
    have hb := (u.rx u.rxHead).isLt
    simp only [BitVec.toNat_setWidth]
    omega
  have hread : ∃ ris, (m = 0 → ris &&& intRx = 0) ∧ u.readDr = ((u.rx u.rxHead).setWidth 32,
      { u with rxHead := Ring.slot pl011RxRing u.rxHead 1, rxCount := m, ris }.updateFlags) := by
    unfold readDr
    rw [if_pos hne, hm]
    dsimp only [Nat.succ_sub_one]
    by_cases h0 : m = 0
    · refine ⟨u.ris &&& ~~~intRx, fun _ => ?_, ?_⟩
      · rw [BitVec.and_assoc, show ~~~intRx &&& intRx = 0 by decide]
        exact BitVec.and_zero
      · rw [if_pos h0]
        rfl
    · refine ⟨u.ris, fun h => absurd h h0, ?_⟩
      rw [if_neg h0]
      rfl
  obtain ⟨ris, hris, hread⟩ := hread
  rw [hread]
  refine ⟨⟨Ring.slot_lt (by decide) _ _, htail, ?_, hris⟩, ?_⟩
  · show m ≤ pl011RxRing
    omega
  · rw [hcontents]
    exact congrArg (· :: wide (Ring.contents pl011RxRing u.rx (Ring.slot pl011RxRing u.rxHead 1) m))
      hbyte

theorem readDr_empty (h : u.rxCount = 0) : u.readDr = (0, u.updateFlags) := by
  unfold readDr
  rw [if_neg (not_not_intro h)]

def loopback (u : Pl011) (byte : BitVec 8) : Pl011 :=
  match u.inject byte with
  | (.ok, u) => u
  | (_, u) => { u with rxDropped := u.rxDropped + 1 }

theorem loopback_accepted (h : u.accepts = true) (byte : BitVec 8) :
    u.loopback byte = (u.inject byte).2 := by
  have hst := (inject_accepted h byte).1
  unfold loopback
  rcases hi : u.inject byte with ⟨st, w⟩
  rw [hi] at hst
  cases hst
  rfl

theorem loopback_refused (h : u.accepts = false) (byte : BitVec 8) :
    u.loopback byte = { u with rxDropped := u.rxDropped + 1 } := by
  obtain ⟨hst, hu⟩ := inject_refused h byte
  unfold loopback
  rcases hi : u.inject byte with ⟨st, w⟩
  rw [hi] at hst hu
  dsimp only at hst hu
  subst hu
  cases st with
  | ok => exact absurd rfl hst
  | _ => rfl

/-- the transmit half of a data write does not touch the receiver -/
theorem writeDr_transmit (u : Pl011) (byte : BitVec 8) :
    ∃ v, SameRing u v ∧ v.cr = u.cr ∧ u.writeDr byte =
      if v.cr &&& crLbe ≠ 0 ∧ v.cr &&& crRxe ≠ 0 then v.loopback byte else v := by
  have hris : (u.ris &&& intRx = 0) → (u.ris ||| intTxis) &&& intRx = 0 := by
    intro h
    rw [BitVec.and_comm, BitVec.and_or_distrib_left, BitVec.and_comm, h]
    decide
  have hsplit : u.writeDr byte =
      let v := if u.cr &&& crFen = 0 then u.emit byte else u.txPush byte
      let v := { v with ris := v.ris ||| intTxis }
      if v.cr &&& crLbe ≠ 0 ∧ v.cr &&& crRxe ≠ 0 then v.loopback byte else v := rfl
  rw [hsplit]
  refine ⟨_, ?_, ?_, rfl⟩
  · by_cases hf : u.cr &&& crFen = 0
    · rw [if_pos hf]
      exact ⟨rfl, rfl, rfl, rfl, hris⟩
    · rw [if_neg hf]
      unfold txPush
      by_cases hfull : u.txCount ≥ pl011TxRing
      · rw [if_pos hfull]
        exact ⟨rfl, rfl, rfl, rfl, hris⟩
      · rw [if_neg hfull]
        exact ⟨rfl, rfl, rfl, rfl, hris⟩
  · by_cases hf : u.cr &&& crFen = 0
    · rw [if_pos hf]
      rfl
    · rw [if_neg hf]
      unfold txPush
      by_cases hfull : u.txCount ≥ pl011TxRing
      · rw [if_pos hfull]
      · rw [if_neg hfull]

theorem SameRing.accepts (h : SameRing u u') (hcr : u'.cr = u.cr) : u'.accepts = u.accepts := by
  unfold Pl011.accepts Pl011.listens
  rw [hcr, h.rxCount]

theorem writeDr_received (h : Receiver u) (byte : BitVec 8) :
    Receiver (u.writeDr byte) ∧ (u.writeDr byte).received = u.received ++
      if u.cr &&& crLbe ≠ 0 ∧ u.cr &&& crRxe ≠ 0 ∧ u.accepts then [byte] else [] := by
  obtain ⟨v, hsame, hcr, hw⟩ := u.writeDr_transmit byte
  have hv := h.frame hsame
  rw [hw, ← hsame.accepts hcr, ← hsame.received, ← hcr]
  by_cases hl : v.cr &&& crLbe ≠ 0 ∧ v.cr &&& crRxe ≠ 0
  · rw [if_pos hl]
    cases hacc : v.accepts with
    | true =>
      rw [loopback_accepted hacc, if_pos ⟨hl.1, hl.2, rfl⟩]
      exact inject_received hv hacc byte
    | false =>
      rw [loopback_refused hacc, if_neg (fun h => absurd h.2.2 (by decide)), List.append_nil]
      exact ⟨hv.frame ⟨rfl, rfl, rfl, rfl, id⟩, rfl⟩
  · rw [if_neg hl, if_neg (fun h => hl ⟨h.1, h.2.1⟩), List.append_nil]
    exact ⟨hv, rfl⟩

/-! ## one request -/

theorem pump_sameRing (u : Pl011) : SameRing u u.pump.2 := by
  have h : ∀ n, SameRing u (pumpOne^[n] u) := by
    intro n
    induction n with
    | zero => exact .rfl
    | succ n ih =>
      rw [Function.iterate_succ_apply']
      exact ⟨ih.rx, ih.rxHead, ih.rxTail, ih.rxCount, ih.ris⟩
  obtain ⟨h1, h2, h3, h4, h5⟩ := h u.txCount
  exact ⟨h1, h2, h3, h4, h5⟩

theorem SameRing.receives (hs : SameRing u u') (h : Receiver u) :
    Receiver u' ∧ [] ++ wide u'.received = wide (u.received ++ []) := by
  rw [List.append_nil, hs.received]
  exact ⟨h.frame hs, List.nil_append _⟩

/-- **what a request reads and what stays queued is what was queued and what came in** -/
theorem serve_receives (h : Receiver u) (q : Req) :
    Receiver (u.serve q) ∧
      u.given q ++ wide (u.serve q).received = wide (u.received ++ u.taken q) := by
  cases q with
  | pump => exact u.pump_sameRing.receives h
  | inject byte =>
    show Receiver (u.inject byte).2 ∧ [] ++ wide (u.inject byte).2.received =
      wide (u.received ++ if u.accepts then [byte] else [])
    cases hacc : u.accepts with
    | true =>
      obtain ⟨hr, hq⟩ := inject_received h hacc byte
      rw [hq]
      exact ⟨hr, rfl⟩
    | false =>
      rw [(inject_refused hacc byte).2]
      exact SameRing.rfl.receives h
  | read offset size =>
    show Receiver (u.read offset size).2.2 ∧
      (if atData offset size ∧ u.rxCount ≠ 0 then [(u.read offset size).2.1] else []) ++
        wide (u.read offset size).2.2.received = wide (u.received ++ [])
    rcases u.read_cases offset size with ⟨hd, hr⟩ | ⟨hd, hr⟩
    · rw [hr]
      by_cases h0 : u.rxCount = 0
      · rw [if_neg (fun hc => hc.2 h0), readDr_empty h0]
        exact u.updateFlags_sameRing.receives h
      · rw [if_pos ⟨hd, h0⟩, List.append_nil]
        exact readDr_received h h0
    · rw [if_neg (fun hc => by rw [hd] at hc; exact absurd hc.1 (by decide)), hr]
      exact SameRing.rfl.receives h
  | write offset size value =>
    show Receiver (u.write offset size value).2 ∧ [] ++ wide (u.write offset size value).2.received =
      wide (u.received ++
        if atData offset size ∧ u.cr &&& crLbe ≠ 0 ∧ u.cr &&& crRxe ≠ 0 ∧ u.accepts then
          [(value.setWidth 32).setWidth 8] else [])
    rcases u.write_cases offset size value with ⟨hd, hw⟩ | ⟨hd, -, hw⟩ | ⟨hd, -, w, hq, hw⟩
    · obtain ⟨hr, hb⟩ := writeDr_received h ((value.setWidth 32).setWidth 8)
      have hsame := updateFlags_sameRing (u.writeDr ((value.setWidth 32).setWidth 8))
      rw [hw, hsame.received, hb, hd, List.nil_append]
      refine ⟨hr.frame hsame, ?_⟩
      simp only [true_and]
    · rw [hw, if_neg (fun hc => by rw [hd] at hc; exact absurd hc.1 (by decide))]
      exact SameRing.rfl.receives h
    · rw [hw, if_neg (fun hc => by rw [hd] at hc; exact absurd hc.1 (by decide))]
      have hs := hq.sameRing
      obtain ⟨h1, h2, h3, h4, h5⟩ := hs
      exact @SameRing.receives _ w.updateFlags ⟨h1, h2, h3, h4, h5⟩ h

theorem serve_flags (u : Pl011) (q : Req) :
    if u.stirs q then ∃ w, u.serve q = updateFlags w else u.serve q = u := by
  cases q with
  | pump => exact ⟨_, rfl⟩
  | inject byte =>
    show if u.accepts = true then _ else (u.inject byte).2 = u
    cases hacc : u.accepts with
    | true =>
      unfold accepts at hacc
      rw [Bool.and_eq_true, decide_eq_true_eq] at hacc
      show ∃ w, (u.inject byte).2 = updateFlags w
      unfold inject
      rw [hacc.1, if_neg (by decide), if_neg (Nat.not_le_of_lt hacc.2)]
      exact ⟨_, rfl⟩
    | false => exact (inject_refused hacc byte).2
  | read offset size =>
    show if atData offset size = true then ∃ w, (u.read offset size).2.2 = updateFlags w
      else (u.read offset size).2.2 = u
    rcases u.read_cases offset size with ⟨hd, hr⟩ | ⟨hd, hr⟩
    · rw [if_pos hd, hr]
      unfold readDr
      split
      · exact ⟨_, rfl⟩
      · exact ⟨_, rfl⟩
    · rw [if_neg (by rw [hd]; decide)]
      exact hr
  | write offset size value =>
    show if decide (size.log2 ≤ MemSize.dword.log2) = true then
      ∃ w, (u.write offset size value).2 = updateFlags w else (u.write offset size value).2 = u
    rcases u.write_cases offset size value with ⟨hd, hw⟩ | ⟨-, hs, hw⟩ | ⟨-, hs, w, -, hw⟩
    · unfold atData at hd
      rw [Bool.and_eq_true] at hd
      rw [if_pos hd.1, hw]
      exact ⟨_, rfl⟩
    · rw [if_neg (fun h => absurd (of_decide_eq_true h) (Nat.not_le_of_lt hs))]
      exact hw
    · rw [if_pos (decide_eq_true hs), hw]
      exact ⟨_, rfl⟩

end Pl011

end Oemu
