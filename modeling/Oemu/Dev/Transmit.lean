import Oemu.Dev.Pl011
import Oemu.Lib.Ring
import Oemu.Lib.Run

/-!
# The transmit side of the console UART

A byte written to the data register leaves for the host in the write itself, or queues in the
transmit ring until `pump`, depending on `CR.FEN`.  `Line` is the UART together with what the guest
wrote to the data register and what left for the host; its runs are all interleavings of register
accesses, pumps and received bytes.

* `line_conserved`     in every run each byte written is emitted, queued, or counted as dropped;
* `transmit_in_order`  it leaves in write order when no byte is written past a queued one;
* `immediate_overtakes`  turning the FIFO off over a filled ring lets a byte overtake.
-/

namespace Oemu

namespace Pl011

/-- the bytes that wait for the host, oldest first -/
def queued (u : Pl011) : List (BitVec 8) := Ring.contents pl011TxRing u.tx u.txHead u.txCount

/-- the bytes a request writes to the data register -/
def Req.data : Req → List (BitVec 8)
  | .write offset size value =>
    if atData offset size then [(value.setWidth 32).setWidth 8] else []
  | _ => []

/-- the bytes a request sends to the host -/
def leaving (u : Pl011) : Req → List (BitVec 8)
  | .write offset size value =>
    if u.cr &&& crFen = 0 then (Req.write offset size value).data else []
  | .pump => u.queued
  | _ => []

/-- a byte written with the FIFO off while others are queued -/
def Overtakes (u : Pl011) (q : Req) : Prop := q.data ≠ [] ∧ u.cr &&& crFen = 0 ∧ u.txCount ≠ 0

/-! ## one operation -/

structure SameTransmitter (u u' : Pl011) : Prop where
  tx : u'.tx = u.tx
  txHead : u'.txHead = u.txHead
  txCount : u'.txCount = u.txCount
  txEmitted : u'.txEmitted = u.txEmitted
  txDropped : u'.txDropped = u.txDropped
  sink : u'.sink = u.sink

variable {u u' u'' : Pl011}

theorem SameTransmitter.rfl : SameTransmitter u u := ⟨Eq.refl _, Eq.refl _, Eq.refl _, Eq.refl _,
  Eq.refl _, Eq.refl _⟩

theorem SameTransmitter.trans (h : SameTransmitter u u') (h' : SameTransmitter u' u'') :
    SameTransmitter u u'' :=
  ⟨h'.tx.trans h.tx, h'.txHead.trans h.txHead, h'.txCount.trans h.txCount,
    h'.txEmitted.trans h.txEmitted, h'.txDropped.trans h.txDropped, h'.sink.trans h.sink⟩

theorem updateFlags_sameTransmitter (u : Pl011) : SameTransmitter u u.updateFlags :=
  ⟨rfl, rfl, rfl, rfl, rfl, rfl⟩

theorem Quiet.sameTransmitter (h : Quiet u u') : SameTransmitter u u' :=
  ⟨h.tx, h.txHead, h.txCount, h.txEmitted, h.txDropped, h.sink⟩

theorem inject_sameTransmitter (u : Pl011) (byte : BitVec 8) :
    SameTransmitter u (u.inject byte).2 := by
  unfold inject
  split
  · exact .rfl
  · split
    · exact .rfl
    · exact ⟨rfl, rfl, rfl, rfl, rfl, rfl⟩

theorem readDr_sameTransmitter (u : Pl011) : SameTransmitter u u.readDr.2 := by
  unfold readDr
  split
  · dsimp only
    split <;> exact ⟨rfl, rfl, rfl, rfl, rfl, rfl⟩
  · exact u.updateFlags_sameTransmitter

theorem read_sameTransmitter (u : Pl011) (offset : W64) (size : MemSize) :
    SameTransmitter u (u.read offset size).2.2 := by
  rcases u.read_cases offset size with ⟨-, h⟩ | ⟨-, h⟩
  · rw [h]
    exact u.readDr_sameTransmitter
  · rw [h]
    exact .rfl

/-- the interrupt and the loopback of a data write do not touch what it transmits -/
theorem writeDr_sameTransmitter (u : Pl011) (byte : BitVec 8) :
    SameTransmitter (if u.cr &&& crFen = 0 then u.emit byte else u.txPush byte) (u.writeDr byte) := by
  unfold writeDr
  generalize (if u.cr &&& crFen = 0 then u.emit byte else u.txPush byte) = v
  dsimp only
  have hi := inject_sameTransmitter { v with ris := v.ris ||| intTxis } byte
  split
  · split
    · rename_i w hw
      rw [hw] at hi
      exact ⟨hi.tx, hi.txHead, hi.txCount, hi.txEmitted, hi.txDropped, hi.sink⟩
    · rename_i w hw
      rw [hw] at hi
      exact ⟨hi.tx, hi.txHead, hi.txCount, hi.txEmitted, hi.txDropped, hi.sink⟩
  · exact ⟨rfl, rfl, rfl, rfl, rfl, rfl⟩

/-! ## the ledger of the transmit side -/

/-- what was written and what left, next to the state they led to -/
structure Ledger (sink : Option (List (BitVec 8))) (sent left : List (BitVec 8)) (u : Pl011) :
    Prop where
  handed : u.sink = sink.map (· ++ left)
  emitted : u.txEmitted = BitVec.ofNat 64 left.length
  account : ∃ lost, u.txDropped = BitVec.ofNat 64 lost ∧ Queue.Account sent left u.queued lost
  room : u.txCount ≤ pl011TxRing
  head : u.txHead < pl011TxRing

variable {sink : Option (List (BitVec 8))} {sent left : List (BitVec 8)}

theorem SameTransmitter.queued (h : SameTransmitter u u') : u'.queued = u.queued := by
  unfold Pl011.queued
  rw [h.tx, h.txHead, h.txCount]

theorem Ledger.frame (h : Ledger sink sent left u) (hs : SameTransmitter u u') :
    Ledger sink sent left u' where
  handed := hs.sink.trans h.handed
  emitted := hs.txEmitted.trans h.emitted
  account := by
    rw [hs.txDropped, hs.queued]
    exact h.account
  room := by
    rw [hs.txCount]
    exact h.room
  head := by
    rw [hs.txHead]
    exact h.head

theorem Ledger.start (sink : Option (List (BitVec 8))) : Ledger sink [] [] (init sink) where
  handed := by cases sink <;> simp [init]
  emitted := rfl
  account := ⟨0, rfl, .start⟩
  room := Nat.zero_le _
  head := show 0 < pl011TxRing by decide

theorem counted (n : Nat) : BitVec.ofNat 64 n + 1 = BitVec.ofNat 64 (n + 1) := by
  rw [BitVec.ofNat_add]
  rfl

theorem Ledger.emit (h : Ledger sink sent left u) (b : BitVec 8) :
    Ledger sink (sent ++ [b]) (left ++ [b]) (u.emit b) where
  handed := by
    show u.sink.map (· ++ [b]) = _
    rw [h.handed]
    cases sink with
    | none => rfl
    | some s => simp
  emitted := by
    show u.txEmitted + 1 = _
    rw [h.emitted, List.length_append, List.length_singleton, counted]
  account := by
    obtain ⟨lost, hl, ha⟩ := h.account
    exact ⟨lost, hl, ha.pass b⟩
  room := h.room
  head := h.head

/-- the oldest byte given up -/
def discard (u : Pl011) : Pl011 :=
  { u with
    txHead := (u.txHead + 1) % pl011TxRing
    txCount := u.txCount - 1
    txDropped := u.txDropped + 1 }

/-- a byte stored behind the last -/
def append (u : Pl011) (byte : BitVec 8) : Pl011 :=
  { u with
    tx := Function.update u.tx ((u.txHead + u.txCount) % pl011TxRing) byte
    txCount := u.txCount + 1 }

theorem txPush_eq (u : Pl011) (byte : BitVec 8) :
    u.txPush byte = (if u.txCount ≥ pl011TxRing then u.discard else u).append byte := rfl

theorem queued_head (hh : u.txHead < pl011TxRing) (h : u.txCount ≠ 0) :
    u.queued = u.tx u.txHead ::
      Ring.contents pl011TxRing u.tx (Ring.slot pl011TxRing u.txHead 1) (u.txCount - 1) := by
  obtain ⟨m, hm⟩ := Nat.exists_eq_succ_of_ne_zero h
  unfold queued
  rw [hm, Ring.contents_cons hh]
  rfl

theorem head_next (head : Nat) : (head + 1) % pl011TxRing < pl011TxRing :=
  Ring.slot_lt (by decide) head 1

theorem queued_append (h : u.txCount < pl011TxRing) (b : BitVec 8) :
    (u.append b).queued = u.queued ++ [b] := Ring.contents_push h b

theorem queued_discard (hh : u.txHead < pl011TxRing) (h : u.txCount ≠ 0) :
    u.queued = u.tx u.txHead :: u.discard.queued :=
  queued_head hh h

theorem Ledger.discard (h : Ledger sink sent left u) (hne : u.txCount ≠ 0) :
    Ledger sink sent left u.discard where
  handed := h.handed
  emitted := h.emitted
  account := by
    obtain ⟨lost, hl, ha⟩ := h.account
    rw [queued_discard h.head hne] at ha
    refine ⟨lost + 1, ?_, ha.lose⟩
    show u.txDropped + 1 = _
    rw [hl, counted]
  room := le_trans (Nat.sub_le _ _) h.room
  head := head_next u.txHead

theorem Ledger.append (h : Ledger sink sent left u) (hroom : u.txCount < pl011TxRing)
    (b : BitVec 8) : Ledger sink (sent ++ [b]) left (u.append b) where
  handed := h.handed
  emitted := h.emitted
  account := by
    obtain ⟨lost, hl, ha⟩ := h.account
    refine ⟨lost, hl, ?_⟩
    rw [queued_append hroom]
    exact ha.push b
  room := hroom
  head := h.head

theorem discard_room (h : u.txCount ≤ pl011TxRing) :
    (if u.txCount ≥ pl011TxRing then u.discard else u).txCount < pl011TxRing := by
  by_cases hf : u.txCount ≥ pl011TxRing
  · rw [if_pos hf]
    show u.txCount - 1 < pl011TxRing
    have hpos : 0 < pl011TxRing := by decide
    omega
  · rw [if_neg hf]
    exact Nat.lt_of_not_le hf

theorem full_nonempty (h : u.txCount ≥ pl011TxRing) : u.txCount ≠ 0 := by
  have hpos : 0 < pl011TxRing := by decide
  omega

theorem Ledger.push (h : Ledger sink sent left u) (b : BitVec 8) :
    Ledger sink (sent ++ [b]) left (u.txPush b) := by
  rw [txPush_eq]
  refine Ledger.append ?_ (discard_room h.room) b
  by_cases hf : u.txCount ≥ pl011TxRing
  · rw [if_pos hf]
    exact h.discard (full_nonempty hf)
  · rw [if_neg hf]
    exact h

theorem Ledger.pumpOne (h : Ledger sink sent left u) (hne : u.txCount ≠ 0) :
    Ledger sink sent (left ++ [u.tx u.txHead]) u.pumpOne where
  handed := by
    show u.sink.map (· ++ [u.tx u.txHead]) = _
    rw [h.handed]
    cases sink with
    | none => rfl
    | some s => simp
  emitted := by
    show u.txEmitted + 1 = _
    rw [h.emitted, List.length_append, List.length_singleton, counted]
  account := by
    obtain ⟨lost, hl, ha⟩ := h.account
    rw [queued_head h.head hne] at ha
    exact ⟨lost, hl, ha.pop⟩
  room := le_trans (Nat.sub_le _ _) h.room
  head := head_next u.txHead

theorem queued_pumpOne (hh : u.txHead < pl011TxRing) (h : u.txCount ≠ 0) :
    u.queued = u.tx u.txHead :: u.pumpOne.queued :=
  queued_head hh h

theorem queued_empty (h : u.txCount = 0) : u.queued = [] := by
  unfold queued
  rw [h]
  rfl

theorem Ledger.drain (h : Ledger sink sent left u) {n : Nat} (hn : u.txCount = n) :
    Ledger sink sent (left ++ u.queued) (Pl011.pumpOne^[n] u) := by
  induction n generalizing u left with
  | zero =>
    rw [queued_empty hn, List.append_nil]
    exact h
  | succ n ih =>
    have hne : u.txCount ≠ 0 := by omega
    have hcount : u.pumpOne.txCount = n := by
      show u.txCount - 1 = n
      omega
    have hnext := ih (h.pumpOne hne) hcount
    rw [List.append_assoc, List.singleton_append, ← queued_pumpOne h.head hne] at hnext
    exact hnext

theorem Ledger.pump (h : Ledger sink sent left u) :
    Ledger sink sent (left ++ u.queued) u.pump.2 :=
  (h.drain rfl).frame (updateFlags_sameTransmitter _)

theorem pump_queued (u : Pl011) : u.pump.2.queued = [] := by
  have h : ∀ n, ∀ v : Pl011, v.txCount = n → (Pl011.pumpOne^[n] v).txCount = 0 := by
    intro n
    induction n with
    | zero => exact fun v hv => hv
    | succ n ih =>
      intro v hv
      refine ih v.pumpOne ?_
      show v.txCount - 1 = n
      omega
  exact queued_empty (h u.txCount u rfl)

theorem order_push (hroom : u.txCount ≤ pl011TxRing) (hh : u.txHead < pl011TxRing)
    (h : (left ++ u.queued).Sublist sent) (b : BitVec 8) :
    (left ++ (u.txPush b).queued).Sublist (sent ++ [b]) := by
  rw [txPush_eq, queued_append (discard_room hroom)]
  refine Queue.order_push ?_ b
  by_cases hf : u.txCount ≥ pl011TxRing
  · rw [if_pos hf]
    rw [queued_discard hh (full_nonempty hf)] at h
    exact Queue.order_lose h
  · rw [if_neg hf]
    exact h

/-! ## one request -/

theorem serve_data (u : Pl011) {offset : W64} {size : MemSize} (value : W64)
    (h : atData offset size = true) :
    SameTransmitter
      (if u.cr &&& crFen = 0 then u.emit ((value.setWidth 32).setWidth 8)
        else u.txPush ((value.setWidth 32).setWidth 8))
      (u.serve (.write offset size value)) := by
  rcases u.write_cases offset size value with ⟨-, hw⟩ | ⟨hn, -⟩ | ⟨hn, -⟩
  · show SameTransmitter _ (u.write offset size value).2
    rw [hw]
    exact (u.writeDr_sameTransmitter _).trans (updateFlags_sameTransmitter _)
  · rw [h] at hn
    cases hn
  · rw [h] at hn
    cases hn

theorem serve_register (u : Pl011) {offset : W64} {size : MemSize} (value : W64)
    (h : atData offset size = false) : SameTransmitter u (u.serve (.write offset size value)) := by
  rcases u.write_cases offset size value with ⟨hn, -⟩ | ⟨-, -, hw⟩ | ⟨-, -, w, hq, hw⟩
  · rw [h] at hn
    cases hn
  · show SameTransmitter u (u.write offset size value).2
    rw [hw]
    exact .rfl
  · show SameTransmitter u (u.write offset size value).2
    rw [hw]
    exact hq.sameTransmitter.trans (updateFlags_sameTransmitter w)

/-- **every request keeps the ledger** -/
theorem Ledger.serve (h : Ledger sink sent left u) (q : Req) :
    Ledger sink (sent ++ q.data) (left ++ u.leaving q) (u.serve q) := by
  cases q with
  | read offset size =>
    rw [show Req.data (.read offset size) = [] from rfl,
      show u.leaving (.read offset size) = [] from rfl, List.append_nil, List.append_nil]
    exact h.frame (u.read_sameTransmitter offset size)
  | pump =>
    rw [show Req.data .pump = [] from rfl, List.append_nil]
    exact h.pump
  | inject byte =>
    rw [show Req.data (.inject byte) = [] from rfl,
      show u.leaving (.inject byte) = [] from rfl, List.append_nil, List.append_nil]
    exact h.frame (u.inject_sameTransmitter byte)
  | write offset size value =>
    have hleft : u.leaving (.write offset size value) =
        if u.cr &&& crFen = 0 then (Req.write offset size value).data else [] := rfl
    rw [hleft]
    cases hd : atData offset size with
    | false =>
      have hdata : (Req.write offset size value).data = [] := if_neg (by rw [hd]; decide)
      rw [hdata, ite_self, List.append_nil, List.append_nil]
      exact h.frame (u.serve_register value hd)
    | true =>
      have hdata : (Req.write offset size value).data = [(value.setWidth 32).setWidth 8] :=
        if_pos hd
      have hs := u.serve_data value hd
      rw [hdata]
      by_cases hfen : u.cr &&& crFen = 0
      · rw [if_pos hfen] at hs ⊢
        exact (h.emit _).frame hs
      · rw [if_neg hfen] at hs ⊢
        rw [List.append_nil]
        exact (h.push _).frame hs

/-- what waited still leads, behind what left, as long as nothing overtakes it -/
theorem order_serve (hroom : u.txCount ≤ pl011TxRing) (hh : u.txHead < pl011TxRing) {q : Req}
    (hq : ¬ u.Overtakes q) (h : (left ++ u.queued).Sublist sent) :
    (left ++ u.leaving q ++ (u.serve q).queued).Sublist (sent ++ q.data) := by
  cases q with
  | read offset size =>
    rw [show u.leaving (.read offset size) = [] from rfl,
      show Req.data (.read offset size) = [] from rfl, List.append_nil, List.append_nil,
      show (u.serve (.read offset size)).queued = _ from
        (u.read_sameTransmitter offset size).queued]
    exact h
  | inject byte =>
    rw [show u.leaving (.inject byte) = [] from rfl,
      show Req.data (.inject byte) = [] from rfl, List.append_nil, List.append_nil,
      show (u.serve (.inject byte)).queued = _ from (u.inject_sameTransmitter byte).queued]
    exact h
  | pump =>
    have hempty : (u.serve .pump).queued = [] := u.pump_queued
    rw [show u.leaving .pump = u.queued from rfl, show Req.data .pump = [] from rfl, hempty,
      List.append_nil, List.append_nil]
    exact h
  | write offset size value =>
    have hleft : u.leaving (.write offset size value) =
        if u.cr &&& crFen = 0 then (Req.write offset size value).data else [] := rfl
    rw [hleft]
    cases hd : atData offset size with
    | false =>
      have hdata : (Req.write offset size value).data = [] := if_neg (by rw [hd]; decide)
      rw [hdata, ite_self, List.append_nil, List.append_nil, (u.serve_register value hd).queued]
      exact h
    | true =>
      have hdata : (Req.write offset size value).data = [(value.setWidth 32).setWidth 8] :=
        if_pos hd
      have hs := u.serve_data value hd
      rw [hs.queued, hdata]
      by_cases hfen : u.cr &&& crFen = 0
      · have hnone : u.txCount = 0 := by
          by_contra hne
          refine hq ⟨?_, hfen, hne⟩
          rw [hdata]
          exact List.cons_ne_nil _ _
        have hempty : (u.emit ((value.setWidth 32).setWidth 8)).queued = [] := queued_empty hnone
        rw [queued_empty hnone, List.append_nil] at h
        rw [if_pos hfen, if_pos hfen, hempty, List.append_nil]
        exact h.append (List.Sublist.refl _)
      · rw [if_neg hfen, if_neg hfen, List.append_nil]
        exact order_push hroom hh h _

/-! ## every run -/

/-- the UART with what was written to its data register and what left it -/
structure Line where
  uart : Pl011
  sent : List (BitVec 8)
  left : List (BitVec 8)

/-- a UART just initialised -/
def Line.start (sink : Option (List (BitVec 8))) : Line where
  uart := init sink
  sent := []
  left := []

def Line.serve (w : Line) (q : Req) : Line where
  uart := w.uart.serve q
  sent := w.sent ++ q.data
  left := w.left ++ w.uart.leaving q

/-- one request of any kind -/
def Line.Step (w : Line) (q : Req) (w' : Line) : Prop := w' = w.serve q

/-- one request that does not overtake a queued byte -/
def Line.Orderly (w : Line) (q : Req) (w' : Line) : Prop := w.Step q w' ∧ ¬ w.uart.Overtakes q

/-- what is asked of the transmit side in a state that is reached -/
structure Line.Transmits (sink : Option (List (BitVec 8))) (w : Line) : Prop where
  handed : w.uart.sink = sink.map (· ++ w.left)
  order : w.left.Sublist w.sent
  total : BitVec.ofNat 64 w.sent.length =
    w.uart.txEmitted + BitVec.ofNat 64 w.uart.txCount + w.uart.txDropped
  counted : w.sent.length < 2 ^ 64 →
    w.sent.length = w.uart.txEmitted.toNat + w.uart.txCount + w.uart.txDropped.toNat
  missing : ∃ lost, w.uart.txDropped = BitVec.ofNat 64 lost ∧
    Queue.Account w.sent w.left w.uart.queued lost
  count : w.uart.txCount ≤ pl011TxRing
  head : w.uart.txHead < pl011TxRing

/-- **each byte written is emitted, queued or counted as dropped, whatever the guest does** -/
theorem line_conserved {l : List Req} {w : Line} (h : Lts.Run Line.Step (.start sink) l w) :
    Ledger sink w.sent w.left w.uart := by
  refine @Lts.Run.invariant _ _ _ _ _ (fun w => Ledger sink w.sent w.left w.uart) (fun _ => True)
    ?_ _ h (fun _ _ => trivial) (Ledger.start sink)
  intro w q w' hw _ hs
  rw [show w' = w.serve q from hs]
  exact hw.serve q

theorem Ledger.total (h : Ledger sink sent left u) :
    BitVec.ofNat 64 sent.length =
      u.txEmitted + BitVec.ofNat 64 u.txCount + u.txDropped := by
  obtain ⟨lost, hl, ha⟩ := h.account
  rw [h.emitted, hl, ha.size, BitVec.ofNat_add, BitVec.ofNat_add]
  unfold queued
  rw [Ring.contents_length]

theorem Ledger.counted (h : Ledger sink sent left u) (hsmall : sent.length < 2 ^ 64) :
    sent.length = u.txEmitted.toNat + u.txCount + u.txDropped.toNat := by
  obtain ⟨lost, hl, ha⟩ := h.account
  have hs := ha.size
  have hq : u.queued.length = u.txCount := Ring.contents_length
  rw [h.emitted, hl, BitVec.toNat_ofNat, BitVec.toNat_ofNat, Nat.mod_eq_of_lt (by omega),
    Nat.mod_eq_of_lt (by omega)]
  omega

theorem Orderly.run {l : List Req} {w w' : Line} (h : Lts.Run Line.Orderly w l w') :
    Lts.Run Line.Step w l w' := by
  induction h with
  | nil w => exact .nil w
  | cons hs _ ih => exact .cons hs.1 ih

/-- **a run in which no byte is written past a queued one transmits in order and loses nothing
uncounted** -/
theorem transmit_in_order {l : List Req} {w : Line}
    (h : Lts.Run Line.Orderly (.start sink) l w) : w.Transmits sink := by
  have hl := line_conserved (Orderly.run h)
  have horder : w.uart.txCount ≤ pl011TxRing ∧ (w.left ++ w.uart.queued).Sublist w.sent := by
    refine @Lts.Run.invariant _ _ _ _ _
      (fun w => Ledger sink w.sent w.left w.uart ∧ (w.left ++ w.uart.queued).Sublist w.sent)
      (fun _ => True) ?_ _ h (fun _ _ => trivial) ⟨Ledger.start sink, List.Sublist.refl _⟩ |>.imp_left
      Ledger.room
    intro w q w' hw _ hs
    obtain ⟨hstep, hnot⟩ := hs
    rw [show w' = w.serve q from hstep]
    exact ⟨hw.1.serve q, order_serve hw.1.room hw.1.head hnot hw.2⟩
  exact ⟨hl.handed, (List.sublist_append_left _ _).trans horder.2, hl.total, hl.counted, hl.account,
    hl.room, hl.head⟩

/-- a word written to a register -/
def store (offset value : W64) : Req := .write offset .word value

/-- the FIFO turned on, one byte queued and pumped -/
theorem transmit_in_order_fifo :
    ∃ w, Lts.Run Line.Orderly (.start (some [])) [store 0x30 0x10, store 0x00 0x61, .pump] w ∧
      w.left = [0x61] ∧ w.Transmits (some []) := by
  have hrun : Lts.Run Line.Orderly (.start (some [])) [store 0x30 0x10, store 0x00 0x61, .pump]
      ((((Line.start (some [])).serve (store 0x30 0x10)).serve (store 0x00 0x61)).serve .pump) := by
    refine .cons ⟨rfl, ?_⟩ (.cons ⟨rfl, ?_⟩ (.cons ⟨rfl, ?_⟩ (.nil _)))
    · exact fun h => h.1 (by decide)
    · exact fun h => absurd h.2.1 (by decide)
    · exact fun h => h.1 rfl
  exact ⟨_, hrun, by decide +kernel, transmit_in_order hrun⟩

/-- a byte queued, the FIFO turned off, and a second byte: the second leaves first -/
theorem immediate_overtakes :
    ∃ w, Lts.Run Line.Step (.start (some []))
        [store 0x30 0x10, store 0x00 0x61, store 0x30 0x00, store 0x00 0x62, .pump] w ∧
      w.sent = [0x61, 0x62] ∧ w.uart.sink = some [0x62, 0x61] ∧ ¬ w.Transmits (some []) := by
  have hrun : Lts.Run Line.Step (.start (some []))
      [store 0x30 0x10, store 0x00 0x61, store 0x30 0x00, store 0x00 0x62, .pump] _ :=
    .cons rfl (.cons rfl (.cons rfl (.cons rfl (.cons rfl (.nil _)))))
  refine ⟨_, hrun, rfl, by decide +kernel, ?_⟩
  intro h
  exact absurd h.order (by decide +kernel)

end Pl011

end Oemu
