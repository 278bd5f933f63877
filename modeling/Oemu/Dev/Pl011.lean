import Oemu.Aspace

/-!
# The console UART

`Pl011` is the register file of the PL011 with its two rings.  Transmitted bytes go to the host's
sink, `sink`, at once or through the transmit ring when the FIFO is enabled; received bytes come from
the host, or from the loopback, and queue in the receive ring.

* `read`, `write`   the register window, `ops` as a device;
* `inject`          one host byte for the receiver, which may refuse it;
* `pump`            the transmit ring drained into the sink;
* `irqLevel`        the interrupt output;
* `serve`           one request of the guest or of the host.

`read_cases` and `write_cases` say once what a register access can do.
-/

namespace Oemu

def pl011TxRing : Nat := 65536

def pl011RxRing : Nat := 16

/-- `sink` is what the host was handed so far, and `none` without a sink; the rings are cells by index -/
structure Pl011 where
  fr : W32
  cr : W32
  ibrd : W32
  fbrd : W32
  lcrH : W32
  fifls : W32
  imsc : W32
  ris : W32
  tx : Nat → BitVec 8
  txHead : Nat
  txCount : Nat
  rx : Nat → BitVec 8
  rxHead : Nat
  rxTail : Nat
  rxCount : Nat
  txEmitted : W64
  txDropped : W64
  rxDropped : W64
  sink : Option (List (BitVec 8))

namespace Pl011

def frRxfe : W32 := 0x010

def frTxfe : W32 := 0x080

def crUarten : W32 := 0x01

def crFen : W32 := 0x10

def crLbe : W32 := 0x80

def crTxe : W32 := 0x100

def crRxe : W32 := 0x200

def crReset : W32 := crTxe ||| crLbe

def intTxis : W32 := 0x20

/-- a received byte raises the receive interrupt and the receive timeout -/
def intRx : W32 := 0x10 ||| 0x40

def init (sink : Option (List (BitVec 8))) : Pl011 where
  fr := 0
  cr := crReset
  ibrd := 0
  fbrd := 0
  lcrH := 0
  fifls := 0
  imsc := 0
  ris := 0
  tx := fun _ => 0
  txHead := 0
  txCount := 0
  rx := fun _ => 0
  rxHead := 0
  rxTail := 0
  rxCount := 0
  txEmitted := 0
  txDropped := 0
  rxDropped := 0
  sink := sink

/-- an idle line is ready to transmit whatever the ring holds -/
def updateFlags (u : Pl011) : Pl011 :=
  { u with fr := if u.rxCount = 0 then frTxfe ||| frRxfe else frTxfe }

/-- one byte leaves for the host -/
def emit (u : Pl011) (byte : BitVec 8) : Pl011 :=
  { u with sink := u.sink.map (· ++ [byte]), txEmitted := u.txEmitted + 1 }

/-- queue a byte; a full ring loses its oldest -/
def txPush (u : Pl011) (byte : BitVec 8) : Pl011 :=
  let u :=
    if u.txCount ≥ pl011TxRing then
      { u with
        txHead := (u.txHead + 1) % pl011TxRing
        txCount := u.txCount - 1
        txDropped := u.txDropped + 1 }
    else u
  { u with
    tx := Function.update u.tx ((u.txHead + u.txCount) % pl011TxRing) byte
    txCount := u.txCount + 1 }

/-- is the receiver on -/
def listens (u : Pl011) : Bool := u.cr &&& (crUarten ||| crRxe) == (crUarten ||| crRxe)

/-- `oemu_pl011_inject` -/
def inject (u : Pl011) (byte : BitVec 8) : Status × Pl011 :=
  if !u.listens then (.state, u)
  else if u.rxCount ≥ pl011RxRing then (.full, u)
  else
    let u := { u with
      rx := Function.update u.rx u.rxTail byte
      rxTail := (u.rxTail + 1) % pl011RxRing
      rxCount := u.rxCount + 1
      ris := u.ris ||| intRx }
    (.ok, u.updateFlags)

/-- pop the receive ring; the last byte retires the receive status -/
def readDr (u : Pl011) : W32 × Pl011 :=
  if u.rxCount ≠ 0 then
    let v : W32 := (u.rx u.rxHead).setWidth 32
    let u := { u with rxHead := (u.rxHead + 1) % pl011RxRing, rxCount := u.rxCount - 1 }
    let u := if u.rxCount = 0 then { u with ris := u.ris &&& ~~~intRx } else u
    (v, u.updateFlags)
  else (0, u.updateFlags)

def read (u : Pl011) (offset : W64) (size : MemSize) : Status × W64 × Pl011 :=
  if size.log2 > MemSize.dword.log2 then (.invalidArg, 0, u)
  else
    let (v, u) : W32 × Pl011 :=
      match offset.toNat with
      | 0x00 => u.readDr
      | 0x18 => (u.fr, u)
      | 0x24 => (u.ibrd, u)
      | 0x28 => (u.fbrd, u)
      | 0x2C => (u.lcrH, u)
      | 0x30 => (u.cr, u)
      | 0x34 => (u.fifls, u)
      | 0x38 => (u.imsc, u)
      | 0x3C => (u.ris, u)
      | 0x40 => (u.ris &&& u.imsc, u)
      | 0xFE0 => (0x11, u)
      | 0xFE4 => (0x10, u)
      | 0xFE8 => (0x14, u)
      | 0xFEC => (0x00, u)
      | 0xFF0 => (0x0D, u)
      | 0xFF4 => (0xF0, u)
      | 0xFF8 => (0x05, u)
      | 0xFFC => (0xB1, u)
      | _ => (0, u)
    (.ok, v.setWidth 64, u)

/-- a data write: out at once or through the ring, and back in through the loopback -/
def writeDr (u : Pl011) (byte : BitVec 8) : Pl011 :=
  let u := if u.cr &&& crFen = 0 then u.emit byte else u.txPush byte
  let u := { u with ris := u.ris ||| intTxis }
  if u.cr &&& crLbe ≠ 0 ∧ u.cr &&& crRxe ≠ 0 then
    match u.inject byte with
    | (.ok, u) => u
    | (_, u) => { u with rxDropped := u.rxDropped + 1 }
  else u

def write (u : Pl011) (offset : W64) (size : MemSize) (value : W64) : Status × Pl011 :=
  if size.log2 > MemSize.dword.log2 then (.invalidArg, u)
  else
    let v : W32 := value.setWidth 32
    let u :=
      match offset.toNat with
      | 0x00 => u.writeDr (v.setWidth 8)
      | 0x24 => { u with ibrd := v }
      | 0x28 => { u with fbrd := v }
      | 0x2C => { u with lcrH := v }
      | 0x30 => { u with cr := v }
      | 0x34 => { u with fifls := v }
      | 0x38 => { u with imsc := v }
      | 0x44 => { u with ris := u.ris &&& ~~~v }
      | _ => u
    (.ok, u.updateFlags)

def ops : DeviceOps Pl011 where
  read := read
  write := write

/-- one byte of the transmit ring leaves for the host -/
def pumpOne (u : Pl011) : Pl011 :=
  let byte := u.tx u.txHead
  { u with txHead := (u.txHead + 1) % pl011TxRing, txCount := u.txCount - 1 }.emit byte

/-- `oemu_pl011_pump`: the ring drained, with the number of bytes it held -/
def pump (u : Pl011) : Nat × Pl011 := (u.txCount, (pumpOne^[u.txCount] u).updateFlags)

/-- `oemu_pl011_irq_level` -/
def irqLevel (u : Pl011) : Bool := u.ris &&& u.imsc != 0

/-! ## requests -/

/-- what the guest and the host ask of the UART -/
inductive Req where
  | read (offset : W64) (size : MemSize)
  | write (offset : W64) (size : MemSize) (value : W64)
  | pump
  | inject (byte : BitVec 8)
deriving DecidableEq, Repr

/-- the state a request leaves -/
def serve (u : Pl011) : Req → Pl011
  | .read offset size => (u.read offset size).2.2
  | .write offset size value => (u.write offset size value).2
  | .pump => u.pump.2
  | .inject byte => (u.inject byte).2

/-- does an access reach the data register -/
def atData (offset : W64) (size : MemSize) : Bool :=
  decide (size.log2 ≤ MemSize.dword.log2) && decide (offset.toNat = 0)

/-! ## what the operations leave alone -/

/-- the state the interrupt output and the receiver depend on -/
structure SameReceiver (u u' : Pl011) : Prop where
  cr : u'.cr = u.cr
  imsc : u'.imsc = u.imsc
  ris : u'.ris = u.ris
  rxCount : u'.rxCount = u.rxCount

variable {u u' : Pl011}

theorem SameReceiver.irqLevel (h : SameReceiver u u') : u'.irqLevel = u.irqLevel := by
  unfold Pl011.irqLevel
  rw [h.ris, h.imsc]

/-- draining the transmit ring is not seen by the receiver -/
theorem pump_sameReceiver (u : Pl011) : SameReceiver u u.pump.2 := by
  have h : ∀ n, SameReceiver u (pumpOne^[n] u) := by
    intro n
    induction n with
    | zero => exact ⟨rfl, rfl, rfl, rfl⟩
    | succ n ih =>
      rw [Function.iterate_succ_apply']
      exact ⟨ih.cr, ih.imsc, ih.ris, ih.rxCount⟩
  obtain ⟨h1, h2, h3, h4⟩ := h u.txCount
  exact ⟨h1, h2, h3, h4⟩

/-- a register access that moves no byte: both rings stay, and status bits are only cleared -/
structure Quiet (u w : Pl011) : Prop where
  tx : w.tx = u.tx
  txHead : w.txHead = u.txHead
  txCount : w.txCount = u.txCount
  txEmitted : w.txEmitted = u.txEmitted
  txDropped : w.txDropped = u.txDropped
  sink : w.sink = u.sink
  rx : w.rx = u.rx
  rxHead : w.rxHead = u.rxHead
  rxTail : w.rxTail = u.rxTail
  rxCount : w.rxCount = u.rxCount
  ris : ∃ m, w.ris = u.ris &&& m

/-- a read pops the receive ring, or changes nothing -/
theorem read_cases (u : Pl011) (offset : W64) (size : MemSize) :
    (atData offset size = true ∧
      u.read offset size = (.ok, u.readDr.1.setWidth 64, u.readDr.2)) ∨
    (atData offset size = false ∧ (u.read offset size).2.2 = u) := by
  unfold read atData
  by_cases hs : size.log2 > MemSize.dword.log2
  · rw [if_pos hs, decide_eq_false (Nat.not_le_of_lt hs)]
    exact .inr ⟨rfl, rfl⟩
  · rw [if_neg hs, decide_eq_true (Nat.le_of_not_lt hs), Bool.true_and]
    by_cases h0 : offset.toNat = 0
    · left
      rw [h0]
      exact ⟨rfl, rfl⟩
    · right
      refine ⟨decide_eq_false h0, ?_⟩
      split
      rename_i he
      split at he
      · rename_i h
        exact absurd h h0
      all_goals exact (Prod.mk.inj he).2.symm

/-- a write moves a byte, or is refused, or is quiet -/
theorem write_cases (u : Pl011) (offset : W64) (size : MemSize) (value : W64) :
    (atData offset size = true ∧ u.write offset size value =
      (.ok, (u.writeDr ((value.setWidth 32).setWidth 8)).updateFlags)) ∨
    (atData offset size = false ∧ size.log2 > MemSize.dword.log2 ∧
      (u.write offset size value).2 = u) ∨
    (atData offset size = false ∧ size.log2 ≤ MemSize.dword.log2 ∧
      ∃ w, Quiet u w ∧ u.write offset size value = (.ok, w.updateFlags)) := by
  have hsame : u.ris = u.ris &&& BitVec.allOnes 32 := (BitVec.and_allOnes).symm
  unfold write atData
  by_cases hs : size.log2 > MemSize.dword.log2
  · rw [if_pos hs, decide_eq_false (Nat.not_le_of_lt hs)]
    exact .inr (.inl ⟨rfl, hs, rfl⟩)
  · rw [if_neg hs, decide_eq_true (Nat.le_of_not_lt hs), Bool.true_and]
    by_cases h0 : offset.toNat = 0
    · left
      rw [h0]
      exact ⟨rfl, rfl⟩
    · right
      right
      refine ⟨decide_eq_false h0, Nat.le_of_not_lt hs, ?_⟩
      dsimp only
      split
      · rename_i he
        exact absurd he h0
      all_goals refine ⟨_, ?_, rfl⟩
      all_goals refine ⟨rfl, rfl, rfl, rfl, rfl, rfl, rfl, rfl, rfl, rfl, ?_⟩
      all_goals first | exact ⟨_, hsame⟩ | exact ⟨_, rfl⟩

/-- does the receiver take a byte now -/
def accepts (u : Pl011) : Bool := u.listens && decide (u.rxCount < pl011RxRing)

theorem inject_refused (h : u.accepts = false) (byte : BitVec 8) :
    (u.inject byte).1 ≠ .ok ∧ (u.inject byte).2 = u := by
  unfold inject
  by_cases hl : u.listens = true
  · rw [hl, if_neg (by decide)]
    have hfull : u.rxCount ≥ pl011RxRing := by
      unfold accepts at h
      rw [hl, Bool.true_and, decide_eq_false_iff_not] at h
      exact Nat.le_of_not_lt h
    rw [if_pos hfull]
    exact ⟨Status.noConfusion, rfl⟩
  · rw [Bool.eq_false_of_not_eq_true hl, if_pos (show (!false) = true from rfl)]
    exact ⟨Status.noConfusion, rfl⟩

theorem inject_accepted (h : u.accepts = true) (byte : BitVec 8) :
    (u.inject byte).1 = .ok ∧ (u.inject byte).2.rxCount = u.rxCount + 1 ∧
      (u.inject byte).2.cr = u.cr := by
  unfold accepts at h
  rw [Bool.and_eq_true, decide_eq_true_eq] at h
  unfold inject
  rw [h.1, if_neg (by decide), if_neg (Nat.not_le_of_lt h.2)]
  exact ⟨rfl, rfl, rfl⟩

end Pl011

end Oemu
