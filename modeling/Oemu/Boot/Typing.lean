import Oemu.Boot.Console
import Oemu.Dev.Receive
import Oemu.Lib.Run

/-!
# From the host's keyboard to the guest

`Link` is the UART and the console of the boot loop with what passed between them: the bytes the
receiver took in, each with its origin, and the values the guest read.  Its runs are all
interleavings of guest accesses, pumps, and the input the boot loop reads and offers.

* `injectHeld_split`   what is held is what is offered and taken, then what is kept;
* `drain_reads`        what a pump reads is a prefix of what is still to come;
* `receive_in_order`   the receive ring is a queue and the host's bytes keep their order;
* `awaitInput_acts`    the blocking wait is made of the same acts.
-/

namespace Oemu

open Pl011

/-- the bytes of a stream of reads -/
def typed (l : List Poll) : List (BitVec 8) := l.filterMap fun p => match p with
  | .byte b => some b
  | _ => none

/-- the held bytes the receiver takes when they are offered in turn -/
def admitted : Pl011 → List (BitVec 8) → List (BitVec 8)
  | _, [] => []
  | u, b :: rest =>
    if u.accepts then b :: admitted (u.inject b).2 rest else admitted (u.inject b).2 rest

/-- who a received byte came from -/
inductive Origin where
  | host | loop
deriving DecidableEq, Repr

/-- what happens between two states of the link -/
inductive Act where
  | read (offset : W64) (size : MemSize)
  | write (offset : W64) (size : MemSize) (value : W64)
  | pump | held | stdin | wait
deriving DecidableEq, Repr

/-- the UART and the console, with what the receiver took in and what the guest read; `awake` once the
flags were computed -/
structure Link where
  uart : Pl011
  console : Console
  taken : List (Origin × BitVec 8)
  given : List W64
  awake : Bool

namespace Link

def start (sink : Option (List (BitVec 8))) (stdin : List Poll) : Link where
  uart := init sink
  console := Console.start stdin
  taken := []
  given := []
  awake := false

/-- a request of the guest, or the pump of its output -/
def serve (k : Link) (q : Req) : Link where
  uart := k.uart.serve q
  console := k.console
  taken := k.taken ++ (k.uart.taken q).map (Origin.loop, ·)
  given := k.given ++ k.uart.given q
  awake := k.awake || k.uart.stirs q

/-- the held bytes offered to the receiver -/
def offer (k : Link) : Link where
  uart := (deliver k.uart k.console).1
  console := (deliver k.uart k.console).2
  taken := k.taken ++ (admitted k.uart k.console.held).map (Origin.host, ·)
  given := k.given
  awake := k.awake || decide (admitted k.uart k.console.held ≠ [])

/-- the read of `boot_await_input` -/
def await (c : Console) : Console :=
  (Console.readWaiting c.stdin).1.elim
    { c with stdin := (Console.readWaiting c.stdin).2, eof := true }
    fun b => { c with stdin := (Console.readWaiting c.stdin).2 }.keep b

def act (k : Link) : Act → Link
  | .read offset size => k.serve (.read offset size)
  | .write offset size value => k.serve (.write offset size value)
  | .pump => k.serve .pump
  | .held => k.offer
  | .stdin => { k with console := Console.drain k.console.stdin k.console }.offer
  | .wait => { k with console := await k.console }

def Step (k : Link) (a : Act) (k' : Link) : Prop := k' = k.act a

def hostBytes (l : List (Origin × BitVec 8)) : List (BitVec 8) :=
  (l.filter (·.1 = .host)).map Prod.snd

/-- what is asked of the receive side in a state that is reached from `stdin` -/
structure Receives (stdin : List Poll) (k : Link) : Prop where
  reads : k.given ++ wide k.uart.received = wide (k.taken.map Prod.snd)
  host : ∃ arrived lost, typed stdin = arrived ++ typed k.console.stdin ∧
    k.console.dropped = BitVec.ofNat 64 lost ∧
    arrived.length = (hostBytes k.taken).length + k.console.held.length + lost ∧
    (hostBytes k.taken ++ k.console.held).Sublist arrived ∧
    (hostBytes (k.taken.take k.given.length)).Sublist arrived
  count : k.uart.rxCount ≤ 16
  head : k.uart.rxHead < 16
  tail : k.uart.rxTail = (k.uart.rxHead + k.uart.rxCount) % 16
  quiet : k.uart.rxCount = 0 → k.uart.ris &&& intRx = 0
  flags : k.awake = true → (k.uart.fr &&& frRxfe ≠ 0 ↔ k.uart.rxCount = 0)

end Link

/-! ## delivery -/

theorem admitted_refused {u : Pl011} (h : u.accepts = false) (l : List (BitVec 8)) :
    admitted u l = [] := by
  induction l with
  | nil => rfl
  | cons b rest ih =>
    unfold admitted
    rw [if_neg (by rw [h]; decide), (inject_refused h b).2]
    exact ih

/-- a refused byte is followed by none that is taken -/
theorem injectHeld_split (u : Pl011) (l : List (BitVec 8)) :
    l = admitted u l ++ (injectHeld u l).2 := by
  induction l generalizing u with
  | nil => rfl
  | cons b rest ih =>
    cases hacc : u.accepts with
    | false =>
      rw [admitted_refused hacc, injectHeld_refused hacc]
      rfl
    | true =>
      have hst := (inject_accepted hacc b).1
      unfold admitted injectHeld
      rw [if_pos hacc]
      rcases hi : u.inject b with ⟨st, u'⟩
      rw [hi] at hst
      cases hst
      exact congrArg (b :: ·) (ih u')

theorem injectHeld_received {u : Pl011} (h : Receiver u) (l : List (BitVec 8)) :
    Receiver (injectHeld u l).1 ∧
      (injectHeld u l).1.received = u.received ++ admitted u l := by
  induction l generalizing u with
  | nil => exact ⟨h, (List.append_nil _).symm⟩
  | cons b rest ih =>
    cases hacc : u.accepts with
    | false =>
      rw [admitted_refused hacc, injectHeld_refused hacc, List.append_nil]
      exact ⟨h, rfl⟩
    | true =>
      obtain ⟨hr, hq⟩ := inject_received h hacc b
      have hst := (inject_accepted hacc b).1
      unfold admitted injectHeld
      rw [if_pos hacc]
      rcases hi : u.inject b with ⟨st, u'⟩
      rw [hi] at hst hr hq
      cases hst
      obtain ⟨hr', hq'⟩ := ih hr
      refine ⟨hr', ?_⟩
      show (injectHeld u' rest).1.received = u.received ++ b :: admitted u' rest
      rw [hq', hq, List.append_assoc]
      rfl

theorem injectHeld_flags (u : Pl011) (l : List (BitVec 8)) :
    (admitted u l = [] → (injectHeld u l).1 = u) ∧
      (admitted u l ≠ [] → ∃ w, (injectHeld u l).1 = updateFlags w) := by
  induction l generalizing u with
  | nil => exact ⟨fun _ => rfl, fun h => absurd rfl h⟩
  | cons b rest ih =>
    cases hacc : u.accepts with
    | false =>
      rw [admitted_refused hacc, injectHeld_refused hacc]
      exact ⟨fun _ => rfl, fun h => absurd rfl h⟩
    | true =>
      have hst := (inject_accepted hacc b).1
      have hflags := u.serve_flags (.inject b)
      rw [if_pos (show u.stirs (.inject b) = true from hacc)] at hflags
      unfold admitted injectHeld
      rw [if_pos hacc]
      refine ⟨fun h => absurd h (List.cons_ne_nil _ _), fun _ => ?_⟩
      obtain ⟨w, hw⟩ := hflags
      change (u.inject b).2 = updateFlags w at hw
      rcases hi : u.inject b with ⟨st, u'⟩
      rw [hi] at hst hw
      cases hst
      dsimp only at hw ⊢
      obtain ⟨hsame, hmove⟩ := ih u'
      by_cases hnil : admitted u' rest = []
      · rw [hsame hnil]
        exact ⟨w, hw⟩
      · exact hmove hnil

/-! ## reading -/

/-- the order of what was taken and what is held, next to what arrived -/
structure Arrivals (arrived : List (BitVec 8)) (out : List (BitVec 8)) (c : Console) : Prop where
  account : ∃ lost, c.dropped = BitVec.ofNat 64 lost ∧ Queue.Account arrived out c.held lost
  order : (out ++ c.held).Sublist arrived

variable {arrived out : List (BitVec 8)} {c : Console}

theorem Arrivals.keep (h : Arrivals arrived out c) (b : BitVec 8) : Arrivals (arrived ++ [b]) out (c.keep b) := by
  obtain ⟨lost, hl, ha⟩ := h.account
  unfold Console.keep
  by_cases hfull : c.held.length ≥ bootHeldMax
  · rw [if_pos hfull]
    refine ⟨⟨lost + 1, ?_, ha.refuse b⟩, h.order.trans (List.sublist_append_left _ _)⟩
    show c.dropped + 1 = _
    rw [hl, BitVec.ofNat_add]
    rfl
  · rw [if_neg hfull]
    exact ⟨⟨lost, hl, ha.push b⟩, Queue.order_push h.order b⟩

/-- a pump reads a prefix of what is to come, and keeps its order -/
theorem drain_reads (l : List Poll) (h : Arrivals arrived out c) :
    ∃ now, typed l = now ++ typed (Console.drain l c).stdin ∧
      Arrivals (arrived ++ now) out (Console.drain l c) := by
  induction l generalizing c arrived with
  | nil =>
    refine ⟨[], rfl, ?_⟩
    rw [List.append_nil]
    exact ⟨h.account, h.order⟩
  | cons p rest ih =>
    cases p with
    | byte b =>
      obtain ⟨now, ht, hk⟩ := ih (h.keep b)
      rw [List.append_assoc, List.singleton_append] at hk
      exact ⟨b :: now, congrArg (b :: ·) ht, hk⟩
    | interrupted => exact ih h
    | idle | failed =>
      refine ⟨[], rfl, ?_⟩
      rw [List.append_nil]
      exact ⟨h.account, h.order⟩

theorem readWaiting_reads (l : List Poll) :
    typed l = (Console.readWaiting l).1.toList ++ typed (Console.readWaiting l).2 := by
  induction l with
  | nil => rfl
  | cons p rest ih =>
    cases p with
    | interrupted | idle => exact ih
    | byte b | failed => rfl

theorem await_reads (h : Arrivals arrived out c) :
    ∃ now, typed c.stdin = now ++ typed (Link.await c).stdin ∧
      Arrivals (arrived ++ now) out (Link.await c) := by
  have ht := readWaiting_reads c.stdin
  unfold Link.await
  rcases hw : Console.readWaiting c.stdin with ⟨b | b, rest⟩
  · rw [hw] at ht
    refine ⟨[], ht, ?_⟩
    rw [List.append_nil]
    exact ⟨h.account, h.order⟩
  · rw [hw] at ht
    have hs : ({ c with stdin := rest }.keep b).stdin = rest := (Console.keep_length _ _).2.1
    refine ⟨[b], ?_, Arrivals.keep (c := { c with stdin := rest }) ⟨h.account, h.order⟩ b⟩
    show typed c.stdin = [b] ++ typed ({ c with stdin := rest }.keep b).stdin
    rw [hs]
    exact ht

theorem Arrivals.deliver (h : Arrivals arrived out c) (u : Pl011) :
    Arrivals arrived (out ++ admitted u c.held) (Oemu.deliver u c).2 where
  account := by
    obtain ⟨lost, hl, ha⟩ := h.account
    rw [injectHeld_split u c.held] at ha
    exact ⟨lost, hl, ha.move⟩
  order := by
    have ho := h.order
    rw [injectHeld_split u c.held, ← List.append_assoc] at ho
    exact ho

/-! ## every run -/

namespace Link

theorem hostBytes_append (l l' : List (Origin × BitVec 8)) :
    hostBytes (l ++ l') = hostBytes l ++ hostBytes l' := by
  unfold hostBytes
  rw [List.filter_append, List.map_append]

theorem hostBytes_host (l : List (BitVec 8)) : hostBytes (l.map (Origin.host, ·)) = l := by
  unfold hostBytes
  induction l with
  | nil => rfl
  | cons b l ih => exact congrArg (b :: ·) ih

theorem hostBytes_loop (l : List (BitVec 8)) : hostBytes (l.map (Origin.loop, ·)) = [] := by
  unfold hostBytes
  induction l with
  | nil => rfl
  | cons b l ih => exact ih

theorem snd_tagged (o : Origin) (l : List (BitVec 8)) : (l.map (o, ·)).map Prod.snd = l := by
  rw [List.map_map]
  exact List.map_id l

structure Inv (stdin : List Poll) (k : Link) : Prop where
  receiver : Receiver k.uart
  reads : k.given ++ wide k.uart.received = wide (k.taken.map Prod.snd)
  host : ∃ arrived, typed stdin = arrived ++ typed k.console.stdin ∧
    Arrivals arrived (hostBytes k.taken) k.console
  flags : k.awake = true → (k.uart.fr &&& frRxfe ≠ 0 ↔ k.uart.rxCount = 0)

variable {stdin : List Poll} {k : Link}

theorem Inv.start (sink : Option (List (BitVec 8))) (stdin : List Poll) :
    Inv stdin (start sink stdin) where
  receiver := .start sink
  reads := rfl
  host := ⟨[], rfl, ⟨0, rfl, .start⟩, List.Sublist.refl _⟩
  flags := fun h => absurd h Bool.false_ne_true

theorem Inv.serve (h : Inv stdin k) (q : Req) : Inv stdin (k.serve q) := by
  obtain ⟨hr, hq⟩ := serve_receives h.receiver q
  refine ⟨hr, ?_, ?_, ?_⟩
  · show k.given ++ k.uart.given q ++ wide (k.uart.serve q).received = _
    rw [List.append_assoc, hq, wide_append, ← List.append_assoc, h.reads, ← wide_append]
    show _ = wide ((k.taken ++ (k.uart.taken q).map (Origin.loop, ·)).map Prod.snd)
    rw [List.map_append, snd_tagged]
  · show ∃ arrived, typed stdin = arrived ++ typed k.console.stdin ∧
      Arrivals arrived (hostBytes (k.taken ++ (k.uart.taken q).map (Origin.loop, ·))) k.console
    rw [hostBytes_append, hostBytes_loop, List.append_nil]
    exact h.host
  · have hf := k.uart.serve_flags q
    intro hawake
    cases hs : k.uart.stirs q with
    | true =>
      rw [if_pos hs] at hf
      obtain ⟨w, hw⟩ := hf
      show (k.uart.serve q).fr &&& frRxfe ≠ 0 ↔ (k.uart.serve q).rxCount = 0
      rw [hw]
      exact w.updateFlags_rxfe
    | false =>
      rw [if_neg (by rw [hs]; decide)] at hf
      show (k.uart.serve q).fr &&& frRxfe ≠ 0 ↔ (k.uart.serve q).rxCount = 0
      rw [hf]
      change (k.awake || k.uart.stirs q) = true at hawake
      rw [hs, Bool.or_false] at hawake
      exact h.flags hawake

theorem Inv.offer (h : Inv stdin k) : Inv stdin k.offer := by
  obtain ⟨hr, hq⟩ := injectHeld_received h.receiver k.console.held
  refine ⟨hr, ?_, ?_, ?_⟩
  · show k.given ++ wide (injectHeld k.uart k.console.held).1.received =
      wide ((k.taken ++ (admitted k.uart k.console.held).map (Origin.host, ·)).map Prod.snd)
    rw [hq, wide_append, ← List.append_assoc, h.reads, ← wide_append, List.map_append, snd_tagged]
  · obtain ⟨arrived, ht, hk⟩ := h.host
    refine ⟨arrived, ht, ?_⟩
    show Arrivals arrived (hostBytes (k.taken ++ (admitted k.uart k.console.held).map (Origin.host, ·)))
      (deliver k.uart k.console).2
    rw [hostBytes_append, hostBytes_host]
    exact hk.deliver k.uart
  · obtain ⟨hsame, hmove⟩ := injectHeld_flags k.uart k.console.held
    intro hawake
    show (injectHeld k.uart k.console.held).1.fr &&& frRxfe ≠ 0 ↔
      (injectHeld k.uart k.console.held).1.rxCount = 0
    by_cases hnil : admitted k.uart k.console.held = []
    · rw [hsame hnil]
      change (k.awake || decide (admitted k.uart k.console.held ≠ [])) = true at hawake
      rw [decide_eq_false (not_not_intro hnil), Bool.or_false] at hawake
      exact h.flags hawake
    · obtain ⟨w, hw⟩ := hmove hnil
      rw [hw]
      exact w.updateFlags_rxfe

theorem Inv.console (h : Inv stdin k) {c : Console}
    (hc : ∀ arrived, Arrivals arrived (hostBytes k.taken) k.console →
      ∃ now, typed k.console.stdin = now ++ typed c.stdin ∧
        Arrivals (arrived ++ now) (hostBytes k.taken) c) : Inv stdin { k with console := c } where
  receiver := h.receiver
  reads := h.reads
  host := by
    obtain ⟨arrived, ht, hk⟩ := h.host
    obtain ⟨now, hn, hk'⟩ := hc arrived hk
    refine ⟨arrived ++ now, ?_, hk'⟩
    rw [ht, hn, List.append_assoc]
  flags := h.flags

/-- **every act keeps the invariant** -/
theorem Inv.act (h : Inv stdin k) (a : Act) : Inv stdin (k.act a) := by
  cases a with
  | read offset size => exact h.serve _
  | write offset size value => exact h.serve _
  | pump => exact h.serve _
  | held => exact h.offer
  | stdin => exact (h.console fun arrived hk => drain_reads k.console.stdin hk).offer
  | wait => exact h.console fun arrived hk => await_reads hk

theorem given_length (h : Inv stdin k) : k.given.length ≤ k.taken.length := by
  have hlen := congrArg List.length h.reads
  unfold wide at hlen
  simp only [List.length_append, List.length_map] at hlen
  omega

/-- **received bytes: the ring is a queue, its indices and flags agree, and the bytes of the host
arrive in order, each once, none lost but those counted** -/
theorem receive_in_order {sink : Option (List (BitVec 8))} {acts : List Act}
    (h : Lts.Run Step (start sink stdin) acts k) : k.Receives stdin := by
  have hk : Inv stdin k := by
    refine @Lts.Run.invariant _ _ _ _ _ (Inv stdin) (fun _ => True) ?_ _ h (fun _ _ => trivial)
      (.start sink stdin)
    intro k a k' hk _ hs
    rw [show k' = k.act a from hs]
    exact hk.act a
  refine ⟨hk.reads, ?_, hk.receiver.count, hk.receiver.head, ?_, hk.receiver.quiet, hk.flags⟩
  · obtain ⟨arrived, ht, ⟨lost, hl, ha⟩, ho⟩ := hk.host
    refine ⟨arrived, lost, ht, hl, ha.size, ho, ?_⟩
    have htake : (hostBytes (k.taken.take k.given.length)).Sublist (hostBytes k.taken) :=
      ((List.take_sublist _ _).filter _).map _
    exact htake.trans ((List.sublist_append_left _ _).trans ho)
  · rw [hk.receiver.tail]
    rfl

/-- a byte typed before the receiver is on, one after it, and a read -/
theorem receive_in_order_typed :
    ∃ k, Lts.Run Step (start (some []) [.byte 0x61, .idle, .byte 0x62])
        [.stdin, .write 0x30 .word 0x301, .stdin, .read 0x00 .word] k ∧
      k.given = [0x61] ∧ k.uart.rxCount = 1 ∧
      k.Receives [.byte 0x61, .idle, .byte 0x62] := by
  have hrun : Lts.Run Step (start (some []) [.byte 0x61, .idle, .byte 0x62])
      [.stdin, .write 0x30 .word 0x301, .stdin, .read 0x00 .word] _ :=
    .cons rfl (.cons rfl (.cons rfl (.cons rfl (.nil _))))
  exact ⟨_, hrun, by decide +kernel, by decide +kernel, receive_in_order hrun⟩

theorem pumpStdin_act (k : Link) :
    pumpStdin k.uart k.console = ((k.act .stdin).uart, (k.act .stdin).console) := rfl

theorem awaitInput_acts (k : Link) :
    ∃ acts k', Lts.Run Step k acts k' ∧
      (awaitInput k.uart k.console).2 = (k'.uart, k'.console) := by
  rw [awaitInput_eq]
  have hoffer : Lts.Run Step k [.held] (k.act .held) := .cons rfl (.nil _)
  by_cases hne : (deliver k.uart k.console).2.held ≠ []
  · rw [if_pos hne]
    exact ⟨_, _, hoffer, rfl⟩
  · rw [if_neg hne]
    by_cases heof : k.console.eof = true
    · rw [if_pos heof]
      exact ⟨_, _, hoffer, rfl⟩
    · rw [if_neg heof]
      have hwait : Lts.Run Step k [.held, .wait] ((k.act .held).act .wait) :=
        .cons rfl (.cons rfl (.nil _))
      have hconsole : ((k.act .held).act .wait).console =
          (Console.readWaiting k.console.stdin).1.elim
            { (deliver k.uart k.console).2 with
              stdin := (Console.readWaiting k.console.stdin).2, eof := true }
            fun b => { (deliver k.uart k.console).2 with
              stdin := (Console.readWaiting k.console.stdin).2 }.keep b := rfl
      rcases hr : Console.readWaiting k.console.stdin with ⟨b | b, rest⟩ <;> rw [hr] at hconsole
      · exact ⟨_, _, hwait, Prod.ext rfl hconsole.symm⟩
      · refine ⟨_, ((k.act .held).act .wait).act .stdin, hwait.append (.cons rfl (.nil _)), ?_⟩
        show pumpStdin (deliver k.uart k.console).1 _ =
          pumpStdin ((k.act .held).act .wait).uart ((k.act .held).act .wait).console
        rw [hconsole]
        rfl

end Link

end Oemu
