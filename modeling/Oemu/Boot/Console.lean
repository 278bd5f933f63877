import Oemu.Dev.Pl011

/-!
# The interactive console

The boot loop carries the bytes typed on the host to the receiver of the UART.  A byte the receiver
refuses is held and tried again, `injectHeld`; `pumpStdin` reads what is there now and `awaitInput`
waits for more on behalf of a parked guest.

Standard input is the list of what successive reads find.  After the list it is closed.

* `Console.silent`      a poll that finds nothing new;
* `pumpStdin_counts`    no read and no delivery makes input out of nothing;
* `pumpStdin_silent`, `pumpStdin_moves`, `awaitInput_moves`  when a byte or the end of the input is
  consumed.
-/

namespace Oemu

/-- what a read of standard input finds: a byte, nothing yet, a signal, or an error -/
inductive Poll where
  | byte (b : BitVec 8) | idle | interrupted | failed
deriving DecidableEq, Repr

/-- `BOOT_HELD_MAX` -/
def bootHeldMax : Nat := 256

/-- standard input with what the boot loop holds back of it -/
structure Console where
  stdin : List Poll
  held : List (BitVec 8)
  dropped : W64
  eof : Bool
deriving DecidableEq, Repr

def Poll.isByte : Poll → Bool
  | .byte _ => true
  | _ => false

namespace Console

/-- a console nobody has typed at -/
def start (stdin : List Poll) : Console where
  stdin := stdin
  held := []
  dropped := 0
  eof := false

/-- hold a byte, or count it as lost -/
def keep (c : Console) (b : BitVec 8) : Console :=
  if c.held.length ≥ bootHeldMax then { c with dropped := c.dropped + 1 }
  else { c with held := c.held ++ [b] }

/-- the reads of `boot_pump_stdin`, until there is nothing to read -/
def drain : List Poll → Console → Console
  | [], c => { c with stdin := [], eof := true }
  | .byte b :: rest, c => drain rest (c.keep b)
  | .interrupted :: rest, c => drain rest c
  | .idle :: rest, c => { c with stdin := rest }
  | .failed :: rest, c => { c with stdin := rest }

/-- a read that waits: the byte it gets, if it gets one, and what is left to read -/
def readWaiting : List Poll → Option (BitVec 8) × List Poll
  | [] => (none, [])
  | .byte b :: rest => (some b, rest)
  | .interrupted :: rest => readWaiting rest
  | .idle :: rest => readWaiting rest
  | .failed :: rest => (none, rest)

/-- a poll finds no byte, and does not find the input closed for the first time -/
def silent : List Poll → Bool → Bool
  | [], eof => eof
  | .byte _ :: _, _ => false
  | .interrupted :: rest, eof => silent rest eof
  | .idle :: _, _ => true
  | .failed :: _, _ => true

/-- the bytes the host has still to deliver -/
def bytesLeft (c : Console) : Nat := c.stdin.countP (·.isByte)

end Console

/-- `boot_inject_held`: offer each byte, and keep those refused -/
def injectHeld : Pl011 → List (BitVec 8) → Pl011 × List (BitVec 8)
  | u, [] => (u, [])
  | u, b :: rest =>
    match u.inject b with
    | (.ok, u) => injectHeld u rest
    | (_, u) =>
      let (u, kept) := injectHeld u rest
      (u, b :: kept)

/-- offer what is held -/
def deliver (u : Pl011) (c : Console) : Pl011 × Console :=
  let (u, held) := injectHeld u c.held
  (u, { c with held })

/-- `boot_pump_stdin` -/
def pumpStdin (u : Pl011) (c : Console) : Pl011 × Console := deliver u (Console.drain c.stdin c)

/-- `boot_await_input`: is there a reason for the guest to run -/
def awaitInput (u : Pl011) (c : Console) : Bool × Pl011 × Console :=
  let (u, c) := if c.held ≠ [] then deliver u c else (u, c)
  if c.held ≠ [] then (true, u, c)
  else if c.eof then (false, u, c)
  else
    match Console.readWaiting c.stdin with
    | (some b, rest) => (true, pumpStdin u ({ c with stdin := rest }.keep b))
    | (none, rest) => (false, u, { c with stdin := rest, eof := true })

/-! ## delivery -/

theorem injectHeld_length (u : Pl011) (l : List (BitVec 8)) :
    (injectHeld u l).2.length ≤ l.length := by
  induction l generalizing u with
  | nil => exact Nat.le_refl _
  | cons b rest ih =>
    unfold injectHeld
    rcases u.inject b with ⟨st, u'⟩
    have hle := ih u'
    cases st <;> simp only [List.length_cons] <;> omega

theorem injectHeld_refused {u : Pl011} (h : u.accepts = false) (l : List (BitVec 8)) :
    injectHeld u l = (u, l) := by
  induction l with
  | nil => rfl
  | cons b rest ih =>
    obtain ⟨hst, hu⟩ := Pl011.inject_refused h b
    unfold injectHeld
    rcases hi : u.inject b with ⟨st, u'⟩
    rw [hi] at hst hu
    dsimp only at hst hu
    subst hu
    cases st <;> first | exact absurd rfl hst | (dsimp only; rw [ih])

theorem injectHeld_accepted {u : Pl011} (h : u.accepts = true) {l : List (BitVec 8)}
    (hl : l ≠ []) : (injectHeld u l).2.length < l.length := by
  cases l with
  | nil => exact absurd rfl hl
  | cons b rest =>
    have hst := (Pl011.inject_accepted h b).1
    unfold injectHeld
    rcases hi : u.inject b with ⟨st, u'⟩
    rw [hi] at hst
    dsimp only at hst
    subst hst
    have hle := injectHeld_length u' rest
    simp only [List.length_cons]
    omega

/-! ## reading -/

theorem Console.keep_length (c : Console) (b : BitVec 8) :
    (c.keep b).held.length ≤ c.held.length + 1 ∧ (c.keep b).stdin = c.stdin ∧
      (c.keep b).eof = c.eof := by
  unfold Console.keep
  by_cases h : c.held.length ≥ bootHeldMax
  · rw [if_pos h]
    exact ⟨Nat.le_succ _, rfl, rfl⟩
  · rw [if_neg h]
    exact ⟨by simp, rfl, rfl⟩

/-- what reading can do to the input: bytes move from the stream to the queue or are lost, and the
end of the input stays seen -/
structure Consumed (left : Nat) (c c' : Console) : Prop where
  bytes : c'.bytesLeft ≤ left
  total : c'.bytesLeft + c'.held.length ≤ left + c.held.length
  eof : c.eof = true → c'.eof = true

theorem drain_consumed (l : List Poll) (c : Console) :
    Consumed (l.countP (·.isByte)) c (Console.drain l c) := by
  induction l generalizing c with
  | nil => exact ⟨Nat.le_refl _, Nat.le_refl _, fun _ => rfl⟩
  | cons p rest ih =>
    cases p with
    | byte b =>
      obtain ⟨h1, h2, h3⟩ := ih (c.keep b)
      obtain ⟨hk, -, he⟩ := c.keep_length b
      rw [List.countP_cons_of_pos rfl]
      refine ⟨Nat.le_succ_of_le h1, ?_, fun h => h3 (he.trans h)⟩
      show (Console.drain rest (c.keep b)).bytesLeft +
        (Console.drain rest (c.keep b)).held.length ≤ _
      omega
    | interrupted =>
      rw [List.countP_cons_of_neg (by decide)]
      exact ih c
    | idle | failed =>
      rw [List.countP_cons_of_neg (by decide)]
      exact ⟨Nat.le_refl _, Nat.le_refl _, fun h => h⟩

theorem drain_silent {l : List Poll} {c : Console} (h : Console.silent l c.eof = true) :
    (Console.drain l c).held = c.held ∧ (Console.drain l c).eof = c.eof ∧
      (Console.drain l c).bytesLeft = l.countP (·.isByte) := by
  induction l with
  | nil => exact ⟨rfl, h.symm, rfl⟩
  | cons p rest ih =>
    cases p with
    | byte b => exact absurd h Bool.false_ne_true
    | interrupted =>
      rw [List.countP_cons_of_neg (by decide)]
      exact ih h
    | idle | failed =>
      rw [List.countP_cons_of_neg (by decide)]
      exact ⟨rfl, rfl, rfl⟩

theorem drain_moves {l : List Poll} {c : Console} (h : Console.silent l c.eof = false) :
    (Console.drain l c).bytesLeft < l.countP (·.isByte) ∨
      (c.eof = false ∧ (Console.drain l c).eof = true) := by
  induction l with
  | nil => exact .inr ⟨h, rfl⟩
  | cons p rest ih =>
    cases p with
    | byte b =>
      left
      rw [List.countP_cons_of_pos rfl]
      exact Nat.lt_succ_of_le (drain_consumed rest (c.keep b)).bytes
    | interrupted =>
      rw [List.countP_cons_of_neg (by decide)]
      exact ih h
    | idle | failed => exact absurd h.symm Bool.false_ne_true

theorem readWaiting_bytes (l : List Poll) {b : BitVec 8} {rest : List Poll}
    (h : Console.readWaiting l = (some b, rest)) :
    rest.countP (·.isByte) < l.countP (·.isByte) := by
  induction l with
  | nil => cases h
  | cons p l ih =>
    cases p with
    | byte b' =>
      cases h
      rw [List.countP_cons_of_pos rfl]
      exact Nat.lt_succ_self _
    | interrupted | idle =>
      rw [List.countP_cons_of_neg (by decide)]
      exact ih h
    | failed => cases h

/-! ## the two entry points -/

theorem deliver_stdin (u : Pl011) (c : Console) :
    (deliver u c).2.stdin = c.stdin ∧ (deliver u c).2.eof = c.eof ∧
      (deliver u c).2.held.length ≤ c.held.length :=
  ⟨rfl, rfl, injectHeld_length u c.held⟩

theorem deliver_refused {u : Pl011} (h : u.accepts = false) (c : Console) :
    deliver u c = (u, c) := by
  unfold deliver
  rw [injectHeld_refused h]

theorem pumpStdin_consumed (u : Pl011) (c : Console) :
    Consumed c.bytesLeft c (pumpStdin u c).2 := by
  obtain ⟨h1, h2, h3⟩ := drain_consumed c.stdin c
  have hle := injectHeld_length u (Console.drain c.stdin c).held
  exact ⟨h1, le_trans (Nat.add_le_add_left hle _) h2, h3⟩

theorem deliver_nil (u : Pl011) {c : Console} (h : c.held = []) : deliver u c = (u, c) := by
  obtain ⟨stdin, held, dropped, eof⟩ := c
  subst h
  rfl

/-- the queue is offered once more in either case -/
theorem awaitInput_eq (u : Pl011) (c : Console) :
    awaitInput u c =
      if (deliver u c).2.held ≠ [] then (true, deliver u c)
      else if c.eof then (false, deliver u c)
      else ((Console.readWaiting c.stdin).1.elim
        (false, (deliver u c).1,
          { (deliver u c).2 with stdin := (Console.readWaiting c.stdin).2, eof := true })
        fun b => (true, pumpStdin (deliver u c).1
          ({ (deliver u c).2 with stdin := (Console.readWaiting c.stdin).2 }.keep b))) := by
  have hd : (if c.held ≠ [] then deliver u c else (u, c)) = deliver u c := by
    by_cases h : c.held = []
    · rw [if_neg (not_not_intro h), deliver_nil u h]
    · rw [if_pos h]
  unfold awaitInput
  rw [hd]
  by_cases h : (deliver u c).2.held ≠ []
  · rw [if_pos h]
    exact if_pos h
  · rw [if_neg h]
    refine (if_neg h).trans ?_
    show (if c.eof = true then _ else _) = _
    by_cases he : c.eof = true
    · exact (if_pos he).trans (if_pos he).symm
    · refine (if_neg he).trans ((if_neg he).trans ?_).symm
      show (Console.readWaiting c.stdin).1.elim _ _ = _
      rcases Console.readWaiting c.stdin with ⟨b | b, rest⟩ <;> rfl

/-! ## what a turn of the loop does to the input -/

theorem Consumed.trans {left : Nat} {c c' c'' : Console} (h : Consumed left c c')
    (h' : Consumed c'.bytesLeft c' c'') : Consumed left c c'' :=
  ⟨le_trans h'.bytes h.bytes, le_trans h'.total h.total, fun he => h'.eof (h.eof he)⟩

theorem deliver_consumed (u : Pl011) (c : Console) : Consumed c.bytesLeft c (deliver u c).2 :=
  ⟨Nat.le_refl _, Nat.add_le_add_left (injectHeld_length u c.held) _, fun h => h⟩

theorem awaitInput_cases (u : Pl011) (c : Console) :
    ((deliver u c).2.held ≠ [] ∧ awaitInput u c = (true, deliver u c)) ∨
      ((deliver u c).2.held = [] ∧ (awaitInput u c).1 = true ∧
        (awaitInput u c).2.2.bytesLeft < c.bytesLeft ∧
        Consumed c.bytesLeft c (awaitInput u c).2.2) ∨
      (deliver u c).2.held = [] ∧ (awaitInput u c).1 = false := by
  rw [awaitInput_eq]
  by_cases h : (deliver u c).2.held = []
  · right
    rw [if_neg (not_not_intro h)]
    by_cases he : c.eof = true
    · rw [if_pos he]
      exact .inr ⟨h, rfl⟩
    · rw [if_neg he]
      rcases hr : Console.readWaiting c.stdin with ⟨b | b, rest⟩
      · exact .inr ⟨h, rfl⟩
      · left
        have hlt := readWaiting_bytes c.stdin hr
        have hp := pumpStdin_consumed (deliver u c).1 ({ (deliver u c).2 with stdin := rest }.keep b)
        obtain ⟨hk, hs, hke⟩ := Console.keep_length { (deliver u c).2 with stdin := rest } b
        have hleft : ({ (deliver u c).2 with stdin := rest }.keep b).bytesLeft =
            rest.countP (·.isByte) := by
          unfold Console.bytesLeft
          rw [hs]
        rw [hleft] at hp
        have hnil : ({ (deliver u c).2 with stdin := rest } : Console).held.length = 0 :=
          congrArg List.length h
        refine ⟨h, rfl, lt_of_le_of_lt hp.bytes hlt, ?_, ?_, ?_⟩
        · exact le_trans hp.bytes (Nat.le_of_lt hlt)
        · have := hp.total
          show Console.bytesLeft _ + List.length _ ≤ c.bytesLeft + c.held.length
          have hlt' : rest.countP (·.isByte) < c.bytesLeft := hlt
          exact le_trans this (by omega)
        · intro he'
          exact absurd he' he
  · left
    rw [if_pos h]
    exact ⟨h, rfl⟩

theorem awaitInput_consumed {u : Pl011} {c : Console} (h : (awaitInput u c).1 = true) :
    Consumed c.bytesLeft c (awaitInput u c).2.2 := by
  rcases awaitInput_cases u c with ⟨-, he⟩ | ⟨-, -, -, hc⟩ | ⟨-, he⟩
  · rw [he]
    exact deliver_consumed u c
  · exact hc
  · rw [he] at h
    cases h

/-- one side of the input has gone down: a byte read, a byte delivered or lost, or the end seen -/
def Fed (c c' : Console) : Prop :=
  c'.bytesLeft < c.bytesLeft ∨ c'.held.length < c.held.length ∨ (c.eof = false ∧ c'.eof = true)

/-- nothing to read, something to deliver, and a receiver that does not take it -/
structure Jammed (u : Pl011) (c : Console) : Prop where
  silent : Console.silent c.stdin c.eof = true
  held : c.held ≠ []
  refused : u.accepts = false

/-- **a turn of the loop that hands the guest to its console moves input, unless it is jammed** -/
theorem fed_iff {u : Pl011} {c : Console}
    (h : (awaitInput (pumpStdin u c).1 (pumpStdin u c).2).1 = true) :
    Fed c (awaitInput (pumpStdin u c).1 (pumpStdin u c).2).2.2 ↔ ¬ Jammed u c := by
  have hp := pumpStdin_consumed u c
  have hc := awaitInput_consumed h
  constructor
  · rintro hfed ⟨hs, hheld, hacc⟩
    obtain ⟨h1, h2, h3⟩ := drain_silent hs
    have hpump : pumpStdin u c = (u, Console.drain c.stdin c) := deliver_refused hacc _
    rw [hpump] at h hfed
    have hne : (deliver u (Console.drain c.stdin c)).2.held ≠ [] := by
      rw [deliver_refused hacc]
      exact fun he => hheld (h1.symm.trans he)
    rw [awaitInput_eq, if_pos hne, deliver_refused hacc] at hfed
    have hb : (Console.drain c.stdin c).bytesLeft = c.bytesLeft := h3
    rcases hfed with hf | hf | ⟨hf, hf'⟩ <;> dsimp only at *
    · omega
    · rw [h1] at hf
      omega
    · rw [h2, hf] at hf'
      cases hf'
  · intro hjam
    by_cases hs : Console.silent c.stdin c.eof = true
    · obtain ⟨h1, h2, h3⟩ := drain_silent hs
      rcases awaitInput_cases (pumpStdin u c).1 (pumpStdin u c).2 with
        ⟨hne, he⟩ | ⟨-, -, hlt, -⟩ | ⟨-, hf⟩
      · have hheld : c.held ≠ [] := by
          intro hnil
          have hd : (Console.drain c.stdin c).held = [] := h1.trans hnil
          have hpump : pumpStdin u c = (u, Console.drain c.stdin c) := deliver_nil u hd
          rw [hpump, deliver_nil u hd] at hne
          exact hne hd
        have hacc : u.accepts = true := by
          by_contra hacc
          exact hjam ⟨hs, hheld, Bool.eq_false_of_not_eq_true hacc⟩
        rw [he]
        right
        left
        have hd : (Console.drain c.stdin c).held ≠ [] := fun hnil => hheld (h1.symm.trans hnil)
        have hlt : (pumpStdin u c).2.held.length < (Console.drain c.stdin c).held.length :=
          injectHeld_accepted hacc hd
        rw [h1] at hlt
        exact lt_of_le_of_lt (injectHeld_length _ _) hlt
      · exact .inl (lt_of_lt_of_le hlt hp.bytes)
      · rw [hf] at h
        cases h
    · rcases drain_moves (Bool.eq_false_of_not_eq_true hs) with hlt | ⟨he, he'⟩
      · exact .inl (lt_of_le_of_lt hc.bytes hlt)
      · exact .inr (.inr ⟨he, hc.eof he'⟩)

end Oemu
