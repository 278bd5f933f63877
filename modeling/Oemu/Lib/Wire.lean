import Mathlib.Tactic

/-!
# Words and strings on the wire

A wire is a list of bytes.  Words of 32 bits travel big-endian, a string ends at its first zero
byte, and what is laid out in words is padded with zeros to a multiple of four.

* `be32_putBe32`   a word is read back, whatever follows it;
* `be32_words`     a word of a run of words is read back at its offset;
* `cstr_zero`      a string is read back up to its terminator;
* `pad4_le`, `pad4_mod`   the padded length.
-/

abbrev Byte := BitVec 8

namespace Wire

/-! ## words -/

def putBe32 (v : BitVec 32) : List Byte :=
  [(v >>> 24).setWidth 8, (v >>> 16).setWidth 8, (v >>> 8).setWidth 8, v.setWidth 8]

/-- the word at the start of a wire; zero where there is none -/
def be32 : List Byte → BitVec 32
  | a :: b :: c :: d :: _ =>
    (a.setWidth 32 <<< 24) ||| (b.setWidth 32 <<< 16) ||| (c.setWidth 32 <<< 8) ||| d.setWidth 32
  | _ => 0

@[simp] theorem putBe32_length (v : BitVec 32) : (putBe32 v).length = 4 := rfl

theorem assemble_bytes (v : BitVec 32) :
    (((v >>> 24).setWidth 8).setWidth 32 <<< 24) ||| (((v >>> 16).setWidth 8).setWidth 32 <<< 16) |||
      (((v >>> 8).setWidth 8).setWidth 32 <<< 8) ||| (v.setWidth 8).setWidth 32 = v := by
  apply BitVec.eq_of_getLsbD_eq
  intro i hi
  simp only [BitVec.getLsbD_or, BitVec.getLsbD_shiftLeft, BitVec.getLsbD_setWidth,
    BitVec.getLsbD_ushiftRight]
  rcases (by omega : i < 8 ∨ 8 ≤ i ∧ i < 16 ∨ 16 ≤ i ∧ i < 24 ∨ 24 ≤ i) with h | h | h | h
  · simp [show i < 24 by omega, show i < 16 by omega, h, hi]
  · simp [show i < 24 by omega, show i < 16 by omega, show ¬ i < 8 by omega, hi,
      show i - 8 < 8 by omega, show 8 + (i - 8) = i by omega, show i - 8 < 32 by omega]
  · simp [show i < 24 by omega, show ¬ i < 16 by omega, show ¬ i < 8 by omega, hi,
      show i - 16 < 8 by omega, show 16 + (i - 16) = i by omega, show i - 16 < 32 by omega,
      show ¬ i - 8 < 8 by omega]
  · simp [show ¬ i < 24 by omega, show ¬ i < 16 by omega, show ¬ i < 8 by omega, hi,
      show i - 24 < 8 by omega, show 24 + (i - 24) = i by omega, show i - 24 < 32 by omega,
      show ¬ i - 8 < 8 by omega, show ¬ i - 16 < 8 by omega]

/-- **a word is read back, whatever follows it** -/
theorem be32_putBe32 (v : BitVec 32) (rest : List Byte) : be32 (putBe32 v ++ rest) = v :=
  assemble_bytes v

theorem drop_putBe32 (v : BitVec 32) (rest : List Byte) : (putBe32 v ++ rest).drop 4 = rest :=
  rfl

/-- words laid out one after the other -/
def words : List (BitVec 32) → List Byte
  | [] => []
  | v :: vs => putBe32 v ++ words vs

/-- **a word of a run of words is read back at four times its index** -/
theorem be32_words {vs : List (BitVec 32)} {i : Nat} {v : BitVec 32} (h : vs[i]? = some v)
    (rest : List Byte) : be32 ((words vs ++ rest).drop (4 * i)) = v := by
  induction i generalizing vs with
  | zero =>
    cases vs with
    | nil => cases h
    | cons w vs =>
      cases h
      show be32 ((putBe32 v ++ words vs) ++ rest) = v
      rw [List.append_assoc]
      exact be32_putBe32 v _
  | succ i ih =>
    cases vs with
    | nil => cases h
    | cons w vs =>
      show be32 (((putBe32 w ++ words vs) ++ rest).drop (4 * i + 4)) = v
      rw [List.append_assoc, Nat.add_comm, ← List.drop_drop, drop_putBe32]
      exact ih h

/-! ## strings -/

/-- the bytes before the first zero -/
def cstr (p : List Byte) : List Byte := p.takeWhile (· != 0)

/-- **a string is read back up to its terminator** -/
theorem cstr_zero {s : List Byte} (h : (0 : Byte) ∉ s) (rest : List Byte) :
    cstr (s ++ 0 :: rest) = s := by
  induction s with
  | nil => rfl
  | cons b s ih =>
    have hb : (b != 0) = true := by
      rw [bne_iff_ne]
      intro he
      exact h (by rw [he]; exact List.mem_cons_self)
    show (b :: (s ++ 0 :: rest)).takeWhile (· != 0) = b :: s
    rw [List.takeWhile_cons, if_pos hb]
    exact congrArg _ (ih fun hm => h (List.mem_cons_of_mem _ hm))

/-! ## padding -/

/-- the next multiple of four -/
def pad4 (n : Nat) : Nat := (n + 3) / 4 * 4

theorem pad4_le (n : Nat) : n ≤ pad4 n ∧ pad4 n < n + 4 := by
  unfold pad4
  omega

theorem pad4_mod (n : Nat) : pad4 n % 4 = 0 := by
  unfold pad4
  omega

def zeros (n : Nat) : List Byte := List.replicate n 0

@[simp] theorem zeros_length (n : Nat) : (zeros n).length = n := List.length_replicate

def padded (v : List Byte) : List Byte := v ++ zeros (pad4 v.length - v.length)

@[simp] theorem padded_length (v : List Byte) : (padded v).length = pad4 v.length := by
  have h := pad4_le v.length
  unfold padded
  rw [List.length_append, zeros_length]
  omega

theorem padded_take (v rest : List Byte) : (padded v ++ rest).take v.length = v := by
  unfold padded
  rw [List.append_assoc, List.take_left]

theorem padded_drop (v rest : List Byte) : (padded v ++ rest).drop (pad4 v.length) = rest := by
  have h : (padded v).length = pad4 v.length := padded_length v
  rw [← h, List.drop_left]

theorem padded_cstr {s : List Byte} (h : (0 : Byte) ∉ s) (rest : List Byte) :
    cstr (padded (s ++ [0]) ++ rest) = s := by
  unfold padded
  rw [List.append_assoc, List.append_assoc]
  exact cstr_zero h _

end Wire
