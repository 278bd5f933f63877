import Mathlib.Tactic
import Mathlib.Logic.Function.Basic

/-!
# Words, statuses and the bus seam

The vocabulary shared by every part of the machine: 64-bit and 32-bit words, the status codes,
the exception levels, the access sizes, and `Memops`, the seam between the executor and whatever
backs guest memory.  A seam is a record of four operations over a world `σ`; a provider is a value
of `Memops σ` for its own `σ`.
-/

namespace Oemu

abbrev W64 := BitVec 64

abbrev W32 := BitVec 32

inductive Status where
  | ok | invalidArg | noMemory | overflow | range | decode | unsupported | fault | timeout
  | blocked | state | format | notFound | full
deriving DecidableEq, Repr

inductive El where
  | el0 | el1 | el2 | el3
deriving DecidableEq, Repr

namespace El

/-- the encoding of a level -/
def num : El → Nat
  | el0 => 0
  | el1 => 1
  | el2 => 2
  | el3 => 3

def ofNum : Nat → El
  | 0 => el0
  | 1 => el1
  | 2 => el2
  | _ => el3

theorem ofNum_num (e : El) : ofNum e.num = e := by
  cases e <;> rfl

theorem num_injective : Function.Injective num := by
  intro a b h
  rw [← ofNum_num a, ← ofNum_num b, h]

end El

/-- the size of an access, a log2 byte count -/
inductive MemSize where
  | byte | half | word | dword | m128
deriving DecidableEq, Repr

namespace MemSize

def log2 : MemSize → Nat
  | byte => 0
  | half => 1
  | word => 2
  | dword => 3
  | m128 => 4

/-- `1U << (unsigned)size` -/
def bytes (s : MemSize) : Nat := 2 ^ s.log2

/-- the sizes the bus serves in one transfer -/
def Bus (s : MemSize) : Prop := s ≠ m128

instance (s : MemSize) : Decidable s.Bus := inferInstanceAs (Decidable (s ≠ m128))

theorem bytes_pos (s : MemSize) : 0 < s.bytes := by
  cases s <;> decide

theorem bytes_le (s : MemSize) : s.bytes ≤ 16 := by
  cases s <;> decide

theorem bytes_le_of_bus {s : MemSize} (h : s.Bus) : s.bytes ≤ 8 := by
  cases s <;> first | decide | exact absurd rfl h

theorem toNat_bytes (n : MemSize) : (BitVec.ofNat 64 n.bytes).toNat = n.bytes := by
  cases n <;> rfl

theorem ofNat_ne_zero (n : MemSize) : BitVec.ofNat 64 n.bytes ≠ 0 := by
  cases n <;> decide

end MemSize

/-! ## permissions -/

def permRead : W32 := 1

def permWrite : W32 := 2

def permExec : W32 := 4

/-! ## the seam -/

/-- the four operations the executor needs of a bus.  A read and a fetch return the value they
would store through the out-pointer, which is meaningful only with `Status.ok`; the size of
`validate` is a byte count. -/
structure Memops (σ : Type) where
  fetch32 : σ → W64 → Status × W32 × σ
  read : σ → W64 → MemSize → Bool → Status × W64 × σ
  write : σ → W64 → MemSize → W64 → Status × σ
  validate : σ → W64 → W64 → W32 → Status × σ

/-- the guest environment: what turns an `SVC` into a syscall, when the guest has stopped, and the
firmware conduit of `HVC` and `SMC`.  Each callback may be absent; `ε` is the environment's own
state.  A syscall reaches guest memory through the bus it is handed, a firmware call is handed no
bus, and answers `some x0` when it consumes the call. -/
structure EnvOps (σ ε : Type) where
  syscall : Option (Memops σ → W64 → (Fin 6 → W64) → σ × ε → W64 × σ × ε)
  halted : Option (ε → Bool)
  fwCall : Option (Bool → BitVec 16 → (Fin 3 → W64) → ε → Option W64 × ε)

end Oemu
