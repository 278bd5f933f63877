import Oemu.Elf.Load
import Oemu.ByteBuffer
import Oemu.Sysenv
import Oemu.Vcpu.RunLoop

/-!
# A user-mode process

`oemu run` reads a file into a buffer, loads its segments into a memory of its own, puts a stack
beside them, and runs the executor for a budget of instructions.  `Host` is what the run asks of the
host: the file, the blocks of the allocator, the clock and the standard output.

* `readFile`    the file, in chunks;
* `start`       the processor, the memory and the environment a file starts with;
* `runProcess`  the exit status of the emulator, and how the guest was left.
-/

namespace Oemu

namespace Process

def stackPlace : W64 := 0x10000000

def stackSize : W64 := 0x100000

def stackAlign : W64 := 16

def regionCapacity : Nat := 32

def exitError : W32 := 1

def exitTimeout : W32 := 3

/-- round up to a multiple of a power of two -/
def alignUp (v align : W64) : W64 := (v + (align - 1)) &&& ~~~(align - 1)

/-- a stack that does not meet the segments -/
def stackBaseFor (img : Elf.ElfImage) : W64 :=
  let justPastImage := alignUp img.loadMax stackSize + stackSize
  if justPastImage > stackPlace then justPastImage else stackPlace

/-- the file at a path, and whether reading or closing it failed -/
structure InputFile where
  bytes : List (BitVec 8)
  failed : Bool

/-- what a run asks of the host.  `chunks` are the answers of the allocator while the file is read;
`table`, `segments` and `stack` those to the region table, the table and the blocks of the loader,
and the stack -/
structure Host where
  file : Option InputFile
  chunks : Nat → NewBlock
  heap : Nat → BitVec 8
  table : Bool
  loader : Bool
  segments : Nat → Option Nat
  stack : Option Nat
  clock : W64 → Option (W64 × W64)
  stdout : HostFile

/-! ## the file -/

def chunkSize : Nat := 4096

/-- what is left of the file, how many chunks were read, and the buffer -/
structure Reading where
  rest : List (BitVec 8)
  count : Nat
  buf : ByteBuffer

/-- one turn of the loop of `read_file` -/
def readTurn (chunks : Nat → NewBlock) (r : Reading) :
    Option ((Status × ByteBuffer) ⊕ Reading) :=
  let chunk := r.rest.take chunkSize
  if chunk.length > 0 then
    match r.buf.append (some fun i => chunk.getD i 0) (BitVec.ofNat 64 chunk.length)
      (chunks r.count) with
    | some (.ok, buf) => some (.inr ⟨r.rest.drop chunkSize, r.count + 1, buf⟩)
    | some (st, buf) => some (.inl (st, buf))
    | none => none
  else some (.inl (.ok, r.buf))

/-- the loop; `none` is a write outside the buffer -/
def readLoop (chunks : Nat → NewBlock) (r : Reading) : Option (Status × ByteBuffer) :=
  Consume.loop (Consume.guarded (readTurn chunks)) none (fun r => r.rest.length) r

/-- `read_file`: the buffer, and whether the file was read -/
def readFile (h : Host) (buf : ByteBuffer) : Option (Bool × ByteBuffer) :=
  match h.file with
  | none => some (false, buf)
  | some f => (readLoop h.chunks ⟨f.bytes, 0, buf⟩).map fun r => (r.1 = .ok ∧ f.failed = false, r.2)

theorem contents_length (b : ByteBuffer) : b.contents.length < 2 ^ 64 := by
  unfold ByteBuffer.contents
  cases b.data with
  | none => exact Nat.two_pow_pos 64
  | some m =>
    rw [Buffer.readout_length]
    exact b.len.isLt

def imageOf (b : ByteBuffer) : Image := ⟨b.contents, contents_length b⟩

/-! ## the run -/

/-- a guest: its processor, memory and environment -/
abbrev Guest : Type := Cpu × Memory × Sysenv

/-- the guest, once it has a stack -/
def enter (h : Host) (out : Elf.ElfImage) : Status × Memory → Option Guest
  | (.ok, mem) =>
    let sp := (stackBaseFor out + stackSize) &&& ~~~(stackAlign - 1)
    some (Cpu.init out.entry sp, mem, Sysenv.init (some h.stdout) h.stdout)
  | _ => none

/-- the stack, once the file is loaded -/
def place (h : Host) : Except Status Elf.ElfImage × Memory → Option Guest
  | (.ok out, mem) =>
    enter h out (mem.map h.stack (stackBaseFor out) stackSize (permRead ||| permWrite))
  | _ => none

/-- what a file starts with, if it starts; `none` is a read outside the file -/
def start (h : Host) (img : Image) : Option (Option Guest) :=
  match Memory.init h.heap h.table regionCapacity with
  | .error _ => some none
  | .ok mem => (Elf.load mem img h.loader h.segments).map (place h)

/-- the exit status of the emulator for a run of the executor -/
def exitStatus (st : Status) (env : Sysenv) : W32 :=
  if env.exited then env.code &&& 0xFF
  else if st = .timeout then exitTimeout
  else exitError

def runGuest (h : Host) (maxInsns : W64) (g : Guest) : Option (W32 × Option Guest) :=
  (execRunBus Memory.memops (some (Sysenv.envops h.clock)) maxInsns g).map fun r =>
    (exitStatus r.1 r.2.2.2.2, some r.2.2)

/-- `run`: the exit status, and the guest if it was started -/
def runProcess (h : Host) (maxInsns : W64) : Option (W32 × Option Guest) :=
  (readFile h ByteBuffer.empty).bind fun r =>
    if r.1 then
      (start h (imageOf r.2)).bind fun g =>
        match g with
        | none => some (exitError, none)
        | some g => runGuest h maxInsns g
    else some (exitError, none)

end Process

end Oemu
