import Oemu.Basic
import Oemu.Lib.Consume

/-!
# The system-call surface

`Sysenv` is what a user-mode guest finds behind `SVC`: `exit`, `write` on the two output descriptors,
and `clock_gettime`.  Everything reaches guest memory through the bus seam.  Failures are negative
error numbers in `x0`.

The stream of the host is `HostFile`: the bytes it took, and how many more it takes.
-/

namespace Oemu

/-- a stream of the host; without a `room` it takes every byte -/
structure HostFile where
  written : List (BitVec 8)
  room : Option Nat
deriving DecidableEq, Repr

/-- `fwrite` of single bytes: how many were taken, and the stream after -/
def HostFile.fwrite (f : HostFile) (bytes : List (BitVec 8)) : Nat × HostFile :=
  match f.room with
  | none => (bytes.length, { f with written := f.written ++ bytes })
  | some n =>
    (min n bytes.length,
      { written := f.written ++ bytes.take n, room := some (n - bytes.length) })

/-- `out` is where the guest's output lands, and the standard output of the host where it is absent -/
structure Sysenv where
  out : Option HostFile
  stdout : HostFile
  exitCode : W32
  exited : Bool
deriving DecidableEq, Repr

def ebadf : W64 := 9

def einval : W64 := 22

def efault : W64 := 14

def enosys : W64 := 38

namespace Sysenv

def init (out : Option HostFile) (stdout : HostFile) : Sysenv where
  out := out
  stdout := stdout
  exitCode := 0
  exited := false

def stream (env : Sysenv) : HostFile := env.out.getD env.stdout

def setStream (env : Sysenv) (f : HostFile) : Sysenv :=
  match env.out with
  | some _ => { env with out := some f }
  | none => { env with stdout := f }

/-- `oemu_sysenv_exit_code` -/
def code (env : Sysenv) : W32 := if env.exited then env.exitCode else 0

variable {σ : Type}

/-- the bounce buffer of `sys_write` -/
def chunkSize : Nat := 256

/-- the next `n` bytes of the guest, from the `i`-th behind `a`; `none` where one cannot be read -/
def readChunk (mem : Memops σ) (a : W64) : Nat → Nat → σ → Option (List (BitVec 8)) × σ
  | _, 0, s => (some [], s)
  | i, n + 1, s =>
    match mem.read s (a + BitVec.ofNat 64 i) .byte false with
    | (.ok, byte, s) =>
      let (rest, s) := readChunk mem a (i + 1) n s
      (rest.map (byte.setWidth 8 :: ·), s)
    | (_, _, s) => (none, s)

/-- the copy loop between two chunks -/
structure Copy (σ : Type) where
  bus : σ
  file : HostFile
  written : Nat

/-- what the loop returns -/
abbrev Copied (σ : Type) : Type := W64 × σ × HostFile

def writeTurn (mem : Memops σ) (buf : W64) (count : Nat) (c : Copy σ) : Copied σ ⊕ Copy σ :=
  if c.written < count then
    let want := min (count - c.written) chunkSize
    match readChunk mem (buf + BitVec.ofNat 64 c.written) 0 want c.bus with
    | (none, s) =>
      .inl (if c.written > 0 then BitVec.ofNat 64 c.written else -efault, s, c.file)
    | (some chunk, s) =>
      let (got, file) := c.file.fwrite chunk
      if got < want then .inl (BitVec.ofNat 64 (c.written + got), s, file)
      else .inr ⟨s, file, c.written + got⟩
  else .inl (BitVec.ofNat 64 c.written, c.bus, c.file)

def writeLoop (mem : Memops σ) (buf : W64) (count : Nat) (c : Copy σ) : Copied σ :=
  Consume.loop (writeTurn mem buf count) (0, c.bus, c.file) (fun c => count - c.written) c

/-- `sys_write` -/
def sysWrite (mem : Option (Memops σ)) (fd buf count : W64) (s : σ) (env : Sysenv) :
    W64 × σ × Sysenv :=
  if fd ≠ 1 ∧ fd ≠ 2 then (-ebadf, s, env)
  else if count = 0 then (0, s, env)
  else
    match mem with
    | none => (-efault, s, env)
    | some mem =>
      if count > BitVec.allOnes 64 - buf then (-efault, s, env)
      else
        match mem.validate s buf count permRead with
        | (.ok, s) =>
          let (ret, s, file) := writeLoop mem buf count.toNat ⟨s, env.stream, 0⟩
          (ret, s, env.setStream file)
        | (_, s) => (-efault, s, env)

/-- `sys_clock_gettime`; `clock` is the clock of the host, in seconds and nanoseconds -/
def sysClockGettime (clock : W64 → Option (W64 × W64)) (mem : Option (Memops σ))
    (clockId tsAddr : W64) (s : σ) : W64 × σ :=
  if clockId ≠ 0 ∧ clockId ≠ 1 then (-einval, s)
  else
    match clock clockId, mem with
    | none, _ => (-efault, s)
    | some _, none => (-efault, s)
    | some (sec, nsec), some mem =>
      match mem.validate s tsAddr 8 permWrite with
      | (.ok, s) =>
        match mem.validate s (tsAddr + 8) 8 permWrite with
        | (.ok, s) =>
          match mem.write s tsAddr .dword sec with
          | (.ok, s) =>
            match mem.write s (tsAddr + 8) .dword nsec with
            | (.ok, s) => (0, s)
            | (_, s) => (-efault, s)
          | (_, s) => (-efault, s)
        | (_, s) => (-efault, s)
      | (_, s) => (-efault, s)

/-- the clock and the address a `clock_gettime` names -/
def clockArgs (args : Fin 6 → W64) : W64 × W64 := (args 0, args 1)

/-- `sysenv_syscall_ops` -/
def syscall (clock : W64 → Option (W64 × W64)) (mem : Option (Memops σ)) (nr : W64)
    (args : Fin 6 → W64) (s : σ) (env : Sysenv) : W64 × σ × Sysenv :=
  match nr.toNat with
  | 93 | 94 => (0, s, { env with exitCode := (args 0).setWidth 32, exited := true })
  | 64 => sysWrite mem (args 0) (args 1) (args 2) s env
  | 113 =>
    let (ret, s) := sysClockGettime clock mem (args 0) (args 1) s
    (ret, s, env)
  | _ => (-enosys, s, env)

/-- the environment of a user-mode guest -/
def envops (clock : W64 → Option (W64 × W64)) : EnvOps σ Sysenv where
  syscall := some fun mem nr args p => syscall clock (some mem) nr args p.1 p.2
  halted := some (·.exited)
  fwCall := none

end Sysenv

end Oemu
