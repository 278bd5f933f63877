import Oemu.Lib.Prog
import Oemu.Lib.Run
import Oemu.Lib.Memo
import Oemu.Lib.Txn
import Oemu.Lib.Wire
import Oemu.Lib.Consume
import Oemu.Fdt.Builder
import Oemu.Fdt.Reader
import Oemu.Fdt.Tree
import Oemu.Lib.Scan
import Oemu.Lib.Budget
import Oemu.Basic
import Oemu.Regs
import Oemu.Sysreg
import Oemu.Sysreg.File
import Oemu.Exc
import Oemu.Memory
import Oemu.Aspace
import Oemu.Mmu.Walk
import Oemu.Mmu.Tlb
import Oemu.Mmu.Bus
import Oemu.Mmu.Frame
import Oemu.Mmu.Page
import Oemu.Mmu.Parity
import Oemu.Mmu.Served
import Oemu.Mmu.Reach
import Oemu.Mmu.TcrAttr
import Oemu.Mmu.ArchWalk
import Oemu.Mmu.ArchAgree
import Oemu.Insn
import Oemu.Decode
import Oemu.Exec.Alu
import Oemu.Exec.Mem
import Oemu.Exec.Arm
import Oemu.Exec.Dispatch
import Oemu.Exec.Precise
import Oemu.Exec.System
import Oemu.Exec.Outcome
import Oemu.Exec.Progress
import Oemu.Exec.Monitor
import Oemu.Vcpu
import Oemu.Vcpu.Step
import Oemu.Vcpu.EntryFrame
import Oemu.Vcpu.El0
import Oemu.Vcpu.Exclusive
import Oemu.Vcpu.SpBank
import Oemu.Vcpu.Machine
import Oemu.Vcpu.Mode
import Oemu.Vcpu.Nest
import Oemu.Vcpu.Irq
import Oemu.Fw.Psci
import Oemu.Vcpu.Firmware
import Oemu.Memory.Bytes
import Oemu.Memory.Table
import Oemu.Aspace.Table
import Oemu.Aspace.Agree
import Oemu.Mmu.Off
import Oemu.Mmu.Transparent
import Oemu.Decode.WellFormed
import Oemu.Decode.Refusal
import Oemu.Exec.Checked
import Oemu.Exec.Sim
import Oemu.Exec.Total
import Oemu.Mmu.Flat
import Oemu.Vcpu.Lockstep
import Oemu.Dev.Gicv2
import Oemu.Dev.Ack
import Oemu.Dev.Preempt
import Oemu.Vcpu.RunLoop
import Oemu.Vcpu.Clock
import Oemu.Decode.Family
import Oemu.Decode.Operand
import Oemu.Exec.SecondOperand
import Oemu.Exec.Selector
import Oemu.Exec.Operand
import Oemu.Mmu.Ready
import Oemu.Fdt.RoundTrip
import Oemu.Fdt.Valid
import Oemu.Decode.Source
import Oemu.Mmu.Restrict
import Oemu.Exec.Bitfield
import Oemu.Exec.Logical
import Oemu.Exec.AddressTranslate
import Oemu.Mmu.Split
import Oemu.Mmu.RamBus
import Oemu.Mmu.Record
import Oemu.Exec.Addressing
import Oemu.Lib.Loop
import Oemu.Boot.Ends
import Oemu.Lib.Limbs
import Oemu.Exec.Multiword
import Oemu.Exec.Shifter
import Oemu.Exec.Multiply
import Oemu.Lib.BitCount
import Oemu.Exec.BitCount
import Oemu.Exec.ByteReverse
import Oemu.Lib.Gf2
import Oemu.Exec.Crc
import Oemu.Memory.View
import Oemu.Exec.VectorFill
import Oemu.Decode.PcRelative
import Oemu.Decode.Hint
import Oemu.Decode.BitMask
import Oemu.Decode.A64
import Oemu.Decode.BranchRows
import Oemu.Decode.RegisterRows
import Oemu.Decode.LoadStoreRows
import Oemu.Decode.Complete
import Oemu.Decode.Sound
import Oemu.Vcpu.EventReg
import Oemu.Lib.LittleEndian
import Oemu.Elf.Image
import Oemu.Elf.Load
import Oemu.Elf.Commit
import Oemu.Elf.Atomic
import Oemu.Aspace.View
import Oemu.Kernel.Image
import Oemu.Kernel.Refuse
import Oemu.Kernel.Place
import Oemu.Lib.Buffer
import Oemu.Fdt.Scratch
import Oemu.Fdt.Emission
import Oemu.Fdt.Shown
import Oemu.Fdt.Cursor
import Oemu.Lib.Ring
import Oemu.Dev.Transmit
import Oemu.Dev.Receive
import Oemu.Boot.Typing
import Oemu.Boot.Timer
import Oemu.Dev.Lanes
import Oemu.Fw.Contract
import Oemu.Sysenv
import Oemu.Sysenv.Trace
import Oemu.Sysenv.Write
import Oemu.ByteBuffer
import Oemu.ByteBuffer.Contents
import Oemu.Mmu.Bounded
import Oemu.Boot.Patch
import Oemu.Mmu.SameTables
import Oemu.Mmu.Integrity
import Oemu.Mmu.Twin
import Oemu.Vcpu.Twin
import Oemu.Vcpu.Isolation
import Oemu.Mmu.Secrecy
import Oemu.Vcpu.Secrecy
import Oemu.Mmu.Provider
import Oemu.Vcpu.Provider
import Oemu.Exec.Keep
import Oemu.Process
import Oemu.Process.Start
import Oemu.Process.Text
import Oemu.Exec.Panic
import Oemu.Process.Exit
import Oemu.Vcpu.Panic
import Oemu.Fdt.Attempt
import Oemu.Dev.VirtDtb
import Oemu.Boot.Start
import Oemu.Boot.Booted
import Oemu.Vcpu.Seam
import Oemu.Boot.Placement
