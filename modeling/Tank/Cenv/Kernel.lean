import Tank.Cenv.Handler
import Tank.Helper.MemoryAccess
import Tank.Helper.UpperHalves
import Tank.ToMathlib.Trace
import Tank.ToMathlib.Zoom
import Tank.Vfs.Descriptors

/-!
# The system calls of the emulator together

`Handler` and `VirtualFileSystem` register their system calls in one table, from which
`SyscallHandler` takes the one with the number in `R7` when the guest causes interrupt 2. All of
them work on the same engine. A `Kernel` is what they use: the emulator with its engine, the open
files, the host, the sockets and the state that `vfork` has saved.

Time and randomness come from `Outside`, and so does what the engine makes of the slot
`UC_ARM_REG_CP_REG`, which `vfork` and `exit_group` access along with all other registers.
-/

namespace Tank

open ToMathlib

/-- `SocketInfo` -/
structure SocketInfo where
  domain : Int64
  type : Int64
  protocol : Int64
  /-- `addr`; `none` is `null`. -/
  addr : Option String
deriving DecidableEq, Repr

/-- `ForkInfo` -/
structure ForkInfo where
  pid : Int64
  registerValues : ℕ → Int64

/-- An element of the array is set. -/
def ForkInfo.put (f : ForkInfo) (i : ℕ) (v : Int64) : ForkInfo :=
  { f with registerValues := Function.update f.registerValues i v }

/-- What the system calls of the emulator work on. -/
structure Kernel where
  emu : Emulator
  files : FileTable
  host : Host
  sockets : Int64 → Option SocketInfo
  socketIdx : Int64
  clockStart : Int64
  /-- `Handler.fork`; `none` is `null`. -/
  fork : Option ForkInfo
  /-- `emu_stop` was called. -/
  stopped : Bool

/-- Code of a system call. -/
abbrev KernelM := EStateM JavaException Kernel

/-- What a system call learns from outside. -/
structure Outside where
  currentTimeMillis : Int64
  nanoTime : Int64
  /-- The bytes that `nextBytes` of a new `Random` gives. -/
  nextBytes : ℕ → UInt8
  /-- What `reg_read` finds in the upper half of the `long` for a register of 32 bits. -/
  highHalf : ℕ → UInt32
  /-- `read_cp_reg` finds a coprocessor register. The binding passes it the memory of a `long` where
  it expects the description of one. -/
  cpRegRead : Bool
  /-- The same for `write_cp_reg`. -/
  cpRegWrite : Bool

/-- The number of a register in the binding. -/
def regOfNumber : ℕ → ArmReg
  | 10 => .lr
  | 11 => .pc
  | 12 => .sp
  | 66 => .r0
  | 67 => .r1
  | 68 => .r2
  | 69 => .r3
  | 70 => .r4
  | 71 => .r5
  | 72 => .r6
  | 73 => .r7
  | i => .other i

/-- The registers `D0` to `D31` have 64 bits, and of `Q0` to `Q15` a `long` holds as many. -/
def isWide (i : ℕ) : Bool := (14 ≤ i && i ≤ 45) || (50 ≤ i && i ≤ 65)

/-- `UC_ARM_REG_R0` -/
def regR0 : ℕ := 66

/-- `UC_ARM_REG_CP_REG` -/
def regCpReg : ℕ := 139

/-- `UC_ARM_REG_ENDING - UC_ARM_REG_INVALID` -/
def regCount : ℕ := 140

namespace Unicorn

/-- The `long` that `reg_read` gives for a register. -/
def readNumber (uc : Unicorn) (i : ℕ) (high : UInt32) : Int64 :=
  uc.regReadRaw (regOfNumber i) (if isWide i then uc.upper i else high)

/-- The contents of a register. -/
def slot (uc : Unicorn) (i : ℕ) : Int64 := uc.readNumber i 0

/-- The engine after `reg_write` to a register. -/
def writeNumber (uc : Unicorn) (i : ℕ) (v : Int64) : Unicorn :=
  { uc with
    regs := Function.update uc.regs (regOfNumber i) v.toUInt64.toUInt32
    upper := if isWide i then Function.update uc.upper i (v.toUInt64 >>> 32).toUInt32
      else uc.upper }

/-- All registers. -/
def registers (uc : Unicorn) : (ArmReg → UInt32) × (ℕ → UInt32) := (uc.regs, uc.upper)

end Unicorn

namespace Kernel

/-- The part that belongs to `VirtualFileSystem`, with the engine. -/
def vfs (k : Kernel) : VfsState := ⟨k.emu.uc, k.files, k.host⟩

/-- The kernel with another state of its engine. -/
def withUc (k : Kernel) (uc : Unicorn) : Kernel := { k with emu := k.emu.withUc uc }

/-- The kernel with another state of the file system. -/
def withVfs (k : Kernel) (s : VfsState) : Kernel :=
  { k.withUc s.uc with files := s.files, host := s.host }

/-- Code of the engine. -/
def onUc {α : Type} : UcM α → KernelM α := zoom (fun k => k.emu.uc) fun uc k => k.withUc uc

/-- Code of the emulator. -/
def onEmu {α : Type} : EmuM α → KernelM α := zoom Kernel.emu fun emu k => { k with emu }

/-- Code of the file system. -/
def onVfs {α : Type} : VfsM α → KernelM α := zoom Kernel.vfs fun s k => k.withVfs s

/-- `write_u32` -/
def writeU32 (addr value : Int64) : KernelM Unit := onUc (MemoryAccess.write addr value 4)

/-- `errno` of the guest's library; without one the word at address `0`. -/
def writeErrno (value : Int64) : KernelM Unit := do
  let k ← get
  let errnoAddr ← getOrThrow (findCSymbol k.emu.modules "__errno")
  writeU32 errnoAddr value

/-! ## The system calls of `Handler` -/

section Calls

variable (env : VfsEnv) (outside : Outside) (args : List Int64)

/-- The loop of `execve`. The text that it puts together cannot have `2 ^ 31` characters, which
bounds the number of rounds; it reads the strings at the places of their pointers. -/
def readArgv : ℕ → Int64 → UcM Unit
  | 0, _ => throw .outOfMemory
  | n + 1, argvAddr => do
    let earg ← MemoryHelper.readPtr32 argvAddr
    if earg = 0 then pure ()
    else
      let _ ← MemoryHelper.readUTF8 env.decodeUTF8 argvAddr
      readArgv n (argvAddr + 4)

/-- `execve`, which executes nothing; `13` is `EACCES`. -/
def execve : KernelM CallRet := do
  let _ ← onUc (MemoryHelper.readUTF8 env.decodeUTF8 (args.getD 0 0))
  onUc (readArgv env (2 ^ 31) (args.getD 1 0))
  writeErrno 13
  pure ⟨true, 0⟩

/-- `getrandom` -/
def getrandom : KernelM CallRet := do
  let count := (args.getD 1 0).toInt32
  if count < 0 then throw .negativeArraySize
  else
    onUc (MemoryHelper.writeBytes (args.getD 0 0)
      ((List.range count.toInt.toNat).map outside.nextBytes))
    pure ⟨true, 0⟩

/-- `getcpu` -/
def getcpu : KernelM CallRet := do
  if args.getD 0 0 ≠ 0 then
    writeU32 (args.getD 0 0) 1
    pure ⟨true, 0⟩
  else pure ⟨true, 0⟩

/-- `TimeHelper.currentSeconds` -/
def currentSeconds : Int64 := outside.currentTimeMillis / 1000

/-- `clockgettime`. `CLOCK_REALTIME` is 0, `CLOCK_MONOTONIC` is 1 and `CLOCK_MONOTONIC_COARSE` is
6. -/
def clockgettime : KernelM CallRet := do
  let clkid := (args.getD 0 0).toInt32
  let k ← get
  if clkid = 0 then
    writeU32 (args.getD 1 0) (currentSeconds outside)
    writeU32 (args.getD 1 0 + 4) 0
    pure ⟨true, 0⟩
  else if clkid = 1 ∨ clkid = 6 then
    writeU32 (args.getD 1 0) (currentSeconds outside - k.clockStart)
    writeU32 (args.getD 1 0 + 4) 0
    pure ⟨true, 0⟩
  else
    throw (.exception ("Unsupported clk_id: " ++ toString clkid.toInt ++ " (" ++
      String.ofList (Nat.toDigits 16 clkid.toUInt32.toNat) ++ ")"))

/-- `getTimeOfDay` -/
def getTimeOfDay : KernelM CallRet := do
  let tv := args.getD 0 0
  let tz := args.getD 1 0
  if tv ≠ 0 then
    writeU32 tv (outside.nanoTime / 1000000)
    writeU32 (tv + 4) (outside.nanoTime / 1000 % 1000)
  if tz ≠ 0 then
    writeU32 tz (-120)
    writeU32 (tz + 4) 0
  pure ⟨true, 0⟩

/-- `wait4` -/
def wait4 : KernelM CallRet := pure ⟨true, args.getD 0 0⟩

/-- `PR_SET_VMA` -/
def prSetVma : Int64 := 0x53564d41

/-- `prctl` -/
def prctl : KernelM CallRet :=
  let option := args.getD 0 0
  if option = prSetVma then pure ⟨true, 0⟩
  else
    throw (.exception ("Unsupported prctl option " ++ toString option.toInt ++ " (0x" ++
      String.ofList (Nat.toDigits 16 option.toUInt64.toNat) ++ ")"))

/-- `socket` -/
def socket : KernelM CallRet := do
  let k ← get
  let socketId := k.socketIdx + 1
  let socketInfo : SocketInfo := ⟨args.getD 0 0, args.getD 1 0, args.getD 2 0, none⟩
  set { k with
    sockets := Function.update k.sockets socketId (some socketInfo)
    socketIdx := socketId }
  pure ⟨true, socketId⟩

/-- `AF_UNIX` -/
def afUnix : Int64 := 1
/-- `SOCK_STREAM` -/
def sockStream : Int64 := 1

/-- `bind`. The domain is compared with a domain and with a type. -/
def bind : KernelM CallRet := do
  let k ← get
  match k.sockets (args.getD 0 0) with
  | none => throw (.exception "Expected a socket")
  | some socketInfo =>
    if socketInfo.domain ≠ afUnix ∧ socketInfo.domain ≠ sockStream then
      throw (.exception "Unexpected socket domain / type.")
    else
      let bytes ← onUc (MemoryHelper.readByteArray (args.getD 1 0 + 3) (args.getD 2 0 - 3))
      modify fun k => { k with
        sockets := Function.update k.sockets (args.getD 0 0)
          (some { socketInfo with addr := some (env.decodeUTF8 bytes) }) }
      pure ⟨true, 0⟩

/-- `reg_read` by number -/
def regRead (i : ℕ) : UcM Int64 := fun uc =>
  if i = regCpReg ∧ outside.cpRegRead = false then .error (.unicornException .arg) uc
  else .ok (uc.readNumber i (outside.highHalf i)) uc

/-- `reg_write` by number -/
def regWrite (i : ℕ) (v : Int64) : UcM Unit := fun uc =>
  if i = regCpReg ∧ outside.cpRegWrite = false then .error (.unicornException .arg) uc
  else .ok () (uc.writeNumber i v)

/-- `saveState`, from some register on. -/
def saveState : List ℕ → KernelM Unit
  | [] => pure ()
  | i :: is => do
    let v ← onUc (regRead outside i)
    modify fun k => { k with fork := k.fork.map fun f => f.put i v }
    saveState is

/-- `vfork`; `getPid` gives 23456. The state is set before the registers are saved. -/
def vfork : KernelM CallRet := do
  let k ← get
  if k.fork.isSome then throw (.exception "Already forked.")
  else
    set { k with fork := some ⟨23456 + 1, fun _ => 0⟩ }
    saveState outside (List.range regCount)
    pure ⟨true, 0⟩

/-- `loadState`, from some register on. -/
def loadState (f : ForkInfo) : List ℕ → UcM Unit
  | [] => pure ()
  | i :: is => do
    regWrite outside i (f.registerValues i)
    loadState f is

/-- `exitgroup` -/
def exitgroup : KernelM CallRet := do
  let k ← get
  match k.fork with
  | some f =>
    onUc (loadState outside f (List.range regCount))
    modify fun k => { k with fork := none }
    pure ⟨true, f.pid⟩
  | none =>
    throw (.exception ("Application shutdown all threads, status " ++
      String.ofList (Nat.toDigits 16 (args.getD 0 0).toUInt64.toNat)))

end Calls

end Kernel

/-! ## The table -/

/-- The functions that are registered. -/
inductive Syscall where
  | munmap | mprotect | mmap2 | execve | getPid | getTimeOfDay | wait4 | prctl | vfork | exitgroup
  | clockgettime | socket | bind | getcpu | getpid | gettid | getrandom
  /-- `skip`, `futex` and `connect` return zero. -/
  | skip
  | file (call : FileSyscall)
deriving DecidableEq, Repr

namespace Syscall

open Kernel

/-- What a system call does. -/
def code (env : VfsEnv) (outside : Outside) (args : List Int64) : Syscall → KernelM CallRet
  | munmap => onEmu (Handler.munmap (args.getD 0 0) (args.getD 1 0))
  | mprotect => onEmu (Handler.mprotect (args.getD 0 0) (args.getD 1 0) (args.getD 2 0).toInt32)
  | mmap2 => onEmu (Handler.mmap2 (args.getD 0 0) (args.getD 1 0) (args.getD 2 0).toInt32
      (args.getD 3 0).toInt32)
  | execve => Kernel.execve env args
  | getPid => pure ⟨true, 23456⟩
  | getTimeOfDay => Kernel.getTimeOfDay outside args
  | wait4 => Kernel.wait4 args
  | prctl => Kernel.prctl args
  | vfork => Kernel.vfork outside
  | exitgroup => Kernel.exitgroup outside args
  | clockgettime => Kernel.clockgettime outside args
  | socket => Kernel.socket args
  | bind => Kernel.bind env args
  | getcpu => Kernel.getcpu args
  | getpid => pure ⟨true, 21458⟩
  | gettid => pure ⟨true, 0x2211⟩
  | getrandom => Kernel.getrandom outside args
  | skip => pure ⟨true, 0⟩
  | file call => onVfs (call.callback env args)

end Syscall

namespace Kernel

/-- The calls of `addSyscall` in `Handler.initSyscalls` and then in
`VirtualFileSystem.initFileSystem`: number, number of arguments and function. -/
def registrations : List (Int32 × ℕ × Syscall) :=
  [(0x5B, 2, .munmap), (0xDC, 3, .skip), (0x7D, 3, .mprotect), (0xC0, 6, .mmap2),
    (0xB, 3, .execve), (0x43, 3, .skip), (0x48, 3, .skip), (0x14, 0, .getPid),
    (0x4E, 2, .getTimeOfDay), (0x72, 4, .wait4), (0xAC, 5, .prctl), (0xAF, 3, .skip),
    (0xBE, 0, .vfork), (0xF0, 6, .skip), (0xF8, 1, .exitgroup), (0x107, 2, .clockgettime),
    (0x119, 3, .socket), (0x11a, 3, .bind), (0x11b, 3, .skip), (0x14e, 4, .file .faccessat),
    (0x159, 3, .getcpu), (0x14, 0, .getpid), (0xE0, 0, .gettid), (0x180, 3, .getrandom),
    (0x3, 3, .file .read), (0x5, 3, .file .open_), (0x6, 1, .file .close),
    (0x21, 2, .file .access), (0x92, 3, .file .writev), (0xC3, 2, .file .stat64),
    (0xC5, 2, .file .fstat64), (0x142, 4, .file .openat), (0x147, 4, .file .fstatat64)]

/-- The table of `SyscallHandler`, in which a later entry replaces an earlier one. -/
def syscalls (no : Int32) : Option (ℕ × Syscall) := registrations.reverse.lookup no

/-- The number of the system call in `R7`. -/
def number (k : Kernel) : Int32 := (k.emu.uc.regRead .r7).toInt32

/-- `readSyscallArgs` -/
def syscallArgs (k : Kernel) (size : ℕ) : List Int64 :=
  (List.range size).map fun i => k.emu.uc.regRead (Binding.argReg i)

/-- A system call, as `handle` calls it: an exception stops the emulator, and without a result the
next line throws. An error of the machine is not caught. -/
def callback (m : KernelM CallRet) : KernelM CallRet := fun k =>
  match m.run k with
  | .ok ret k => .ok ret k
  | .error .outOfMemory k => .error .outOfMemory k
  | .error _ k => .error .nullPointer { k with stopped := true }

/-- `emu_stop` -/
def emuStop : KernelM Unit := modify fun k => { k with stopped := true }

variable (env : VfsEnv)

/-- `SyscallHandler.handle` -/
def handle (outside : Outside) : KernelM Unit := do
  let k ← get
  match syscalls k.number with
  | none => emuStop
  | some (argSize, syscall) =>
    let ret ← callback (syscall.code env outside (k.syscallArgs argSize))
    if ret.hasReturn then onUc (Unicorn.regWrite .r0 ret.value) else pure ()

/-- `InterruptHandler.hook` -/
def hook (intno : Int32) (outside : Outside) : KernelM Unit :=
  if intno = 2 then handle env outside else emuStop

/-- What happens: the guest runs and leaves some contents of its memory and of the registers, or it
causes an interrupt. -/
inductive Event where
  | guest (mem : UInt64 → UInt8) (regs : ArmReg → UInt32) (upper : ℕ → UInt32)
  | interrupt (intno : Int32) (outside : Outside)

/-- One event; what an exception leaves undone stays undone. -/
def step (k : Kernel) : Event → Kernel
  | .guest mem regs upper => k.withUc { k.emu.uc with mem, regs, upper }
  | .interrupt intno outside => finalState ((hook env intno outside).run k)

/-- The state after some events. -/
def run (k : Kernel) (events : List Event) : Kernel := events.foldl (step env) k

/-- The state after the constructors of `Handler` and `VirtualFileSystem`. -/
def start (emu : Emulator) (host : Host) (clockStart : Int64) : Kernel where
  emu := emu
  files := .create
  host := host
  sockets := fun _ => none
  socketIdx := 0x100000
  clockStart := clockStart
  fork := none
  stopped := false

/-- The system call that an event is. -/
def selected (k : Kernel) : Event → Option (ℕ × Syscall)
  | .guest _ _ _ => none
  | .interrupt intno _ => if intno = 2 then syscalls k.number else none

end Kernel

end Tank
