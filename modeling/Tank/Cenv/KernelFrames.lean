import Tank.Cenv.Kernel

/-!
# What a system call can touch

All system calls work on one state. `Framed call` says what a run of the function of `call` leaves
as it is, also if it throws: no system call but `exit_group` writes a register, only those of the
file system touch files and the host, only `socket` and `bind` the sockets, only `vfork` and
`exit_group` the saved state, and only `mmap2`, `mprotect` and `munmap` anything of the emulator but
the contents of guest memory. Everything about runs follows from this and from what the calls do to
their own part.

* `framed_code`: the statement for every system call;
* `exists_framed`, `step_of_not_selected`: an event, and what it leaves as it is.
-/

namespace Tank

open ToMathlib

/-! ## Code that only stores to guest memory -/

/-- Nothing of the engine but the contents of memory is different. -/
def Unicorn.Stores (uc uc' : Unicorn) : Prop := uc' = { uc with mem := uc'.mem }

instance Unicorn.Stores.isPreorder : IsPreorder Unicorn Unicorn.Stores where
  refl _ := rfl
  trans _ _ _ h₁ h₂ := by
    rw [Unicorn.Stores] at h₁ h₂ ⊢
    rw [h₂, h₁]

/-- A store does not show in the registers. -/
theorem Unicorn.Stores.registers {uc uc' : Unicorn} (h : uc.Stores uc') :
    uc'.registers = uc.registers := by
  rw [h]
  rfl

/-- Code that only stores to guest memory. -/
def OnlyStores {α : Type} (m : UcM α) : Prop := Keeps Unicorn.Stores m

/-- Code that leaves the engine as it is does not even do that. -/
theorem OnlyStores.of_onlyReads {α : Type} {m : UcM α} (h : MemoryHelper.OnlyReads m) :
    OnlyStores m := by
  intro uc
  rw [h uc]
  exact Std.Refl.refl uc

/-- `mem_write` stores. -/
theorem onlyStores_memWrite (addr : Int64) (bytes : List UInt8) :
    OnlyStores (Unicorn.memWrite addr bytes) := by
  intro uc
  rw [Unicorn.run_memWrite]
  split <;> rfl

/-- A negative size throws, and else memory is read. -/
theorem onlyStores_readByteArray (addr size : Int64) :
    OnlyStores (MemoryHelper.readByteArray addr size) := by
  rw [MemoryHelper.readByteArray]
  split
  · exact fun _ => rfl
  · exact .of_onlyReads (MemoryHelper.onlyReads_memRead _ _)

/-- Strings are only read. -/
theorem onlyStores_readUTF8 (decode : List UInt8 → String) (addr : Int64) :
    OnlyStores (MemoryHelper.readUTF8 decode addr) :=
  .of_onlyReads (MemoryHelper.onlyReads_readUTF8 decode addr)

/-- Every field of a `stat` is a store. -/
theorem onlyStores_writeStat2Memory (stat : String → Option Int64) (ptr : Int64)
    (fields : List (Int64 × Option String × ℕ)) :
    OnlyStores (writeStat2Memory stat ptr fields) := by
  induction fields with
  | nil => exact .pure _
  | cons field fields ih =>
    exact Keeps.bind (.getOrThrow _) fun _ => (onlyStores_memWrite _ _).bind fun _ => ih

/-- `execve` only reads its arguments. -/
theorem onlyStores_readArgv (env : VfsEnv) (n : ℕ) (argvAddr : Int64) :
    OnlyStores (Kernel.readArgv env n argvAddr) := by
  induction n generalizing argvAddr with
  | zero => exact fun _ => rfl
  | succ n ih =>
    have hptr : OnlyStores (MemoryHelper.readPtr32 argvAddr) :=
      (OnlyStores.of_onlyReads (MemoryHelper.onlyReads_memRead _ _)).bind fun _ => .pure _
    refine hptr.bind fun earg => ?_
    split
    · exact .pure _
    · exact (onlyStores_readUTF8 _ _).bind fun _ => ih _

/-! ## The file system -/

/-- Code of the file system that does not change the engine but for the contents of memory. -/
def VfsStores {α : Type} (m : VfsM α) : Prop := Keeps (InvImage Unicorn.Stores VfsState.uc) m

namespace VfsStores

variable {α : Type}

/-- Code that only stores does so in the file system, too. -/
theorem onEngine {m : UcM α} (hm : OnlyStores m) : VfsStores (onEngine m) := by
  intro s
  have hstores := hm s.uc
  simp only [EStateM.run, Tank.onEngine] at hstores ⊢
  cases hrun : m s.uc with
  | ok a uc => rwa [hrun] at hstores
  | error err uc => rwa [hrun] at hstores

/-- The host has no engine. -/
theorem onHost (m : HostM α) : VfsStores (onHost m) := by
  intro s
  simp only [EStateM.run, Tank.onHost]
  cases m s.host <;> exact rfl

end VfsStores

section Files

open VirtualFileSystem

variable {env : VfsEnv}

/-- A path is read. -/
theorem vfsStores_readPath (addr : Int64) : VfsStores (readPath env addr) :=
  .onEngine (onlyStores_readUTF8 _ _)

/-- Files are created on the host. -/
theorem vfsStores_createIfAsked (name : String) (flag : Int64) :
    VfsStores (createIfAsked env name flag) := by
  rw [createIfAsked]
  split
  · exact .onHost _
  · exact .pure _

/-- A new descriptor concerns the table and the host. -/
theorem vfsStores_store (name : String) (flag : Int64) : VfsStores (store env name flag) := by
  intro s
  -- The table is set first, which does not concern the engine.
  exact (vfsStores_createIfAsked name flag).bind (fun _ => .pure _)
    { s with files := s.files.put s.files.nextFd ⟨name, s.files.nextFd, none⟩ }

/-- `openat` reads a path. -/
theorem vfsStores_openat (args : List Int64) : VfsStores (openat env args) := by
  refine (vfsStores_readPath _).bind fun path => ?_
  rw [open_]
  split <;> exact vfsStores_store _ _

/-- `close` concerns the table. -/
theorem vfsStores_close (args : List Int64) : VfsStores (close args) := by
  intro s
  rw [close, get_bind]
  cases s.files.get (args.getD 0 0).toInt <;> exact rfl

/-- `access` and `stat64` read a path. -/
theorem vfsStores_existsAt (addr : Int64) : VfsStores (existsAt env addr) :=
  (vfsStores_readPath addr).bind fun _ => .get_bind fun _ => .pure _

/-- `fstat64` stores the fields. -/
theorem vfsStores_fstat64 (args : List Int64) : VfsStores (fstat64 env args) := by
  refine .get_bind fun s => ?_
  split
  · exact .pure _
  · exact (VfsStores.onHost _).bind fun stat =>
      (VfsStores.onEngine (onlyStores_writeStat2Memory stat _ _)).bind fun _ => .pure _

/-- `writev` reads the bytes that it writes to a file. -/
theorem vfsStores_writev (args : List Int64) : VfsStores (writev env args) := by
  refine .get_bind fun s => ?_
  split
  · exact .pure _
  · refine Keeps.bind (fun s => ?_) fun _ => .pure _
    have hwrite (path : String) (buffer count : Int64) : VfsStores (writeFile path buffer count) :=
      (VfsStores.onHost _).bind fun _ =>
        (VfsStores.onEngine (onlyStores_readByteArray _ _)).bind fun _ => VfsStores.onHost _
    exact hwrite _ _ _ s

/-- A stream is kept in the table. -/
theorem vfsStores_setStream (fd : ℤ) (file : VirtualFile) (fis : FileInputStream) :
    VfsStores (setStream fd file fis) := fun _ => rfl

/-- A stream is opened on the host. -/
theorem vfsStores_getInputStream (fd : ℤ) (file : VirtualFile) :
    VfsStores (getInputStream env fd file) := by
  rw [getInputStream]
  split
  · exact .pure _
  · exact (VfsStores.onHost _).bind fun fis =>
      (vfsStores_setStream fd file fis).bind fun _ => .pure _

/-- The bytes of a file are stored. -/
theorem vfsStores_readFile (fd : ℤ) (file : VirtualFile) (buffer : Int64) (size : ℕ) :
    VfsStores (readFile env fd file buffer size) := by
  refine (vfsStores_getInputStream fd file).bind fun fis => .get_bind fun s => ?_
  split
  · exact .pure _
  · exact (vfsStores_setStream _ _ _).bind fun _ =>
      (VfsStores.onEngine (onlyStores_memWrite _ _)).bind fun _ => .pure _

/-- `read` stores what it has read. -/
theorem vfsStores_read (args : List Int64) : VfsStores (VirtualFileSystem.read env args) := by
  rw [VirtualFileSystem.read]
  split
  · exact .throw _
  · refine .get_bind fun s => ?_
    split
    · exact .pure _
    · split
      · exact .throw _
      · split
        · exact .pure _
        · exact vfsStores_readFile _ _ _ _

/-- No system call on files does more than to store. -/
theorem vfsStores_callback (call : FileSyscall) (args : List Int64) :
    VfsStores (call.callback env args) := by
  cases call with
  | read => exact vfsStores_read args
  | open_ => exact vfsStores_openat args
  | close => exact vfsStores_close args
  | access => exact vfsStores_existsAt _
  | writev => exact vfsStores_writev args
  | stat64 => exact vfsStores_existsAt _
  | fstat64 => exact vfsStores_fstat64 args
  | openat => exact vfsStores_openat args
  | fstatat64 => exact vfsStores_existsAt _
  | faccessat => exact (vfsStores_readPath _).bind fun _ => .pure _

end Files

/-! ## The system calls on memory -/

/-- The registers and the modules are the same. -/
structure Emulator.SameGuestState (emu emu' : Emulator) : Prop where
  registers : emu'.uc.registers = emu.uc.registers
  modules : emu'.modules = emu.modules
  hookedSymbols : emu'.hookedSymbols = emu.hookedSymbols

instance Emulator.SameGuestState.isPreorder : IsPreorder Emulator SameGuestState where
  refl _ := ⟨rfl, rfl, rfl⟩
  trans _ _ _ h₁ h₂ := ⟨h₂.registers.trans h₁.registers, h₂.modules.trans h₁.modules,
    h₂.hookedSymbols.trans h₁.hookedSymbols⟩

/-- Code of the memory manager that writes no register. -/
def MemKeepsRegs {α : Type} (m : MemM α) : Prop :=
  Keeps (fun s s' => s'.uc.registers = s.uc.registers) m

/-- Code of the engine, run by the memory manager. -/
theorem memKeepsRegs_liftUc {α : Type} {m : UcM α}
    (hm : Keeps (fun uc uc' => uc'.registers = uc.registers) m) :
    MemKeepsRegs (MemoryManager.liftUc m) :=
  MemoryManager.keeps_liftUc hm

/-- Code of the memory manager, run by the emulator. -/
theorem sameGuestState_liftMem {α : Type} {m : MemM α} (hm : MemKeepsRegs m) :
    Keeps Emulator.SameGuestState (liftMem m) := by
  rw [liftMem_eq_zoom]
  exact Keeps.zoom hm fun _ _ hregs => ⟨hregs, rfl, rfl⟩

/-- Mapping writes no register. -/
theorem regs_memMap (chunk : MemChunk) (perms : Int32) :
    Keeps (fun uc uc' => uc'.registers = uc.registers) (Unicorn.memMap chunk perms) := by
  intro uc
  rw [Unicorn.run_memMap]
  split <;> rfl

/-- Nor does changing permissions. -/
theorem regs_memProtect (chunk : MemChunk) (perms : Int32) :
    Keeps (fun uc uc' => uc'.registers = uc.registers) (Unicorn.memProtect chunk perms) := by
  intro uc
  simp only [EStateM.run, Unicorn.memProtect]
  split_ifs <;> rfl

/-- Nor does unmapping. -/
theorem regs_memUnmap (chunk : MemChunk) :
    Keeps (fun uc uc' => uc'.registers = uc.registers) (Unicorn.memUnmap chunk) := by
  intro uc
  simp only [EStateM.run, Unicorn.memUnmap]
  split_ifs <;> rfl

/-- `protect` calls the engine at most once. -/
theorem memKeepsRegs_protect (addr size : Int64) (prot : Int32) :
    MemKeepsRegs (MemoryManager.protect addr size prot) := by
  rw [MemoryManager.protect]
  split
  · exact memKeepsRegs_liftUc (regs_memProtect _ _)
  · exact fun _ => rfl

/-- So does `unmap`. -/
theorem memKeepsRegs_unmap (addr size : Int64) : MemKeepsRegs (MemoryManager.unmap addr size) := by
  rw [MemoryManager.unmap]
  split
  · exact memKeepsRegs_liftUc (regs_memUnmap _)
  · exact fun _ => rfl

/-- `mmap` reserves a chunk and maps it. -/
theorem memKeepsRegs_mmap (size : Int64) (prot : Int32) :
    MemKeepsRegs (MemoryManager.mmap size prot) := by
  refine Keeps.bind (fun s => ?_) fun c =>
    Keeps.bind (memKeepsRegs_liftUc (regs_memMap _ _))
      fun _ _ => rfl
  rw [MemoryManager.run_reserveModule]
  cases (s.incrementalAllocator.reserve size).2 <;> rfl

section Memory

variable {addr size : Int64} {prot flag : Int32}

/-- `munmap` changes no register and no module. -/
theorem sameGuestState_munmap : Keeps Emulator.SameGuestState (Handler.munmap addr size) :=
  Keeps.bind (sameGuestState_liftMem (memKeepsRegs_unmap _ _))
    fun _ => .pure _

/-- Changing permissions, with any value that is returned. -/
theorem sameGuestState_protect (c : MemChunk) (value : Int64) :
    Keeps Emulator.SameGuestState (do
      if c.addr = addr then
        liftMem (MemoryManager.protect c.addr c.size prot)
        pure (⟨true, value⟩ : CallRet)
      else pure ⟨true, -1⟩) := by
  split
  · exact Keeps.bind
      (sameGuestState_liftMem (memKeepsRegs_protect _ _ _)) fun _ =>
        Keeps.pure _
  · exact .pure _

/-- Nor does `mprotect`. -/
theorem sameGuestState_mprotect :
    Keeps Emulator.SameGuestState (Handler.mprotect addr size prot) :=
  sameGuestState_protect (align addr size true) 0

/-- Nor does `mmap2`, which may store the error number. -/
theorem sameGuestState_mmap2 :
    Keeps Emulator.SameGuestState (Handler.mmap2 addr size prot flag) := by
  rw [Handler.mmap2]
  split
  · exact sameGuestState_protect (align addr size true) _
  · refine Keeps.bind
      (sameGuestState_liftMem (memKeepsRegs_mmap _ _)) fun value => ?_
    refine Keeps.get_bind fun emu => Keeps.bind (.getOrThrow _) fun errnoAddr => ?_
    refine Keeps.bind ?_ fun _ => .pure _
    exact sameGuestState_liftMem
      (memKeepsRegs_liftUc fun uc => (onlyStores_memWrite _ _ uc).registers)

end Memory

/-! ## All system calls -/

namespace Syscall

/-- The system calls that change mappings and permissions. -/
def IsMemory (call : Syscall) : Prop := call = munmap ∨ call = mprotect ∨ call = mmap2

/-- What a run of a system call leaves as it is. -/
structure Framed (call : Syscall) (k k' : Kernel) : Prop where
  registers : call ≠ exitgroup → k'.emu.uc.registers = k.emu.uc.registers
  memory : ¬call.IsMemory → k'.emu = k.emu.withUc { k.emu.uc with
    mem := k'.emu.uc.mem, regs := k'.emu.uc.regs, upper := k'.emu.uc.upper }
  modules : k'.emu.modules = k.emu.modules
  hookedSymbols : k'.emu.hookedSymbols = k.emu.hookedSymbols
  files : (∀ c, call ≠ file c) → k'.files = k.files ∧ k'.host = k.host
  sockets : call ≠ socket → call ≠ bind → k'.sockets = k.sockets
  socketIdx : call ≠ socket → k'.socketIdx = k.socketIdx
  fork : call ≠ vfork → call ≠ exitgroup → k'.fork = k.fork
  clockStart : k'.clockStart = k.clockStart
  stopped : k'.stopped = k.stopped

namespace Framed

variable {call : Syscall} {α : Type}

/-- A run that does nothing. -/
theorem refl (k : Kernel) : Framed call k k where
  registers _ := rfl
  memory _ := rfl
  modules := rfl
  hookedSymbols := rfl
  files _ := ⟨rfl, rfl⟩
  sockets _ _ := rfl
  socketIdx _ := rfl
  fork _ _ := rfl
  clockStart := rfl
  stopped := rfl

/-- One run after another. -/
theorem trans (k k₁ k₂ : Kernel) (h₁ : Framed call k k₁) (h₂ : Framed call k₁ k₂) :
    Framed call k k₂ where
  registers h := (h₂.registers h).trans (h₁.registers h)
  memory h := by
    rw [h₂.memory h, h₁.memory h]
    rfl
  modules := h₂.modules.trans h₁.modules
  hookedSymbols := h₂.hookedSymbols.trans h₁.hookedSymbols
  files h := ⟨(h₂.files h).1.trans (h₁.files h).1, (h₂.files h).2.trans (h₁.files h).2⟩
  sockets h h' := (h₂.sockets h h').trans (h₁.sockets h h')
  socketIdx h := (h₂.socketIdx h).trans (h₁.socketIdx h)
  fork h h' := (h₂.fork h h').trans (h₁.fork h h')
  clockStart := h₂.clockStart.trans h₁.clockStart
  stopped := h₂.stopped.trans h₁.stopped

instance isPreorder : IsPreorder Kernel (Framed call) where
  refl := refl
  trans := trans

/-- A store is allowed to every system call. -/
theorem onUc {m : UcM α} (hm : OnlyStores m) : Keeps (Framed call) (Kernel.onUc m) := by
  refine Keeps.zoom hm fun k uc huc => ?_
  rw [huc]
  exact { refl k with memory := fun _ => rfl }

/-- Mappings are for the system calls on memory. -/
theorem onEmu {m : EmuM α} (hcall : call.IsMemory) (hm : Keeps Emulator.SameGuestState m) :
    Keeps (Framed call) (Kernel.onEmu m) :=
  Keeps.zoom hm fun k _ hemu =>
    { refl k with
      registers := fun _ => hemu.registers
      memory := fun h => absurd hcall h
      modules := hemu.modules
      hookedSymbols := hemu.hookedSymbols }

/-- Files and the host are for the system calls on files. -/
theorem onVfs {c : FileSyscall} {m : VfsM α} (hm : VfsStores m) :
    Keeps (Framed (file c)) (Kernel.onVfs m) := by
  refine Keeps.zoom hm fun k s hs => ?_
  have huc : s.uc = { k.emu.uc with mem := s.uc.mem } := hs
  exact
    { refl k with
      registers := fun _ => hs.registers
      memory := fun _ => by
        rw [Kernel.withVfs, Kernel.withUc, huc]
        rfl
      files := fun h => absurd rfl (h c) }

/-- A word is stored. -/
theorem writeU32 (addr value : Int64) : Keeps (Framed call) (Kernel.writeU32 addr value) :=
  onUc (onlyStores_memWrite _ _)

end Framed

section Calls

variable {env : VfsEnv} {outside : Outside} {args : List Int64} {call : Syscall}

/-- `execve` stores the error number and does no more. -/
theorem framed_execve : Keeps (Framed call) (Kernel.execve env args) := by
  refine Keeps.bind (Framed.onUc (onlyStores_readUTF8 _ _)) fun _ => ?_
  refine Keeps.bind (Framed.onUc (onlyStores_readArgv _ _ _)) fun _ => ?_
  refine Keeps.bind (Keeps.get_bind fun k => ?_) fun _ => .pure _
  exact Keeps.bind (Keeps.getOrThrow _) fun _ => Framed.writeU32 _ _

/-- Two words are written one after the other. -/
theorem framed_writeTwo {m : KernelM CallRet} (addr addr' value value' : Int64)
    (hm : Keeps (Framed call) m) :
    Keeps (Framed call) (do
      Kernel.writeU32 addr value
      Kernel.writeU32 addr' value'
      m) :=
  Keeps.bind (Framed.writeU32 _ _) fun _ => Keeps.bind (Framed.writeU32 _ _) fun _ => hm

/-- `gettimeofday` stores times. -/
theorem framed_getTimeOfDay : Keeps (Framed call) (Kernel.getTimeOfDay outside args) := by
  have htz : Keeps (Framed call) (do
      if args.getD 1 0 ≠ 0 then
        Kernel.writeU32 (args.getD 1 0) (-120)
        Kernel.writeU32 (args.getD 1 0 + 4) 0
      pure (⟨true, 0⟩ : CallRet)) := by
    split
    · exact framed_writeTwo _ _ _ _ (Keeps.pure _)
    · exact .pure _
  rw [Kernel.getTimeOfDay]
  split
  · exact framed_writeTwo _ _ _ _ htz
  · exact htz

/-- `clock_gettime` stores a time. -/
theorem framed_clockgettime : Keeps (Framed call) (Kernel.clockgettime outside args) := by
  refine Keeps.get_bind fun k => ?_
  split
  · exact framed_writeTwo _ _ _ _ (Keeps.pure _)
  · split
    · exact framed_writeTwo _ _ _ _ (Keeps.pure _)
    · exact .throw _

/-- `prctl` does nothing, or throws. -/
theorem framed_prctl : Keeps (Framed call) (Kernel.prctl args) := by
  rw [Kernel.prctl]
  split
  · exact .pure _
  · exact .throw _

/-- `saveState` reads registers and fills the saved state. -/
theorem framed_saveState (is : List ℕ) :
    Keeps (Framed vfork) (Kernel.saveState outside is) := by
  induction is with
  | nil => exact .pure _
  | cons i is ih =>
    refine Keeps.bind (Framed.onUc (.of_onlyReads fun uc => ?_)) fun v => ?_
    · simp only [EStateM.run, Kernel.regRead]
      split <;> rfl
    · refine Keeps.bind (fun k => ?_) fun _ => ih
      exact { Framed.refl k with fork := fun h => absurd rfl h }

/-- `vfork` saves the registers. -/
theorem framed_vfork : Keeps (Framed vfork) (Kernel.vfork outside) := by
  intro k
  rw [Kernel.vfork, ToMathlib.get_bind]
  split
  · exact Framed.refl k
  · -- The saved state is set first, and then filled.
    have hset : Framed vfork k { k with fork := some ⟨23456 + 1, fun _ => 0⟩ } :=
      { Framed.refl k with fork := fun h => absurd rfl h }
    rw [ToMathlib.set_bind]
    exact Framed.trans k _ _ hset
      (Keeps.bind (framed_saveState (List.range regCount)) (fun _ => Keeps.pure _) _)

/-- `socket` adds to the sockets. -/
theorem framed_socket : Keeps (Framed socket) (Kernel.socket args) := fun k =>
  { Framed.refl k with
    sockets := fun h => absurd rfl h
    socketIdx := fun h => absurd rfl h }

/-- `bind` changes a socket. -/
theorem framed_bind : Keeps (Framed bind) (Kernel.bind env args) := by
  refine Keeps.get_bind fun k => ?_
  split
  · exact .throw _
  · split
    · exact .throw _
    · refine Keeps.bind (Framed.onUc (onlyStores_readByteArray _ _)) fun bytes => ?_
      refine Keeps.bind (fun k => ?_) fun _ => .pure _
      exact { Framed.refl k with sockets := fun _ h => absurd rfl h }

/-- `loadState` writes registers. -/
theorem keeps_loadState (f : ForkInfo) (is : List ℕ) :
    Keeps (fun uc uc' => uc' = { uc with regs := uc'.regs, upper := uc'.upper })
      (Kernel.loadState outside f is) := by
  induction is with
  | nil => exact fun _ => rfl
  | cons i is ih =>
    have : IsTrans Unicorn fun uc uc' => uc' = { uc with regs := uc'.regs, upper := uc'.upper } :=
      ⟨fun uc uc₁ uc₂ h₁ h₂ => by rw [h₂, h₁]⟩
    refine Keeps.bind (fun uc => ?_) fun _ => ih
    simp only [EStateM.run, Kernel.regWrite]
    split <;> rfl

/-- `exit_group` loads the registers and drops the saved state. -/
theorem framed_exitgroup : Keeps (Framed exitgroup) (Kernel.exitgroup outside args) := by
  refine Keeps.get_bind fun k => ?_
  split
  · refine Keeps.bind (Keeps.zoom (keeps_loadState _ _) fun k uc huc => ?_) fun _ => ?_
    · rw [huc]
      exact { Framed.refl k with registers := fun h => absurd rfl h, memory := fun _ => rfl }
    · refine Keeps.bind (fun k => ?_) fun _ => .pure _
      exact { Framed.refl k with fork := fun _ h => absurd rfl h }
  · exact .throw _

/-- `getcpu` stores a word. -/
theorem framed_getcpu : Keeps (Framed call) (Kernel.getcpu args) := by
  rw [Kernel.getcpu]
  split
  · exact Keeps.bind (Framed.writeU32 _ _) fun _ => .pure _
  · exact .pure _

/-- `getrandom` stores bytes. -/
theorem framed_getrandom : Keeps (Framed call) (Kernel.getrandom outside args) := by
  rw [Kernel.getrandom]
  split
  · exact .throw _
  · exact Keeps.bind (Framed.onUc (onlyStores_memWrite _ _)) fun _ => .pure _

end Calls

/-- What each system call leaves as it is. -/
theorem framed_code (env : VfsEnv) (outside : Outside) (args : List Int64) (call : Syscall) :
    Keeps (Framed call) (call.code env outside args) := by
  cases call with
  | munmap => exact Framed.onEmu (.inl rfl) sameGuestState_munmap
  | mprotect => exact Framed.onEmu (.inr (.inl rfl)) sameGuestState_mprotect
  | mmap2 => exact Framed.onEmu (.inr (.inr rfl)) sameGuestState_mmap2
  | execve => exact framed_execve
  | getPid => exact .pure _
  | getTimeOfDay => exact framed_getTimeOfDay
  | wait4 => exact .pure _
  | prctl => exact framed_prctl
  | vfork => exact framed_vfork
  | exitgroup => exact framed_exitgroup
  | clockgettime => exact framed_clockgettime
  | socket => exact framed_socket
  | bind => exact framed_bind
  | getcpu => exact framed_getcpu
  | getpid => exact .pure _
  | gettid => exact .pure _
  | getrandom => exact framed_getrandom
  | skip => exact .pure _
  | file call => exact Framed.onVfs (vfsStores_callback call args)

end Syscall

/-! ## Events -/

namespace Kernel

variable {env : VfsEnv} {k : Kernel} {e : Event} {argSize : ℕ} {call : Syscall}

/-- The value of a register is set. -/
def withReg (k : Kernel) (reg : ArmReg) (value : UInt32) : Kernel :=
  k.withUc { k.emu.uc with regs := Function.update k.emu.uc.regs reg value }

/-- What `handle` makes of the run of a system call. -/
def afterCall : EStateM.Result JavaException Kernel CallRet → Kernel
  | .ok ret k => if ret.hasReturn then k.withReg .r0 ret.value.toUInt64.toUInt32 else k
  | .error .outOfMemory k => k
  | .error _ k => { k with stopped := true }

/-- What `handle` does with a system call ends in `afterCall`. -/
theorem finalState_callback_bind (m : KernelM CallRet) (k : Kernel) :
    finalState ((do
      let ret ← callback m
      if ret.hasReturn then onUc (Unicorn.regWrite .r0 ret.value) else pure ()).run k) =
      afterCall (m.run k) := by
  cases hrun : m.run k with
  | ok ret k' =>
    have hcallback : (callback m).run k = .ok ret k' := by
      simp only [EStateM.run] at hrun
      simp only [EStateM.run, callback, hrun]
    rw [bind_of_ok hcallback, afterCall]
    split <;> rfl
  | error err k' =>
    have hcallback : ∃ err', (callback m).run k = .error err' (afterCall (.error err k')) := by
      simp only [EStateM.run] at hrun
      simp only [EStateM.run, callback, hrun]
      cases err <;> exact ⟨_, rfl⟩
    obtain ⟨err', herr⟩ := hcallback
    rw [bind_of_error herr]
    rfl

/-- Interrupt 2 is the system call with the number in `R7`. -/
theorem step_interrupt (env : VfsEnv) (outside : Outside)
    (h : syscalls k.number = some (argSize, call)) :
    k.step env (.interrupt 2 outside) =
      afterCall ((call.code env outside (k.syscallArgs argSize)).run k) := by
  rw [step, hook, if_pos rfl, handle, ToMathlib.get_bind, h]
  exact finalState_callback_bind _ k

/-- A system call is selected by an interrupt 2 and its number. -/
theorem selected_eq_some_iff :
    k.selected e = some (argSize, call) ↔
      (∃ outside, e = .interrupt 2 outside) ∧ syscalls k.number = some (argSize, call) := by
  cases e with
  | guest mem regs upper => simp [selected]
  | interrupt intno outside =>
    rw [selected]
    split
    next hintno => simp [hintno]
    next hintno => simp [hintno]

/-- An event that is a system call. -/
theorem step_of_selected (env : VfsEnv) (h : k.selected e = some (argSize, call)) :
    ∃ outside, k.step env e =
      afterCall ((call.code env outside (k.syscallArgs argSize)).run k) := by
  obtain ⟨⟨outside, rfl⟩, hsyscall⟩ := selected_eq_some_iff.1 h
  exact ⟨outside, step_interrupt env outside hsyscall⟩

/-- An event that is no system call: the guest runs, or the emulator stops. -/
theorem step_of_not_selected (env : VfsEnv) (h : k.selected e = none) :
    (∃ mem regs upper, e = .guest mem regs upper ∧
        k.step env e = k.withUc { k.emu.uc with mem, regs, upper }) ∨
      k.step env e = { k with stopped := true } := by
  cases e with
  | guest mem regs upper => exact .inl ⟨mem, regs, upper, rfl, rfl⟩
  | interrupt intno outside =>
    refine .inr ?_
    rw [selected] at h
    rw [step, hook]
    split at h
    next hintno =>
      rw [if_pos hintno, handle, ToMathlib.get_bind, h]
      rfl
    next hintno =>
      rw [if_neg hintno]
      rfl

/-- The end of `handle` concerns `R0` and whether the emulator stops, and nothing else. -/
theorem afterCall_eq (r : EStateM.Result JavaException Kernel CallRet) :
    ∃ regs stopped, (∀ reg ≠ .r0, regs reg = (finalState r).emu.uc.regs reg) ∧
      afterCall r = { (finalState r).withUc { (finalState r).emu.uc with regs } with stopped } := by
  cases r with
  | ok ret k =>
    rw [afterCall]
    split
    · exact ⟨_, k.stopped, fun reg hreg => Function.update_of_ne hreg _ _, rfl⟩
    · exact ⟨k.emu.uc.regs, k.stopped, fun _ _ => rfl, rfl⟩
  | error err k =>
    cases err with
    | outOfMemory => exact ⟨k.emu.uc.regs, k.stopped, fun _ _ => rfl, rfl⟩
    | _ => exact ⟨k.emu.uc.regs, true, fun _ _ => rfl, rfl⟩

/-- A system call, with all that it leaves as it is. -/
theorem exists_framed (env : VfsEnv) (h : k.selected e = some (argSize, call)) :
    ∃ outside k' regs stopped,
      k' = finalState ((call.code env outside (k.syscallArgs argSize)).run k) ∧
      call.Framed k k' ∧ (∀ reg ≠ .r0, regs reg = k'.emu.uc.regs reg) ∧
      k.step env e = { k'.withUc { k'.emu.uc with regs } with stopped } := by
  obtain ⟨outside, hstep⟩ := step_of_selected env h
  obtain ⟨regs, stopped, hregs, hafter⟩ :=
    afterCall_eq ((call.code env outside (k.syscallArgs argSize)).run k)
  exact ⟨outside, _, regs, stopped, rfl, Syscall.framed_code env outside _ call k, hregs,
    hstep.trans hafter⟩

/-- An event does not show in a view without memory, registers and `stopped`, if the system call
that it is does not. -/
theorem view_step (env : VfsEnv) {τ : Type} (view : Kernel → τ)
    (hview : ∀ (k : Kernel) mem regs upper stopped,
      view { k.withUc { k.emu.uc with mem, regs, upper } with stopped } = view k)
    (hcall : ∀ argSize call outside, k.selected e = some (argSize, call) →
      ∀ k', k' = finalState ((call.code env outside (k.syscallArgs argSize)).run k) →
        call.Framed k k' → view k' = view k) : view (k.step env e) = view k := by
  cases hsel : k.selected e with
  | none =>
    rcases step_of_not_selected env hsel with ⟨mem, regs, upper, -, hstep⟩ | hstep
    · rw [hstep]
      exact hview k mem regs upper k.stopped
    · rw [hstep]
      exact hview k k.emu.uc.mem k.emu.uc.regs k.emu.uc.upper true
  | some selected =>
    obtain ⟨outside, k', regs, stopped, hk', hframed, -, hstep⟩ := exists_framed env hsel
    rw [hstep, ← hcall _ _ _ hsel k' hk' hframed]
    exact hview k' k'.emu.uc.mem regs k'.emu.uc.upper stopped

end Kernel

end Tank
