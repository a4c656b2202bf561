import Tank.Helper.MemoryHelper
import Tank.Hook.Hookers
import Tank.ToMathlib.FirstFree
import Tank.Vfs.HostFiles

/-!
# The virtual file system

`VirtualFileSystem` answers the system calls on files with files of the host under the virtual root.
A descriptor stands for a `VirtualFile` with the path that it was opened with; the file is looked up
on the host when it is first read. Descriptors are `long`s in the source. There are never so many
that counting them up could overflow, so they are integers here.

`open` and `openat` have the same handler, which takes the path and the flags from the same
argument.
-/

namespace Tank

open ToMathlib

/-- `VirtualFile`; nothing uses its output stream. -/
structure VirtualFile where
  name : String
  fd : ℤ
  fis : Option FileInputStream
deriving DecidableEq, Repr

/-! ## The table of open files -/

/-- The map `files`, with its entries in no particular order. -/
structure FileTable where
  entries : List (ℤ × VirtualFile)
  nodup : (entries.map Prod.fst).Nodup

namespace FileTable

/-- The table that the constructor makes. -/
def create : FileTable where
  entries := [(0, ⟨"stdin", 0, none⟩), (1, ⟨"stdout", 1, none⟩), (2, ⟨"stderr", 2, none⟩)]
  nodup := by decide

def keys (files : FileTable) : List ℤ := files.entries.map Prod.fst

/-- `get`; `none` is `null`. -/
def get (files : FileTable) (fd : ℤ) : Option VirtualFile := files.entries.lookup fd

/-- `remove` -/
def remove (files : FileTable) (fd : ℤ) : FileTable where
  entries := files.entries.filter fun e => e.1 ≠ fd
  nodup := nodup_filter_fst files.nodup _

/-- `put` -/
def put (files : FileTable) (fd : ℤ) (file : VirtualFile) : FileTable where
  entries := (fd, file) :: (files.remove fd).entries
  nodup := List.nodup_cons.2 ⟨by simp [remove], (files.remove fd).nodup⟩

/-- `nextFd` -/
def nextFd (files : FileTable) : ℤ := firstFree files.keys 3

variable {files : FileTable} {fd d : ℤ} {file : VirtualFile}

/-- The keys are the descriptors that have an entry. -/
theorem mem_keys_iff : d ∈ files.keys ↔ files.get d ≠ none := by
  simp [keys, get]

/-- `remove` takes one descriptor out. -/
theorem get_remove : (files.remove fd).get d = if d = fd then none else files.get d :=
  lookup_filter_ne files.entries fd d

/-- `put` gives one descriptor a new entry. -/
theorem get_put : (files.put fd file).get d = if d = fd then some file else files.get d := by
  rw [get, put, List.lookup_cons]
  split_ifs with hd
  · simp [hd]
  · have hbeq : (d == fd) = false := beq_eq_false_iff_ne.2 hd
    rw [hbeq]
    exact get_remove.trans (if_neg hd)

/-- The descriptor of a new file is free. -/
theorem get_nextFd : files.get files.nextFd = none := by
  by_contra h
  exact firstFree_notMem files.keys 3 (mem_keys_iff.2 h)

end FileTable

/-! ## System calls -/

/-- What the file system knows of its surroundings: the data of the app, the decoder of strings, and
the values of a JSON object, or `none` if the text is not one. -/
structure VfsEnv where
  root : RootDir
  decodeUTF8 : List UInt8 → String
  parseJson : List UInt8 → Option (String → Option Int64)

/-- The file system with the engine and the host. -/
structure VfsState where
  uc : Unicorn
  files : FileTable
  host : Host

/-- Code of the file system. -/
abbrev VfsM := EStateM JavaException VfsState

/-- Runs code on the engine. -/
def onEngine {α : Type} (m : UcM α) : VfsM α := fun s =>
  match m.run s.uc with
  | .ok a uc => .ok a { s with uc }
  | .error err uc => .error err { s with uc }

/-- Runs code on the files of the host. -/
def onHost {α : Type} (m : HostM α) : VfsM α := fun s =>
  match m.run s.host with
  | .ok a host => .ok a { s with host }
  | .error err host => .error err { s with host }

/-- `try { … } catch (Exception e) { e.printStackTrace(); }` -/
def swallow (m : VfsM Unit) : VfsM Unit := fun s => .ok () (finalState (m.run s))

/-- `FileStatHelper.writeStat2Memory`: the fields in the order in which they are written, with their
offsets and sizes. A field without a name is zero. -/
def statFields (writeTimes : Bool) : List (Int64 × Option String × ℕ) :=
  let time (field : String) : Option String := if writeTimes then some field else none
  [(0, some "st_dev", 8), (8, none, 4), (12, some "__st_ino", 4), (16, some "st_mode", 4),
    (20, some "st_nlink", 4), (24, some "st_uid", 4), (28, some "st_gid", 4),
    (32, some "st_rdev", 8), (40, none, 4), (44, none, 4), (48, some "st_size", 8),
    (56, some "st_blksize", 4), (60, none, 4), (64, some "st_blocks", 8),
    (72, time "st_atime", 4), (76, time "st_atime_ns", 4), (80, time "st_mtime", 4),
    (84, time "st_mtime_ns", 4), (88, time "st_ctime", 4), (92, time "st_ctime_ns", 4),
    (96, some "st_ino", 8)]

/-- `getLong` of a field; a missing one is an exception. -/
def statValue (stat : String → Option Int64) : Option String → Except JavaException Int64
  | none => .ok 0
  | some field =>
    match stat field with
    | some value => .ok value
    | none => .error .jsonException

def writeStat2Memory (stat : String → Option Int64) (ptr : Int64) :
    List (Int64 × Option String × ℕ) → UcM Unit
  | [] => pure ()
  | (offset, field, size) :: fields => do
    let value ← getOrThrow (statValue stat field)
    MemoryHelper.writeValue (ptr + offset) value size
    writeStat2Memory stat ptr fields

namespace VirtualFileSystem

/-- `O_CREAT` -/
def oCreat : Int64 := 0o100

variable (env : VfsEnv)

/-- `virtualPath` -/
def virtualPath (name : String) : String := env.root.getVirtualFile name

/-- `VirtualFile.create` -/
def createFile (path : String) : HostM Unit := do
  let host ← get
  let _ ← if host.fileExists path then Host.delete path else pure false
  let _ ← Host.createNewFile path
  pure ()

/-- The end of `store`. -/
def createIfAsked (name : String) (flag : Int64) : VfsM Unit :=
  if flag &&& oCreat ≠ 0 then onHost (createFile (virtualPath env name)) else pure ()

/-- `store` -/
def store (name : String) (flag : Int64) : VfsM CallRet := do
  let s ← get
  let fd := s.files.nextFd
  set { s with files := s.files.put fd ⟨name, fd, none⟩ }
  -- The descriptor stays in the table if the file cannot be created.
  createIfAsked env name flag
  pure ⟨true, Int64.ofInt fd⟩

/-- `open`; the mode is not used. -/
def open_ (path : String) (flag _mode : Int64) : VfsM CallRet :=
  if path = "/dev/urandom" then store env path 0 else store env path flag

/-- A path that is an argument of a system call. -/
def readPath (addr : Int64) : VfsM String := onEngine (MemoryHelper.readUTF8 env.decodeUTF8 addr)

/-- `openat` -/
def openat (args : List Int64) : VfsM CallRet := do
  let path ← readPath env (args.getD 1 0)
  open_ env path (args.getD 1 0) (args.getD 2 0)

/-- `close` -/
def close (args : List Int64) : VfsM CallRet := do
  let s ← get
  match s.files.get (args.getD 0 0).toInt with
  | some _ => set { s with files := s.files.remove (args.getD 0 0).toInt }
  | none => pure ()
  pure ⟨true, 0⟩

/-- The common body of `access`, `stat64` and `fstatat64`. -/
def existsAt (addr : Int64) : VfsM CallRet := do
  let path ← readPath env addr
  let s ← get
  pure ⟨true, if s.host.fileExists (virtualPath env path) then 0 else -1⟩

/-- `access` -/
def access (args : List Int64) : VfsM CallRet := existsAt env (args.getD 1 0)

/-- `stat64` -/
def stat64 (args : List Int64) : VfsM CallRet := existsAt env (args.getD 0 0)

/-- `fstatat64` -/
def fstatat64 (args : List Int64) : VfsM CallRet := existsAt env (args.getD 0 0)

/-- `FileStatHelper.getStat` -/
def getStat (name : String) : HostM (String → Option Int64) := do
  let vpath := virtualPath env (name ++ ".meta_emu")
  let host ← get
  match host.find vpath with
  | none => throw (.exception ("文件不存在：" ++ vpath))
  -- `readFile` returns `null` for a directory.
  | some .directory => throw .nullPointer
  | some (.file inode) =>
    match env.parseJson (host.contents inode) with
    | none => throw .jsonException
    | some stat => pure stat

/-- `fstat64` -/
def fstat64 (args : List Int64) : VfsM CallRet := do
  let s ← get
  match s.files.get (args.getD 0 0).toInt with
  | none => pure ⟨true, -1⟩
  | some file =>
    let stat ← onHost (getStat env file.name)
    onEngine (writeStat2Memory stat (args.getD 1 0) (statFields true))
    pure ⟨true, 0⟩

/-- The `try` block of `writev`. -/
def writeFile (path : String) (buffer count : Int64) : VfsM Unit := do
  let inode ← onHost (Host.openOutput path)
  let bytes ← onEngine (MemoryHelper.readByteArray buffer count)
  onHost (Host.write inode bytes)

/-- `writev` -/
def writev (args : List Int64) : VfsM CallRet := do
  let s ← get
  match s.files.get (args.getD 0 0).toInt with
  | none => pure ⟨true, -1⟩
  | some file =>
    swallow (writeFile (virtualPath env file.name) (args.getD 1 0) (args.getD 2 0))
    pure ⟨true, 0⟩

/-- The stream of a descriptor's file changes. -/
def setStream (fd : ℤ) (file : VirtualFile) (fis : FileInputStream) : VfsM Unit :=
  modify fun s => { s with files := s.files.put fd { file with fis := some fis } }

/-- `VirtualFile.getInputStream` -/
def getInputStream (fd : ℤ) (file : VirtualFile) : VfsM FileInputStream :=
  match file.fis with
  | some fis => pure fis
  | none => do
    let fis ← onHost (Host.openInput (virtualPath env file.name))
    setStream fd file fis
    pure fis

/-- What `read` does with a file that is not `/dev/urandom`. The whole array is written, also if the
stream has filled only the beginning of it. -/
def readFile (fd : ℤ) (file : VirtualFile) (buffer : Int64) (size : ℕ) : VfsM CallRet := do
  let fis ← getInputStream env fd file
  let s ← get
  match s.host.readStream fis size with
  | none => pure ⟨true, -1⟩
  | some bytes =>
    setStream fd file { fis with pos := fis.pos + bytes.length }
    onEngine (MemoryHelper.writeBytes buffer (bytes ++ List.replicate (size - bytes.length) 0))
    pure ⟨true, Int64.ofNat bytes.length⟩

/-- `read` -/
def read (args : List Int64) : VfsM CallRet := do
  let fd := args.getD 0 0
  let count := (args.getD 2 0).toInt32
  if fd ≤ 2 then
    throw (.exception
      ("Unsupported read operation for file descriptor " ++ toString fd.toInt ++ "."))
  else
    let s ← get
    match s.files.get fd.toInt with
    | none => pure ⟨true, -1⟩
    | some file =>
      if count < 0 then throw .negativeArraySize
      -- Random bytes are made and not used.
      else if file.name = "/dev/urandom" then pure ⟨true, 0⟩
      else readFile env fd.toInt file (args.getD 1 0) count.toInt.toNat

/-- `Handler.faccessat` -/
def faccessat (args : List Int64) : VfsM CallRet := do
  let _ ← readPath env (args.getD 1 0)
  pure ⟨true, 0⟩

end VirtualFileSystem

/-- The system calls on files. All but `faccessat` are registered by `initFileSystem`. -/
inductive FileSyscall where
  | read | open_ | close | access | writev | stat64 | fstat64 | openat | fstatat64 | faccessat
deriving DecidableEq, Repr

namespace FileSyscall

open VirtualFileSystem

/-- `getArgSize` -/
def argSize : FileSyscall → ℕ
  | read => 3
  | open_ => 3
  | close => 1
  | access => 2
  | writev => 3
  | stat64 => 2
  | fstat64 => 2
  | openat => 4
  | fstatat64 => 4
  | faccessat => 4

/-- The function that is registered for a system call. -/
def callback (env : VfsEnv) : FileSyscall → List Int64 → VfsM CallRet
  | read => VirtualFileSystem.read env
  | open_ => VirtualFileSystem.openat env
  | close => VirtualFileSystem.close
  | access => VirtualFileSystem.access env
  | writev => VirtualFileSystem.writev env
  | stat64 => VirtualFileSystem.stat64 env
  | fstat64 => VirtualFileSystem.fstat64 env
  | openat => VirtualFileSystem.openat env
  | fstatat64 => VirtualFileSystem.fstatat64 env
  | faccessat => VirtualFileSystem.faccessat env

/-- `readSyscallArgs`; no system call on files has more than four arguments. -/
def readSyscallArgs (uc : Unicorn) (size : ℕ) : List Int64 :=
  ([.r0, .r1, .r2, .r3].take size).map uc.regRead

/-- The system call with the arguments that the registers hold. -/
def call (env : VfsEnv) (syscall : FileSyscall) : VfsM CallRet := do
  let s ← get
  syscall.callback env (readSyscallArgs s.uc syscall.argSize)

end FileSyscall

/-! ## Runs of the system calls -/

variable {env : VfsEnv} {s : VfsState} {fd d : ℤ} {file : VirtualFile} {fis : FileInputStream}

/-- The string at an address. -/
def pathAt (env : VfsEnv) (uc : Unicorn) (addr : Int64) : Except JavaException String :=
  outcome ((MemoryHelper.readUTF8 env.decodeUTF8 addr).run uc)

/-- Code of the engine that returns changes the engine of the state. -/
theorem run_onEngine_of_ok {α : Type} {m : UcM α} {a : α} {uc : Unicorn}
    (h : m.run s.uc = .ok a uc) : (onEngine m).run s = .ok a { s with uc } := by
  simp only [EStateM.run, onEngine] at h ⊢
  rw [h]

/-- So does code of the engine that throws. -/
theorem run_onEngine_of_error {α : Type} {m : UcM α} {err : JavaException} {uc : Unicorn}
    (h : m.run s.uc = .error err uc) : (onEngine m).run s = .error err { s with uc } := by
  simp only [EStateM.run, onEngine] at h ⊢
  rw [h]

/-- Code of the host that returns changes the host of the state. -/
theorem run_onHost_of_ok {α : Type} {m : HostM α} {a : α} {host : Host}
    (h : m.run s.host = .ok a host) : (onHost m).run s = .ok a { s with host } := by
  simp only [EStateM.run, onHost] at h ⊢
  rw [h]

/-- So does code of the host that throws. -/
theorem run_onHost_of_error {α : Type} {m : HostM α} {err : JavaException} {host : Host}
    (h : m.run s.host = .error err host) : (onHost m).run s = .error err { s with host } := by
  simp only [EStateM.run, onHost] at h ⊢
  rw [h]

/-- Code that only reads the engine gives a value or throws. -/
theorem run_onEngine_of_onlyReads {α : Type} {m : UcM α} (h : MemoryHelper.OnlyReads m) :
    (onEngine m).run s = (getOrThrow (outcome (m.run s.uc)) : VfsM α).run s := by
  have huc := h s.uc
  cases hrun : m.run s.uc with
  | ok a uc =>
    rw [hrun] at huc
    obtain rfl : uc = s.uc := huc
    exact run_onEngine_of_ok hrun
  | error err uc =>
    rw [hrun] at huc
    obtain rfl : uc = s.uc := huc
    exact run_onEngine_of_error hrun

/-- The arguments are read from the registers first. -/
theorem FileSyscall.run_call (syscall : FileSyscall) :
    (syscall.call env).run s =
      (syscall.callback env (readSyscallArgs s.uc syscall.argSize)).run s := rfl

/-- Code that leaves the table as it is. -/
def KeepsFiles {α : Type} (m : VfsM α) : Prop := Keeps (fun s s' => s'.files = s.files) m

/-- The engine does not know the open files. -/
theorem keepsFiles_onEngine {α : Type} (m : UcM α) : KeepsFiles (onEngine m) := by
  intro s
  simp only [EStateM.run, onEngine]
  cases m s.uc <;> rfl

/-- Nor does the host. -/
theorem keepsFiles_onHost {α : Type} (m : HostM α) : KeepsFiles (onHost m) := by
  intro s
  simp only [EStateM.run, onHost]
  cases m s.host <;> rfl

/-- The table after the stream of a descriptor was set. -/
def FileTable.Streamed (files : FileTable) (fd : ℤ) (file : VirtualFile) (fis : FileInputStream)
    (files' : FileTable) : Prop :=
  ∀ d, files'.get d = if d = fd then some { file with fis := some fis } else files.get d

/-- Another stream may be set after the first one. -/
theorem FileTable.Streamed.put {files files' : FileTable} (h : files.Streamed fd file fis files')
    (fis' : FileInputStream) :
    files.Streamed fd file fis' (files'.put fd { file with fis := some fis' }) := by
  intro d
  rw [FileTable.get_put, h d]
  split_ifs <;> rfl

namespace VirtualFileSystem

/-- Reading a path changes nothing. -/
theorem run_readPath (env : VfsEnv) (s : VfsState) (addr : Int64) :
    (readPath env addr).run s = (getOrThrow (pathAt env s.uc addr) : VfsM String).run s :=
  run_onEngine_of_onlyReads (MemoryHelper.onlyReads_readUTF8 env.decodeUTF8 addr)

/-- A path that can be read. -/
theorem run_readPath_of_ok {addr : Int64} {path : String} (h : pathAt env s.uc addr = .ok path) :
    (readPath env addr).run s = .ok path s := by
  rw [run_readPath, h]
  rfl

/-- A path that cannot be read. -/
theorem run_readPath_of_error {addr : Int64} {err : JavaException}
    (h : pathAt env s.uc addr = .error err) : (readPath env addr).run s = .error err s := by
  rw [run_readPath, h]
  rfl

/-- Reading a path opens nothing. -/
theorem keepsFiles_readPath (env : VfsEnv) (addr : Int64) : KeepsFiles (readPath env addr) :=
  keepsFiles_onEngine _

/-- The state with a new descriptor. -/
def withFile (s : VfsState) (name : String) : VfsState :=
  { s with files := s.files.put s.files.nextFd ⟨name, s.files.nextFd, none⟩ }

/-- The descriptor is in the table before the file is created. -/
theorem run_store (env : VfsEnv) (s : VfsState) (name : String) (flag : Int64) :
    (store env name flag).run s = (createIfAsked env name flag >>= fun _ =>
      pure ⟨true, Int64.ofInt s.files.nextFd⟩).run (withFile s name) := rfl

/-- Without `O_CREAT` nothing is created. -/
theorem createIfAsked_of_eq_zero {name : String} {flag : Int64} (h : flag &&& oCreat = 0) :
    createIfAsked env name flag = pure () :=
  if_neg (not_not.2 h)

/-- Creating a file opens nothing. -/
theorem keepsFiles_createIfAsked (env : VfsEnv) (name : String) (flag : Int64) :
    KeepsFiles (createIfAsked env name flag) := by
  rw [createIfAsked]
  split
  · exact keepsFiles_onHost _
  · exact .pure ()

/-- The stream that a descriptor is read from: the one of the last time, or a new one. -/
def streamOf (env : VfsEnv) (host : Host) (file : VirtualFile) : Option FileInputStream :=
  match file.fis with
  | some fis => some fis
  | none => (host.inodeOf (virtualPath env file.name)).map fun inode => ⟨inode, 0⟩

/-- A stream that cannot be made. -/
theorem run_getInputStream_of_none (h : streamOf env s.host file = none) :
    (getInputStream env fd file).run s = .error .fileNotFound s := by
  rw [streamOf] at h
  rw [getInputStream]
  cases hfis : file.fis with
  | some fis => simp [hfis] at h
  | none =>
    rw [hfis, Option.map_eq_none_iff] at h
    have hopen : (onHost (Host.openInput (virtualPath env file.name))).run s =
        .error .fileNotFound s := by
      simp only [EStateM.run, onHost, Host.openInput, h]
    exact bind_of_error hopen

/-- A stream that was made before, or is made now and kept. -/
theorem run_getInputStream_of_some (hfile : s.files.get fd = some file)
    (h : streamOf env s.host file = some fis) :
    ∃ files', s.files.Streamed fd file fis files' ∧
      (getInputStream env fd file).run s = .ok fis { s with files := files' } := by
  rw [streamOf] at h
  rw [getInputStream]
  cases hfis : file.fis with
  | some fis' =>
    rw [hfis] at h
    obtain rfl : fis' = fis := Option.some.inj h
    refine ⟨s.files, fun d => ?_, rfl⟩
    split_ifs with hd
    · rw [hd, hfile, ← hfis]
    · rfl
  | none =>
    rw [hfis] at h
    obtain ⟨inode, hinode, rfl⟩ := Option.map_eq_some_iff.1 h
    have hopen : (onHost (Host.openInput (virtualPath env file.name))).run s =
        .ok ⟨inode, 0⟩ s := by
      simp only [EStateM.run, onHost, Host.openInput, hinode]
    exact ⟨_, fun d => FileTable.get_put, bind_of_ok hopen⟩

/-- What `readFile` can end in. -/
inductive ReadFileOutcome (env : VfsEnv) (s : VfsState) (fd : ℤ) (file : VirtualFile)
    (buffer : Int64) (size : ℕ) : EStateM.Result JavaException VfsState CallRet → Prop where
  | noFile (hfis : streamOf env s.host file = none) :
    ReadFileOutcome env s fd file buffer size (.error .fileNotFound s)
  | atEnd {fis : FileInputStream} {files : FileTable} (hfis : streamOf env s.host file = some fis)
      (hread : s.host.readStream fis size = none) (hfiles : s.files.Streamed fd file fis files) :
    ReadFileOutcome env s fd file buffer size (.ok ⟨true, -1⟩ { s with files })
  | unmapped {fis : FileInputStream} {bytes : List UInt8} {files : FileTable}
      (hfis : streamOf env s.host file = some fis)
      (hread : s.host.readStream fis size = some bytes)
      (hfiles : s.files.Streamed fd file { fis with pos := fis.pos + bytes.length } files)
      (hmapped : s.uc.checkMemArea buffer.toUInt64 size = false) :
    ReadFileOutcome env s fd file buffer size
      (.error (.unicornException .writeUnmapped) { s with files })
  | delivered {fis : FileInputStream} {bytes : List UInt8} {files : FileTable}
      (hfis : streamOf env s.host file = some fis)
      (hread : s.host.readStream fis size = some bytes)
      (hfiles : s.files.Streamed fd file { fis with pos := fis.pos + bytes.length } files)
      (hmapped : s.uc.checkMemArea buffer.toUInt64 size = true) :
    ReadFileOutcome env s fd file buffer size
      (.ok ⟨true, Int64.ofNat bytes.length⟩
        { s with
          files
          uc := s.uc.store buffer.toUInt64
            (bytes ++ List.replicate (size - bytes.length) 0) })

/-- `readFile` ends in one of the ways of `ReadFileOutcome`. -/
theorem readFile_outcome (hfile : s.files.get fd = some file) (buffer : Int64) (size : ℕ) :
    ReadFileOutcome env s fd file buffer size ((readFile env fd file buffer size).run s) := by
  rw [readFile]
  cases hfis : streamOf env s.host file with
  | none =>
    rw [bind_of_error (run_getInputStream_of_none hfis)]
    exact .noFile hfis
  | some fis =>
    obtain ⟨files, hfiles, hrun⟩ := run_getInputStream_of_some hfile hfis
    rw [bind_of_ok hrun, get_bind]
    dsimp only
    cases hread : s.host.readStream fis size with
    | none => exact .atEnd hfis hread hfiles
    | some bytes =>
      have hlen : (bytes ++ List.replicate (size - bytes.length) (0 : UInt8)).length = size := by
        have hle := Host.length_le_of_readStream hread
        rw [List.length_append, List.length_replicate]
        omega
      have hset : (setStream fd file { fis with pos := fis.pos + bytes.length }).run
          { s with files } = .ok () { s with files := files.put fd { file with
            fis := some { fis with pos := fis.pos + bytes.length } } } := rfl
      rw [bind_of_ok hset, MemoryHelper.writeBytes]
      cases hmapped : s.uc.checkMemArea buffer.toUInt64 size with
      | false =>
        rw [bind_of_error (run_onEngine_of_error
          (Unicorn.run_memWrite_of_unmapped (hlen.symm ▸ hmapped : _ = false)))]
        exact .unmapped hfis hread (hfiles.put _) hmapped
      | true =>
        rw [bind_of_ok (run_onEngine_of_ok
          (Unicorn.run_memWrite_of_mapped (hlen.symm ▸ hmapped : _ = true)))]
        exact .delivered hfis hread (hfiles.put _) hmapped

/-- What `read` can end in, for its three arguments. -/
inductive ReadOutcome (env : VfsEnv) (s : VfsState) (fd buffer count : Int64) :
    EStateM.Result JavaException VfsState CallRet → Prop where
  | unsupported (err : JavaException) (hfd : fd ≤ 2) :
    ReadOutcome env s fd buffer count (.error err s)
  | unknown (hfile : s.files.get fd.toInt = none) :
    ReadOutcome env s fd buffer count (.ok ⟨true, -1⟩ s)
  | negative {file : VirtualFile} (hfile : s.files.get fd.toInt = some file)
      (hcount : count.toInt32 < 0) :
    ReadOutcome env s fd buffer count (.error .negativeArraySize s)
  | random {file : VirtualFile} (hfile : s.files.get fd.toInt = some file)
      (hname : file.name = "/dev/urandom") :
    ReadOutcome env s fd buffer count (.ok ⟨true, 0⟩ s)
  | file {file : VirtualFile} {r : EStateM.Result JavaException VfsState CallRet}
      (hfile : s.files.get fd.toInt = some file) (hfd : ¬fd ≤ 2) (hcount : ¬count.toInt32 < 0)
      (hname : file.name ≠ "/dev/urandom")
      (h : ReadFileOutcome env s fd.toInt file buffer count.toInt32.toInt.toNat r) :
    ReadOutcome env s fd buffer count r

/-- `read` ends in one of the ways of `ReadOutcome`. -/
theorem read_outcome (env : VfsEnv) (s : VfsState) (args : List Int64) :
    ReadOutcome env s (args.getD 0 0) (args.getD 1 0) (args.getD 2 0) ((read env args).run s) := by
  rw [read]
  by_cases hfd : args.getD 0 0 ≤ 2
  · rw [if_pos hfd]
    exact .unsupported _ hfd
  · rw [if_neg hfd, get_bind]
    cases hfile : s.files.get (args.getD 0 0).toInt with
    | none => exact .unknown hfile
    | some file =>
      dsimp only
      split_ifs with hcount hname
      · exact .negative hfile hcount
      · exact .random hfile hname
      · exact .file hfile hfd hcount hname (readFile_outcome hfile _ _)

end VirtualFileSystem

end Tank
