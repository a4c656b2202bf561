import Mathlib.Order.Bounds.Basic
import Tank.ToMathlib.Trace
import Tank.Vfs.VirtualFileSystem

/-!
# File descriptors

What the system calls do to the table of open files. A run is given by the system calls with the
engine that each of them meets; guest code may do what it likes with memory and registers in
between. A call that throws is part of a run like any other.

* `openat_outcome`, `files_close`, `denotes_call_of_other`: what a call can do to the table.
* `descriptor_laws`: in every run each descriptor stands for a file that knows it, `open` gives out
  the least free descriptor, and no descriptor is touched by a call on another one.
-/

namespace Tank

open ToMathlib VirtualFileSystem

/-- What a descriptor stands for: the name of a file and the descriptor that the file knows. -/
def FileTable.denotes (files : FileTable) (d : ℤ) : Option (String × ℤ) :=
  (files.get d).map fun file => (file.name, file.fd)

/-- Every file knows its descriptor. -/
def FileTable.OwnFds (files : FileTable) : Prop := ∀ d file, files.get d = some file → file.fd = d

variable {env : VfsEnv} {s : VfsState} {files files' : FileTable} {fd d : ℤ} {file : VirtualFile}
  {fis : FileInputStream}

namespace FileTable

theorem ownFds_iff : files.OwnFds ↔ ∀ d, ∀ known ∈ files.denotes d, known.2 = d := by
  simp [OwnFds, denotes]

theorem ownFds_create : create.OwnFds := by
  intro d file h
  have hmem := mem_of_lookup h
  simp only [create, List.mem_cons, Prod.mk.injEq, List.not_mem_nil, or_false] at hmem
  obtain ⟨rfl, rfl⟩ | ⟨rfl, rfl⟩ | ⟨rfl, rfl⟩ := hmem <;> rfl

theorem OwnFds.put (h : files.OwnFds) (name : String) (fis : Option FileInputStream) :
    (files.put fd ⟨name, fd, fis⟩).OwnFds := by
  intro d file hd
  rw [get_put] at hd
  split_ifs at hd with heq
  · rw [← Option.some.inj hd, heq]
  · exact h d file hd

/-- Reading a file does not change what a descriptor stands for. -/
theorem Streamed.denotes (hfile : files.get fd = some file)
    (h : files.Streamed fd file fis files') (d : ℤ) : files'.denotes d = files.denotes d := by
  rw [FileTable.denotes, FileTable.denotes, h d]
  split_ifs with hd
  · rw [hd, hfile]
    rfl
  · rfl

theorem isLeast_nextFd (files : FileTable) :
    IsLeast {d | 3 ≤ d ∧ files.get d = none} files.nextFd := by
  refine ⟨⟨le_firstFree _ _, get_nextFd⟩, fun d hd => ?_⟩
  obtain ⟨hle, hfree⟩ := hd
  -- A smaller descriptor was passed over by the search.
  by_contra hlt
  exact mem_keys_iff.1 (mem_of_lt_firstFree hle (not_le.1 hlt)) hfree

end FileTable

/-! ## What a call does to the table -/

/-- What `open` and `openat` can end in: the path cannot be read, or there is a new descriptor,
which stays also if the file cannot be created. -/
inductive OpenOutcome (s : VfsState) : EStateM.Result JavaException VfsState CallRet → Prop where
  | unreadable (err : JavaException) : OpenOutcome s (.error err s)
  | failed {s' : VfsState} (err : JavaException) (path : String)
      (hfiles : s'.files = s.files.put s.files.nextFd ⟨path, s.files.nextFd, none⟩) :
    OpenOutcome s (.error err s')
  | opened {s' : VfsState} (path : String)
      (hfiles : s'.files = s.files.put s.files.nextFd ⟨path, s.files.nextFd, none⟩) :
    OpenOutcome s (.ok ⟨true, Int64.ofInt s.files.nextFd⟩ s')

/-- The file is entered before it is created, and stays there if that fails. -/
theorem OpenOutcome.files_eq {r : EStateM.Result JavaException VfsState CallRet}
    (h : OpenOutcome s r) :
    (finalState r).files = s.files ∨ ∃ path, (finalState r).files =
      s.files.put s.files.nextFd ⟨path, s.files.nextFd, none⟩ := by
  cases h with
  | unreadable => exact .inl rfl
  | failed _ path hfiles => exact .inr ⟨path, hfiles⟩
  | opened path hfiles => exact .inr ⟨path, hfiles⟩

theorem store_outcome (name : String) (flag : Int64) :
    OpenOutcome s ((store env name flag).run s) := by
  have hfiles := keepsFiles_createIfAsked env name flag (withFile s name)
  rw [run_store]
  cases hrun : (createIfAsked env name flag).run (withFile s name) with
  | ok a s' =>
    rw [hrun] at hfiles
    rw [bind_of_ok hrun]
    exact .opened name hfiles
  | error err s' =>
    rw [hrun] at hfiles
    rw [bind_of_error hrun]
    exact .failed err name hfiles

theorem openat_outcome (args : List Int64) : OpenOutcome s ((openat env args).run s) := by
  rw [openat]
  cases hpath : pathAt env s.uc (args.getD 1 0) with
  | error err =>
    rw [bind_of_error (run_readPath_of_error hpath)]
    exact .unreadable err
  | ok path =>
    rw [bind_of_ok (run_readPath_of_ok hpath), open_]
    split
    · exact store_outcome path 0
    · exact store_outcome path _

theorem files_close (args : List Int64) (d : ℤ) :
    (finalState ((close args).run s)).files.get d =
      if d = (args.getD 0 0).toInt then none else s.files.get d := by
  rw [close, get_bind]
  cases hfile : s.files.get (args.getD 0 0).toInt with
  | some file => exact FileTable.get_remove
  | none =>
    split_ifs with hd
    · rw [hd]
      exact hfile
    · rfl

theorem keepsFiles_existsAt (addr : Int64) : KeepsFiles (existsAt env addr) :=
  (keepsFiles_readPath env addr).bind fun _ => .get_bind fun _ => .pure _

theorem keepsFiles_fstat64 (args : List Int64) : KeepsFiles (fstat64 env args) := by
  refine .get_bind fun s => ?_
  split
  · exact .pure _
  · exact (keepsFiles_onHost _).bind fun _ => (keepsFiles_onEngine _).bind fun _ => .pure _

theorem keepsFiles_writev (args : List Int64) : KeepsFiles (writev env args) := by
  refine .get_bind fun s => ?_
  split
  · exact .pure _
  · refine Keeps.bind (fun s => ?_) fun _ => .pure _
    have hwrite : ∀ path buffer count, KeepsFiles (writeFile path buffer count) :=
      fun _ _ _ => (keepsFiles_onHost _).bind fun _ =>
        (keepsFiles_onEngine _).bind fun _ => keepsFiles_onHost _
    exact hwrite _ _ _ s

/-- Reading may give a descriptor a stream or move it, and that is all. -/
theorem denotes_read (args : List Int64) (d : ℤ) :
    (finalState ((read env args).run s)).files.denotes d = s.files.denotes d := by
  have hread := read_outcome env s args
  generalize (read env args).run s = r at hread ⊢
  cases hread with
  | unsupported => rfl
  | unknown => rfl
  | negative => rfl
  | random => rfl
  | file hfile _ _ _ h =>
    cases h with
    | noFile => rfl
    | atEnd _ _ hfiles => exact hfiles.denotes hfile d
    | unmapped _ _ hfiles _ => exact hfiles.denotes hfile d
    | delivered _ _ hfiles _ => exact hfiles.denotes hfile d

theorem denotes_of_keepsFiles {m : VfsM CallRet} (h : KeepsFiles m) (d : ℤ) :
    (finalState (m.run s)).files.denotes d = s.files.denotes d := by
  rw [h s]

/-- The system call opens a file. -/
def FileSyscall.IsOpen (syscall : FileSyscall) : Prop := syscall = .open_ ∨ syscall = .openat

/-- All other system calls leave the descriptors as they are. -/
theorem denotes_call_of_other {syscall : FileSyscall} (hopen : ¬syscall.IsOpen)
    (hclose : syscall ≠ .close) (d : ℤ) :
    (finalState ((syscall.call env).run s)).files.denotes d = s.files.denotes d := by
  rw [FileSyscall.run_call]
  cases syscall with
  | read => exact denotes_read _ d
  | open_ => exact absurd (.inl rfl) hopen
  | close => exact absurd rfl hclose
  | access => exact denotes_of_keepsFiles (keepsFiles_existsAt _) d
  | writev => exact denotes_of_keepsFiles (keepsFiles_writev _) d
  | stat64 => exact denotes_of_keepsFiles (keepsFiles_existsAt _) d
  | fstat64 => exact denotes_of_keepsFiles (keepsFiles_fstat64 _) d
  | openat => exact absurd (.inr rfl) hopen
  | fstatat64 => exact denotes_of_keepsFiles (keepsFiles_existsAt _) d
  | faccessat =>
    exact denotes_of_keepsFiles ((keepsFiles_readPath env _).bind fun _ => .pure _) d

theorem call_outcome_of_open (env : VfsEnv) (s : VfsState) {syscall : FileSyscall}
    (hopen : syscall.IsOpen) :
    OpenOutcome s ((syscall.call env).run s) := by
  rw [FileSyscall.run_call]
  rcases hopen with rfl | rfl
  · exact openat_outcome _
  · exact openat_outcome _

theorem files_call_close (d : ℤ) :
    (finalState ((FileSyscall.close.call env).run s)).files.get d =
      if d = (s.uc.regRead .r0).toInt then none else s.files.get d := by
  rw [FileSyscall.run_call]
  exact files_close _ d

/-! ## Runs -/

/-- A system call with the engine that it meets. -/
abbrev EngineCall := FileSyscall × Unicorn

namespace VfsState

/-- The state after the constructor of `VirtualFileSystem`. -/
def start (uc : Unicorn) (host : Host) : VfsState := ⟨uc, .create, host⟩

/-- The state that a call meets. -/
def meets (s : VfsState) (uc : Unicorn) : VfsState := { s with uc }

/-- The state after a call. -/
def step (env : VfsEnv) (s : VfsState) (c : EngineCall) : VfsState :=
  finalState ((c.1.call env).run (s.meets c.2))

end VfsState

/-- What is required of a call on the table of open files. -/
structure DescriptorLaws (env : VfsEnv) (s : VfsState) (c : EngineCall) : Prop where
  /-- Before and after the call every descriptor has a file that knows it. -/
  ownFds : s.files.OwnFds ∧ (s.step env c).files.OwnFds
  /-- The loop of `nextFd` ends. -/
  search : CountsTo s.files.keys 3 s.files.nextFd
  /-- `open` returns the least free descriptor, which is as small as the number of open ones
  allows. -/
  opens : c.1.IsOpen → ∀ ret s', (c.1.call env).run (s.meets c.2) = .ok ret s' →
    ∃ fd, ret = ⟨true, Int64.ofInt fd⟩ ∧ (∃ file, s'.files.get fd = some file) ∧
      IsLeast {d | 3 ≤ d ∧ s.files.get d = none} fd ∧
      fd ≤ 3 + s.files.keys.countP (3 ≤ ·)
  /-- Whether it returns or throws, `open` touches at most one descriptor, and that was free. -/
  openFrame : c.1.IsOpen → ∃ fd, s.files.get fd = none ∧
    ∀ d ≠ fd, (s.step env c).files.get d = s.files.get d
  /-- `close` frees its descriptor and touches no other one. -/
  closes : c.1 = .close → ∀ d, (s.step env c).files.get d =
    if d = (c.2.regRead .r0).toInt then none else s.files.get d
  /-- No other call changes what a descriptor stands for. -/
  frame : ¬c.1.IsOpen → c.1 ≠ .close → ∀ d, (s.step env c).files.denotes d = s.files.denotes d

theorem ownFds_step (h : s.files.OwnFds) (c : EngineCall) : (s.step env c).files.OwnFds := by
  obtain ⟨syscall, uc⟩ := c
  rw [VfsState.step]
  by_cases hopen : syscall.IsOpen
  · rcases (call_outcome_of_open env (s.meets uc) hopen).files_eq with hfiles | ⟨path, hfiles⟩
    · rw [hfiles]
      exact h
    · rw [hfiles]
      exact h.put path none
  by_cases hclose : syscall = .close
  · subst hclose
    intro d file hd
    rw [files_call_close] at hd
    split_ifs at hd
    exact h d file hd
  · rw [FileTable.ownFds_iff] at h ⊢
    intro d known hknown
    rw [denotes_call_of_other hopen hclose] at hknown
    exact h d known hknown

theorem descriptorLaws_of_ownFds (h : s.files.OwnFds) (c : EngineCall) :
    DescriptorLaws env s c where
  ownFds := ⟨h, ownFds_step h c⟩
  search := countsTo_firstFree _ _
  opens := by
    intro hopen ret s' hrun
    have hcall := call_outcome_of_open env (s.meets c.2) hopen
    rw [hrun] at hcall
    cases hcall with
    | opened path hfiles =>
      refine ⟨s.files.nextFd, rfl, ?_, s.files.isLeast_nextFd, firstFree_le_countP _ _⟩
      rw [hfiles, FileTable.get_put]
      exact ⟨_, if_pos rfl⟩
  openFrame := by
    intro hopen
    refine ⟨s.files.nextFd, FileTable.get_nextFd, fun d hd => ?_⟩
    rw [VfsState.step]
    rcases (call_outcome_of_open env (s.meets c.2) hopen).files_eq with hfiles | ⟨path, hfiles⟩
    · rw [hfiles]
      rfl
    · rw [hfiles, FileTable.get_put]
      exact if_neg hd
  closes := by
    intro hclose d
    rw [VfsState.step, hclose]
    exact files_call_close d
  frame := fun hopen hclose d => denotes_call_of_other hopen hclose d

/-- In every run of system calls on files the table of open files keeps its laws. -/
theorem descriptor_laws (env : VfsEnv) (uc : Unicorn) (host : Host) (calls : List EngineCall) :
    ∀ c ∈ trace (VfsState.step env) (.start uc host) calls, DescriptorLaws env c.1 c.2 := by
  intro c hc
  have hown : ∀ c ∈ trace (VfsState.step env) (.start uc host) calls, c.1.files.OwnFds :=
    forall_trace (I := fun s : VfsState => s.files.OwnFds) (H := fun _ _ => True)
      (fun _ c h _ => ownFds_step h c) FileTable.ownFds_create fun _ _ => trivial
  exact descriptorLaws_of_ownFds (hown c hc) c.2

/-! ## An app with one file -/

/-- An app with its data in `/data`, which reads ASCII. -/
def appEnv : VfsEnv where
  root := ⟨["data"], by decide⟩
  decodeUTF8 := fun bytes => String.ofList (bytes.map fun b => Char.ofNat b.toNat)
  parseJson := fun _ => none

/-- A host on which the guest path `/a` is a file of three bytes. -/
def appHost : Host where
  entries := [(["data"], .directory), (["data", "root"], .directory),
    (["data", "root", "a"], .file 0)]
  contents := fun _ => [1, 2, 3]
  nextInode := 1

/-- An engine with a page that begins with the path `/a`, and four arguments. -/
def appUc (arg0 arg1 arg2 arg3 : UInt32) : Unicorn :=
  { Unicorn.blank with
    regions := [⟨0x1000, 0x1000⟩]
    mem := overwrite (fun _ => 0) 0x1000 [0x2f, 0x61]
    regs := fun
      | .r0 => arg0
      | .r1 => arg1
      | .r2 => arg2
      | .r3 => arg3
      | _ => 0 }

/-- The app after `openat` of `/a`. -/
def appOpened : VfsState :=
  (VfsState.start .blank appHost).step appEnv (.openat, appUc 0 0x1000 0 0)

/-- A second file is opened while the first one is open. -/
theorem descriptor_laws_two_files :
    ∃ c ∈ trace (VfsState.step appEnv) (.start .blank appHost)
        [(.openat, appUc 0 0x1000 0 0), (.openat, appUc 0 0x1000 0 0)],
      c.1.files.keys = [3, 0, 1, 2] ∧ DescriptorLaws appEnv c.1 c.2 ∧
        outcome ((c.2.1.call appEnv).run (c.1.meets c.2.2)) = .ok ⟨true, 4⟩ := by
  have hmem : (appOpened, (.openat, appUc 0 0x1000 0 0)) ∈
      trace (VfsState.step appEnv) (.start .blank appHost)
        [(.openat, appUc 0 0x1000 0 0), (.openat, appUc 0 0x1000 0 0)] :=
    List.mem_cons_of_mem _ List.mem_cons_self
  exact ⟨_, hmem, by decide, descriptor_laws _ _ _ _ _ hmem, by decide⟩

end Tank
