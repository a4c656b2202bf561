import Tank.Vfs.Descriptors

/-!
# System calls with and without a directory

`open`, `stat64` and `access` take a path, `openat`, `fstatat64` and `faccessat` take a descriptor
of a directory before it. The path of the second kind is one argument further on, but the handlers
do not agree on where it is: `open` shares the handler of `openat`, `fstatat64` is a copy of
`stat64`, and `access` reads its path where `faccessat` has it.

`path_syscalls_agree_iff` says when the two of each pair do the same: what they take for the path
has to be the same string by chance.
-/

namespace Tank

open ToMathlib VirtualFileSystem

/-- The two runs return or throw the same and leave the same open files and the same host. -/
structure SameEffect (r r' : EStateM.Result JavaException VfsState CallRet) : Prop where
  result : outcome r = outcome r'
  files : (finalState r).files = (finalState r').files
  host : (finalState r).host = (finalState r').host

/-! ## Creating a file -/

section Creation

variable {host : Host} {path : String} {names : List String}

/-- The path is that of a directory with something in it, or of the root of a host that has nothing
else. -/
def Host.KeptDirectory (host : Host) (path : String) : Prop :=
  ∃ names, host.resolve path = some names ∧ host.lookup names = some .directory ∧
    ((∃ e ∈ host.entries, names <+: e.1 ∧ e.1 ≠ names) ∨ host.entries = [])

theorem run_createFile_of_not_exists (h : host.fileExists path = false) :
    (createFile path).run host = (Host.createNewFile path >>= fun _ => pure ()).run host := by
  rw [createFile, get_bind, h]
  rfl

theorem run_createFile_of_exists (h : host.fileExists path = true) :
    (createFile path).run host =
      (Host.delete path >>= fun _ => Host.createNewFile path >>= fun _ => pure ()).run host := by
  rw [createFile, get_bind, h]
  rfl

theorem run_createNewFile_of_missing (hpath : host.resolve path = some names)
    (hmissing : host.lookup names = none) :
    (Host.createNewFile path).run host = .ok true (host.addFile names) := by
  simp only [EStateM.run, Host.createNewFile, hpath, hmissing]

/-- A directory with something in it is not deleted. -/
theorem run_delete_directory (hpath : host.resolve path = some names)
    (hdir : host.lookup names = some .directory) :
    (Host.delete path).run host =
      if ∃ e ∈ host.entries, names <+: e.1 ∧ e.1 ≠ names then .ok false host
      else .ok true (host.removeName names) := by
  have hany : (host.entries.any fun e => names.isPrefixOf e.1 && e.1 != names) = true ↔
      ∃ e ∈ host.entries, names <+: e.1 ∧ e.1 ≠ names := by
    simp
  simp only [EStateM.run, Host.delete, hpath, hdir, hany]

/-- Without a new inode no file was created. -/
theorem createNewFile_keeps {created : Bool} {host' : Host}
    (h : (Host.createNewFile path).run host' = .ok created host)
    (hnext : host'.nextInode = host.nextInode) : host' = host := by
  simp only [EStateM.run, Host.createNewFile] at h
  split at h
  · cases h
  · split at h
    · exact (EStateM.Result.ok.inj h).2
    · obtain ⟨-, rfl⟩ := EStateM.Result.ok.inj h
      exact absurd hnext.symm (Nat.succ_ne_self _)

theorem nextInode_delete {deleted : Bool} {host' : Host}
    (h : (Host.delete path).run host = .ok deleted host') : host'.nextInode = host.nextInode := by
  simp only [EStateM.run, Host.delete] at h
  split at h
  · obtain ⟨-, rfl⟩ := EStateM.Result.ok.inj h
    rfl
  · split at h <;> try split at h
    all_goals
      obtain ⟨-, rfl⟩ := EStateM.Result.ok.inj h
      rfl

/-- A directory that has an entry and nothing in it is not the same without its name. -/
theorem removeName_ne_self (hdir : host.lookup names = some .directory)
    (hempty : ¬∃ e ∈ host.entries, names <+: e.1 ∧ e.1 ≠ names) (hentries : host.entries ≠ []) :
    host.removeName names ≠ host := by
  intro hsame
  have hother : ∀ e ∈ host.entries, e.1 ≠ names := by
    intro e he
    rw [← hsame] at he
    exact of_decide_eq_true (List.mem_filter.1 he).2
  by_cases hnil : names = []
  · obtain ⟨e, he⟩ := List.exists_mem_of_ne_nil _ hentries
    exact hempty ⟨e, he, hnil ▸ List.nil_prefix, hother e he⟩
  · rw [Host.lookup, if_neg hnil] at hdir
    exact hother _ (mem_of_lookup hdir) rfl

/-- A path that is deleted and stays on the host is that of a directory that is kept. -/
theorem keptDirectory_of_delete {entry : HostEntry} {deleted : Bool}
    (hpath : host.resolve path = some names) (hentry : host.lookup names = some entry)
    (hdelete : (Host.delete path).run host = .ok deleted host) : host.KeptDirectory path := by
  cases entry with
  | file inode =>
    have hsame : host.removeName names = host := by
      simp only [EStateM.run, Host.delete, hpath, hentry] at hdelete
      exact (EStateM.Result.ok.inj hdelete).2
    have hgone := Host.lookup_removeName host names names (Host.ne_nil_of_lookup hentry (by simp))
    rw [hsame, hentry, if_pos rfl] at hgone
    cases hgone
  | directory =>
    rw [run_delete_directory hpath hentry] at hdelete
    refine ⟨names, hpath, hentry, ?_⟩
    split_ifs at hdelete with hbelow
    · exact .inl hbelow
    · by_contra hkept
      exact removeName_ne_self hentry hbelow (fun h => hkept (.inr h))
        (EStateM.Result.ok.inj hdelete).2

theorem run_delete_of_kept (h : host.KeptDirectory path) :
    ∃ deleted, (Host.delete path).run host = .ok deleted host := by
  obtain ⟨names, hpath, hdir, hkept⟩ := h
  rw [run_delete_directory hpath hdir]
  split_ifs with hbelow
  · exact ⟨_, rfl⟩
  · have hentries := hkept.resolve_left hbelow
    have hsame : host.removeName names = host := by
      cases host
      cases hentries
      rfl
    exact ⟨_, by rw [hsame]⟩

/-- When creating a file succeeds and changes nothing. -/
theorem createFile_eq_self_iff :
    (createFile path).run host = .ok () host ↔ host.KeptDirectory path := by
  have hexists : host.fileExists path = ((host.resolve path).bind host.lookup).isSome := rfl
  constructor
  · intro hrun
    cases hfound : (host.resolve path).bind host.lookup with
    | none =>
      -- The file is created, or its directory is missing.
      rw [run_createFile_of_not_exists (by rw [hexists, hfound]; rfl), bind_eq_ok_iff] at hrun
      obtain ⟨created, host', hcreate, hpure⟩ := hrun
      obtain ⟨-, rfl⟩ := pure_eq_ok_iff.1 hpure
      cases hpath : host.resolve path with
      | none =>
        simp only [EStateM.run, Host.createNewFile, hpath] at hcreate
        cases hcreate
      | some names =>
        rw [hpath, Option.bind_some] at hfound
        rw [run_createNewFile_of_missing hpath hfound] at hcreate
        have hnext := congrArg Host.nextInode (EStateM.Result.ok.inj hcreate).2
        exact absurd hnext (Nat.succ_ne_self _)
    | some entry =>
      obtain ⟨names, hpath, hentry⟩ := Option.bind_eq_some_iff.1 hfound
      rw [run_createFile_of_exists (by rw [hexists, hfound]; rfl), bind_eq_ok_iff] at hrun
      obtain ⟨deleted, host', hdelete, hrest⟩ := hrun
      obtain ⟨created, host'', hcreate, hpure⟩ := bind_eq_ok_iff.1 hrest
      obtain ⟨-, rfl⟩ := pure_eq_ok_iff.1 hpure
      obtain rfl := createNewFile_keeps hcreate (nextInode_delete hdelete)
      exact keptDirectory_of_delete hpath hentry hdelete
  · intro hkept
    obtain ⟨deleted, hdelete⟩ := run_delete_of_kept hkept
    obtain ⟨names, hpath, hdir, -⟩ := hkept
    have hcreate : (Host.createNewFile path).run host = .ok false host := by
      simp only [EStateM.run, Host.createNewFile, hpath, hdir]
    rw [run_createFile_of_exists (by rw [hexists, hpath, Option.bind_some, hdir]; rfl),
      bind_of_ok hdelete, bind_of_ok hcreate]
    rfl

end Creation

variable {env : VfsEnv} {s : VfsState}

/-! ## Opening -/

/-- Whether `open` creates the file. -/
def Creates (path : String) (flag : Int64) : Prop := path ≠ "/dev/urandom" ∧ flag &&& oCreat ≠ 0

/-- Creating the file changes nothing: it is a directory, which is not deleted. -/
def CreationIdle (env : VfsEnv) (host : Host) (path : String) : Prop :=
  host.KeptDirectory (virtualPath env path)

theorem run_open_of_creates {path : String} {flag : Int64} (h : Creates path flag) (mode : Int64) :
    (open_ env path flag mode).run s = (onHost (createFile (virtualPath env path)) >>= fun _ =>
      pure ⟨true, Int64.ofInt s.files.nextFd⟩).run (withFile s path) := by
  rw [open_, if_neg h.1, run_store, createIfAsked, if_pos h.2]

theorem run_open_of_not_creates {path : String} {flag : Int64} (h : ¬Creates path flag)
    (mode : Int64) :
    (open_ env path flag mode).run s =
      .ok ⟨true, Int64.ofInt s.files.nextFd⟩ (withFile s path) := by
  rw [open_]
  split_ifs with hpath
  · rw [run_store, createIfAsked_of_eq_zero (by decide)]
    rfl
  · have hflag : flag &&& oCreat = 0 := by
      by_contra hne
      exact h ⟨hpath, hne⟩
    rw [run_store, createIfAsked_of_eq_zero hflag]
    rfl

theorem sameEffect_comm {r r' : EStateM.Result JavaException VfsState CallRet} :
    SameEffect r r' ↔ SameEffect r' r :=
  ⟨fun h => ⟨h.result.symm, h.files.symm, h.host.symm⟩,
    fun h => ⟨h.result.symm, h.files.symm, h.host.symm⟩⟩

theorem sameEffect_create_iff {path : String} {flag flag' : Int64} (h : Creates path flag)
    (h' : ¬Creates path flag') (mode mode' : Int64) :
    SameEffect ((open_ env path flag mode).run s) ((open_ env path flag' mode').run s) ↔
      CreationIdle env s.host path := by
  rw [run_open_of_creates h, run_open_of_not_creates h', CreationIdle, ← createFile_eq_self_iff]
  cases hrun : (createFile (virtualPath env path)).run s.host with
  | ok _ host =>
    have hhost : (onHost (createFile (virtualPath env path))).run (withFile s path) =
        .ok () { withFile s path with host } := run_onHost_of_ok hrun
    rw [bind_of_ok hhost]
    constructor
    · intro hsame
      have hsame' : host = s.host := hsame.host
      rw [hsame']
    · intro hidle
      obtain ⟨-, rfl⟩ := EStateM.Result.ok.inj hidle
      exact ⟨rfl, rfl, rfl⟩
  | error err host =>
    -- The call that creates the file throws, and the other one returns a descriptor.
    have hhost : (onHost (createFile (virtualPath env path))).run (withFile s path) =
        .error err { withFile s path with host } := run_onHost_of_error hrun
    rw [bind_of_error hhost]
    constructor
    · intro hsame
      cases hsame.result
    · intro hidle
      cases hidle

/-- Two flags for the same path. -/
theorem sameEffect_open_iff (path : String) (flag flag' mode mode' : Int64) :
    SameEffect ((open_ env path flag mode).run s) ((open_ env path flag' mode').run s) ↔
      ((Creates path flag ↔ Creates path flag') ∨ CreationIdle env s.host path) := by
  by_cases h : Creates path flag <;> by_cases h' : Creates path flag'
  · rw [run_open_of_creates h, run_open_of_creates h']
    simp only [h, h', true_or, iff_true]
    exact ⟨rfl, rfl, rfl⟩
  · rw [sameEffect_create_iff h h']
    simp [h, h']
  · rw [sameEffect_comm, sameEffect_create_iff h' h]
    simp [h, h']
  · rw [run_open_of_not_creates h, run_open_of_not_creates h']
    simp only [h, h', true_or, iff_true]
    exact ⟨rfl, rfl, rfl⟩

theorem run_openat_of_ok {args : List Int64} {path : String}
    (h : pathAt env s.uc (args.getD 1 0) = .ok path) :
    (openat env args).run s = (open_ env path (args.getD 1 0) (args.getD 2 0)).run s :=
  bind_of_ok (run_readPath_of_ok h)

theorem run_openat_of_error {args : List Int64} {err : JavaException}
    (h : pathAt env s.uc (args.getD 1 0) = .error err) :
    (openat env args).run s = .error err s :=
  bind_of_error (run_readPath_of_error h)

/-- The new descriptor stands for the path, also if the file could not be created. -/
theorem denotes_open (path : String) (flag mode : Int64) :
    (finalState ((open_ env path flag mode).run s)).files.denotes s.files.nextFd =
      some (path, s.files.nextFd) := by
  have hfiles :
      (finalState ((open_ env path flag mode).run s)).files = (withFile s path).files := by
    by_cases h : Creates path flag
    · rw [run_open_of_creates h]
      exact (keepsFiles_onHost _).bind (fun _ => .pure _) (withFile s path)
    · rw [run_open_of_not_creates h]
      rfl
  rw [hfiles, FileTable.denotes, withFile, FileTable.get_put, if_pos rfl]
  rfl

theorem denotes_nextFd (files : FileTable) : files.denotes files.nextFd = none := by
  rw [FileTable.denotes, FileTable.get_nextFd]
  rfl

/-- A call that opens a file shows in the table, so it differs from one that cannot read its
path. -/
theorem not_sameEffect_openat {args args' : List Int64} {err : JavaException} {path : String}
    (hpath : pathAt env s.uc (args.getD 1 0) = .error err)
    (hpath' : pathAt env s.uc (args'.getD 1 0) = .ok path) :
    ¬SameEffect ((openat env args).run s) ((openat env args').run s) := by
  intro h
  have hfiles := congrArg (·.denotes s.files.nextFd) h.files
  rw [run_openat_of_error hpath, run_openat_of_ok hpath', denotes_open] at hfiles
  exact absurd ((denotes_nextFd s.files).symm.trans hfiles) (by simp)

/-- When two calls of the handler of `openat` do the same. -/
theorem sameEffect_openat_iff (args args' : List Int64) :
    SameEffect ((openat env args).run s) ((openat env args').run s) ↔
      pathAt env s.uc (args.getD 1 0) = pathAt env s.uc (args'.getD 1 0) ∧
        ∀ path, pathAt env s.uc (args'.getD 1 0) = .ok path →
          (Creates path (args.getD 1 0) ↔ Creates path (args'.getD 1 0)) ∨
            CreationIdle env s.host path := by
  cases hpath : pathAt env s.uc (args.getD 1 0) with
  | error err =>
    cases hpath' : pathAt env s.uc (args'.getD 1 0) with
    | error err' =>
      rw [run_openat_of_error hpath, run_openat_of_error hpath']
      constructor
      · intro h
        obtain rfl := Except.error.inj h.result
        exact ⟨rfl, fun path hok => by cases hok⟩
      · rintro ⟨heq, -⟩
        obtain rfl := Except.error.inj heq
        exact ⟨rfl, rfl, rfl⟩
    | ok path' =>
      refine iff_of_false (not_sameEffect_openat hpath hpath') ?_
      rintro ⟨heq, -⟩
      cases heq
  | ok path =>
    cases hpath' : pathAt env s.uc (args'.getD 1 0) with
    | error err' =>
      refine iff_of_false (fun h => not_sameEffect_openat hpath' hpath ?_) ?_
      · exact sameEffect_comm.1 h
      · rintro ⟨heq, -⟩
        cases heq
    | ok path' =>
      rw [run_openat_of_ok hpath, run_openat_of_ok hpath']
      constructor
      · intro h
        -- The new descriptor shows the path.
        have hfiles := congrArg (·.denotes s.files.nextFd) h.files
        rw [denotes_open, denotes_open] at hfiles
        obtain rfl : path = path' := by simpa using hfiles
        refine ⟨rfl, fun path' hok => ?_⟩
        obtain rfl := Except.ok.inj hok
        exact (sameEffect_open_iff _ _ _ _ _).1 h
      · rintro ⟨heq, hall⟩
        obtain rfl := Except.ok.inj heq
        exact (sameEffect_open_iff _ _ _ _ _).2 (hall _ rfl)

/-! ## Looking for a file -/

/-- Whether the file exists whose path is at an address. -/
def existsOutcome (env : VfsEnv) (s : VfsState) (addr : Int64) : Except JavaException Bool :=
  (pathAt env s.uc addr).map fun path => s.host.fileExists (virtualPath env path)

theorem outcome_existsAt (addr : Int64) :
    outcome ((existsAt env addr).run s) =
      (existsOutcome env s addr).map fun found => ⟨true, if found then 0 else -1⟩ := by
  rw [existsAt, existsOutcome]
  cases hpath : pathAt env s.uc addr with
  | error err =>
    rw [bind_of_error (run_readPath_of_error hpath)]
    rfl
  | ok path =>
    rw [bind_of_ok (run_readPath_of_ok hpath)]
    rfl

theorem outcome_faccessat (args : List Int64) :
    outcome ((faccessat env args).run s) =
      ((pathAt env s.uc (args.getD 1 0)).map fun _ => true).map fun found =>
        ⟨true, if found then 0 else -1⟩ := by
  rw [faccessat]
  cases hpath : pathAt env s.uc (args.getD 1 0) with
  | error err =>
    rw [bind_of_error (run_readPath_of_error hpath)]
    rfl
  | ok path =>
    rw [bind_of_ok (run_readPath_of_ok hpath)]
    rfl

/-- The results of the calls tell whether the file was found. -/
theorem map_found_inj {x y : Except JavaException Bool} :
    (x.map fun found => (⟨true, if found then 0 else -1⟩ : CallRet)) =
      (y.map fun found => ⟨true, if found then 0 else -1⟩) ↔ x = y := by
  have hinj : Function.Injective
      fun found : Bool => (⟨true, if found then 0 else -1⟩ : CallRet) := by
    intro found found' h
    cases found <;> cases found' <;> first | rfl | exact absurd h (by decide)
  cases x with
  | error err => cases y <;> simp [Except.map]
  | ok found =>
    cases y with
    | error err => simp [Except.map]
    | ok found' => simpa [Except.map] using hinj.eq_iff (a := found) (b := found')

/-- When the system calls of each pair do the same. `open` takes its flags for the path, `fstatat64`
its directory and `access` its mode, and `openat` takes the address of the path for the flags. -/
theorem path_syscalls_agree_iff (env : VfsEnv) (s : VfsState) (p dirfd flags mode buf : Int64) :
    (SameEffect ((FileSyscall.open_.callback env [p, flags, mode]).run s)
        ((FileSyscall.openat.callback env [dirfd, p, flags, mode]).run s) ↔
      pathAt env s.uc flags = pathAt env s.uc p ∧
        ∀ path, pathAt env s.uc p = .ok path →
          (Creates path flags ↔ Creates path p) ∨ CreationIdle env s.host path) ∧
    (outcome ((FileSyscall.stat64.callback env [p, buf]).run s) =
        outcome ((FileSyscall.fstatat64.callback env [dirfd, p, buf, 0]).run s) ↔
      existsOutcome env s p = existsOutcome env s dirfd) ∧
    (outcome ((FileSyscall.access.callback env [p, mode]).run s) =
        outcome ((FileSyscall.faccessat.callback env [dirfd, p, mode, 0]).run s) ↔
      existsOutcome env s mode = (pathAt env s.uc p).map fun _ => true) := by
  refine ⟨sameEffect_openat_iff [p, flags, mode] [dirfd, p, flags, mode], ?_, ?_⟩
  · have hstat : outcome ((FileSyscall.stat64.callback env [p, buf]).run s) = _ :=
      outcome_existsAt p
    have hfstatat : outcome ((FileSyscall.fstatat64.callback env [dirfd, p, buf, 0]).run s) = _ :=
      outcome_existsAt dirfd
    rw [hstat, hfstatat, map_found_inj]
  · have haccess : outcome ((FileSyscall.access.callback env [p, mode]).run s) = _ :=
      outcome_existsAt mode
    have hfaccess : outcome ((FileSyscall.faccessat.callback env [dirfd, p, mode, 0]).run s) = _ :=
      outcome_faccessat [dirfd, p, mode, 0]
    rw [haccess, hfaccess, map_found_inj]
    rfl

/-- A file is opened, looked for and checked by its path and gets three different answers. The path
is at `0x1000`, there are no flags, and the directory is `AT_FDCWD`. -/
theorem path_syscalls_disagree :
    let s : VfsState := .start (appUc 0 0 0 0) appHost
    pathAt appEnv s.uc 0x1000 = .ok "/a" ∧
      (outcome ((FileSyscall.open_.callback appEnv [0x1000, 0, 0]).run s) =
          .error (.unicornException .readUnmapped) ∧
        outcome ((FileSyscall.openat.callback appEnv [0xffffff9c, 0x1000, 0, 0]).run s) =
          .ok ⟨true, 3⟩) ∧
      (outcome ((FileSyscall.stat64.callback appEnv [0x1000, 0x1800]).run s) = .ok ⟨true, 0⟩ ∧
        outcome ((FileSyscall.fstatat64.callback appEnv [0xffffff9c, 0x1000, 0x1800, 0]).run s) =
          .error (.unicornException .readUnmapped)) ∧
      outcome ((FileSyscall.access.callback appEnv [0x1000, 0]).run s) =
          .error (.unicornException .readUnmapped) ∧
        outcome ((FileSyscall.faccessat.callback appEnv [0xffffff9c, 0x1000, 0, 0]).run s) =
          .ok ⟨true, 0⟩ := by
  decide

end Tank
