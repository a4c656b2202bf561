import Tank.Helper.Strings
import Tank.Vfs.PathSyscalls

/-!
# What opening a file does

`openat` takes the address of the path for the flags. So bit `0x40` of a pointer decides whether
the file is created, and a file that is created is deleted first if it exists. The descriptor is
entered before that, and stays in the table if the file cannot be created.

* `CreateOutcome`: what `VirtualFile.create` does to the files of the host.
* `openat_preserves_iff`: when a call keeps the contents of all files, creates a missing file just
  if it is asked to, and does not depend on the pointer.
* `failed_opens_iff`: calls that fail leave the table as it was exactly if their paths could not
  even be read.
-/

namespace Tank

open ToMathlib VirtualFileSystem

variable {env : VfsEnv} {s : VfsState} {host : Host} {path : String} {names : List String}

/-! ## Creating a file -/

/-- What `VirtualFile.create` can end in. An empty directory is deleted, too. -/
inductive CreateOutcome (host : Host) (path : String) :
    EStateM.Result JavaException Host Unit → Prop where
  | noParent (hpath : host.resolve path = none) : CreateOutcome host path (.error .ioException host)
  | created {names : List String} (hpath : host.resolve path = some names)
      (hmissing : host.lookup names = none) : CreateOutcome host path (.ok () (host.addFile names))
  | replaced {names : List String} {inode : ℕ} (hpath : host.resolve path = some names)
      (hfile : host.lookup names = some (.file inode)) :
    CreateOutcome host path (.ok () ((host.removeName names).addFile names))
  | directory {names : List String} {r : EStateM.Result JavaException Host Unit}
      (hpath : host.resolve path = some names) (hdir : host.lookup names = some .directory)
      (hfiles : ∀ q content, host.fileAt q = some content →
        (finalState r).fileAt q = some content) : CreateOutcome host path r

/-- `createNewFile` keeps the files that are there. -/
theorem fileAt_createNewFile (hfresh : host.Fresh) (path : String) {q : List String}
    {content : List UInt8} (h : host.fileAt q = some content) :
    (finalState ((Host.createNewFile path).run host)).fileAt q = some content := by
  simp only [EStateM.run, Host.createNewFile]
  cases hpath : host.resolve path with
  | none => exact h
  | some names =>
    dsimp only
    cases hentry : host.lookup names with
    | some entry => exact h
    | none => exact Host.fileAt_addFile_of_missing hfresh hentry h

/-- A directory is deleted just if it is empty. -/
theorem exists_delete_directory (hpath : host.resolve path = some names)
    (hdir : host.lookup names = some .directory) :
    ∃ deleted host', (Host.delete path).run host = .ok deleted host' ∧
      (host' = host ∨ host' = host.removeName names) := by
  rw [run_delete_directory hpath hdir]
  split_ifs
  · exact ⟨_, _, rfl, .inl rfl⟩
  · exact ⟨_, _, rfl, .inr rfl⟩

theorem createFile_outcome (hfresh : host.Fresh) (path : String) :
    CreateOutcome host path ((createFile path).run host) := by
  have hexists : host.fileExists path = ((host.resolve path).bind host.lookup).isSome := rfl
  cases hpath : host.resolve path with
  | none =>
    have hcreate : (Host.createNewFile path).run host = .error .ioException host := by
      simp only [EStateM.run, Host.createNewFile, hpath]
    rw [run_createFile_of_not_exists (by simp [hexists, hpath]), bind_of_error hcreate]
    exact .noParent hpath
  | some names =>
    cases hentry : host.lookup names with
    | none =>
      rw [run_createFile_of_not_exists (by simp [hexists, hpath, hentry]),
        bind_of_ok (run_createNewFile_of_missing hpath hentry)]
      exact .created hpath hentry
    | some entry =>
      rw [run_createFile_of_exists (by simp [hexists, hpath, hentry])]
      cases entry with
      | file inode =>
        have hnames : names ≠ [] := Host.ne_nil_of_lookup hentry (by simp)
        have hdelete : (Host.delete path).run host = .ok true (host.removeName names) := by
          simp only [EStateM.run, Host.delete, hpath, hentry]
        -- The path leads to the same place after the file is gone.
        have hcreate : (Host.createNewFile path).run (host.removeName names) =
            .ok true ((host.removeName names).addFile names) := by
          refine run_createNewFile_of_missing ((Host.resolve_removeName hentry).trans hpath) ?_
          rw [Host.lookup_removeName host names names hnames, if_pos rfl]
        rw [bind_of_ok hdelete, bind_of_ok hcreate]
        exact .replaced hpath hentry
      | directory =>
        refine .directory hpath hentry fun q content hq => ?_
        -- The directory is deleted or not, which no file notices.
        obtain ⟨deleted, host', hdelete, hhost'⟩ := exists_delete_directory hpath hentry
        rw [bind_of_ok hdelete, finalState_bind_pure fun _ => ()]
        rcases hhost' with rfl | rfl
        · exact fileAt_createNewFile hfresh path hq
        · exact fileAt_createNewFile (hfresh.removeName names) path
            (Host.fileAt_removeName_of_ne_file (by simp [hentry]) hq)

/-- Creating a file keeps the contents of all files exactly if it does not replace one that has
some. -/
theorem createFile_keeps_iff (hfresh : host.Fresh) (path : String) :
    (∀ q content, host.fileAt q = some content →
        (finalState ((createFile path).run host)).fileAt q = some content) ↔
      ∀ names content, host.resolve path = some names → host.fileAt names = some content →
        content = [] := by
  -- Where the path leads to no file, there is nothing to lose.
  have hnone : ∀ {names}, host.resolve path = some names →
      (∀ inode, host.lookup names ≠ some (.file inode)) → ∀ names' content,
        host.resolve path = some names' → host.fileAt names' = some content → content = [] := by
    intro names hpath hfile names' content hnames' hcontent
    obtain rfl := Option.some.inj (hpath.symm.trans hnames')
    rw [Host.fileAt_of_ne_file hfile] at hcontent
    cases hcontent
  have hcreate := createFile_outcome hfresh path
  generalize (createFile path).run host = r at hcreate
  cases hcreate with
  | noParent hpath =>
    refine iff_of_true (fun _ _ h => h) ?_
    intro names content hnames
    rw [hpath] at hnames
    cases hnames
  | @created names hpath hmissing =>
    exact iff_of_true (fun q content => Host.fileAt_addFile_of_missing hfresh hmissing)
      (hnone hpath (by simp [hmissing]))
  | @replaced names inode hpath hfile =>
    have hafter : ∀ q, ((host.removeName names).addFile names).fileAt q =
        if q = names then some [] else host.fileAt q := by
      intro q
      rw [Host.fileAt_addFile (hfresh.removeName names) (Host.ne_nil_of_lookup hfile (by simp)),
        Host.fileAt_removeName]
      split_ifs <;> rfl
    constructor
    · intro hkeeps names' content hnames' hcontent
      obtain rfl := Option.some.inj (hpath.symm.trans hnames')
      have hsame := hkeeps names content hcontent
      rw [finalState, hafter, if_pos rfl] at hsame
      exact (Option.some.inj hsame).symm
    · intro hempty q content hq
      rw [finalState, hafter]
      split_ifs with heq
      · subst heq
        rw [hempty q content hpath hq]
      · exact hq
  | @directory names r hpath hdir hfiles =>
    exact iff_of_true hfiles (hnone hpath (by simp [hdir]))

/-! ## Files and flags -/

/-- `O_TRUNC` -/
def oTrunc : Int64 := 0o1000

/-- A call of `openat` keeps files, for flags and the address of a path: without `O_TRUNC` all files
keep their contents, a missing file is created just with `O_CREAT`, and another address of the same
path gives the same. -/
structure OpeningPreserves (env : VfsEnv) (s : VfsState) (dirfd p flags mode : Int64)
    (path : String) : Prop where
  contents : flags &&& oTrunc = 0 → ∀ names content, s.host.fileAt names = some content →
    (finalState ((openat env [dirfd, p, flags, mode]).run s)).host.fileAt names = some content
  creates : ∀ names, s.host.resolve (virtualPath env path) = some names →
    s.host.lookup names = none →
    (finalState ((openat env [dirfd, p, flags, mode]).run s)).host.fileAt names =
      if flags &&& oCreat ≠ 0 then some [] else none
  pointer : ∀ p', pathAt env s.uc p' = .ok path →
    SameEffect ((openat env [dirfd, p, flags, mode]).run s)
      ((openat env [dirfd, p', flags, mode]).run s)

theorem host_open_of_creates {flag : Int64} (h : Creates path flag) (mode : Int64) :
    (finalState ((open_ env path flag mode).run s)).host =
      finalState ((createFile (virtualPath env path)).run s.host) := by
  rw [run_open_of_creates h]
  cases hrun : (createFile (virtualPath env path)).run s.host with
  | ok _ host =>
    have hhost : (onHost (createFile (virtualPath env path))).run (withFile s path) =
        .ok () { withFile s path with host } := run_onHost_of_ok hrun
    rw [bind_of_ok hhost]
    rfl
  | error err host =>
    have hhost : (onHost (createFile (virtualPath env path))).run (withFile s path) =
        .error err { withFile s path with host } := run_onHost_of_error hrun
    rw [bind_of_error hhost]
    rfl

theorem host_open_of_not_creates {flag : Int64} (h : ¬Creates path flag) (mode : Int64) :
    (finalState ((open_ env path flag mode).run s)).host = s.host := by
  rw [run_open_of_not_creates h]
  rfl

/-- A missing file is there afterwards if it was created. -/
theorem fileAt_createFile_of_missing (hfresh : host.Fresh) (hpath : host.resolve path = some names)
    (hmissing : host.lookup names = none) :
    (finalState ((createFile path).run host)).fileAt names = some [] := by
  have hcreate := createFile_outcome hfresh path
  generalize (createFile path).run host = r at hcreate
  cases hcreate with
  | noParent hnone =>
    rw [hnone] at hpath
    cases hpath
  | created hnames _ =>
    obtain rfl := Option.some.inj (hpath.symm.trans hnames)
    have hne := Host.ne_nil_of_lookup hmissing (by simp)
    rw [finalState, Host.fileAt_addFile hfresh hne, if_pos rfl]
  | replaced hnames hfile =>
    obtain rfl := Option.some.inj (hpath.symm.trans hnames)
    rw [hmissing] at hfile
    cases hfile
  | directory hnames hdir _ =>
    obtain rfl := Option.some.inj (hpath.symm.trans hnames)
    rw [hmissing] at hdir
    cases hdir

/-- Opening keeps the contents of all files exactly if it does not create one in the place of a file
that has some. -/
theorem open_keeps_iff (hfresh : s.host.Fresh) (path : String) (flag mode : Int64) :
    (∀ names content, s.host.fileAt names = some content →
        (finalState ((open_ env path flag mode).run s)).host.fileAt names = some content) ↔
      (Creates path flag → ∀ names content, s.host.resolve (virtualPath env path) = some names →
        s.host.fileAt names = some content → content = []) := by
  by_cases hcreates : Creates path flag
  · rw [host_open_of_creates hcreates, createFile_keeps_iff hfresh]
    simp [hcreates]
  · rw [host_open_of_not_creates hcreates]
    simp [hcreates]

/-- A missing file is there afterwards just if this is asked for, exactly if it is created just
then. -/
theorem open_creates_iff (hfresh : s.host.Fresh) {path : String}
    (hnames : s.host.resolve (virtualPath env path) = some names)
    (hnone : s.host.lookup names = none) (flag mode : Int64) (asked : Prop) [Decidable asked] :
    (finalState ((open_ env path flag mode).run s)).host.fileAt names =
        (if asked then some [] else none) ↔
      (Creates path flag ↔ asked) := by
  by_cases hcreates : Creates path flag
  · rw [host_open_of_creates hcreates, fileAt_createFile_of_missing hfresh hnames hnone]
    split_ifs with hflag <;> simp [hcreates, hflag]
  · rw [host_open_of_not_creates hcreates, Host.fileAt_of_ne_file (by simp [hnone])]
    split_ifs with hflag <;> simp [hcreates, hflag]

/-- A call of `openat` keeps files exactly if, whatever the flags are, bit `0x40` of the pointer
does what they ask for: it is not set for a file that has contents to lose, it agrees with `O_CREAT`
for a missing file, and every other address of the path has the same bit (or creating the file
changes nothing). -/
theorem openat_preserves_iff (env : VfsEnv) (s : VfsState) (dirfd p flags mode : Int64)
    (path : String) (hfresh : s.host.Fresh) (hpath : pathAt env s.uc p = .ok path) :
    OpeningPreserves env s dirfd p flags mode path ↔
      (flags &&& oTrunc = 0 → Creates path p → ∀ names content,
        s.host.resolve (virtualPath env path) = some names → s.host.fileAt names = some content →
          content = []) ∧
      (∀ names, s.host.resolve (virtualPath env path) = some names →
        s.host.lookup names = none → (Creates path p ↔ flags &&& oCreat ≠ 0)) ∧
      ∀ p', pathAt env s.uc p' = .ok path →
        (Creates path p ↔ Creates path p') ∨ CreationIdle env s.host path := by
  -- The pointer arrives where `open` expects the flags.
  have hrun : ∀ p', pathAt env s.uc p' = .ok path →
      (openat env [dirfd, p', flags, mode]).run s = (open_ env path p' flags).run s :=
    fun p' hpath' => run_openat_of_ok hpath'
  have hpointer : ∀ p', pathAt env s.uc p' = .ok path →
      (SameEffect ((openat env [dirfd, p, flags, mode]).run s)
          ((openat env [dirfd, p', flags, mode]).run s) ↔
        (Creates path p ↔ Creates path p') ∨ CreationIdle env s.host path) := by
    intro p' hpath'
    rw [hrun p hpath, hrun p' hpath', sameEffect_open_iff]
  constructor
  · intro h
    refine ⟨fun htrunc => ?_, fun names hnames hnone => ?_, fun p' hpath' => ?_⟩
    · have hcontents := h.contents htrunc
      rw [hrun p hpath] at hcontents
      exact (open_keeps_iff hfresh path p flags).1 hcontents
    · have hcreated := h.creates names hnames hnone
      rw [hrun p hpath] at hcreated
      exact (open_creates_iff hfresh hnames hnone p flags _).1 hcreated
    · exact (hpointer p' hpath').1 (h.pointer p' hpath')
  · rintro ⟨hkeeps, hcreates, hsame⟩
    refine ⟨fun htrunc => ?_, fun names hnames hnone => ?_, fun p' hpath' => ?_⟩
    · rw [hrun p hpath]
      exact (open_keeps_iff hfresh path p flags).2 (hkeeps htrunc)
    · rw [hrun p hpath]
      exact (open_creates_iff hfresh hnames hnone p flags _).2 (hcreates names hnames hnone)
    · exact (hpointer p' hpath').2 (hsame p' hpath')

theorem fresh_appHost : appHost.Fresh := by
  intro names inode h
  have hnames : names ≠ [] := Host.ne_nil_of_lookup h (by simp)
  rw [Host.lookup, if_neg hnames] at h
  have hmem := mem_of_lookup h
  simp [appHost] at hmem
  rw [hmem.2]
  decide

/-- The engine of the app with bytes from an address on. -/
def appUcWith (a : UInt64) (bytes : List UInt8) : Unicorn := (appUc 0 0 0 0).store a bytes

/-- The only address of the path `/a`. -/
theorem eq_of_pathAt_appUc {p : Int64} (h : pathAt appEnv (appUc 0 0 0 0) p = .ok "/a") :
    p = 0x1000 := by
  cases hread : (MemoryHelper.readUTF8 appEnv.decodeUTF8 p).run (appUc 0 0 0 0) with
  | error err uc =>
    rw [pathAt, hread] at h
    cases h
  | ok path uc =>
    rw [pathAt, hread] at h
    obtain ⟨-, utf, hutf, hstring, -⟩ := MemoryHelper.readUTF8_eq_ok_iff.1 hread
    have hchars : utf.map (fun b => Char.ofNat b.toNat) = ['/', 'a'] := by
      have hpath := hutf.symm.trans (Except.ok.inj h)
      exact String.ofList_injective hpath
    cases utf with
    | nil => cases hchars
    | cons b rest =>
      obtain ⟨hne, hmem, -⟩ := terminated_cons.1 hstring
      have hb : overwrite (fun _ => 0) 0x1000 [0x2f, 0x61] p.toUInt64 = b := hmem
      by_cases hx : Within 0x1000 2 p.toUInt64
      · obtain ⟨k, hk, hp⟩ := hx.exists_add
        rw [hp] at hb
        interval_cases k
        · exact congrArg UInt64.toInt64 hp
        · -- The second letter is there.
          rw [← hb] at hchars
          exact absurd (List.cons.inj hchars).1 (by decide)
      · exact absurd (hb.symm.trans (overwrite_of_not_within hx)) hne

/-- The path `/a` at an address without bit `0x40`. The file is there, and it is not created. -/
theorem openat_preserves_a :
    pathAt appEnv (appUc 0 0 0 0) 0x1000 = .ok "/a" ∧
      OpeningPreserves appEnv (.start (appUc 0 0 0 0) appHost) 0xffffff9c 0x1000 0 0 "/a" := by
  have hpath : pathAt appEnv (appUc 0 0 0 0) 0x1000 = .ok "/a" := by decide
  have hnot : ¬Creates "/a" 0x1000 := fun h => h.2 (by decide)
  refine ⟨hpath, (openat_preserves_iff appEnv (.start (appUc 0 0 0 0) appHost) 0xffffff9c 0x1000 0 0
    "/a" fresh_appHost hpath).2 ⟨?_, ?_, ?_⟩⟩
  · intro _ hcreates
    exact absurd hcreates hnot
  · intro names _ _
    exact iff_of_false hnot (by decide)
  · intro p' hp'
    rw [eq_of_pathAt_appUc hp']
    exact .inl Iff.rfl

/-- The path `/a` is at `0x1000` and at `0x1040`. Opened for reading, without flags, the file keeps
its contents by the first pointer and loses them by the second. With `O_CREAT` the file `/b` is not
created if its path is at `0x1080`. -/
theorem openat_depends_on_pointer :
    let s : VfsState := .start (appUcWith 0x1040 [0x2f, 0x61]) appHost
    let t : VfsState := .start (appUcWith 0x1080 [0x2f, 0x62]) appHost
    (pathAt appEnv s.uc 0x1000 = .ok "/a" ∧ pathAt appEnv s.uc 0x1040 = .ok "/a") ∧
      s.host.fileAt ["data", "root", "a"] = some [1, 2, 3] ∧
      (finalState ((openat appEnv [0xffffff9c, 0x1000, 0, 0]).run s)).host.fileAt
        ["data", "root", "a"] = some [1, 2, 3] ∧
      (finalState ((openat appEnv [0xffffff9c, 0x1040, 0, 0]).run s)).host.fileAt
        ["data", "root", "a"] = some [] ∧
      ¬OpeningPreserves appEnv s 0xffffff9c 0x1040 0 0 "/a" ∧
      pathAt appEnv t.uc 0x1080 = .ok "/b" ∧
      (finalState ((openat appEnv [0xffffff9c, 0x1080, oCreat, 0]).run t)).host.fileAt
        ["data", "root", "b"] = none := by
  intro s t
  have hlost : (finalState ((openat appEnv [0xffffff9c, 0x1040, 0, 0]).run s)).host.fileAt
      ["data", "root", "a"] = some [] := by decide
  refine ⟨⟨by decide, by decide⟩, by decide, by decide, hlost, ?_, by decide, by decide⟩
  intro h
  have hkept := h.contents (by decide) ["data", "root", "a"] [1, 2, 3] (by decide)
  exact absurd (hlost.symm.trans hkept) (by decide)

/-! ## Calls that fail -/

namespace VfsState

/-- The call throws. -/
def Fails (env : VfsEnv) (s : VfsState) (c : EngineCall) : Prop :=
  ∃ err s', (c.1.call env).run (s.meets c.2) = .error err s'

theorem fails_of_outcome {c : EngineCall} {err : JavaException}
    (h : outcome ((c.1.call env).run (s.meets c.2)) = .error err) : s.Fails env c := by
  cases hrun : (c.1.call env).run (s.meets c.2) with
  | ok ret s' =>
    rw [hrun] at h
    cases h
  | error err' s' => exact ⟨err', s', hrun⟩

/-- All calls of a run are calls of `open` and `openat` that throw. -/
def FailedOpens (env : VfsEnv) (s : VfsState) (calls : List EngineCall) : Prop :=
  ∀ c ∈ trace (step env) s calls, c.2.1.IsOpen ∧ c.1.Fails env c.2

end VfsState

/-- The path of `open` and `openat` cannot be read. -/
def PathUnreadable (env : VfsEnv) (uc : Unicorn) : Prop :=
  ∃ err, pathAt env uc (uc.regRead .r1) = .error err

theorem run_call_of_isOpen (env : VfsEnv) (s : VfsState) {c : EngineCall} (hopen : c.1.IsOpen) :
    ∃ args : List Int64, args.getD 1 0 = c.2.regRead .r1 ∧
      (c.1.call env).run (s.meets c.2) = (openat env args).run (s.meets c.2) := by
  obtain ⟨syscall, uc⟩ := c
  rcases hopen with rfl | rfl
  · exact ⟨_, rfl, FileSyscall.run_call FileSyscall.open_⟩
  · exact ⟨_, rfl, FileSyscall.run_call FileSyscall.openat⟩

section Steps

variable {c : EngineCall} {calls : List EngineCall}

/-- If its path cannot be read, the call does nothing. -/
theorem files_step_of_unreadable (hopen : c.1.IsOpen) (h : PathUnreadable env c.2) :
    (s.step env c).files = s.files := by
  obtain ⟨err, herr⟩ := h
  obtain ⟨args, hpath, hrun⟩ := run_call_of_isOpen env s hopen
  rw [← hpath] at herr
  rw [VfsState.step, hrun, run_openat_of_error herr]
  rfl

/-- If it can, there is a new descriptor, whether the call fails or not. -/
theorem denotes_step_of_readable (hopen : c.1.IsOpen) (h : ¬PathUnreadable env c.2) :
    (s.step env c).files.denotes s.files.nextFd ≠ none := by
  obtain ⟨args, hpath, hrun⟩ := run_call_of_isOpen env s hopen
  cases hread : pathAt env c.2 (c.2.regRead .r1) with
  | error err => exact absurd ⟨err, hread⟩ h
  | ok path =>
    rw [← hpath] at hread
    have hnew : (finalState ((open_ env path (args.getD 1 0) (args.getD 2 0)).run
        (s.meets c.2))).files.denotes s.files.nextFd = some (path, s.files.nextFd) :=
      denotes_open path _ _
    rw [VfsState.step, hrun, run_openat_of_ok hread, hnew]
    simp

/-- No call of `open` closes a descriptor. -/
theorem denotes_step_of_isOpen (hopen : c.1.IsOpen) {d : ℤ} (hd : s.files.denotes d ≠ none) :
    (s.step env c).files.denotes d ≠ none := by
  rw [VfsState.step]
  rcases (call_outcome_of_open env (s.meets c.2) hopen).files_eq with hfiles | ⟨path, hfiles⟩
  · rw [hfiles]
    exact hd
  · rw [hfiles, FileTable.denotes, FileTable.get_put]
    split_ifs
    · simp
    · exact hd

/-- All calls of a run open files. -/
def OnlyOpens (env : VfsEnv) (s : VfsState) (calls : List EngineCall) : Prop :=
  ∀ c ∈ trace (VfsState.step env) s calls, c.2.1.IsOpen

theorem onlyOpens_cons :
    OnlyOpens env s (c :: calls) ↔ c.1.IsOpen ∧ OnlyOpens env (s.step env c) calls :=
  forall_trace_cons (P := fun (_ : VfsState) (c : EngineCall) => c.1.IsOpen)

theorem denotes_run_of_onlyOpens (hopen : OnlyOpens env s calls) {d : ℤ}
    (hd : s.files.denotes d ≠ none) :
    (calls.foldl (VfsState.step env) s).files.denotes d ≠ none :=
  foldl_invariant (I := fun t : VfsState => t.files.denotes d ≠ none)
    (H := fun _ (c : EngineCall) => c.1.IsOpen)
    (fun _ _ ht hc => denotes_step_of_isOpen hc ht) hd hopen

theorem files_run_of_unreadable (hopen : OnlyOpens env s calls)
    (h : ∀ c ∈ calls, PathUnreadable env c.2) :
    (calls.foldl (VfsState.step env) s).files = s.files := by
  induction calls generalizing s with
  | nil => rfl
  | cons c calls ih =>
    rw [onlyOpens_cons] at hopen
    rw [List.forall_mem_cons] at h
    exact (ih hopen.2 h.2).trans (files_step_of_unreadable hopen.1 h.1)

/-- The first call that can read its path takes the descriptor that was next in the beginning. -/
theorem denotes_run_of_readable (hopen : OnlyOpens env s calls)
    (h : ¬∀ c ∈ calls, PathUnreadable env c.2) :
    (calls.foldl (VfsState.step env) s).files.denotes s.files.nextFd ≠ none := by
  induction calls generalizing s with
  | nil => exact absurd (fun _ hc => absurd hc List.not_mem_nil) h
  | cons c calls ih =>
    rw [onlyOpens_cons] at hopen
    rw [List.forall_mem_cons] at h
    by_cases hc : PathUnreadable env c.2
    · have hrest := ih hopen.2 fun hall => h ⟨hc, hall⟩
      rw [files_step_of_unreadable hopen.1 hc] at hrest
      exact hrest
    · exact denotes_run_of_onlyOpens hopen.2 (denotes_step_of_readable hopen.1 hc)

end Steps

/-- After calls of `open` and `openat` that fail, the descriptors are what they were and the next
one is the same exactly if none of the calls could read its path. The next successful call returns
the next descriptor. -/
theorem failed_opens_iff (env : VfsEnv) (s : VfsState) (calls : List EngineCall)
    (h : s.FailedOpens env calls) :
    ((∀ d, (calls.foldl (VfsState.step env) s).files.denotes d = s.files.denotes d) ↔
      ∀ c ∈ calls, PathUnreadable env c.2) ∧
    ((calls.foldl (VfsState.step env) s).files.nextFd = s.files.nextFd ↔
      ∀ c ∈ calls, PathUnreadable env c.2) ∧
    ∀ c : EngineCall, c.1.IsOpen → ∀ ret s',
      (c.1.call env).run ((calls.foldl (VfsState.step env) s).meets c.2) = .ok ret s' →
        ret = ⟨true, Int64.ofInt (calls.foldl (VfsState.step env) s).files.nextFd⟩ := by
  have hopen : OnlyOpens env s calls := fun c hc => (h c hc).1
  have hkept : (∀ c ∈ calls, PathUnreadable env c.2) →
      (calls.foldl (VfsState.step env) s).files = s.files := files_run_of_unreadable hopen
  refine ⟨⟨fun hsame => ?_, fun hall d => ?_⟩, ⟨fun hnext => ?_, fun hall => ?_⟩, ?_⟩
  · by_contra hread
    exact denotes_run_of_readable hopen hread ((hsame _).trans (denotes_nextFd s.files))
  · rw [hkept hall]
  · by_contra hread
    have htaken := denotes_run_of_readable hopen hread
    rw [← hnext] at htaken
    exact htaken (denotes_nextFd _)
  · rw [hkept hall]
  · intro c hc ret s' hrun
    have hcall := call_outcome_of_open env ((calls.foldl (VfsState.step env) s).meets c.2) hc
    rw [hrun] at hcall
    cases hcall with
    | opened => rfl

/-- A path that is not mapped. -/
theorem failed_opens_unreadable :
    VfsState.FailedOpens appEnv appOpened [(.openat, appUc 0 0x3000 0 0)] ∧
      (∀ d, (appOpened.step appEnv (.openat, appUc 0 0x3000 0 0)).files.denotes d =
        appOpened.files.denotes d) := by
  have hfails : VfsState.FailedOpens appEnv appOpened [(.openat, appUc 0 0x3000 0 0)] := by
    intro c hc
    obtain rfl := List.mem_singleton.1 hc
    have herr : outcome ((FileSyscall.openat.call appEnv).run
        (appOpened.meets (appUc 0 0x3000 0 0))) = .error (.unicornException .readUnmapped) := by
      decide
    exact ⟨.inr rfl, VfsState.fails_of_outcome herr⟩
  refine ⟨hfails, ((failed_opens_iff appEnv appOpened _ hfails).1.2 ?_)⟩
  intro c hc
  obtain rfl := List.mem_singleton.1 hc
  exact ⟨.unicornException .readUnmapped, by decide⟩

/-- The file `/b/c` cannot be created, for there is no directory `/b`. Its descriptor stays. -/
theorem failed_open_leaves_descriptor :
    let c : EngineCall := (.openat,
      { appUcWith 0x1040 [0x2f, 0x62, 0x2f, 0x63] with
        regs := Function.update (fun _ => 0) .r1 0x1040 })
    let s := VfsState.start .blank appHost
    outcome ((c.1.call appEnv).run (s.meets c.2)) = .error .ioException ∧
      s.files.denotes 3 = none ∧ (s.step appEnv c).files.denotes 3 = some ("/b/c", 3) ∧
      s.files.nextFd = 3 ∧ ([c, c].foldl (VfsState.step appEnv) s).files.nextFd = 5 := by
  decide

end Tank
