import Tank.Utils.Words
import Tank.Vfs.Descriptors

/-!
# Writing files

`writev` gets an array of `iovcnt` pairs of an address and a length, and is meant to append the
bytes of these buffers to the file. The handler takes the array itself for the buffer and `iovcnt`
for its length. It opens a new output stream each time, which empties the file, and returns 0.

* `gather`: the bytes that a call is meant to write;
* `contentAt_writeFile`: the bytes that it does write;
* `writev_gathers_iff`: in a run of calls, the buffers are appended exactly if they are all empty
  and the bytes that are written instead are those of the file.
-/

namespace Tank

open ToMathlib VirtualFileSystem

/-! ## What is to be written -/

/-- The bytes of the buffer that an entry of the array describes. -/
def iovecBytes (uc : Unicorn) (a : UInt64) : Option (List UInt8) := do
  let base ← uc.wordAt a
  let len ← uc.wordAt (a + 4)
  if uc.checkMemArea base.toUInt64 len.toNat then
    some (readBytes uc.mem base.toUInt64 len.toNat)
  else none

/-- The bytes of the buffers of an array with so many entries, in order. -/
def gather (uc : Unicorn) : UInt64 → ℕ → Option (List UInt8)
  | _, 0 => some []
  | a, n + 1 => do
    let first ← iovecBytes uc a
    let rest ← gather uc (a + 8) n
    some (first ++ rest)

/-! ## The arguments of `writev` -/

def writevFd (uc : Unicorn) : ℤ := (uc.regRead .r0).toInt

/-- The bytes that a call is meant to write; nothing if the array or a buffer is not mapped. -/
def gathered (uc : Unicorn) : Option (List UInt8) :=
  gather uc (uc.regRead .r1).toUInt64 (uc.regs .r2).toNat

/-- The bytes that a call writes to the file after it was emptied; none if they cannot be read. -/
def written (uc : Unicorn) : List UInt8 :=
  match outcome ((MemoryHelper.readByteArray (uc.regRead .r1) (uc.regRead .r2)).run uc) with
  | .ok bytes => bytes
  | .error _ => []

variable {env : VfsEnv} {s : VfsState} {uc : Unicorn} {host : Host} {path : String}
  {names : List String} {file : VirtualFile}

/-! ## One call -/

/-- A file can be written unless it is a directory or is not in a directory. -/
def Writable (host : Host) (path : String) : Prop :=
  ∃ names, host.resolve path = some names ∧ host.lookup names ≠ some .directory

theorem contentAt_of_not_writable (h : ¬Writable host path) : host.contentAt path = none := by
  rw [Host.contentAt]
  cases hpath : host.resolve path with
  | none => rfl
  | some names =>
    have hdir : host.lookup names = some .directory := by
      by_contra hne
      exact h ⟨names, hpath, hne⟩
    exact Host.fileAt_of_ne_file (by simp [hdir])

theorem contentAt_setContents {inode : ℕ} (hpath : host.resolve path = some names)
    (hfile : host.lookup names = some (.file inode)) (bytes : List UInt8) :
    (host.setContents inode bytes).contentAt path = some bytes := by
  have hresolve : (host.setContents inode bytes).resolve path = some names :=
    (Host.resolve_congr fun _ => Iff.rfl).trans hpath
  have hlookup : (host.setContents inode bytes).lookup names = some (.file inode) := hfile
  rw [Host.contentAt_of_resolve hresolve, Host.fileAt_of_file hlookup, Host.setContents]
  simp

/-- After a new output stream was made the file is there and is empty, and it can be written. -/
theorem openOutput_of_writable (h : Writable host path) :
    ∃ inode host', (Host.openOutput path).run host = .ok inode host' ∧
      host'.contentAt path = some [] ∧
      ∀ bytes, (host'.setContents inode bytes).contentAt path = some bytes := by
  obtain ⟨names, hpath, hdir⟩ := h
  cases hentry : host.lookup names with
  | some entry =>
    cases entry with
    | directory => exact absurd hentry hdir
    | file inode =>
      have hrun : (Host.openOutput path).run host = .ok inode (host.setContents inode []) := by
        simp only [EStateM.run, Host.openOutput, hpath, hentry]
      have hpath' : (host.setContents inode []).resolve path = some names :=
        (Host.resolve_congr fun _ => Iff.rfl).trans hpath
      exact ⟨inode, _, hrun, contentAt_setContents hpath hentry [],
        contentAt_setContents hpath' hentry⟩
  | none =>
    have hrun : (Host.openOutput path).run host = .ok host.nextInode (host.addFile names) := by
      simp only [EStateM.run, Host.openOutput, hpath, hentry]
    have hpath' : (host.addFile names).resolve path = some names :=
      (Host.resolve_addFile hentry).trans hpath
    have hfile : (host.addFile names).lookup names = some (.file host.nextInode) := by
      rw [Host.lookup_addFile host names names (Host.ne_nil_of_lookup hentry (by simp)), if_pos rfl]
    refine ⟨host.nextInode, _, hrun, ?_, contentAt_setContents hpath' hfile⟩
    rw [Host.contentAt_of_resolve hpath', Host.fileAt_of_file hfile, Host.addFile]
    simp

theorem openOutput_of_not_writable (h : ¬Writable host path) :
    (Host.openOutput path).run host = .error .fileNotFound host := by
  simp only [EStateM.run, Host.openOutput]
  cases hpath : host.resolve path with
  | none => rfl
  | some names =>
    have hdir : host.lookup names = some .directory := by
      by_contra hne
      exact h ⟨names, hpath, hne⟩
    simp only [hdir]

theorem onlyReads_readByteArray (addr size : Int64) :
    MemoryHelper.OnlyReads (MemoryHelper.readByteArray addr size) := by
  rw [MemoryHelper.readByteArray]
  split
  · intro uc
    rfl
  · exact MemoryHelper.onlyReads_memRead _ _

/-- What `writev` leaves in a file: the bytes that it reads, or nothing if it cannot read them. -/
theorem contentAt_writeFile_of_writable (h : Writable s.host path) :
    (finalState ((writeFile path (s.uc.regRead .r1) (s.uc.regRead .r2)).run s)).host.contentAt
      path = some (written s.uc) := by
  obtain ⟨inode, host', hopen, hempty, hwrite⟩ := openOutput_of_writable h
  rw [writeFile, bind_of_ok (run_onHost_of_ok hopen)]
  have hread := run_onEngine_of_onlyReads (s := { s with host := host' })
    (onlyReads_readByteArray (s.uc.regRead .r1) (s.uc.regRead .r2))
  unfold written
  cases hbytes : outcome ((MemoryHelper.readByteArray (s.uc.regRead .r1)
      (s.uc.regRead .r2)).run s.uc) with
  | ok bytes =>
    rw [hbytes] at hread
    rw [bind_of_ok hread]
    exact hwrite bytes
  | error err =>
    rw [hbytes] at hread
    rw [bind_of_error hread]
    exact hempty

theorem contentAt_writeFile_of_not_writable (h : ¬Writable s.host path) (buffer count : Int64) :
    (finalState ((writeFile path buffer count).run s)).host.contentAt path = none := by
  rw [writeFile, bind_of_error (run_onHost_of_error (openOutput_of_not_writable h))]
  exact contentAt_of_not_writable h

/-- The file of a descriptor before a call; a file that is not there counts as empty. -/
def contentOf (env : VfsEnv) (host : Host) (file : VirtualFile) : List UInt8 :=
  (host.contentAt (virtualPath env file.name)).getD []

/-- A call appends the gathered bytes to the file and returns their number. -/
structure Appends (env : VfsEnv) (file : VirtualFile) (s : VfsState) (uc : Unicorn)
    (data : List UInt8) : Prop where
  returns : ∃ value : Int64, value.toInt = data.length ∧
    outcome ((FileSyscall.writev.call env).run (s.meets uc)) = .ok ⟨true, value⟩
  appended : (s.step env (.writev, uc)).host.contentAt (virtualPath env file.name) =
    some (contentOf env s.host file ++ data)

/-- There is nothing to write, and what is written instead are the bytes of the file. -/
structure WritesNothing (env : VfsEnv) (file : VirtualFile) (s : VfsState) (uc : Unicorn)
    (data : List UInt8) : Prop where
  empty : data = []
  writable : Writable s.host (virtualPath env file.name)
  written : written uc = contentOf env s.host file

theorem run_call_writev (env : VfsEnv) (s : VfsState) (uc : Unicorn) :
    (FileSyscall.writev.call env).run (s.meets uc) =
      (writev env [uc.regRead .r0, uc.regRead .r1, uc.regRead .r2]).run (s.meets uc) :=
  FileSyscall.run_call FileSyscall.writev

theorem run_writev (env : VfsEnv) (hfile : s.files.get (writevFd uc) = some file) :
    (FileSyscall.writev.call env).run (s.meets uc) = .ok ⟨true, 0⟩
      (finalState ((writeFile (virtualPath env file.name) (uc.regRead .r1)
        (uc.regRead .r2)).run (s.meets uc))) := by
  have hfd : ([uc.regRead .r0, uc.regRead .r1, uc.regRead .r2].getD 0 0).toInt = writevFd uc := rfl
  have hget : (s.meets uc).files.get (writevFd uc) = some file := hfile
  rw [run_call_writev, writev, get_bind, hfd, hget]
  rfl

/-- No call of `writev` changes the table of open files. -/
theorem files_step_writev (env : VfsEnv) (s : VfsState) (uc : Unicorn) :
    (s.step env (.writev, uc)).files = s.files := by
  have hstep : s.step env (.writev, uc) =
      finalState ((FileSyscall.writev.call env).run (s.meets uc)) := rfl
  rw [hstep, run_call_writev]
  exact keepsFiles_writev _ (s.meets uc)

theorem appends_iff {data : List UInt8} (hfile : s.files.get (writevFd uc) = some file) :
    Appends env file s uc data ↔ WritesNothing env file s uc data := by
  have hrun := run_writev env hfile
  have hstep : s.step env (.writev, uc) = finalState ((writeFile (virtualPath env file.name)
      (uc.regRead .r1) (uc.regRead .r2)).run (s.meets uc)) := by
    rw [VfsState.step, hrun]
    rfl
  have hzero : (0 : Int64).toInt = 0 := rfl
  constructor
  · rintro ⟨⟨value, hlen, hreturns⟩, happended⟩
    rw [hrun] at hreturns
    obtain rfl : 0 = value := by simpa [outcome] using hreturns
    have hempty : data = [] := by
      apply List.eq_nil_of_length_eq_zero
      omega
    rw [hstep, hempty, List.append_nil] at happended
    by_cases hwritable : Writable s.host (virtualPath env file.name)
    · have hcontent := contentAt_writeFile_of_writable (s := s.meets uc) hwritable
      exact ⟨hempty, hwritable, Option.some.inj (hcontent.symm.trans happended)⟩
    · have hnone := contentAt_writeFile_of_not_writable (s := s.meets uc) hwritable
        (uc.regRead .r1) (uc.regRead .r2)
      cases hnone.symm.trans happended
  · rintro ⟨rfl, hwritable, hsame⟩
    refine ⟨⟨0, hzero, by rw [hrun]; rfl⟩, ?_⟩
    rw [hstep, List.append_nil, ← hsame]
    exact contentAt_writeFile_of_writable (s := s.meets uc) hwritable

/-! ## Runs -/

/-- The state after a call of `writev`. -/
def VfsState.writevStep (env : VfsEnv) (s : VfsState) (uc : Unicorn) : VfsState :=
  s.step env (.writev, uc)

/-- Each call appends the bytes of its buffers and returns their number, so that in the end the file
has all of them one after the other. -/
structure AppendsAll (env : VfsEnv) (file : VirtualFile) (s : VfsState) (ucs : List Unicorn) :
    Prop where
  calls : ∀ c ∈ trace (VfsState.writevStep env) s ucs, ∀ data, gathered c.2 = some data →
    Appends env file c.1 c.2 data
  content : contentOf env (ucs.foldl (VfsState.writevStep env) s).host file =
    contentOf env s.host file ++ ucs.flatMap fun uc => (gathered uc).getD []

theorem content_of_appends {ucs : List Unicorn} (hdata : ∀ uc ∈ ucs, (gathered uc).isSome = true)
    (h : ∀ c ∈ trace (VfsState.writevStep env) s ucs, ∀ data, gathered c.2 = some data →
      Appends env file c.1 c.2 data) :
    contentOf env (ucs.foldl (VfsState.writevStep env) s).host file =
      contentOf env s.host file ++ ucs.flatMap fun uc => (gathered uc).getD [] := by
  induction ucs generalizing s with
  | nil => simp
  | cons uc ucs ih =>
    obtain ⟨hhead, htail⟩ := forall_trace_cons (P := fun (s : VfsState) (uc : Unicorn) =>
      ∀ data, gathered uc = some data → Appends env file s uc data).1 h
    rw [List.forall_mem_cons] at hdata
    obtain ⟨data, hgathered⟩ := Option.isSome_iff_exists.1 hdata.1
    have happended := (hhead data hgathered).appended
    have hcontent : contentOf env (s.writevStep env uc).host file =
        contentOf env s.host file ++ data := by
      rw [contentOf, VfsState.writevStep, happended, Option.getD_some]
    rw [List.foldl_cons, ih hdata.2 htail, hcontent, List.flatMap_cons, hgathered, Option.getD_some,
      List.append_assoc]

/-- Calls on a descriptor, whose arrays and buffers are mapped, append the buffers and return their
total lengths exactly if all buffers are empty and each call writes back what is in the file. -/
theorem writev_gathers_iff (env : VfsEnv) (s : VfsState) (d : ℤ) (file : VirtualFile)
    (ucs : List Unicorn) (hfile : s.files.get d = some file) (hfd : ∀ uc ∈ ucs, writevFd uc = d)
    (hdata : ∀ uc ∈ ucs, (gathered uc).isSome = true) :
    AppendsAll env file s ucs ↔
      ∀ c ∈ trace (VfsState.writevStep env) s ucs, ∀ data, gathered c.2 = some data →
        WritesNothing env file c.1 c.2 data := by
  have hcalls : (∀ c ∈ trace (VfsState.writevStep env) s ucs, ∀ data, gathered c.2 = some data →
      Appends env file c.1 c.2 data) ↔
        ∀ c ∈ trace (VfsState.writevStep env) s ucs, ∀ data, gathered c.2 = some data →
          WritesNothing env file c.1 c.2 data := by
    refine forall_trace_iff (I := fun t : VfsState => t.files.get d = some file)
      (H := fun _ (uc : Unicorn) => writevFd uc = d)
      (P := fun t uc => ∀ data, gathered uc = some data → Appends env file t uc data)
      (Q := fun t uc => ∀ data, gathered uc = some data → WritesNothing env file t uc data) ?_ ?_
      hfile fun c hc => hfd c.2 (mem_of_mem_trace hc)
    · rintro t uc hget rfl
      exact forall₂_congr fun data _ => appends_iff hget
    · rintro t uc hget - -
      rw [VfsState.writevStep, files_step_writev]
      exact hget
  constructor
  · intro h
    exact hcalls.1 h.calls
  · intro h
    exact ⟨hcalls.2 h, content_of_appends hdata (hcalls.2 h)⟩

/-- The app with a file of one byte, and one descriptor of it. -/
def appSeven : VfsState := { appOpened with host := appHost.setContents 0 [7] }

/-- A call with an empty buffer, whose entry in the array begins with the byte of the file. -/
theorem writev_gathers_empty_buffer :
    let uc := (appUc 3 0x1800 1 0).store 0x1800 [7, 0x19, 0, 0, 0, 0, 0, 0]
    (appSeven.files.get 3 = some ⟨"/a", 3, none⟩ ∧ gathered uc = some []) ∧
      AppendsAll appEnv ⟨"/a", 3, none⟩ appSeven [uc] := by
  intro uc
  have hfile : appSeven.files.get 3 = some ⟨"/a", 3, none⟩ := by decide
  have hempty : gathered uc = some [] := by decide
  have hisSome : (gathered uc).isSome = true := by rw [hempty]; rfl
  refine ⟨⟨hfile, hempty⟩, (writev_gathers_iff appEnv appSeven 3 ⟨"/a", 3, none⟩ [uc] hfile
    (List.forall_mem_singleton.2 rfl) (List.forall_mem_singleton.2 hisSome)).2 ?_⟩
  intro c hc data hdata
  obtain rfl := List.mem_singleton.1 hc
  obtain rfl := Option.some.inj (hempty.symm.trans hdata)
  exact ⟨rfl, ⟨["data", "root", "a"], by decide, by decide⟩, by decide⟩

/-- The file has the bytes 1, 2, 3, and a buffer with 4, 5, 6 is to be appended. The array begins
with a zero byte, which is all that is left in the file. -/
theorem writev_overwrites :
    let uc := ((appUc 3 0x1800 1 0).store 0x1800 [0, 0x19, 0, 0, 3, 0, 0, 0]).store 0x1900 [4, 5, 6]
    appOpened.files.get (writevFd uc) = some ⟨"/a", 3, none⟩ ∧ gathered uc = some [4, 5, 6] ∧
      outcome ((FileSyscall.writev.call appEnv).run (appOpened.meets uc)) = .ok ⟨true, 0⟩ ∧
      (contentOf appEnv appOpened.host ⟨"/a", 3, none⟩ = [1, 2, 3] ∧
        contentOf appEnv (appOpened.writevStep appEnv uc).host ⟨"/a", 3, none⟩ = [0]) ∧
      ¬AppendsAll appEnv ⟨"/a", 3, none⟩ appOpened [uc] := by
  intro uc
  have hdata : gathered uc = some [4, 5, 6] := by decide
  have hreturns : outcome ((FileSyscall.writev.call appEnv).run (appOpened.meets uc)) =
      .ok ⟨true, 0⟩ := by decide
  refine ⟨by decide, hdata, hreturns, ⟨by decide, by decide⟩, ?_⟩
  intro h
  obtain ⟨value, hlen, hvalue⟩ := (h.calls _ List.mem_cons_self _ hdata).returns
  obtain rfl : (0 : Int64) = value := by simpa using hreturns.symm.trans hvalue
  exact absurd hlen (by decide)

end Tank
