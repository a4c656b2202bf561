import Tank.ToMathlib.AssocList
import Tank.ToMathlib.EState
import Tank.Unicorn
import Tank.Vfs.RootDir

/-!
# Files of the host

The part of `java.io` that the virtual file system uses. A file keeps its contents as long as a
stream is open on it, also after it was deleted, so that a name stands for an inode and the inode
has the contents. There are no symbolic links, and the host refuses nothing for lack of rights or
space.

A path is resolved from component to component, each one in a directory that is there
(`Host.resolve`).
-/

namespace Tank

open ToMathlib

/-- What a name of the host stands for. -/
inductive HostEntry where
  | directory
  | file (inode : ℕ)
deriving DecidableEq, Repr

/-- The file system of the host. -/
structure Host where
  /-- What is below the root directory, by the names that lead to it. -/
  entries : List (List String × HostEntry)
  contents : ℕ → List UInt8
  /-- The inode of the next new file. -/
  nextInode : ℕ

/-- Code that works on files. -/
abbrev HostM := EStateM JavaException Host

/-- `FileInputStream` -/
structure FileInputStream where
  inode : ℕ
  pos : ℕ
deriving DecidableEq, Repr

namespace Host

def lookup (host : Host) (names : List String) : Option HostEntry :=
  if names = [] then some .directory else host.entries.lookup names

/-- The next component of a path; `File` has taken out empty ones. -/
def enter (host : Host) (dir : List String) (component : String) : Option (List String) :=
  if component = "" then some dir
  else if host.lookup dir = some .directory then
    match pathStep component with
    | none => some dir
    | some step => some (followStep dir step)
  else none

/-- The names that an absolute path leads to, if all but the last of them are directories. -/
def resolve (host : Host) (path : String) : Option (List String) :=
  (components path).foldlM host.enter []

/-- What a path denotes. -/
def find (host : Host) (path : String) : Option HostEntry := (host.resolve path).bind host.lookup

/-- `exists` -/
def fileExists (host : Host) (path : String) : Bool := (host.find path).isSome

/-- The file system with a new empty file. -/
def addFile (host : Host) (names : List String) : Host where
  entries := (names, .file host.nextInode) :: host.entries
  contents := Function.update host.contents host.nextInode []
  nextInode := host.nextInode + 1

/-- The file system with a name removed. -/
def removeName (host : Host) (names : List String) : Host :=
  { host with entries := host.entries.filter fun e => e.1 ≠ names }

/-- The file system with other contents of an inode. -/
def setContents (host : Host) (inode : ℕ) (bytes : List UInt8) : Host :=
  { host with contents := Function.update host.contents inode bytes }

/-- `delete`: a directory is deleted only if it is empty. -/
def delete (path : String) : HostM Bool := fun host =>
  match host.resolve path with
  | none => .ok false host
  | some names =>
    match host.lookup names with
    | none => .ok false host
    | some (.file _) => .ok true (host.removeName names)
    | some .directory =>
      if host.entries.any fun e => names.isPrefixOf e.1 && e.1 != names then .ok false host
      else .ok true (host.removeName names)

/-- `createNewFile` -/
def createNewFile (path : String) : HostM Bool := fun host =>
  match host.resolve path with
  | none => .error .ioException host
  | some names =>
    match host.lookup names with
    | some _ => .ok false host
    | none => .ok true (host.addFile names)

/-- The inode of a path that denotes a file. -/
def inodeOf (host : Host) (path : String) : Option ℕ :=
  match host.find path with
  | some (.file inode) => some inode
  | _ => none

/-- `new FileInputStream` -/
def openInput (path : String) : HostM FileInputStream := fun host =>
  match host.inodeOf path with
  | some inode => .ok ⟨inode, 0⟩ host
  | none => .error .fileNotFound host

/-- `new FileOutputStream`: the file is emptied, or created. -/
def openOutput (path : String) : HostM ℕ := fun host =>
  match host.resolve path with
  | none => .error .fileNotFound host
  | some names =>
    match host.lookup names with
    | some .directory => .error .fileNotFound host
    | some (.file inode) => .ok inode (host.setContents inode [])
    | none => .ok host.nextInode (host.addFile names)

/-- `FileOutputStream.write` to a file that was just opened. -/
def write (inode : ℕ) (bytes : List UInt8) : HostM Unit := fun host =>
  .ok () (host.setContents inode bytes)

/-- The bytes of a stream that have not been read. -/
def remaining (host : Host) (fis : FileInputStream) : List UInt8 :=
  (host.contents fis.inode).drop fis.pos

/-- `FileInputStream.read` into an array; `none` is `-1`. The array is filled as far as the file
goes. -/
def readStream (host : Host) (fis : FileInputStream) (size : ℕ) : Option (List UInt8) :=
  if size = 0 then some []
  else if host.remaining fis = [] then none
  else some ((host.remaining fis).take size)

variable {host : Host} {dir names : List String} {path : String}

theorem length_le_of_readStream {fis : FileInputStream} {size : ℕ} {bytes : List UInt8}
    (h : host.readStream fis size = some bytes) : bytes.length ≤ size := by
  rw [readStream] at h
  split_ifs at h <;> obtain rfl := Option.some.inj h
  · exact Nat.zero_le _
  · exact List.length_take_le _ _

/-! ## Contents by name -/

/-- The contents of the file that names lead to. -/
def fileAt (host : Host) (names : List String) : Option (List UInt8) :=
  match host.lookup names with
  | some (.file inode) => some (host.contents inode)
  | _ => none

/-- Inodes are given out one after the other. -/
def Fresh (host : Host) : Prop :=
  ∀ names inode, host.lookup names = some (.file inode) → inode < host.nextInode

theorem ne_nil_of_lookup {entry : Option HostEntry} (h : host.lookup names = entry)
    (hdir : entry ≠ some .directory) : names ≠ [] := by
  rintro rfl
  exact hdir h.symm

theorem lookup_removeName (host : Host) (names q : List String) (hq : q ≠ []) :
    (host.removeName names).lookup q = if q = names then none else host.lookup q := by
  rw [lookup, if_neg hq, lookup, if_neg hq]
  exact lookup_filter_ne host.entries names q

theorem lookup_addFile (host : Host) (names q : List String) (hq : q ≠ []) :
    (host.addFile names).lookup q =
      if q = names then some (.file host.nextInode) else host.lookup q := by
  rw [lookup, if_neg hq, lookup, if_neg hq, addFile, List.lookup_cons]
  split_ifs with h
  · simp [h]
  · rw [beq_eq_false_iff_ne.2 h]

theorem fileAt_of_file {inode : ℕ} (h : host.lookup names = some (.file inode)) :
    host.fileAt names = some (host.contents inode) := by
  rw [fileAt, h]

theorem fileAt_of_ne_file (h : ∀ inode, host.lookup names ≠ some (.file inode)) :
    host.fileAt names = none := by
  rw [fileAt]
  split
  next inode hfile => exact absurd hfile (h inode)
  next => rfl

theorem fileAt_nil (host : Host) : host.fileAt [] = none := rfl

theorem fileAt_removeName (host : Host) (names q : List String) :
    (host.removeName names).fileAt q = if q = names then none else host.fileAt q := by
  by_cases hq : q = []
  · subst hq
    simp [fileAt_nil]
  · rw [fileAt, lookup_removeName host names q hq, fileAt]
    split_ifs <;> rfl

/-- A new file is empty, and no other file changes. -/
theorem fileAt_addFile (hfresh : host.Fresh) (hnames : names ≠ []) (q : List String) :
    (host.addFile names).fileAt q = if q = names then some [] else host.fileAt q := by
  by_cases hq : q = []
  · subst hq
    rw [if_neg (Ne.symm hnames)]
    rfl
  · rw [fileAt, lookup_addFile host names q hq]
    split_ifs with heq
    · simp [addFile]
    · rw [fileAt]
      cases hentry : host.lookup q with
      | none => rfl
      | some entry =>
        cases entry with
        | directory => rfl
        | file inode =>
          have hlt := hfresh q inode hentry
          simp [addFile, Function.update_of_ne hlt.ne]

/-- Adding a file changes none of those that are there. -/
theorem fileAt_addFile_of_missing (hfresh : host.Fresh) (hmissing : host.lookup names = none)
    {q : List String} {content : List UInt8} (h : host.fileAt q = some content) :
    (host.addFile names).fileAt q = some content := by
  rw [fileAt_addFile hfresh (ne_nil_of_lookup hmissing (by simp)), if_neg, h]
  rintro rfl
  rw [fileAt_of_ne_file (by simp [hmissing])] at h
  cases h

/-- Where there is no file, removing the entry loses none. -/
theorem fileAt_removeName_of_ne_file (hfile : ∀ inode, host.lookup names ≠ some (.file inode))
    {q : List String} {content : List UInt8} (h : host.fileAt q = some content) :
    (host.removeName names).fileAt q = some content := by
  rw [fileAt_removeName, if_neg, h]
  rintro rfl
  rw [fileAt_of_ne_file hfile] at h
  cases h

theorem Fresh.removeName (hfresh : host.Fresh) (names : List String) :
    (host.removeName names).Fresh := by
  intro q inode hentry
  have hq : q ≠ [] := ne_nil_of_lookup hentry (by simp)
  rw [lookup_removeName host names q hq] at hentry
  split_ifs at hentry
  exact hfresh q inode hentry

/-- Where a path leads depends on the directories only. -/
theorem resolve_congr {host' : Host} (h : ∀ dir, host'.lookup dir = some .directory ↔
    host.lookup dir = some .directory) : host'.resolve path = host.resolve path := by
  have henter : host'.enter = host.enter := by
    funext dir component
    rw [enter, enter]
    simp only [h]
  rw [resolve, resolve, henter]

/-- A file is not on the way to anything. -/
theorem resolve_removeName {inode : ℕ} (h : host.lookup names = some (.file inode)) :
    (host.removeName names).resolve path = host.resolve path := by
  refine resolve_congr fun dir => ?_
  by_cases hnil : dir = []
  · subst hnil
    rfl
  · rw [lookup_removeName host names dir hnil]
    split_ifs with heq
    · rw [heq, h]
      simp
    · rfl

theorem resolve_addFile (h : host.lookup names = none) :
    (host.addFile names).resolve path = host.resolve path := by
  refine resolve_congr fun dir => ?_
  by_cases hnil : dir = []
  · subst hnil
    rfl
  · rw [lookup_addFile host names dir hnil]
    split_ifs with heq
    · rw [heq, h]
      simp
    · rfl

/-- The contents of the file that a path denotes. -/
def contentAt (host : Host) (path : String) : Option (List UInt8) :=
  (host.resolve path).bind host.fileAt

theorem contentAt_of_resolve (h : host.resolve path = some names) :
    host.contentAt path = host.fileAt names := by
  rw [contentAt, h]
  rfl

end Host

end Tank
