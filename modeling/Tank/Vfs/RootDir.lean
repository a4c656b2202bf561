import Mathlib.Data.List.Basic
import Tank.ToMathlib.Paths

/-!
# Guest paths on the host

`RootDir.getVirtualFile` puts the directory of the app's data and `/root` in front of a guest path,
without looking at the path. Where the result leads is found by resolving `.` and `..`
(`canonical`); symbolic links are not considered.

* `inRoot_iff`: a path stays in the virtual root exactly if it begins with a slash and does not
  climb out of it, or goes back in by naming the directories again.
* `inRoot_escapes`: paths that lead out.
-/

namespace Tank

open ToMathlib

/-! ## Resolving paths -/

/-- The components of a path. -/
def components (path : String) : List String := (path.toList.splitOn '/').map String.ofList

/-- The step that a component stands for; an empty one and `.` stand for none. -/
def pathStep (component : String) : Option (DirStep String) :=
  if component = "" ∨ component = "." then none
  else if component = ".." then some .up
  else some (.down component)

/-- The names of the directories from the root of the host to what an absolute path denotes. -/
def canonical (path : String) : List String := follow [] ((components path).filterMap pathStep)

/-! ## The virtual root -/

/-- The name of a directory. -/
def IsName (name : String) : Prop := '/' ∉ name.toList ∧ name ≠ "" ∧ name ≠ "." ∧ name ≠ ".."

instance (name : String) : Decidable (IsName name) := inferInstanceAs (Decidable (_ ∧ _))

/-- `RootDir`, with the names of the directories that lead to the data of the app. -/
structure RootDir where
  dirs : List String
  isName : ∀ dir ∈ dirs, IsName dir

namespace RootDir

/-- `getFilesDir().getParent()` -/
def data (root : RootDir) : String := String.join (root.dirs.map ("/" ++ ·))

/-- `getVirtualFile` -/
def getVirtualFile (root : RootDir) (name : String) : String := root.data ++ "/root" ++ name

/-- The directory `<data>/root`. -/
def path (root : RootDir) : List String := root.dirs ++ ["root"]

/-- The host path of a guest path is the virtual root or lies below it. -/
def InRoot (root : RootDir) (name : String) : Prop :=
  root.path <+: canonical (root.getVirtualFile name)

instance (root : RootDir) (name : String) : Decidable (root.InRoot name) :=
  inferInstanceAs (Decidable (_ <+: _))

end RootDir

/-! ## The components of a host path -/

theorem splitOn_flatMap_append {names : List (List Char)} (hnames : ∀ name ∈ names, '/' ∉ name)
    (rest : List Char) :
    (names.flatMap (· ++ ['/']) ++ rest).splitOn '/' = names ++ rest.splitOn '/' := by
  induction names with
  | nil => rfl
  | cons name names ih =>
    obtain ⟨hname, hnames⟩ := List.forall_mem_cons.1 hnames
    simp only [List.flatMap_cons, List.append_assoc, List.cons_append, List.nil_append]
    rw [List.splitOn_append_cons_self, List.splitOn_eq_singleton hname, ih hnames]
    rfl

/-- Characters in front of a path are added to its first component. -/
theorem splitOn_append_of_notMem {x l first : List Char} {rest : List (List Char)}
    (hx : '/' ∉ x) (hl : l.splitOn '/' = first :: rest) :
    (x ++ l).splitOn '/' = (x ++ first) :: rest := by
  induction x with
  | nil => exact hl
  | cons c x ih =>
    have hc : (c == '/') = false := beq_eq_false_iff_ne.2 fun h => hx (h ▸ List.mem_cons_self)
    rw [List.cons_append, List.splitOn_cons_eq_if_modifyHead, hc,
      ih fun h => hx (List.mem_cons_of_mem _ h)]
    rfl

/-- The slashes that end the names can be read as those that begin the next ones. -/
theorem flatMap_slash (names : List (List Char)) (rest : List Char) :
    names.flatMap ('/' :: ·) ++ '/' :: rest = '/' :: (names.flatMap (· ++ ['/']) ++ rest) := by
  induction names with
  | nil => rfl
  | cons name names ih =>
    simp only [List.flatMap_cons, List.append_assoc, List.cons_append, List.nil_append]
    rw [ih]

theorem pathStep_of_ne {name : String} (h : name ≠ "" ∧ name ≠ "." ∧ name ≠ "..") :
    pathStep name = some (.down name) := by
  obtain ⟨hempty, hdot, hdots⟩ := h
  rw [pathStep, if_neg (not_or.2 ⟨hempty, hdot⟩), if_neg hdots]

namespace RootDir

variable {root : RootDir} {name first : String} {rest : List String}

theorem toList_getVirtualFile :
    (root.getVirtualFile name).toList = '/' ::
      ((root.dirs.map String.toList).flatMap (· ++ ['/']) ++ ("root".toList ++ name.toList)) := by
  have hdata : root.data.toList = (root.dirs.map String.toList).flatMap ('/' :: ·) := by
    rw [data, String.toList_join]
    simp [List.flatMap_map]
  have hroot : "/root".toList = '/' :: "root".toList := rfl
  rw [getVirtualFile, String.toList_append, String.toList_append, hdata, hroot, List.append_assoc,
    List.cons_append, flatMap_slash]

/-- The first component of a guest path is added to the name of the root. -/
theorem components_getVirtualFile (h : components name = first :: rest) :
    components (root.getVirtualFile name) = "" :: (root.dirs ++ ("root" ++ first) :: rest) := by
  obtain ⟨first, rest, hname, rfl, rfl⟩ :
      ∃ first' rest', name.toList.splitOn '/' = first' :: rest' ∧
        String.ofList first' = first ∧ rest'.map String.ofList = rest := List.map_eq_cons_iff.1 h
  have hroot : '/' ∉ "root".toList := by decide
  have hdirs : ∀ dir ∈ root.dirs.map String.toList, '/' ∉ dir :=
    List.forall_mem_map.2 fun dir hdir => (root.isName dir hdir).1
  have hslash := List.splitOn_append_cons_self (a := '/') []
    ((root.dirs.map String.toList).flatMap (· ++ ['/']) ++ ("root".toList ++ name.toList))
  rw [List.nil_append, splitOn_flatMap_append hdirs, splitOn_append_of_notMem hroot hname] at hslash
  rw [components, toList_getVirtualFile, hslash]
  simp only [List.splitOn_nil, List.singleton_append, List.map_cons, List.map_append, List.map_map,
    String.ofList_append, String.ofList_toList, Function.comp_def, List.map_id']

/-- The steps of a host path lead to the data of the app, down into a directory, and then along the
rest of the guest path. -/
theorem canonical_getVirtualFile (h : components name = first :: rest) :
    canonical (root.getVirtualFile name) =
      follow (root.dirs ++ ["root" ++ first]) (rest.filterMap pathStep) := by
  have hdirs : root.dirs.filterMap pathStep = root.dirs.map .down :=
    List.filterMap_eq_map_iff_forall_eq_some.2 fun dir hdir =>
      pathStep_of_ne (root.isName dir hdir).2
  have hne : ∀ s : String, s.toList.length < 4 → "root" ++ first ≠ s := by
    rintro s hs rfl
    rw [String.toList_append, List.length_append] at hs
    exact absurd hs (Nat.not_lt.2 (Nat.le_add_right 4 _))
  have hfirst : pathStep ("root" ++ first) = some (.down ("root" ++ first)) :=
    pathStep_of_ne ⟨hne "" (by decide), hne "." (by decide), hne ".." (by decide)⟩
  have hempty : pathStep "" = none := rfl
  rw [canonical, components_getVirtualFile h, List.filterMap_cons_none hempty,
    List.filterMap_append, hdirs, List.filterMap_cons_some hfirst, follow_append, follow_map_down,
    List.nil_append]
  rfl

end RootDir

/-! ## Staying in the root -/

/-- A guest path after its first component: the levels that it climbs above the directory where it
starts, and the names that it goes down along from there. -/
def guestSteps (name : String) : ℕ × List String :=
  reduce ((components name).tail.filterMap pathStep)

/-- A guest path stays in the virtual root exactly if it starts with a slash and does not climb
above the root, or if it comes back to it by naming all directories that it has climbed over. -/
theorem inRoot_iff (root : RootDir) (name : String) :
    root.InRoot name ↔
      ((guestSteps name).1 = 0 → (components name).head? = some "") ∧
        root.path.drop (root.path.length - (guestSteps name).1) <+: (guestSteps name).2 := by
  obtain ⟨first, rest, h⟩ : ∃ first rest, components name = first :: rest :=
    List.exists_cons_of_ne_nil (by simp [components, List.splitOn_ne_nil])
  have hfirst : "root" ++ first = "root" ↔ first = "" := by
    rw [← String.toList_inj, String.toList_append, List.append_right_eq_self,
      String.toList_eq_nil_iff]
  have hlength : root.path.length = root.dirs.length + 1 := by simp [RootDir.path]
  rw [RootDir.InRoot, RootDir.canonical_getVirtualFile h, hlength, guestSteps, h, RootDir.path,
    prefix_follow_iff, hfirst]
  simp

/-- Paths that lead out of the root: by climbing, and by a name that does not begin with a slash. -/
theorem inRoot_escapes : ∃ root : RootDir, ¬root.InRoot "/../shared_prefs/keys" ∧
    ¬root.InRoot "/proc/../../databases" ∧ ¬root.InRoot "ed" ∧ root.InRoot "/proc/self/maps" :=
  ⟨⟨["data", "data", "com.emu"], by decide⟩, by decide⟩

end Tank
