import Mathlib.Data.List.Induction

/-!
# Paths through directories

A path leads from a directory to another one by steps up and down. A directory is the list of the
names from the root to it, and the root has no parent (`follow`). However often it turns around, a
path comes to climbing some levels and going down along some names (`reduce`).

* `follow_eq`: where a path leads;
* `prefix_follow_iff`: when it ends in a directory beside the start, or below it.
-/

namespace ToMathlib

variable {α : Type}

/-- A step of a path. -/
inductive DirStep (α : Type) where
  | up
  | down (name : α)
deriving DecidableEq

/-- The directory after a step. -/
def followStep (dir : List α) : DirStep α → List α
  | .up => dir.dropLast
  | .down name => dir ++ [name]

/-- The directory that a path leads to. -/
def follow (dir : List α) (steps : List (DirStep α)) : List α := steps.foldl followStep dir

def reduceStep (path : ℕ × List α) : DirStep α → ℕ × List α
  | .up => if path.2 = [] then (path.1 + 1, []) else (path.1, path.2.dropLast)
  | .down name => (path.1, path.2 ++ [name])

/-- The number of levels that a path climbs and the names that it goes down along after that. -/
def reduce (steps : List (DirStep α)) : ℕ × List α := steps.foldl reduceStep (0, [])

variable {dir names : List α} {steps : List (DirStep α)} {x y : α}

theorem follow_append (dir : List α) (steps steps' : List (DirStep α)) :
    follow dir (steps ++ steps') = follow (follow dir steps) steps' :=
  List.foldl_append

/-- Steps down only. -/
theorem follow_map_down (dir names : List α) : follow dir (names.map .down) = dir ++ names := by
  induction names generalizing dir with
  | nil => exact (List.append_nil dir).symm
  | cons name names ih =>
    have hstep : follow dir ((name :: names).map .down) =
        follow (dir ++ [name]) (names.map .down) := rfl
    rw [hstep, ih, List.append_assoc, List.singleton_append]

theorem follow_eq (dir : List α) (steps : List (DirStep α)) :
    follow dir steps = dir.take (dir.length - (reduce steps).1) ++ (reduce steps).2 := by
  induction steps using List.reverseRecOn with
  | nil => simp [follow, reduce]
  | append_singleton steps step ih =>
    rw [follow, reduce, List.foldl_append, List.foldl_append, List.foldl_cons, List.foldl_nil,
      List.foldl_cons, List.foldl_nil, ← follow, ← reduce, ih]
    obtain ⟨k, names⟩ := reduce steps
    cases step with
    | down name => simp [followStep, reduceStep]
    | up =>
      rw [followStep, reduceStep]
      split_ifs with hnames
      · -- Nothing is left to take back, so that the path goes up from the start.
        have hempty : names = [] := hnames
        rw [hempty, List.append_nil, List.append_nil, List.dropLast_eq_take, List.take_take,
          List.length_take]
        congr 1
        omega
      · exact List.dropLast_append_of_ne_nil hnames

/-- The path starts in a directory `x` and ends in its sibling `y` or below: it does not climb and
the two are the same, or it goes down again along all names that it has climbed over, with `y` in
place of `x`. -/
theorem prefix_follow_iff :
    dir ++ [y] <+: follow (dir ++ [x]) steps ↔
      ((reduce steps).1 = 0 → x = y) ∧
        (dir ++ [y]).drop (dir.length + 1 - (reduce steps).1) <+: (reduce steps).2 := by
  rw [follow_eq, List.length_append, List.length_singleton]
  obtain ⟨k, names⟩ := reduce steps
  dsimp only
  rcases Nat.eq_zero_or_pos k with rfl | hk
  · have htake : (dir ++ [x]).take (dir.length + 1 - 0) = dir ++ [x] := by
      rw [Nat.sub_zero]
      exact List.take_of_length_le (by simp)
    have hdrop : (dir ++ [y]).drop (dir.length + 1 - 0) = [] := by
      rw [Nat.sub_zero]
      exact List.drop_of_length_le (by simp)
    rw [htake, hdrop, List.append_assoc, List.prefix_append_right_inj, List.singleton_append,
      List.cons_prefix_cons]
    simp [eq_comm]
  · -- Above the start the two directories are the same.
    have htake : (dir ++ [x]).take (dir.length + 1 - k) =
        (dir ++ [y]).take (dir.length + 1 - k) := by
      rw [List.take_append_of_le_length (by omega), List.take_append_of_le_length (by omega)]
    have hsplit := List.take_append_drop (dir.length + 1 - k) (dir ++ [y])
    have hiff : dir ++ [y] <+: (dir ++ [y]).take (dir.length + 1 - k) ++ names ↔
        (dir ++ [y]).drop (dir.length + 1 - k) <+: names := by
      conv_lhs => lhs; rw [← hsplit]
      exact List.prefix_append_right_inj _
    rw [htake, hiff]
    exact ⟨fun h => ⟨fun hzero => absurd hzero (by omega), h⟩, And.right⟩

end ToMathlib
