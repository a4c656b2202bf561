import Mathlib.Data.List.Nodup
import Mathlib.Data.List.Perm.Subperm
import Mathlib.Data.Nat.Find
import Mathlib.Logic.Function.Iterate

/-!
# The first element that is not in use

A loop goes from an element to the next one while the element is in use (`SkipsTo`). The successor
is any function, so the loop may come back to where it was, and then it never ends. A loop that ends
passes over no element twice, so it takes at most as many steps as elements are in use; `skipUsed`
runs it that often.

* `skipUsed_eq_some_iff`: `skipUsed` finds what the loop finds, and nothing if it does not end;
* `FirstAfter.le_length`: the bound on the steps;
* `exists_firstAfter`: the loop ends if it can reach an element that is not in use.
-/

namespace ToMathlib

variable {α : Type}

/-- Go on while the element is in use, at most as often as the first number says. -/
def skipUsed [DecidableEq α] (used : List α) (next : α → α) : ℕ → α → Option α
  | 0, _ => none
  | fuel + 1, a => if a ∈ used then skipUsed used next fuel (next a) else some a

/-- The loop itself: from the first element it ends at the second one. -/
inductive SkipsTo (used : List α) (next : α → α) : α → α → Prop where
  | stop {a : α} (hfree : a ∉ used) : SkipsTo used next a a
  | step {a b : α} (hused : a ∈ used) (hrest : SkipsTo used next (next a) b) :
    SkipsTo used next a b

/-- The first element that is not in use comes after `n` steps. -/
structure FirstAfter (used : List α) (next : α → α) (a : α) (n : ℕ) : Prop where
  free : next^[n] a ∉ used
  passed : ∀ i < n, next^[i] a ∈ used

variable {used : List α} {next : α → α} {a b : α} {n fuel : ℕ}

theorem firstAfter_succ_iff :
    FirstAfter used next a (n + 1) ↔ a ∈ used ∧ FirstAfter used next (next a) n := by
  constructor
  · intro h
    exact ⟨h.passed 0 (by omega), h.free, fun i hi => h.passed (i + 1) (by omega)⟩
  · rintro ⟨hused, h⟩
    refine ⟨h.free, fun i hi => ?_⟩
    cases i with
    | zero => exact hused
    | succ i => exact h.passed i (by omega)

theorem skipsTo_iff :
    SkipsTo used next a b ↔ ∃ n, FirstAfter used next a n ∧ next^[n] a = b := by
  constructor
  · intro hends
    induction hends with
    | stop hfree => exact ⟨0, ⟨hfree, fun i hi => absurd hi i.not_lt_zero⟩, rfl⟩
    | step hused _ ih =>
      obtain ⟨n, hfirst, hb⟩ := ih
      exact ⟨n + 1, firstAfter_succ_iff.2 ⟨hused, hfirst⟩, hb⟩
  · rintro ⟨n, hfirst, rfl⟩
    induction n generalizing a with
    | zero => exact .stop hfirst.free
    | succ n ih =>
      obtain ⟨hused, hrest⟩ := firstAfter_succ_iff.1 hfirst
      exact .step hused (ih hrest)

/-- An element that came twice would come again and again, and the loop would not end. -/
theorem FirstAfter.ne (h : FirstAfter used next a n) {i j : ℕ} (hij : i < j) (hj : j < n) :
    next^[i] a ≠ next^[j] a := by
  intro heq
  have hback : next^[n] a = next^[n - j + i] a := by
    conv_lhs => rw [show n = n - j + j by omega]
    rw [Function.iterate_add_apply, Function.iterate_add_apply, heq]
  refine h.free ?_
  rw [hback]
  exact h.passed _ (by omega)

theorem FirstAfter.le_length (h : FirstAfter used next a n) : n ≤ used.length := by
  have hnodup : ((List.range n).map fun i => next^[i] a).Nodup := by
    refine List.Nodup.map_on ?_ List.nodup_range
    intro i hi j hj heq
    rw [List.mem_range] at hi hj
    rcases lt_trichotomy i j with hlt | rfl | hlt
    · exact absurd heq (h.ne hlt hj)
    · rfl
    · exact absurd heq.symm (h.ne hlt hi)
  have hsub : ((List.range n).map fun i => next^[i] a) ⊆ used := by
    intro b hb
    obtain ⟨i, hi, rfl⟩ := List.mem_map.1 hb
    exact h.passed i (List.mem_range.1 hi)
  have hle := (List.subperm_of_subset hnodup hsub).length_le
  rwa [List.length_map, List.length_range] at hle

theorem exists_firstAfter {m : ℕ} (hfree : next^[m] a ∉ used) :
    ∃ n ≤ m, FirstAfter used next a n := by
  classical
  have hexists : ∃ n, next^[n] a ∉ used := ⟨m, hfree⟩
  refine ⟨Nat.find hexists, Nat.find_min' hexists hfree, Nat.find_spec hexists, fun i hi => ?_⟩
  exact not_not.1 (Nat.find_min hexists hi)

section Fuel

variable [DecidableEq α]

theorem FirstAfter.skipUsed_eq (h : FirstAfter used next a n) (hfuel : n < fuel) :
    skipUsed used next fuel a = some (next^[n] a) := by
  induction fuel generalizing a n with
  | zero => omega
  | succ fuel ih =>
    cases n with
    | zero => exact if_neg h.free
    | succ n =>
      obtain ⟨hused, hrest⟩ := firstAfter_succ_iff.1 h
      rw [skipUsed, if_pos hused, ih hrest (by omega), Function.iterate_succ_apply]

theorem skipsTo_of_skipUsed (h : skipUsed used next fuel a = some b) :
    SkipsTo used next a b := by
  induction fuel generalizing a with
  | zero => cases h
  | succ fuel ih =>
    rw [skipUsed] at h
    split at h
    next hused => exact .step hused (ih h)
    next hfree =>
      obtain rfl := Option.some.inj h
      exact .stop hfree

theorem skipUsed_eq_some_iff :
    skipUsed used next (used.length + 1) a = some b ↔ SkipsTo used next a b := by
  refine ⟨skipsTo_of_skipUsed, fun hends => ?_⟩
  obtain ⟨n, hfirst, rfl⟩ := skipsTo_iff.1 hends
  exact hfirst.skipUsed_eq (Nat.lt_succ_of_le hfirst.le_length)

end Fuel

end ToMathlib
