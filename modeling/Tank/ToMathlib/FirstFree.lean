import Mathlib.Data.Int.Interval
import Mathlib.Tactic.Linarith

/-!
# The first free index

`firstFree used start` is the index that a loop finds which counts up from `start` as long as the
index is in use. A list of `n` used indices cannot hold all of `start, …, start + n`, so the loop
ends after at most `n` steps.

* `firstFree_notMem`: the index is free;
* `le_firstFree`, `firstFree_le`, `mem_of_lt_firstFree`: it is the first one from `start` on, and at
  most `start + used.length`;
* `firstFree_le_countP`: only the used indices from `start` on count for the bound;
* `countsTo_firstFree`: the loop, run without a bound on its steps, ends there.
-/

namespace ToMathlib

/-- Count up from `idx` while the index is in use, at most as often as the first argument says. -/
def countUp (used : List ℤ) : ℕ → ℤ → ℤ
  | 0, idx => idx
  | fuel + 1, idx => if idx ∈ used then countUp used fuel (idx + 1) else idx

/-- The first index from `start` on that is not in use. -/
def firstFree (used : List ℤ) (start : ℤ) : ℤ := countUp used used.length start

/-- The loop itself: counting up from the first index ends at the second one. -/
inductive CountsTo (used : List ℤ) : ℤ → ℤ → Prop where
  | stop {idx : ℤ} (hfree : idx ∉ used) : CountsTo used idx idx
  | next {idx k : ℤ} (hused : idx ∈ used) (hrest : CountsTo used (idx + 1) k) : CountsTo used idx k

variable {used : List ℤ} {start k : ℤ}

theorem le_countUp (fuel : ℕ) (idx : ℤ) : idx ≤ countUp used fuel idx := by
  induction fuel generalizing idx with
  | zero => exact le_rfl
  | succ fuel ih =>
    rw [countUp]
    split
    · exact (Int.le_add_one le_rfl).trans (ih (idx + 1))
    · exact le_rfl

theorem countUp_le (fuel : ℕ) (idx : ℤ) : countUp used fuel idx ≤ idx + fuel := by
  induction fuel generalizing idx with
  | zero => simp [countUp]
  | succ fuel ih =>
    rw [countUp]
    split
    · have hrest := ih (idx + 1)
      push_cast
      omega
    · push_cast
      omega

/-- All that was passed over is in use. -/
theorem mem_of_lt_countUp {fuel : ℕ} {idx : ℤ} (hle : idx ≤ k) (hlt : k < countUp used fuel idx) :
    k ∈ used := by
  induction fuel generalizing idx with
  | zero =>
    rw [countUp] at hlt
    omega
  | succ fuel ih =>
    rw [countUp] at hlt
    split at hlt
    next hmem =>
      rcases hle.eq_or_lt with rfl | hlt'
      · exact hmem
      · exact ih hlt' hlt
    next => omega

/-- A count that did not use up its fuel has found a free index. -/
theorem countUp_notMem {fuel : ℕ} {idx : ℤ} (hlt : countUp used fuel idx < idx + fuel) :
    countUp used fuel idx ∉ used := by
  induction fuel generalizing idx with
  | zero =>
    rw [countUp] at hlt
    omega
  | succ fuel ih =>
    rw [countUp] at hlt ⊢
    split
    next hmem =>
      rw [if_pos hmem] at hlt
      push_cast at hlt
      exact ih (by omega)
    next hfree => exact hfree

theorem le_firstFree (used : List ℤ) (start : ℤ) : start ≤ firstFree used start := le_countUp _ _

theorem firstFree_le (used : List ℤ) (start : ℤ) : firstFree used start ≤ start + used.length :=
  countUp_le _ _

theorem mem_of_lt_firstFree (hle : start ≤ k) (hlt : k < firstFree used start) : k ∈ used :=
  mem_of_lt_countUp hle hlt

theorem firstFree_notMem (used : List ℤ) (start : ℤ) : firstFree used start ∉ used := by
  rcases (firstFree_le used start).lt_or_eq with hlt | heq
  · exact countUp_notMem hlt
  · -- One index more than the list is long does not fit into it.
    intro hmem
    have hsub : Finset.Icc start (start + used.length) ⊆ used.toFinset := by
      intro k hk
      obtain ⟨hle, hle'⟩ := Finset.mem_Icc.1 hk
      rw [List.mem_toFinset]
      rcases hle'.lt_or_eq with hlt | rfl
      · exact mem_of_lt_firstFree hle (by omega)
      · rwa [← heq]
    have hcard := (Finset.card_le_card hsub).trans (List.toFinset_card_le used)
    rw [Int.card_Icc] at hcard
    omega

theorem firstFree_le_countP (used : List ℤ) (start : ℤ) :
    firstFree used start ≤ start + used.countP (start ≤ ·) := by
  -- All indices that are passed over are in use.
  have hsub : Finset.Ico start (firstFree used start) ⊆ (used.filter (start ≤ ·)).toFinset := by
    intro k hk
    obtain ⟨hle, hlt⟩ := Finset.mem_Ico.1 hk
    simpa [hle] using mem_of_lt_firstFree hle hlt
  have hcard := (Finset.card_le_card hsub).trans (List.toFinset_card_le _)
  rw [Int.card_Ico, ← List.countP_eq_length_filter] at hcard
  have hle := le_firstFree used start
  omega

/-- The loop passes over used indices. -/
theorem countsTo_of_mem {idx : ℤ} (hle : idx ≤ k) (hfree : k ∉ used)
    (hused : ∀ i, idx ≤ i → i < k → i ∈ used) : CountsTo used idx k := by
  obtain ⟨n, hn⟩ := Int.le.dest hle
  induction n generalizing idx with
  | zero =>
    obtain rfl : idx = k := by omega
    exact .stop hfree
  | succ n ih =>
    push_cast at hn
    refine .next (hused idx le_rfl (by omega)) (ih (by omega) (fun i hi => ?_) (by omega))
    exact hused i (by omega)

theorem countsTo_firstFree (used : List ℤ) (start : ℤ) :
    CountsTo used start (firstFree used start) :=
  countsTo_of_mem (le_firstFree used start) (firstFree_notMem used start)
    fun _ => mem_of_lt_firstFree

end ToMathlib
