import Mathlib.Logic.Function.Basic
import Mathlib.Data.List.Nodup

/-!
# Null-terminated chains of references

A singly linked list as a program sees it: a partial map `next : ℕ → Option ℕ` from references
to references and a head. `IsChain next head refs` says that following `next` from `head` visits
exactly `refs` and then meets `null`. The file provides

* `IsChain.unique`, `IsChain.nodup`: a chain is determined by its head and never revisits a
  reference, so a null-terminated list is acyclic;
* `IsChain.insert`, `IsChain.unlink`: the two pointer edits, linking a new cell after a given
  one and unlinking the successor of a given one;
* `search`, with `search_eq_of_first` and `search_eq_of_forall_not`: the usual
  `while (cur != null)` loop, run with a bound on the number of iterations, returns the first cell
  that satisfies the test and its predecessor;
* `walk`, with `walk_eq`: the references of a chain, computed.
-/

namespace ToMathlib

/-- Following `next` from `head` visits exactly `refs`, in this order, and ends in `null`. -/
def IsChain (next : ℕ → Option ℕ) : Option ℕ → List ℕ → Prop
  | head, [] => head = none
  | head, r :: refs => head = some r ∧ IsChain next (next r) refs

/-- Following `next` from `head` visits `refs` and arrives at `last`. -/
def IsPath (next : ℕ → Option ℕ) : Option ℕ → List ℕ → Option ℕ → Prop
  | head, [], last => head = last
  | head, r :: refs, last => head = some r ∧ IsPath next (next r) refs last

variable {next next' : ℕ → Option ℕ} {head last : Option ℕ} {refs refs' : List ℕ}

@[simp]
theorem isChain_nil : IsChain next head [] ↔ head = none := Iff.rfl

@[simp]
theorem isChain_cons {r : ℕ} :
    IsChain next head (r :: refs) ↔ head = some r ∧ IsChain next (next r) refs := Iff.rfl

@[simp]
theorem isPath_nil : IsPath next head [] last ↔ head = last := Iff.rfl

@[simp]
theorem isPath_cons {r : ℕ} :
    IsPath next head (r :: refs) last ↔ head = some r ∧ IsPath next (next r) refs last := Iff.rfl

/-- A chain splits at any point into a path and the remaining chain. -/
theorem isChain_append :
    IsChain next head (refs ++ refs') ↔
      ∃ mid, IsPath next head refs mid ∧ IsChain next mid refs' := by
  induction refs generalizing head with
  | nil => simp
  | cons r refs ih => simp [ih, and_assoc]

theorem isChain_iff_isPath : IsChain next head refs ↔ IsPath next head refs none := by
  rw [← List.append_nil refs, isChain_append, List.append_nil]
  simp

/-- The references of a chain are determined by its head. -/
theorem IsChain.unique (h : IsChain next head refs) (h' : IsChain next head refs') :
    refs = refs' := by
  induction refs generalizing head refs' with
  | nil =>
    cases refs' with
    | nil => rfl
    | cons r refs' =>
      rw [isChain_nil.1 h] at h'
      exact absurd h'.1 (by simp)
  | cons r refs ih =>
    cases refs' with
    | nil =>
      rw [isChain_nil.1 h'] at h
      exact absurd h.1 (by simp)
    | cons r' refs' =>
      obtain rfl : r = r' := by simpa [h'.1, eq_comm] using h.1
      rw [ih h.2 h'.2]

/-- A null-terminated chain never visits a reference twice. -/
theorem IsChain.nodup (h : IsChain next head refs) : refs.Nodup := by
  induction refs generalizing head with
  | nil => exact List.nodup_nil
  | cons r refs ih =>
    refine List.nodup_cons.2 ⟨fun hmem => ?_, ih h.2⟩
    -- A second visit of `r` would make the chain after `r` a proper suffix of itself.
    obtain ⟨pre, post, rfl⟩ := List.append_of_mem hmem
    obtain ⟨mid, -, hmid⟩ := isChain_append.1 h.2
    have hlen := congrArg List.length (h.2.unique hmid.2)
    simp only [List.length_append, List.length_cons] at hlen
    omega

/-- Paths read `next` only at the references they visit. -/
theorem IsPath.congr (h : IsPath next head refs last) (hnext : ∀ r ∈ refs, next' r = next r) :
    IsPath next' head refs last := by
  induction refs generalizing head with
  | nil => exact h
  | cons r refs ih =>
    refine ⟨h.1, ?_⟩
    rw [hnext r List.mem_cons_self]
    exact ih h.2 fun s hs => hnext s (List.mem_cons_of_mem r hs)

/-- Chains read `next` only at the references they visit. -/
theorem IsChain.congr (h : IsChain next head refs) (hnext : ∀ r ∈ refs, next' r = next r) :
    IsChain next' head refs :=
  isChain_iff_isPath.2 ((isChain_iff_isPath.1 h).congr hnext)

/-- The references visited from `head`, at most `fuel` of them. -/
def walk (next : ℕ → Option ℕ) : ℕ → Option ℕ → List ℕ
  | fuel + 1, some r => r :: walk next fuel (next r)
  | _, _ => []

theorem walk_eq (h : IsChain next head refs) {fuel : ℕ} (hfuel : refs.length ≤ fuel) :
    walk next fuel head = refs := by
  induction refs generalizing head fuel with
  | nil =>
    rw [isChain_nil.1 h]
    cases fuel <;> rfl
  | cons r refs ih =>
    obtain ⟨fuel, rfl⟩ := Nat.exists_eq_add_one_of_ne_zero (Nat.ne_of_gt (Nat.zero_lt_of_lt hfuel))
    rw [h.1, walk, ih h.2 (by simpa using hfuel)]

/-! ## Pointer edits -/

/-- Link a new cell `new` after `r`: `new` takes over the successor of `r`. -/
theorem IsChain.insert {pre post : List ℕ} {r new : ℕ}
    (h : IsChain next head (pre ++ r :: post)) (hnew : new ∉ pre ++ r :: post)
    (hr : next' r = some new) (hn : next' new = next r)
    (hframe : ∀ s, s ≠ r → s ≠ new → next' s = next s) :
    IsChain next' head (pre ++ r :: new :: post) := by
  have hnd := h.nodup
  obtain ⟨mid, hpre, rfl, hpost⟩ := isChain_append.1 h
  simp only [List.mem_append, List.mem_cons, not_or] at hnew
  rw [List.nodup_append] at hnd
  have hrpost : r ∉ post := (List.nodup_cons.1 hnd.2.1).1
  -- Both edited cells are outside `pre` and `post`, which therefore keep their links.
  refine isChain_append.2 ⟨some r, hpre.congr fun s hs => ?_, rfl, hr, ?_⟩
  · exact hframe s (hnd.2.2 s hs r List.mem_cons_self) (fun e => hnew.1 (e ▸ hs))
  · rw [hn]
    exact hpost.congr fun s hs =>
      hframe s (fun e => hrpost (e ▸ hs)) (fun e => hnew.2.2 (e ▸ hs))

/-- Unlink the successor `s` of `r`. -/
theorem IsChain.unlink {pre post : List ℕ} {r s : ℕ}
    (h : IsChain next head (pre ++ r :: s :: post))
    (hr : next' r = next s) (hframe : ∀ t, t ≠ r → next' t = next t) :
    IsChain next' head (pre ++ r :: post) := by
  have hnd := h.nodup
  obtain ⟨mid, hpre, rfl, hs, hpost⟩ := isChain_append.1 h
  rw [List.nodup_append] at hnd
  have hrpost : r ∉ s :: post := (List.nodup_cons.1 hnd.2.1).1
  -- Only `r` is edited; `s` keeps its link and is no longer reached.
  refine isChain_append.2 ⟨some r, hpre.congr fun t ht => ?_, rfl, ?_⟩
  · exact hframe t (hnd.2.2 t ht r List.mem_cons_self)
  · rw [hr]
    exact hpost.congr fun t ht => hframe t fun e => hrpost (e ▸ List.mem_cons_of_mem s ht)

/-! ## The search loop -/

/-- The loop `prev = null; while (cur != null) { if (test cur) break; prev = cur; cur = next cur }`
with at most `fuel` tests of its guard. The result is the pair `(prev, cur)` at its exit, or
`none` when the bound is exhausted first. -/
def search (next : ℕ → Option ℕ) (test : ℕ → Bool) :
    ℕ → Option ℕ → Option ℕ → Option (Option ℕ × Option ℕ)
  | 0, _, _ => none
  | _ + 1, prev, none => some (prev, none)
  | fuel + 1, prev, some r =>
    if test r then some (prev, some r) else search next test fuel (some r) (next r)

/-- On a chain without a match the search loop runs off the end, with the last reference of the
chain as predecessor, as soon as the bound exceeds the length of the chain. -/
theorem search_eq_of_forall_not {test : ℕ → Bool} (h : IsChain next head refs) {fuel : ℕ}
    (hfuel : refs.length < fuel) (prev : Option ℕ) (hnot : ∀ r ∈ refs, test r = false) :
    search next test fuel prev head = some (refs.getLast?.or prev, none) := by
  induction refs generalizing head fuel prev with
  | nil =>
    obtain ⟨fuel, rfl⟩ := Nat.exists_eq_add_one_of_ne_zero (Nat.ne_of_gt hfuel)
    rw [isChain_nil.1 h]
    simp [search]
  | cons r refs ih =>
    obtain ⟨fuel, rfl⟩ := Nat.exists_eq_add_one_of_ne_zero (Nat.ne_of_gt (Nat.zero_lt_of_lt hfuel))
    have hr : test r = false := hnot r List.mem_cons_self
    rw [h.1, search, if_neg (by simp [hr]),
      ih h.2 (by simpa using hfuel) _ fun s hs => hnot s (List.mem_cons_of_mem r hs)]
    -- `r` is the predecessor the recursive call starts from; it is the last one if `refs` is empty.
    cases hlast : refs.getLast? <;> simp [List.getLast?_cons, hlast]

/-- On a chain the search loop stops at the first match, with the reference before it as
predecessor, as soon as the bound exceeds the length of the chain. -/
theorem search_eq_of_first {test : ℕ → Bool} {pre post : List ℕ} {r : ℕ}
    (h : IsChain next head (pre ++ r :: post)) {fuel : ℕ}
    (hfuel : (pre ++ r :: post).length < fuel) (prev : Option ℕ)
    (hpre : ∀ s ∈ pre, test s = false) (hr : test r = true) :
    search next test fuel prev head = some (pre.getLast?.or prev, some r) := by
  induction pre generalizing head fuel prev with
  | nil =>
    obtain ⟨fuel, rfl⟩ := Nat.exists_eq_add_one_of_ne_zero (Nat.ne_of_gt (Nat.zero_lt_of_lt hfuel))
    rw [h.1, search, if_pos hr]
    simp
  | cons s pre ih =>
    obtain ⟨fuel, rfl⟩ := Nat.exists_eq_add_one_of_ne_zero (Nat.ne_of_gt (Nat.zero_lt_of_lt hfuel))
    have hs : test s = false := hpre s List.mem_cons_self
    rw [h.1, search, if_neg (by simp [hs]),
      ih h.2 (by simpa using hfuel) _ fun t ht => hpre t (List.mem_cons_of_mem s ht)]
    cases hlast : pre.getLast? <;> simp [List.getLast?_cons, hlast]

/-- A list either has no match or splits at its first match. -/
theorem forall_not_or_first {α : Type*} (test : α → Bool) (l : List α) :
    (∀ x ∈ l, test x = false) ∨
      ∃ pre x post, l = pre ++ x :: post ∧ test x = true ∧ ∀ y ∈ pre, test y = false := by
  cases hfind : l.find? test with
  | none => exact Or.inl fun x hx => by simpa using List.find?_eq_none.1 hfind x hx
  | some x =>
    obtain ⟨hx, pre, post, rfl, hpre⟩ := List.find?_eq_some_iff_append.1 hfind
    exact Or.inr ⟨pre, x, post, rfl, hx, fun y hy => by simpa using hpre y hy⟩

end ToMathlib
