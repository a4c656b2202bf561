import Mathlib.Order.Bounds.Basic
import Tank.Jenv.JReferencTable
import Tank.ToMathlib.Int64

/-!
# Indices of references

A `JReferencTable` with indices that are `long`s, as in the source. Its loops and sums do not look
at overflow: `add` goes on with the least `long` after the largest one, and `inRange` adds `start`
and `size` as they are. The tables of `JniEnv` start at 1 and 4096 and have room for 2048 and 512000
entries, so nothing overflows there (`toTable_add`, `toTable_remove`: as long as there are indices
left from `start` on, the table works as the one with integers).

* `reference_indices`: after any calls, when `add` ends, when its index is the first one that is
  free, and when that is in range.
-/

namespace Tank

open ToMathlib

namespace JReferencTable

variable {O : Type}

/-! ## Calls -/

/-- The calls that change a table. The keys may be iterated in any order. -/
inductive Call (O : Type) where
  | add (object : O)
  | set (idx : Int64) (object : O)
  | remove (order : List Int64) (object : O)
  | clear

/-- The table after a call, which may throw; `none` if the call never returns. -/
def step [DecidableEq O] (t : JReferencTable Int64 O) : Call O → Option (JReferencTable Int64 O)
  | .add object => (t.add object).map Prod.fst
  | .set idx object =>
    match t.set idx object with
    | .ok t' => some t'
    | .error _ => some t
  | .remove order object => some (t.remove order (some object)).1
  | .clear => some t.clear

/-- The table after some calls. -/
def run [DecidableEq O] (t : JReferencTable Int64 O) (calls : List (Call O)) :
    Option (JReferencTable Int64 O) :=
  calls.foldlM step t

/-- What `add` is for: the object gets the first index that is free, and nothing else changes. -/
structure Adds (t : JReferencTable Int64 O) (object : O) (t' : JReferencTable Int64 O)
    (idx : Int64) : Prop where
  ends : SkipsTo t.keys (· + 1) t.start idx
  returns : t.add object = some (t', idx)
  least : IsLeast {k | t.start ≤ k ∧ k ∉ t.keys} idx
  bound : idx.toInt ≤ t.start.toInt + t.tables.length
  get : ∀ k, t'.get k = if k = idx then some object else t.get k
  bounds : t'.start = t.start ∧ t'.size = t.size

variable {t t' : JReferencTable Int64 O} {idx : Int64} {object : O}

/-! ## `add` -/

theorem length_keys (t : JReferencTable Int64 O) : t.keys.length = t.tables.length :=
  List.length_map _

/-- The index is reached in so many steps as all before it are in use. -/
theorem exists_of_add (hadd : t.add object = some (t', idx)) :
    ∃ n ≤ t.tables.length, FirstAfter t.keys (· + 1) t.start n ∧
      idx = t.start + Int64.ofNat n := by
  obtain ⟨n, hfirst, hidx⟩ := skipsTo_iff.1 (add_eq_some_iff.1 hadd).1
  exact ⟨n, hfirst.le_length.trans_eq t.length_keys, hfirst, by rw [← hidx, iterate_add_one]⟩

theorem isSome_add_iff : (t.add object).isSome = true ↔ ∃ k, k ∉ t.keys := by
  constructor
  · intro hsome
    obtain ⟨⟨t', idx⟩, hadd⟩ := Option.isSome_iff_exists.1 hsome
    obtain ⟨n, -, hfirst, -⟩ := exists_of_add hadd
    exact ⟨_, hfirst.free⟩
  · rintro ⟨k, hfree⟩
    obtain ⟨m, hm, -⟩ := exists_add_ofNat_eq t.start k
    rw [← hm, ← iterate_add_one] at hfree
    obtain ⟨n, -, hfirst⟩ := exists_firstAfter hfree
    exact Option.isSome_iff_exists.2 ⟨_, add_eq_some_iff.2 ⟨skipsTo_iff.2 ⟨n, hfirst, rfl⟩, rfl⟩⟩

/-- Before the largest `long` the loop passes over exactly the indices from `start` on. -/
theorem isLeast_of_firstAfter {n : ℕ} (hfirst : FirstAfter t.keys (· + 1) t.start n)
    (hlt : t.start.toInt + n < 2 ^ 63) :
    IsLeast {k | t.start ≤ k ∧ k ∉ t.keys} (t.start + Int64.ofNat n) := by
  have hidx := toInt_add_ofNat_of_lt hlt
  constructor
  · refine ⟨Int64.le_iff_toInt_le.2 (by omega), ?_⟩
    rw [← iterate_add_one]
    exact hfirst.free
  · rintro k ⟨hle, hfree⟩
    obtain ⟨m, hm, hmk⟩ := exists_add_ofNat_eq t.start k
    have hk := hmk hle
    -- An earlier index was passed over, so it is in use.
    by_contra hlater
    rw [Int64.le_iff_toInt_le] at hlater
    have hused := hfirst.passed m (by omega)
    rw [iterate_add_one, hm] at hused
    exact hfree hused

theorem adds_of_firstAfter {n : ℕ} (hfirst : FirstAfter t.keys (· + 1) t.start n)
    (hlt : t.start.toInt + n < 2 ^ 63) (object : O) :
    Adds t object (t.put (t.start + Int64.ofNat n) object) (t.start + Int64.ofNat n) := by
  have hends : SkipsTo t.keys (· + 1) t.start (t.start + Int64.ofNat n) :=
    skipsTo_iff.2 ⟨n, hfirst, iterate_add_one t.start n⟩
  have hbound : (t.start + Int64.ofNat n).toInt ≤ t.start.toInt + t.tables.length := by
    have hle := hfirst.le_length.trans_eq t.length_keys
    rw [toInt_add_ofNat_of_lt hlt]
    omega
  exact
    { ends := hends
      returns := add_eq_some_iff.2 ⟨hends, rfl⟩
      least := isLeast_of_firstAfter hfirst hlt
      bound := hbound
      get := get_put t _ object
      bounds := ⟨rfl, rfl⟩ }

/-- `add` does what it is for exactly if some index from `start` on is free. -/
theorem exists_adds_iff :
    (∃ t' idx, Adds t object t' idx) ↔ ∃ k, t.start ≤ k ∧ k ∉ t.keys := by
  constructor
  · rintro ⟨t', idx, hadds⟩
    exact ⟨idx, hadds.least.1⟩
  · rintro ⟨k, hle, hfree⟩
    obtain ⟨m, hm, hmk⟩ := exists_add_ofNat_eq t.start k
    have hk := hmk hle
    have hlt := k.toInt_lt
    rw [← hm, ← iterate_add_one] at hfree
    obtain ⟨n, hn, hfirst⟩ := exists_firstAfter hfree
    exact ⟨_, _, adds_of_firstAfter hfirst (by omega) object⟩

/-! ## `inRange` -/

/-- With room for the entries of the table, the new index is in range unless the end of the range
overflows. -/
theorem inRange_of_add_iff (hadd : t.add object = some (t', idx))
    (hroom : (t.tables.length : ℤ) ≤ t.size.toInt) :
    t.inRange idx = true ↔ t.start.toInt + t.size.toInt < 2 ^ 63 := by
  obtain ⟨n, hn, -, rfl⟩ := exists_of_add hadd
  have hstart := t.start.le_toInt
  have hstart' := t.start.toInt_lt
  have hsize := t.size.toInt_lt
  rw [inRange_iff, Int64.le_iff_toInt_le, Int64.le_iff_toInt_le]
  constructor
  · rintro ⟨hle, hle'⟩
    by_contra hover
    -- The end has wrapped and is before the start.
    have hwrap : (t.start + t.size).toInt = t.start.toInt + t.size.toInt - 2 ^ 64 := by
      rw [Int64.toInt_add, Int.bmod_def]
      split <;> omega
    omega
  · intro hlt
    rw [toInt_add_ofNat_of_lt (by omega), toInt_add_of_bounds (by omega) hlt]
    omega

/-! ## Runs -/

section Runs

variable [DecidableEq O] {c : Call O} {calls : List (Call O)}

/-- No call moves the range of indices. -/
theorem bounds_step (h : t.step c = some t') : t'.start = t.start ∧ t'.size = t.size := by
  cases c with
  | add object =>
    obtain ⟨⟨t'', idx⟩, hadd, rfl⟩ := Option.map_eq_some_iff.1 h
    obtain ⟨-, rfl⟩ := add_eq_some_iff.1 hadd
    exact ⟨rfl, rfl⟩
  | set idx object =>
    rw [step, set] at h
    split at h
    next t'' hset =>
      split at hset
      · cases hset
        cases h
        exact ⟨rfl, rfl⟩
      · cases hset
    next =>
      cases h
      exact ⟨rfl, rfl⟩
  | remove order object =>
    rw [step, remove] at h
    split at h <;> cases h <;> exact ⟨rfl, rfl⟩
  | clear =>
    cases h
    exact ⟨rfl, rfl⟩

theorem bounds_run (h : t.run calls = some t') : t'.start = t.start ∧ t'.size = t.size := by
  induction calls generalizing t with
  | nil =>
    cases h
    exact ⟨rfl, rfl⟩
  | cons c calls ih =>
    rw [run, List.foldlM_cons] at h
    obtain ⟨t₁, hstep, hrest⟩ := Option.bind_eq_some_iff.1 h
    obtain ⟨hstart, hsize⟩ := bounds_step hstep
    obtain ⟨hstart', hsize'⟩ := ih hrest
    exact ⟨hstart'.trans hstart, hsize'.trans hsize⟩

/-- After any calls that return, `add` ends exactly if some `long` is not in use. It gives the
object the first free index from `start` on, with the bound by the number of entries, exactly if
there is one. With room for the entries of the table the index is in range exactly if the end of the
range is a `long`. -/
theorem reference_indices {start maxEntries : Int64} {t : JReferencTable Int64 O}
    (hrun : (create start maxEntries).run calls = some t) (object : O) :
    ((t.add object).isSome = true ↔ ∃ k, k ∉ t.keys) ∧
      ((∃ t' idx, Adds t object t' idx) ↔ ∃ k, start ≤ k ∧ k ∉ t.keys) ∧
      ∀ t' idx, t.add object = some (t', idx) → (t.tables.length : ℤ) ≤ maxEntries.toInt →
        (t.inRange idx = true ↔ start.toInt + maxEntries.toInt < 2 ^ 63) := by
  obtain ⟨hstart, hsize⟩ := bounds_run hrun
  have hstart : t.start = start := hstart
  have hsize : t.size = maxEntries := hsize
  subst hstart hsize
  exact ⟨isSome_add_iff, exists_adds_iff, fun t' idx => inRange_of_add_iff⟩

end Runs

/-- In a table as the one of the local references, an index that was given back is used again. -/
theorem reference_indices_again :
    ∃ t : JReferencTable Int64 ℕ,
      (create 1 2048).run [.add 10, .add 20, .add 30, .set 3 40, .remove [3, 1, 2] 20] = some t ∧
        t.tables = [(3, 40), (1, 10)] ∧
        ∃ t' idx, Adds t 50 t' idx ∧ t.inRange idx = true := by
  have htables : ((create 1 2048).run
      [.add 10, .add 20, .add 30, .set 3 40, .remove [3, 1, 2] 20]).map tables =
      some [(3, 40), (1, 10)] := by decide
  obtain ⟨t, hrun, ht⟩ := Option.map_eq_some_iff.1 htables
  obtain ⟨-, hadds, hrange⟩ := reference_indices hrun 50
  have hfree : 2 ∉ t.keys := by
    rw [keys, ht]
    decide
  obtain ⟨t', idx, hadd⟩ := hadds.2 ⟨2, by decide, hfree⟩
  have hlen : (t.tables.length : ℤ) ≤ (2048 : Int64).toInt := by
    rw [ht]
    decide
  exact ⟨t, hrun, ht, t', idx, hadd, (hrange t' idx hadd.returns hlen).2 (by decide)⟩

/-- With room for `Long.MAX_VALUE` entries the first index is out of range, and a table that starts
at the largest `long` gives out the least one next. -/
theorem reference_indices_overflow :
    ((create 1 Int64.maxValue).add 10).map Prod.snd = some 1 ∧
      (create 1 Int64.maxValue : JReferencTable Int64 ℕ).inRange 1 = false ∧
      (((create Int64.maxValue 1).run [.add 10]).bind (add · 20)).map Prod.snd =
        some Int64.minValue := by
  decide

/-! ## Integers -/

theorem nodup_toTable (t : JReferencTable Int64 O) :
    ((t.tables.map fun e => (e.1.toInt, e.2)).map Prod.fst).Nodup := by
  have hkeys := t.nodup.map (f := Int64.toInt) fun _ _ => Int64.toInt_inj.1
  rwa [List.map_map] at hkeys ⊢

/-- The table with its indices as integers. -/
def toTable (t : JReferencTable Int64 O) : JReferencTable ℤ O :=
  ⟨t.start.toInt, t.size.toInt, t.tables.map fun e => (e.1.toInt, e.2), t.nodup_toTable⟩

theorem keys_toTable (t : JReferencTable Int64 O) : t.toTable.keys = t.keys.map Int64.toInt := by
  simp only [keys, toTable, List.map_map, Function.comp_def]

theorem toInt_mem_keys_iff {k : Int64} : k.toInt ∈ t.toTable.keys ↔ k ∈ t.keys := by
  rw [keys_toTable, List.mem_map]
  constructor
  · rintro ⟨k', hk', heq⟩
    rwa [← Int64.toInt_inj.1 heq]
  · intro hk
    exact ⟨k, hk, rfl⟩

theorem get_toTable (t : JReferencTable Int64 O) (k : Int64) : t.toTable.get k.toInt = t.get k := by
  refine Option.ext fun object => ?_
  rw [get_eq_some_iff, get_eq_some_iff, toTable, List.mem_map]
  constructor
  · rintro ⟨e, he, heq⟩
    obtain ⟨hk, rfl⟩ := Prod.mk.inj heq
    rwa [← Int64.toInt_inj.1 hk]
  · intro he
    exact ⟨_, he, rfl⟩

/-- Both loops find the first index that is free. -/
theorem freeIndex_toTable (hleast : IsLeast {k | t.start ≤ k ∧ k ∉ t.keys} idx) :
    t.toTable.freeIndex = idx.toInt := by
  obtain ⟨⟨hle, hfree⟩, hfirst⟩ := hleast
  have hstart : t.start.toInt ≤ t.toTable.freeIndex := le_firstFree _ _
  have hfree' : t.toTable.freeIndex ∉ t.toTable.keys := firstFree_notMem _ _
  rcases lt_trichotomy t.toTable.freeIndex idx.toInt with hlt | heq | hgt
  · -- Below `idx` an integer is a `long` as well.
    have hlong : (Int64.ofInt t.toTable.freeIndex).toInt = t.toTable.freeIndex :=
      Int64.toInt_ofInt_of_le (by have := t.start.le_toInt; omega) (by have := idx.toInt_lt; omega)
    rw [← hlong, toInt_mem_keys_iff] at hfree'
    have hidx := hfirst ⟨Int64.le_iff_toInt_le.2 (by omega), hfree'⟩
    rw [Int64.le_iff_toInt_le] at hidx
    omega
  · exact heq
  · rw [Int64.le_iff_toInt_le] at hle
    exact absurd (toInt_mem_keys_iff.1 (mem_of_lt_firstFree hle hgt)) hfree

/-- As long as an index is left, `add` is the one of the table with integers. -/
theorem toTable_add (hadds : Adds t object t' idx) :
    t.toTable.addFree object = (t'.toTable, idx.toInt) := by
  obtain ⟨-, rfl⟩ := add_eq_some_iff.1 hadds.returns
  have hfilter : (t.tables.filter fun e => e.1 ≠ idx) = t.tables :=
    filter_ne_eq_self hadds.least.1.2
  simp only [addFree, freeIndex_toTable hadds.least]
  simp only [toTable, put, hfilter, List.map_cons]

theorem toTable_erase (t : JReferencTable Int64 O) (key : Int64) :
    (t.erase key).toTable = t.toTable.erase key.toInt := by
  simp only [erase, toTable, List.filter_map, Function.comp_def,
    ne_eq, Int64.toInt_inj]

theorem toTable_remove [DecidableEq O] (order : List Int64) (object : Option O) :
    t.toTable.remove (order.map Int64.toInt) object =
      ((t.remove order object).1.toTable, (t.remove order object).2) := by
  have hfind : ((order.map Int64.toInt).find? fun key => t.toTable.get key = object) =
      (order.find? fun key => t.get key = object).map Int64.toInt := by
    simp only [List.find?_map, Function.comp_def, get_toTable]
  rw [remove, remove, hfind]
  cases order.find? fun key => t.get key = object with
  | none => rfl
  | some key => rw [Option.map_some, toTable_erase]

end JReferencTable

end Tank
