import Tank.ToMathlib.AssocList
import Tank.ToMathlib.FirstFree
import Tank.ToMathlib.SkipUsed
import Tank.Unicorn

/-!
# Reference tables

`JReferencTable`: the objects that native code holds references to, by index. Objects are compared
by identity, so they are the elements of a type with decidable equality. Indices are `long`s in the
source. They are the elements of a type here: `Int64` where the overflow of an index is the question
(`ReferenceIndices`), and `ℤ` in `JniEnv`. Its tables start at 1 and 4096 and never have so many
entries that counting up from there could overflow.

The entries are in a `HashMap`. `remove` goes through its keys in an order that the map does not
specify; here the order is an argument.

* `add_eq_some`: with integers the loop of `add` always ends, at `freeIndex`.
-/

namespace Tank

open ToMathlib

/-- `JReferencTable`, with its entries in no particular order. An object that may be `null` is an
option. -/
structure JReferencTable (I O : Type) where
  start : I
  size : I
  tables : List (I × O)
  nodup : (tables.map Prod.fst).Nodup

namespace JReferencTable

section Generic

variable {I O : Type}

/-- The constructor. -/
def create (start maxEntries : I) : JReferencTable I O := ⟨start, maxEntries, [], List.nodup_nil⟩

/-- `keySet` -/
def keys (t : JReferencTable I O) : List I := t.tables.map Prod.fst

/-- `clear` -/
def clear (t : JReferencTable I O) : JReferencTable I O :=
  { t with tables := [], nodup := List.nodup_nil }

/-- `inRange`; both ends are included, and the sum may overflow. -/
def inRange [Add I] [LE I] [DecidableLE I] (t : JReferencTable I O) (idx : I) : Bool :=
  t.start ≤ idx && idx ≤ t.start + t.size

variable {t : JReferencTable I O} {idx key : I} {object : O}

theorem inRange_iff [Add I] [LE I] [DecidableLE I] :
    t.inRange idx = true ↔ t.start ≤ idx ∧ idx ≤ t.start + t.size := by
  simp [inRange]

variable [DecidableEq I]

/-- `get`; `none` if there is no entry. -/
def get (t : JReferencTable I O) (idx : I) : Option O := t.tables.lookup idx

/-- `put` of the `HashMap`. -/
def put (t : JReferencTable I O) (idx : I) (object : O) : JReferencTable I O :=
  { t with
    tables := (idx, object) :: t.tables.filter fun e => e.1 ≠ idx
    nodup := nodup_cons_filter_ne t.nodup idx object }

/-- `set` -/
def set (t : JReferencTable I O) (idx : I) (object : O) :
    Except JavaException (JReferencTable I O) :=
  if idx ∈ t.keys then .ok (t.put idx object) else .error (.exception "Expected a index")

/-- `add`; `none` if the loop never ends. There is no check that the index is in range. -/
def add [Add I] [OfNat I 1] (t : JReferencTable I O) (object : O) :
    Option (JReferencTable I O × I) :=
  (skipUsed t.keys (· + 1) (t.keys.length + 1) t.start).map fun idx => (t.put idx object, idx)

/-- The table without an index. -/
def erase (t : JReferencTable I O) (key : I) : JReferencTable I O :=
  { t with
    tables := t.tables.filter fun e => e.1 ≠ key
    nodup := nodup_filter_fst t.nodup _ }

/-- `remove`: removes the first index, in the order of the iteration, that has the object. -/
def remove [DecidableEq O] (t : JReferencTable I O) (order : List I) (object : Option O) :
    JReferencTable I O × Bool :=
  match order.find? fun key => t.get key = object with
  | some key => (t.erase key, true)
  | none => (t, false)

/-- Looking up an index gives the entry of that index. -/
theorem get_eq_some_iff : t.get idx = some object ↔ (idx, object) ∈ t.tables :=
  lookup_eq_some_iff_mem t.nodup

theorem mem_keys_iff : idx ∈ t.keys ↔ ∃ object, t.get idx = some object := by
  simp [keys, get_eq_some_iff]

theorem get_put (t : JReferencTable I O) (idx : I) (object : O) (k : I) :
    (t.put idx object).get k = if k = idx then some object else t.get k :=
  lookup_cons_filter_ne t.tables idx k object

theorem get_erase : (t.erase key).get idx = if idx = key then none else t.get idx :=
  lookup_filter_ne t.tables key idx

/-- `add` ends where its loop ends. -/
theorem add_eq_some_iff [Add I] [OfNat I 1] {t' : JReferencTable I O} :
    t.add object = some (t', idx) ↔
      SkipsTo t.keys (· + 1) t.start idx ∧ t' = t.put idx object := by
  rw [add, Option.map_eq_some_iff]
  constructor
  · rintro ⟨k, hfind, heq⟩
    obtain ⟨rfl, rfl⟩ := Prod.mk.inj heq
    exact ⟨skipUsed_eq_some_iff.1 hfind, rfl⟩
  · rintro ⟨hends, rfl⟩
    exact ⟨idx, skipUsed_eq_some_iff.2 hends, rfl⟩

end Generic

/-! ## Integers -/

variable {O : Type}

/-- The index that the loop of `add` finds. -/
def freeIndex (t : JReferencTable ℤ O) : ℤ := firstFree t.keys t.start

/-- `add` with integers, where the loop always ends. -/
def addFree (t : JReferencTable ℤ O) (object : O) : JReferencTable ℤ O × ℤ :=
  ({ t with
      tables := (t.freeIndex, object) :: t.tables
      nodup := List.nodup_cons.2 ⟨firstFree_notMem _ _, t.nodup⟩ }, t.freeIndex)

variable {t : JReferencTable ℤ O} {idx key : ℤ} {object : O}

theorem add_eq_some (t : JReferencTable ℤ O) (object : O) :
    t.add object = some (t.addFree object) := by
  have hle : t.start ≤ t.freeIndex := le_firstFree _ _
  have hsteps (n : ℕ) : (· + 1 : ℤ → ℤ)^[n] t.start = t.start + n := by
    rw [add_right_iterate, nsmul_one]
  have hfirst : FirstAfter t.keys (· + 1) t.start (t.freeIndex - t.start).toNat := by
    refine ⟨?_, fun i hi => ?_⟩
    · rw [hsteps, Int.toNat_of_nonneg (by omega), add_sub_cancel]
      exact firstFree_notMem _ _
    · rw [hsteps]
      have hlt : t.start + i < t.freeIndex := by omega
      exact mem_of_lt_firstFree (by omega) hlt
  refine add_eq_some_iff.2 ⟨skipsTo_iff.2 ⟨_, hfirst, ?_⟩, ?_⟩
  · rw [hsteps, Int.toNat_of_nonneg (by omega), add_sub_cancel]
  · have hfilter : (t.tables.filter fun e => e.1 ≠ t.freeIndex) = t.tables :=
      filter_ne_eq_self (firstFree_notMem _ _)
    rw [put]
    simp only [hfilter]

/-- A table without gaps gives out the index after its last one. -/
theorem freeIndex_of_keys {n : ℕ} (h : ∀ k, k ∈ t.keys ↔ t.start ≤ k ∧ k < t.start + n) :
    t.freeIndex = t.start + n := by
  have hle : t.start ≤ t.freeIndex := le_firstFree _ _
  have hfree : t.freeIndex ∉ t.keys := firstFree_notMem _ _
  rw [h] at hfree
  -- A larger index would have passed over the first one that is free.
  by_contra hne
  have hlt : t.start + n < t.freeIndex := by omega
  have hused := (h _).1 (mem_of_lt_firstFree (by omega) hlt)
  omega

variable [DecidableEq O] {order : List ℤ}

/-- The index is the first one of its object in the order of the iteration. -/
def IsFirst (t : JReferencTable ℤ O) (order : List ℤ) (idx : ℤ) : Prop :=
  ∀ object, t.get idx = some object → order.find? (fun key => t.get key = some object) = some idx

instance : Decidable (t.IsFirst order idx) :=
  decidable_of_iff
    (∀ object ∈ t.get idx, order.find? (fun key => t.get key = some object) = some idx)
    ⟨fun h object hget => h object hget, fun h object hget => h object hget⟩

@[simp]
theorem start_remove (object : Option O) : (t.remove order object).1.start = t.start := by
  rw [remove]
  split <;> rfl

@[simp]
theorem size_remove (object : Option O) : (t.remove order object).1.size = t.size := by
  rw [remove]
  split <;> rfl

/-- No entry is `null`. -/
theorem remove_none (horder : order.Perm t.keys) : (t.remove order none).1 = t := by
  have hfind : (order.find? fun key => t.get key = none) = none := by
    refine List.find?_eq_none.2 fun key hkey => ?_
    obtain ⟨object, hget⟩ := mem_keys_iff.1 (horder.mem_iff.1 hkey)
    simp [hget]
  rw [remove, hfind]

/-- An object with an index is removed at one of its indices. -/
theorem exists_remove (horder : order.Perm t.keys) (hget : t.get idx = some object) :
    ∃ key, t.get key = some object ∧ (t.remove order (some object)).1 = t.erase key ∧
      order.find? (fun key => t.get key = some object) = some key := by
  have hmem : idx ∈ order := horder.mem_iff.2 (mem_keys_iff.2 ⟨object, hget⟩)
  have hsome : (order.find? fun key => t.get key = some object).isSome :=
    List.find?_isSome.2 ⟨idx, hmem, decide_eq_true hget⟩
  obtain ⟨key, hfind⟩ := Option.isSome_iff_exists.1 hsome
  refine ⟨key, by simpa using List.find?_some hfind, ?_, hfind⟩
  rw [remove, hfind]

end JReferencTable

end Tank
