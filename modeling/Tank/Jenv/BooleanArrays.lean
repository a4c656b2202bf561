import Tank.Jenv.JniCalls

/-!
# Regions of arrays of `boolean`

`GetBooleanArrayRegion` copies elements of an array to guest memory, `SetBooleanArrayRegion` copies
bytes to elements. Both loops run from `start` to `length`, as if the length were the end of the
region, and both access eight bytes for each element while the address advances by one.

* `boolean_regions_iff`: for which regions and memories the copies are right nevertheless, and that
  the length of such an array cannot be asked for.
-/

namespace Tank

open ToMathlib

namespace JavaHeap

/-- The elements of an array of `boolean` are set. -/
def withBooleans (heap : JavaHeap) (array : ℕ) (values : List Bool) : JavaHeap :=
  { heap with
    object := Function.update heap.object array
      { heap.object array with contents := .booleans values } }

theorem contents_withBooleans (heap : JavaHeap) (array : ℕ) (values : List Bool) :
    ((heap.withBooleans array values).object array).contents = .booleans values := by
  simp only [withBooleans, Function.update_self]

theorem withBooleans_self {heap : JavaHeap} {array : ℕ} {values : List Bool}
    (h : (heap.object array).contents = .booleans values) :
    heap.withBooleans array values = heap := by
  rw [withBooleans, ← h, Function.update_eq_self]

theorem withBooleans_withBooleans (heap : JavaHeap) (array : ℕ) (values values' : List Bool) :
    (heap.withBooleans array values).withBooleans array values' =
      heap.withBooleans array values' := by
  simp only [withBooleans, Function.update_self, Function.update_idem]

/-- The elements can be told apart in the heap. -/
theorem withBooleans_inj {heap : JavaHeap} {array : ℕ} {values values' : List Bool} :
    heap.withBooleans array values = heap.withBooleans array values' ↔ values = values' := by
  refine ⟨fun h => ?_, congrArg _⟩
  have hcontents := contents_withBooleans heap array values
  rw [h, contents_withBooleans] at hcontents
  exact (Contents.booleans.inj hcontents).symm

end JavaHeap

/-! ## The functions -/

/-- `JNI_TRUE` and `JNI_FALSE` -/
def jboolean (v : Bool) : Int64 := if v then 1 else 0

namespace Jni

/-- `(boolean[]) array.getValue()` of the `JPrimitiveArray` with a reference. -/
def booleanArray (ref : Int64) : JniCode (Option ℕ) := do
  let array ← objectOf ref
  let s ← get
  match array.kind, array.value with
  | .primitiveArray, none => pure none
  | .primitiveArray, some o =>
    match (s.heap.object o).contents with
    | .booleans _ => pure (some o)
    | _ => throw .classCast
  | _, _ => throw .classCast

/-- The elements of an array that is accessed at an index. -/
def booleansAt (array : Option ℕ) (i : ℤ) : JniCode (ℕ × List Bool) := do
  let s ← get
  match array with
  | none => throw .nullPointer
  | some o =>
    match (s.heap.object o).contents with
    | .booleans values =>
      if 0 ≤ i ∧ i < values.length then pure (o, values) else throw .arrayIndexOutOfBounds
    | _ => throw .classCast

/-- The loop of `SetBooleanArrayRegion`, from the index `i` on. -/
def setRegionFrom (array : Option ℕ) : ℕ → ℤ → Int64 → JniCode Unit
  | 0, _, _ => pure ()
  | count + 1, i, ptr => do
    let v ← onUc (MemoryHelper.readLong ptr 8)
    let (o, values) ← booleansAt array i
    modify fun s => { s with heap := s.heap.withBooleans o (values.set i.toNat (v == 1)) }
    setRegionFrom array count (i + 1) (ptr + 1)

/-- The loop of `GetBooleanArrayRegion`, from the index `i` on. It returns the last address. -/
def getRegionFrom (array : Option ℕ) : ℕ → ℤ → Int64 → JniCode Int64
  | 0, _, ptr => pure ptr
  | count + 1, i, ptr => do
    let (_, values) ← booleansAt array i
    onUc (MemoryHelper.writeValue ptr (jboolean (values.getD i.toNat false)) 8)
    getRegionFrom array count (i + 1) (ptr + 1)

variable (args : List Int64)

/-- How often the loops run: the length is taken for the end of the region. -/
def regionSteps : ℕ := ((arg args 3).toInt32.toInt - (arg args 2).toInt32.toInt).toNat

/-- `SetBooleanArrayRegion` -/
def setBooleanArrayRegion : JniCode CallRet := do
  let array ← booleanArray (arg args 1)
  setRegionFrom array (regionSteps args) (arg args 2).toInt32.toInt (arg args 4)
  pure .noValue

/-- `GetBooleanArrayRegion` -/
def getBooleanArrayRegion : JniCode CallRet := do
  let array ← booleanArray (arg args 1)
  let ptr ← getRegionFrom array (regionSteps args) (arg args 2).toInt32.toInt (arg args 4)
  pure (.ofValue ptr)

end Jni

/-! ## Replacing a region -/

section Region

variable {values : List Bool} {start count : ℕ} {f g : ℕ → Bool}

/-- The elements from `start` on are replaced by `count` other ones. -/
def replaceRegion (values : List Bool) (start count : ℕ) (f : ℕ → Bool) : List Bool :=
  values.mapIdx fun j v => if start ≤ j ∧ j < start + count then f (j - start) else v

theorem getElem?_replaceRegion (values : List Bool) (start count : ℕ) (f : ℕ → Bool) (j : ℕ) :
    (replaceRegion values start count f)[j]? =
      values[j]?.map fun v => if start ≤ j ∧ j < start + count then f (j - start) else v :=
  List.getElem?_mapIdx

theorem replaceRegion_zero : replaceRegion values start 0 f = values := by
  refine List.ext_getElem? fun j => ?_
  have hnot : ¬(start ≤ j ∧ j < start + 0) := by omega
  rw [getElem?_replaceRegion]
  simp only [if_neg hnot, Option.map_id']

/-- Replacing one element, and then the ones after it. -/
theorem replaceRegion_set (count : ℕ) (h : start < values.length) :
    replaceRegion (values.set start (f 0)) (start + 1) count (fun j => f (j + 1)) =
      replaceRegion values start (count + 1) f := by
  refine List.ext_getElem? fun j => ?_
  rw [getElem?_replaceRegion, getElem?_replaceRegion, List.getElem?_set]
  by_cases hj : start = j
  · subst hj
    simp [h]
  · rw [if_neg hj]
    congr 1
    funext v
    by_cases hin : start + 1 ≤ j ∧ j < start + 1 + count
    · have hsub : j - (start + 1) + 1 = j - start := by omega
      rw [if_pos hin, if_pos (by omega), hsub]
    · rw [if_neg hin, if_neg (by omega)]

/-- Replacing fewer elements is the same exactly if the others have their new values already. -/
theorem replaceRegion_eq_iff (steps : ℕ) (h : start + count ≤ values.length)
    (hle : steps ≤ count) :
    replaceRegion values start steps f = replaceRegion values start count g ↔
      (∀ i < steps, f i = g i) ∧
        ∀ i, steps ≤ i → i < count → values[start + i]? = some (g i) := by
  have hget : ∀ i, i < count → ∃ v, values[start + i]? = some v := fun i hi =>
    ⟨_, List.getElem?_eq_getElem (by omega)⟩
  constructor
  · intro heq
    have hat : ∀ i, i < count →
        (replaceRegion values start steps f)[start + i]? = some (g i) := by
      intro i hi
      obtain ⟨v, hv⟩ := hget i hi
      rw [heq, getElem?_replaceRegion, hv, Option.map_some, if_pos (by omega),
        Nat.add_sub_cancel_left]
    constructor
    · intro i hi
      obtain ⟨v, hv⟩ := hget i (by omega)
      have hi' := hat i (by omega)
      rw [getElem?_replaceRegion, hv, Option.map_some, if_pos (by omega),
        Nat.add_sub_cancel_left] at hi'
      exact Option.some.inj hi'
    · intro i hsteps hi
      have hi' := hat i hi
      rw [getElem?_replaceRegion] at hi'
      simpa only [if_neg (show ¬(start ≤ start + i ∧ start + i < start + steps) by omega),
        Option.map_id'] using hi'
  · rintro ⟨hsame, hthere⟩
    refine List.ext_getElem? fun j => ?_
    rw [getElem?_replaceRegion, getElem?_replaceRegion]
    by_cases hin : start ≤ j ∧ j < start + count
    · obtain ⟨i, rfl⟩ := Nat.exists_eq_add_of_le hin.1
      obtain ⟨v, hv⟩ := hget i (by omega)
      rw [hv, Option.map_some, Option.map_some, if_pos hin, Nat.add_sub_cancel_left]
      by_cases hi : i < steps
      · rw [if_pos (by omega), hsame i hi]
      · have hi' := hthere i (by omega) (by omega)
        rw [hv] at hi'
        rw [if_neg (by omega), Option.some.inj hi']
    · simp only [if_neg hin, if_neg (show ¬(start ≤ j ∧ j < start + steps) by omega)]

end Region

/-! ## The loops -/

/-- What `SetBooleanArrayRegion` takes the byte at an address for: eight bytes are read. -/
def readsOne (m : UInt64 → UInt8) (x : UInt64) : Bool := bytes2Long (readBytes m x 8) == 1

/-- The byte of an element. -/
def booleanByte (v : Bool) : UInt8 := if v then 1 else 0

/-- The bytes that are written for elements: the last seven zeros are not overwritten. -/
def spread : List Bool → List UInt8
  | [] => []
  | v :: vs => (v :: vs).map booleanByte ++ List.replicate 7 0

/-- The elements of a region. -/
def region (values : List Bool) (start count : ℕ) : List Bool := (values.drop start).take count

namespace Jni

variable {s s' : JniState} {o : ℕ} {values : List Bool} {i count : ℕ} {ptr : Int64}

theorem run_booleansAt (h : (s.heap.object o).contents = .booleans values)
    (hi : i < values.length) :
    (booleansAt (some o) i).run s = .ok (o, values) s := by
  have hin : 0 ≤ (i : ℤ) ∧ (i : ℤ) < values.length := by omega
  rw [booleansAt, get_bind]
  simp only [h, if_pos hin]
  rfl

/-- The addresses after the first one. -/
theorem toUInt64_add_one_add (ptr : Int64) (j : ℕ) :
    (ptr + 1).toUInt64 + UInt64.ofNat j = ptr.toUInt64 + UInt64.ofNat (j + 1) := by
  have hone : (ptr + 1).toUInt64 = ptr.toUInt64 + UInt64.ofNat 1 := rfl
  rw [hone, ← add_ofNat_add, Nat.add_comm]

theorem add_ofNat_zero (x : UInt64) : x + UInt64.ofNat 0 = x := UInt64.add_zero x

/-- The bytes of every step are mapped: those of the first step and those of the others. -/
theorem forall_mapped_succ {uc : Unicorn} {size : ℕ} :
    (∀ j < count + 1, uc.checkMemArea (ptr.toUInt64 + UInt64.ofNat j) size = true) ↔
      uc.checkMemArea ptr.toUInt64 size = true ∧
        ∀ j < count, uc.checkMemArea ((ptr + 1).toUInt64 + UInt64.ofNat j) size = true := by
  simp only [toUInt64_add_one_add]
  rw [Nat.forall_lt_succ_left, add_ofNat_zero]

theorem setRegionFrom_eq_ok_iff (h : (s.heap.object o).contents = .booleans values)
    (hle : i + count ≤ values.length) {u : Unit} :
    (setRegionFrom (some o) count i ptr).run s = .ok u s' ↔
      (∀ j < count, s.uc.checkMemArea (ptr.toUInt64 + UInt64.ofNat j) 8 = true) ∧ u = () ∧
        s' = { s with
          heap := s.heap.withBooleans o
            (replaceRegion values i count fun j =>
              readsOne s.uc.mem (ptr.toUInt64 + UInt64.ofNat j)) } := by
  induction count generalizing s values i ptr with
  | zero =>
    rw [setRegionFrom, pure_eq_ok_iff, replaceRegion_zero, JavaHeap.withBooleans_self h]
    exact (and_iff_right fun j hj => absurd hj (Nat.not_lt_zero j)).symm
  | succ count ih =>
    have hset : ∀ g : JniState → JniState, (modify g : JniCode Unit).run s = .ok () (g s) :=
      fun _ => rfl
    have hnext : (i : ℤ) + 1 = ((i + 1 : ℕ) : ℤ) := by push_cast; rfl
    rw [forall_mapped_succ, setRegionFrom, and_assoc,
      bind_eq_ok_iff_of_ok_iff (onUc_ok_iff fun _ _ => MemoryHelper.readLong_eq_ok_iff),
      bind_of_ok (run_booleansAt h (by omega))]
    dsimp only
    rw [bind_of_ok (hset _), hnext, Int.toNat_natCast,
      ih (JavaHeap.contents_withBooleans ..) (by rw [List.length_set]; omega)]
    -- The rest of the loop sees the memory as it was.
    have hvalues := replaceRegion_set count
      (f := fun j => readsOne s.uc.mem (ptr.toUInt64 + UInt64.ofNat j))
      (show i < values.length by omega)
    rw [add_ofNat_zero] at hvalues
    simp only [toUInt64_add_one_add, JavaHeap.withBooleans_withBooleans]
    rw [← hvalues]
    rfl

theorem length_spread_le (vs : List Bool) : (spread vs).length ≤ vs.length + 7 := by
  cases vs with
  | nil => exact Nat.zero_le _
  | cons v vs => simp [spread]

/-- The eight bytes of an element, and then those of the elements after it. -/
theorem store_spread (uc : Unicorn) (x : UInt64) (v : Bool) (vs : List Bool)
    (hlen : vs.length + 8 ≤ 2 ^ 64) :
    (uc.store x (long2bytes (jboolean v) 8)).store (x + UInt64.ofNat 1) (spread vs) =
      uc.store x (spread (v :: vs)) := by
  have hbytes : long2bytes (jboolean v) 8 = [booleanByte v] ++ List.replicate 7 0 := by
    cases v <;> decide
  cases vs with
  | nil =>
    rw [hbytes]
    exact Unicorn.store_nil _ _
  | cons w vs =>
    have hlen' : (spread (w :: vs)).length ≤ 2 ^ 64 - 1 := by
      have := length_spread_le (w :: vs)
      omega
    have hcons : spread (v :: w :: vs) = [booleanByte v] ++ spread (w :: vs) := rfl
    have hshort : (List.replicate 7 (0 : UInt8)).length ≤ (spread (w :: vs)).length := by
      simp [spread]
    rw [hbytes, hcons]
    simp only [Unicorn.store]
    rw [overwrite_append (by simp), overwrite_append (by rw [List.length_append]; simp; omega),
      List.length_singleton, overwrite_overwrite hshort]

theorem region_succ (h : i < values.length) :
    region values i (count + 1) = values.getD i false :: region values (i + 1) count := by
  rw [region, List.drop_eq_getElem_cons h, List.take_succ_cons, List.getD_eq_getElem?_getD,
    List.getElem?_eq_getElem h]
  rfl

theorem length_region (h : i + count ≤ values.length) : (region values i count).length = count := by
  rw [region, List.length_take, List.length_drop]
  omega

theorem getRegionFrom_eq_ok_iff (h : (s.heap.object o).contents = .booleans values)
    (hle : i + count ≤ values.length) (hlt : count < 2 ^ 32) {last : Int64} :
    (getRegionFrom (some o) count i ptr).run s = .ok last s' ↔
      (∀ j < count, s.uc.checkMemArea (ptr.toUInt64 + UInt64.ofNat j) 8 = true) ∧
        last = ptr + Int64.ofNat count ∧
        s' = { s with uc := s.uc.store ptr.toUInt64 (spread (region values i count)) } := by
  induction count generalizing s i ptr with
  | zero =>
    have hnone : spread (region values i 0) = [] := by rw [region, List.take_zero]; rfl
    have hzero : ptr + Int64.ofNat 0 = ptr := Int64.add_zero ptr
    rw [getRegionFrom, pure_eq_ok_iff, hnone, Unicorn.store_nil, hzero]
    exact (and_iff_right fun j hj => absurd hj (Nat.not_lt_zero j)).symm
  | succ count ih =>
    have hi : i < values.length := by omega
    have hnext : (i : ℤ) + 1 = ((i + 1 : ℕ) : ℤ) := by push_cast; rfl
    have hone : (ptr + 1).toUInt64 = ptr.toUInt64 + UInt64.ofNat 1 := rfl
    have hlast : ptr + 1 + Int64.ofNat count = ptr + Int64.ofNat (count + 1) := by
      rw [Int64.ofNat_add, Int64.add_assoc, Int64.add_comm 1]
      rfl
    -- Of the eight bytes of this step the rest of the loop leaves only the first one.
    have hstore := store_spread s.uc ptr.toUInt64 (values.getD i false)
      (region values (i + 1) count) (by rw [length_region (by omega)]; omega)
    have hheap : (({ s with
        uc := s.uc.store ptr.toUInt64 (long2bytes (jboolean (values.getD i false)) 8) } :
          JniState).heap.object o).contents = .booleans values := h
    rw [forall_mapped_succ, getRegionFrom, and_assoc, bind_of_ok (run_booleansAt h hi)]
    dsimp only
    rw [Int.toNat_natCast,
      bind_eq_ok_iff_of_ok_iff (onUc_ok_iff fun _ _ => MemoryHelper.writeValue_eq_ok_iff), hnext,
      ih (i := i + 1) hheap (by omega) (by omega), hlast, region_succ hi, ← hstore, hone]
    rfl

/-! ## Regions -/

/-- A handle of a wrapper around an array of `boolean`. -/
structure BooleanArray (s : JniState) (ref : Int64) (array : JObject) (o : ℕ)
    (values : List Bool) : Prop where
  found : ∃ n, s.refs.getReference ref.toInt = .ok (some n) ∧ s.objects n = some array
  value : array.value = some o
  contents : (s.heap.object o).contents = .booleans values

/-- A region of an array of `boolean` and a buffer for it, as the arguments of a call. -/
structure BooleanRegion (s : JniState) (args : List Int64) (array : JObject) (o : ℕ)
    (values : List Bool) (start len : ℕ) : Prop extends
    BooleanArray s (arg args 1) array o values where
  start_eq : (arg args 2).toInt32.toInt = start
  len_eq : (arg args 3).toInt32.toInt = len
  le : start + len ≤ values.length
  buffer : s.uc.checkMemArea (arg args 4).toUInt64 len = true

variable {args args' : List Int64} {ref : Int64} {array : JObject} {start len : ℕ}

/-- Other wrappers around the array are not accepted. -/
theorem BooleanArray.booleanArray_eq_ok_iff (h : BooleanArray s ref array o values)
    {a : Option ℕ} :
    (booleanArray ref).run s = .ok a s' ↔
      array.kind = .primitiveArray ∧ a = some o ∧ s' = s := by
  obtain ⟨n, hget, hobject⟩ := h.found
  rw [booleanArray, bind_of_ok (run_objectOf hget hobject), get_bind]
  simp only [h.value]
  cases hkind : array.kind with
  | primitiveArray =>
    simp only [h.contents, true_and]
    exact pure_eq_ok_iff
  | object | jclass clzz | string | objectArray =>
    exact iff_of_false (fun hrun => by cases hrun) fun hall => by cases hall.1

theorem BooleanRegion.regionSteps_eq (h : BooleanRegion s args array o values start len) :
    regionSteps args = len - start := by
  rw [regionSteps, h.start_eq, h.len_eq]
  omega

theorem BooleanRegion.len_lt (h : BooleanRegion s args array o values start len) :
    len < 2 ^ 31 := by
  have hlt := Int32.toInt_lt (arg args 3).toInt32
  rw [h.len_eq] at hlt
  omega

/-- `SetBooleanArrayRegion` returns exactly if the eight bytes of each step are mapped. -/
theorem BooleanRegion.set_eq_ok_iff (h : BooleanRegion s args array o values start len)
    {ret : CallRet} :
    (setBooleanArrayRegion args).run s = .ok ret s' ↔
      array.kind = .primitiveArray ∧
        (∀ k < len - start,
          s.uc.checkMemArea ((arg args 4).toUInt64 + UInt64.ofNat k) 8 = true) ∧
        ret = .noValue ∧
        s' = { s with
          heap := s.heap.withBooleans o
            (replaceRegion values start (len - start) fun k =>
              readsOne s.uc.mem ((arg args 4).toUInt64 + UInt64.ofNat k)) } := by
  have hle := h.le
  rw [setBooleanArrayRegion, h.regionSteps_eq, h.start_eq,
    bind_eq_ok_iff_of_ok_iff fun _ _ => h.booleanArray_eq_ok_iff,
    bind_eq_ok_iff_of_ok_iff fun _ _ => setRegionFrom_eq_ok_iff h.contents (by omega),
    pure_eq_ok_iff]

theorem BooleanRegion.get_eq_ok_iff (h : BooleanRegion s args array o values start len)
    {ret : CallRet} :
    (getBooleanArrayRegion args).run s = .ok ret s' ↔
      array.kind = .primitiveArray ∧
        (∀ k < len - start,
          s.uc.checkMemArea ((arg args 4).toUInt64 + UInt64.ofNat k) 8 = true) ∧
        ret = .ofValue (arg args 4 + Int64.ofNat (len - start)) ∧
        s' = { s with
          uc := s.uc.store (arg args 4).toUInt64
            (spread (region values start (len - start))) } := by
  have hle := h.le
  have hlt := h.len_lt
  rw [getBooleanArrayRegion, h.regionSteps_eq, h.start_eq,
    bind_eq_ok_iff_of_ok_iff fun _ _ => h.booleanArray_eq_ok_iff,
    bind_eq_ok_iff_of_ok_iff fun _ _ => getRegionFrom_eq_ok_iff h.contents (by omega) (by omega),
    pure_eq_ok_iff]

/-! ## What the functions are for -/

/-- The bytes of the region are written to the buffer, and nothing else happens. -/
def CopiesOut (s : JniState) (args : List Int64) (values : List Bool) (start len : ℕ) : Prop :=
  ∃ ret, (getBooleanArrayRegion args).run s = .ok ret { s with
    uc := s.uc.store (arg args 4).toUInt64 ((region values start len).map booleanByte) }

/-- The elements of the region become those of the buffer, and nothing else happens. -/
def CopiesIn (s : JniState) (args : List Int64) (o : ℕ) (values : List Bool) (start len : ℕ) :
    Prop :=
  ∃ ret, (setBooleanArrayRegion args).run s = .ok ret { s with
    heap := s.heap.withBooleans o (replaceRegion values start len fun k =>
      s.uc.mem ((arg args 4).toUInt64 + UInt64.ofNat k) == 1) }

/-- The bytes of a buffer that are set as a region are the ones got from it after that. -/
def RoundTrip (s : JniState) (args args' : List Int64) (len : ℕ) : Prop :=
  ∃ ret s₁ ret' s₂, (setBooleanArrayRegion args).run s = .ok ret s₁ ∧
    (getBooleanArrayRegion args').run s₁ = .ok ret' s₂ ∧
    readBytes s₂.uc.mem (arg args' 4).toUInt64 len = readBytes s.uc.mem (arg args 4).toUInt64 len

/-- What the byte `k` after the address is after the region was copied. -/
def byteAfter (m : UInt64 → UInt8) (x : UInt64) (values : List Bool) (start len k : ℕ) : UInt8 :=
  if k < len then booleanByte (values.getD (start + k) false) else m (x + UInt64.ofNat k)

/-- The loop has `len - start` steps. It gets the region right if the bytes of the steps are mapped,
the seven bytes after the last step are to be zero, and those that it does not reach are there
already. -/
structure OutOfStep (uc : Unicorn) (x : UInt64) (values : List Bool) (start len : ℕ) : Prop where
  mapped : ∀ k < len - start, uc.checkMemArea (x + UInt64.ofNat k) 8 = true
  zero : start < len → ∀ k, len - start ≤ k → k < len - start + 7 →
    byteAfter uc.mem x values start len k = 0
  there : ∀ k, (len ≤ start ∨ len - start + 7 ≤ k) → k < len →
    uc.mem (x + UInt64.ofNat k) = booleanByte (values.getD (start + k) false)

/-- The byte at the address alone decides whether eight bytes are read as one. -/
def Alone (m : UInt64 → UInt8) (x : UInt64) : Prop :=
  if m x = 1 then leWord (readBytes m x 4) = 1 ∧ leWord (readBytes m (x + 4) 4) ≤ 1
  else ¬(leWord (readBytes m x 4) = 0 ∧ leWord (readBytes m (x + 4) 4) = 1)

/-- The lowest byte of a word. -/
theorem exists_toNat_leWord (m : UInt64 → UInt8) (x : UInt64) :
    ∃ r, (leWord (readBytes m x 4)).toNat = (m x).toNat + 256 * r := by
  have hlt := leNat_lt (readBytes m x 4)
  have hcons : readBytes m x 4 = m x :: readBytes m (x + UInt64.ofNat 1) 3 := by
    rw [show 4 = 1 + 3 from rfl, readBytes_add, readBytes_one, List.singleton_append]
  rw [length_readBytes] at hlt
  refine ⟨leNat (readBytes m (x + UInt64.ofNat 1) 3), ?_⟩
  rw [leWord, UInt32.toNat_ofNat_of_lt' hlt, hcons, leNat]

theorem readsOne_eq_iff (m : UInt64 → UInt8) (x : UInt64) :
    readsOne m x = (m x == 1) ↔ Alone m x := by
  have hread : readBytes m x 8 = readBytes m x 4 ++ readBytes m (x + 4) 4 :=
    readBytes_add m x 4 4
  have hone : readsOne m x = true ↔ leWord (readBytes m x 4) ≤ 1 ∧
      leWord (readBytes m (x + 4) 4) ≤ 1 ∧
      ¬(leWord (readBytes m x 4) = 0 ∧ leWord (readBytes m (x + 4) 4) = 0) := by
    rw [readsOne, hread, beq_iff_eq, bytes2Long_eight_eq_one_iff length_readBytes length_readBytes]
  obtain ⟨r, hr⟩ := exists_toNat_leWord m x
  rw [Alone]
  simp only [UInt32.le_iff_toNat_le, ← UInt32.toNat_inj, ← UInt8.toNat_inj] at hone ⊢
  have hzero : (0 : UInt32).toNat = 0 := rfl
  have hone' : (1 : UInt32).toNat = 1 := rfl
  have hone8 : (1 : UInt8).toNat = 1 := rfl
  rw [hr, hzero, hone'] at hone
  rw [hr, hzero, hone', hone8]
  by_cases hbyte : (m x).toNat = 1
  · have hbeq : (m x == 1) = true := beq_iff_eq.2 (UInt8.toNat_inj.1 hbyte)
    rw [if_pos hbyte, hbeq, hone]
    omega
  · have hbeq : (m x == 1) = false := beq_eq_false_iff_ne.2 fun h => hbyte (congrArg UInt8.toNat h)
    rw [if_neg hbyte, hbeq, Bool.eq_false_iff, ne_eq, hone]
    omega

theorem copiesIn_iff (h : BooleanRegion s args array o values start len) :
    CopiesIn s args o values start len ↔ array.kind = .primitiveArray ∧
      (∀ k < len - start,
        s.uc.checkMemArea ((arg args 4).toUInt64 + UInt64.ofNat k) 8 = true) ∧
      (∀ k < len - start, Alone s.uc.mem ((arg args 4).toUInt64 + UInt64.ofNat k)) ∧
      ∀ k, len - start ≤ k → k < len → values[start + k]? =
        some (s.uc.mem ((arg args 4).toUInt64 + UInt64.ofNat k) == 1) := by
  have hregion := replaceRegion_eq_iff (len - start)
    (f := fun k => readsOne s.uc.mem ((arg args 4).toUInt64 + UInt64.ofNat k))
    (g := fun k => s.uc.mem ((arg args 4).toUInt64 + UInt64.ofNat k) == 1) h.le (by omega)
  simp only [readsOne_eq_iff] at hregion
  rw [CopiesIn]
  constructor
  · rintro ⟨ret, hrun⟩
    obtain ⟨hkind, hmapped, -, hstate⟩ := h.set_eq_ok_iff.1 hrun
    exact ⟨hkind, hmapped, hregion.1 (JavaHeap.withBooleans_inj.1
      (congrArg JniState.heap hstate).symm)⟩
  · rintro ⟨hkind, hmapped, hrest⟩
    refine ⟨.noValue, h.set_eq_ok_iff.2 ⟨hkind, hmapped, rfl, ?_⟩⟩
    rw [hregion.2 hrest]

theorem getD_spread (vs : List Bool) (k : ℕ) (b : UInt8) :
    (spread vs)[k]?.getD b = if k < vs.length then booleanByte (vs.getD k false)
      else if 0 < vs.length ∧ k < vs.length + 7 then 0 else b := by
  cases vs with
  | nil => rfl
  | cons v vs =>
    by_cases hk : k < (v :: vs).length
    · rw [if_pos hk, spread, List.getElem?_append_left (by rwa [List.length_map]),
        List.getElem?_map, List.getD_eq_getElem?_getD, List.getElem?_eq_getElem hk]
      rfl
    · rw [if_neg hk, spread, List.getElem?_append_right (by rw [List.length_map]; omega),
        List.length_map, List.getElem?_replicate]
      by_cases hlt : k < (v :: vs).length + 7
      · rw [if_pos (by omega), if_pos ⟨Nat.succ_pos _, hlt⟩]
        rfl
      · rw [if_neg (by omega), if_neg fun h => hlt h.2]
        rfl

theorem getD_region {k : ℕ} (hk : k < count) :
    (region values start count).getD k false = values.getD (start + k) false := by
  rw [List.getD_eq_getElem?_getD, List.getD_eq_getElem?_getD, region, List.getElem?_take_of_lt hk,
    List.getElem?_drop]

/-- The byte `k` of a memory with the bytes of a region. -/
theorem getD_map_region (m : UInt64 → UInt8) (x : UInt64) (hle : start + len ≤ values.length)
    (k : ℕ) :
    ((region values start len).map booleanByte)[k]?.getD (m (x + UInt64.ofNat k)) =
      byteAfter m x values start len k := by
  have hlength := length_region hle
  rw [byteAfter, List.getElem?_map]
  by_cases hk : k < len
  · rw [if_pos hk, ← getD_region hk, List.getD_eq_getElem?_getD,
      List.getElem?_eq_getElem (by omega)]
    rfl
  · rw [if_neg hk, List.getElem?_eq_none (by omega)]
    rfl

/-- When the bytes that are written for fewer steps make the memory with the whole region. -/
theorem overwrite_spread_eq_iff (m : UInt64 → UInt8) (x : UInt64)
    (hle : start + len ≤ values.length) (hlt : len < 2 ^ 31) :
    overwrite m x (spread (region values start (len - start))) =
        overwrite m x ((region values start len).map booleanByte) ↔
      (start < len → ∀ k, len - start ≤ k → k < len - start + 7 →
        byteAfter m x values start len k = 0) ∧
      ∀ k, (len ≤ start ∨ len - start + 7 ≤ k) → k < len →
        m (x + UInt64.ofNat k) = booleanByte (values.getD (start + k) false) := by
  have hsteps : start + (len - start) ≤ values.length := by omega
  rw [overwrite_eq_overwrite_iff]
  simp only [getD_map_region _ _ hle, getD_spread, length_region hsteps]
  constructor
  · intro hall
    refine ⟨fun hpos k hk hk' => ?_, fun k hk hk' => ?_⟩
    · have hat := hall k (by omega)
      rw [if_neg (by omega), if_pos (by omega)] at hat
      exact hat.symm
    · have hat := hall k (by omega)
      rw [if_neg (by omega), if_neg (by omega), byteAfter, if_pos hk'] at hat
      exact hat
  · rintro ⟨hzero, hthere⟩ k -
    by_cases hk : k < len - start
    · rw [if_pos hk, getD_region hk, byteAfter, if_pos (by omega)]
    · rw [if_neg hk]
      by_cases hk' : 0 < len - start ∧ k < len - start + 7
      · rw [if_pos hk', hzero (by omega) k (by omega) hk'.2]
      · rw [if_neg hk', byteAfter]
        split
        next hlen => exact hthere k (by omega) hlen
        next => rfl

theorem copiesOut_iff (h : BooleanRegion s args array o values start len) :
    CopiesOut s args values start len ↔ array.kind = .primitiveArray ∧
      OutOfStep s.uc (arg args 4).toUInt64 values start len := by
  have hmem := overwrite_spread_eq_iff s.uc.mem (arg args 4).toUInt64 h.le h.len_lt
  rw [CopiesOut]
  constructor
  · rintro ⟨ret, hrun⟩
    obtain ⟨hkind, hmapped, -, hstate⟩ := h.get_eq_ok_iff.1 hrun
    obtain ⟨hzero, hthere⟩ := hmem.1 (congrArg (fun t => t.uc.mem) hstate).symm
    exact ⟨hkind, hmapped, hzero, hthere⟩
  · rintro ⟨hkind, hmapped, hzero, hthere⟩
    refine ⟨_, h.get_eq_ok_iff.2 ⟨hkind, hmapped, rfl, ?_⟩⟩
    rw [Unicorn.store, Unicorn.store, hmem.2 ⟨hzero, hthere⟩]

/-- The same for the bytes at `x` that are set and then got back at `y`. -/
structure BackInStep (uc : Unicorn) (x y : UInt64) (start len : ℕ) : Prop where
  readable : ∀ k < len - start, uc.checkMemArea (x + UInt64.ofNat k) 8 = true
  writable : ∀ k < len - start, uc.checkMemArea (y + UInt64.ofNat k) 8 = true
  kept : ∀ k < len - start,
    uc.mem (x + UInt64.ofNat k) ≤ 1 ∧ Alone uc.mem (x + UInt64.ofNat k)
  zero : start < len → ∀ k, len - start ≤ k → k < len - start + 7 → k < len →
    uc.mem (x + UInt64.ofNat k) = 0
  there : ∀ k, (len ≤ start ∨ len - start + 7 ≤ k) → k < len →
    uc.mem (y + UInt64.ofNat k) = uc.mem (x + UInt64.ofNat k)

theorem booleanByte_readsOne_iff (m : UInt64 → UInt8) (x : UInt64) :
    booleanByte (readsOne m x) = m x ↔ m x ≤ 1 ∧ Alone m x := by
  rw [← readsOne_eq_iff]
  constructor
  · intro h
    rw [← h]
    cases readsOne m x <;> decide
  · rintro ⟨hle, hone⟩
    rw [hone]
    by_cases hbyte : m x = 1
    · rw [hbyte]
      rfl
    · have hzero : m x = 0 := by
        rw [UInt8.le_iff_toNat_le] at hle
        rw [← UInt8.toNat_inj] at hbyte ⊢
        have h1 : (1 : UInt8).toNat = 1 := rfl
        have h0 : (0 : UInt8).toNat = 0 := rfl
        omega
      rw [hzero]
      rfl

/-- The region of the array after `SetBooleanArrayRegion`. -/
theorem BooleanRegion.afterSet (h : BooleanRegion s args array o values start len)
    (f : ℕ → Bool) (steps : ℕ) :
    BooleanRegion { s with heap := s.heap.withBooleans o (replaceRegion values start steps f) } args
      array o (replaceRegion values start steps f) start len :=
  ⟨⟨h.found, h.value, JavaHeap.contents_withBooleans ..⟩, h.start_eq, h.len_eq,
    by rw [replaceRegion, List.length_mapIdx]; exact h.le, h.buffer⟩

theorem getD_replaceRegion {f : ℕ → Bool} {k : ℕ} (hle : start + count ≤ values.length)
    (hk : k < count) : (replaceRegion values start count f).getD (start + k) false = f k := by
  rw [List.getD_eq_getElem?_getD, getElem?_replaceRegion,
    List.getElem?_eq_getElem (show start + k < values.length by omega), Option.map_some,
    if_pos (by omega), Nat.add_sub_cancel_left]
  rfl

/-- When the bytes that were written at `y` are those at `x`. -/
theorem readBytes_spread_eq_iff (m : UInt64 → UInt8) (x y : UInt64) {ws : List Bool} {steps : ℕ}
    (hlength : ws.length = steps) (hsteps : steps ≤ len) (hlt : len < 2 ^ 31) :
    readBytes (overwrite m y (spread ws)) y len = readBytes m x len ↔
      (∀ k < steps, booleanByte (ws.getD k false) = m (x + UInt64.ofNat k)) ∧
      (0 < steps → ∀ k, steps ≤ k → k < steps + 7 → k < len → m (x + UInt64.ofNat k) = 0) ∧
      ∀ k, (steps = 0 ∨ steps + 7 ≤ k) → k < len →
        m (y + UInt64.ofNat k) = m (x + UInt64.ofNat k) := by
  have hbyte : ∀ k < len, overwrite m y (spread ws) (y + UInt64.ofNat k) =
      if k < steps then booleanByte (ws.getD k false)
      else if 0 < steps ∧ k < steps + 7 then 0 else m (y + UInt64.ofNat k) := by
    intro k hk
    rw [overwrite_apply_add (by omega), getD_spread, hlength]
  rw [readBytes, readBytes, List.map_inj_left]
  simp only [List.mem_range]
  constructor
  · intro hall
    refine ⟨fun k hk => ?_, fun hpos k hk hk' hk'' => ?_, fun k hk hk' => ?_⟩
    · rw [← hall k (by omega), hbyte k (by omega), if_pos hk]
    · rw [← hall k hk'', hbyte k hk'', if_neg (by omega), if_pos ⟨hpos, hk'⟩]
    · rw [← hall k hk', hbyte k hk', if_neg (by omega), if_neg (by omega)]
  · rintro ⟨hkept, hzero, hthere⟩ k hk
    rw [hbyte k hk]
    split
    next hk' => exact hkept k hk'
    next hk' =>
      split
      next hin => exact (hzero hin.1 k (by omega) hin.2 hk).symm
      next hout => exact hthere k (by omega) hk

theorem roundTrip_iff (h : BooleanRegion s args array o values start len)
    (h' : BooleanRegion s args' array o values start len) :
    RoundTrip s args args' len ↔ array.kind = .primitiveArray ∧
      BackInStep s.uc (arg args 4).toUInt64 (arg args' 4).toUInt64 start len := by
  have hle := h.le
  let read : ℕ → Bool := fun k => readsOne s.uc.mem ((arg args 4).toUInt64 + UInt64.ofNat k)
  have hafter := h'.afterSet read (len - start)
  have hread : ∀ k < len - start,
      (region (replaceRegion values start (len - start) read) start (len - start)).getD k false =
        read k := by
    intro k hk
    rw [getD_region hk, getD_replaceRegion (by omega) hk]
  have hlength : (region (replaceRegion values start (len - start) read) start
      (len - start)).length = len - start := by
    refine length_region ?_
    rw [replaceRegion, List.length_mapIdx]
    omega
  have hbytes := readBytes_spread_eq_iff s.uc.mem (arg args 4).toUInt64 (arg args' 4).toUInt64
    hlength (by omega) h.len_lt
  have hkept : ∀ k, booleanByte (read k) = s.uc.mem ((arg args 4).toUInt64 + UInt64.ofNat k) ↔ _ :=
    fun k => booleanByte_readsOne_iff _ _
  rw [RoundTrip]
  constructor
  · rintro ⟨ret, s₁, ret', s₂, hset, hget, hsame⟩
    obtain ⟨hkind, hreadable, -, rfl⟩ := h.set_eq_ok_iff.1 hset
    obtain ⟨-, hwritable, -, rfl⟩ := hafter.get_eq_ok_iff.1 hget
    obtain ⟨hk, hzero, hthere⟩ := hbytes.1 hsame
    refine ⟨hkind, hreadable, hwritable, fun k hk' => ?_, fun hpos => hzero (by omega),
      fun k hk' => hthere k (by omega)⟩
    have hat := hk k hk'
    rw [hread k hk'] at hat
    exact (hkept k).1 hat
  · rintro ⟨hkind, hreadable, hwritable, hk, hzero, hthere⟩
    refine ⟨_, _, _, _, h.set_eq_ok_iff.2 ⟨hkind, hreadable, rfl, rfl⟩,
      hafter.get_eq_ok_iff.2 ⟨hkind, hwritable, rfl, rfl⟩, hbytes.2 ⟨fun k hk' => ?_,
      fun hpos => hzero (by omega), fun k hk' => hthere k (by omega)⟩⟩
    rw [hread k hk']
    exact (hkept k).2 (hk k hk')

/-- The length of an array of `boolean` cannot be asked for: it is not an `Object[]`. -/
theorem getArrayLength_ne_ok (h : BooleanArray s (arg args 1) array o values) (ret : CallRet)
    (s' : JniState) : (getArrayLength args).run s ≠ .ok ret s' := by
  intro hrun
  obtain ⟨⟨array', o', elements⟩, s₁, harray, -⟩ := bind_eq_ok hrun
  obtain ⟨-, ⟨n', hget', hobject'⟩, hvalue', hcontents'⟩ := objectArray_eq_ok harray
  obtain ⟨n, hget, hobject⟩ := h.found
  cases hget.symm.trans hget'
  cases hobject.symm.trans hobject'
  cases h.value.symm.trans hvalue'
  cases h.contents.symm.trans hcontents'

/-- For every region of an array of `boolean`: it is copied to a buffer, or set from one, or set and
got back, exactly in the cases in which the steps of the loops do not matter. The length of the
array cannot be asked for. -/
theorem boolean_regions_iff (h : BooleanRegion s args array o values start len)
    (h' : BooleanRegion s args' array o values start len) :
    (CopiesOut s args values start len ↔ array.kind = .primitiveArray ∧
        OutOfStep s.uc (arg args 4).toUInt64 values start len) ∧
      (CopiesIn s args o values start len ↔ array.kind = .primitiveArray ∧
        (∀ k < len - start,
          s.uc.checkMemArea ((arg args 4).toUInt64 + UInt64.ofNat k) 8 = true) ∧
        (∀ k < len - start, Alone s.uc.mem ((arg args 4).toUInt64 + UInt64.ofNat k)) ∧
        ∀ k, len - start ≤ k → k < len → values[start + k]? =
          some (s.uc.mem ((arg args 4).toUInt64 + UInt64.ofNat k) == 1)) ∧
      (RoundTrip s args args' len ↔ array.kind = .primitiveArray ∧
        BackInStep s.uc (arg args 4).toUInt64 (arg args' 4).toUInt64 start len) ∧
      ∀ ret s', (getArrayLength args).run s ≠ .ok ret s' :=
  ⟨copiesOut_iff h, copiesIn_iff h, roundTrip_iff h h', getArrayLength_ne_ok h.toBooleanArray⟩

/-- `NewBooleanArray` has made an array of two elements, which has the handle 1, and Java code has
set the first of them. Memory is a page of zeros with a one at `0x1002`. -/
def twoBooleans : JniState :=
  [.call .newBooleanArray .none,
    .java ⟨1, fun _ => ⟨.array (.primitive .boolean), .booleans [true, false]⟩,
      fun _ _ _ => .ref none⟩,
    .guest { Unicorn.blank with
      regions := [⟨0x1000, 0x1000⟩]
      mem := fun x => if x = 0x1002 then 1 else 0 }].foldl (JniState.step .idle)
    (.start (.inCall 0 2 0 0) .blank)

/-- The wrapper of the array. -/
def twoBooleansArray : JObject := ⟨.primitiveArray, .primitive .boolean, some 0, some 0⟩

theorem booleanRegion_twoBooleans {start len buffer : Int64} {i n : ℕ}
    (hstart : start.toInt32.toInt = i) (hlen : len.toInt32.toInt = n) (hle : i + n ≤ 2)
    (hbuffer : twoBooleans.uc.checkMemArea buffer.toUInt64 n = true) :
    BooleanRegion twoBooleans [0, 1, start, len, buffer] twoBooleansArray 0 [true, false] i n := by
  have hget : twoBooleans.refs.getReference (1 : Int64).toInt = .ok (some 2) := by decide +kernel
  exact ⟨⟨⟨2, hget, rfl⟩, rfl, rfl⟩, hstart, hlen, hle, hbuffer⟩

/-- With seven zeros after the buffer the region is copied. -/
theorem boolean_regions_zeros :
    BooleanRegion twoBooleans [0, 1, 0, 2, 0x1800] twoBooleansArray 0 [true, false] 0 2 ∧
      CopiesOut twoBooleans [0, 1, 0, 2, 0x1800] [true, false] 0 2 := by
  have hregion :
      BooleanRegion twoBooleans [0, 1, 0, 2, 0x1800] twoBooleansArray 0 [true, false] 0 2 :=
    booleanRegion_twoBooleans rfl rfl (by decide) (by decide +kernel)
  refine ⟨hregion, (boolean_regions_iff hregion hregion).1.2 ⟨rfl, ?_, ?_, ?_⟩⟩
  · decide +kernel
  · intro _
    decide +kernel
  · intro k hk hlt
    omega

/-- A region is copied over the byte after the buffer. The second element is not set, since its
position is not below the length. The length of the array is not found out. -/
theorem not_boolean_regions_two :
    ¬CopiesOut twoBooleans [0, 1, 0, 2, 0x1000] [true, false] 0 2 ∧
      ¬CopiesIn twoBooleans [0, 1, 1, 1, 0x1002] 0 [true, false] 1 1 ∧
      outcome ((getArrayLength [0, 1]).run twoBooleans) = .error .classCast := by
  refine ⟨fun hcopies => ?_, fun hcopies => ?_, by rfl⟩
  · have hregion : BooleanRegion twoBooleans [0, 1, 0, 2, 0x1000] twoBooleansArray 0 [true, false]
        0 2 :=
      booleanRegion_twoBooleans rfl rfl (by decide) (by decide +kernel)
    have hzero := ((copiesOut_iff hregion).1 hcopies).2.zero (by decide) 2 (by decide) (by decide)
    exact absurd hzero (by decide +kernel)
  · have hregion : BooleanRegion twoBooleans [0, 1, 1, 1, 0x1002] twoBooleansArray 0 [true, false]
        1 1 :=
      booleanRegion_twoBooleans rfl rfl (by decide) (by decide +kernel)
    have hset := ((copiesIn_iff hregion).1 hcopies).2.2.2 0 (by decide) (by decide)
    exact absurd hset (by decide +kernel)

end Jni

end Tank
