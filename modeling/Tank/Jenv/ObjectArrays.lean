import Tank.Jenv.NullHandles
import Tank.Jenv.SameObject

/-!
# Arrays of objects

`NewObjectArray` does not look at the initial element, so the elements of the new array are `null`.
`SetObjectArrayElement` stores the value of a wrapper, which a `JClass` does not have.
`GetObjectArrayElement` makes a new wrapper and a new local reference.

* `valuesAfter` is the array after a sequence of calls, as the code has it, and `lastAt` the last
  handle that was stored at a position;
* `object_array_iff`: when the array is one of what the handles denote.
-/

namespace Tank

open ToMathlib

/-- A call that stores an element. -/
structure ElementStore where
  index : Int64
  handle : Int64
deriving DecidableEq

/-- The handle that is at a position after a call. -/
def ElementStore.at (st : ElementStore) (j : ℕ) (last : Option Int64) : Option Int64 :=
  if st.index.toInt32.toInt = j then some st.handle else last

/-- The last handle that was stored at a position. -/
def lastAt (stores : List ElementStore) (j : ℕ) : Option Int64 :=
  stores.foldl (fun last st => st.at j last) none

theorem lastAt_append (stores : List ElementStore) (st : ElementStore) (j : ℕ) :
    lastAt (stores ++ [st]) j = st.at j (lastAt stores j) := by
  rw [lastAt, List.foldl_append]
  rfl

section Values

variable (value : Int64 → Option ℕ) {values : List (Option ℕ)} {st : ElementStore}
  {stores : List ElementStore}

/-- The elements after a call, if `value` gives what is stored for a handle. -/
def storeIn (values : List (Option ℕ)) (st : ElementStore) : List (Option ℕ) :=
  if 0 ≤ st.index.toInt32.toInt ∧ st.index.toInt32.toInt < values.length then
    values.set st.index.toInt32.toInt.toNat (value st.handle)
  else values

/-- The elements after a sequence of calls. -/
def valuesAfter (values : List (Option ℕ)) (stores : List ElementStore) : List (Option ℕ) :=
  stores.foldl (storeIn value) values

theorem valuesAfter_append :
    valuesAfter value values (stores ++ [st]) =
      storeIn value (valuesAfter value values stores) st := by
  rw [valuesAfter, List.foldl_append]
  rfl

theorem length_storeIn : (storeIn value values st).length = values.length := by
  rw [storeIn]
  split
  · exact List.length_set
  · rfl

theorem length_valuesAfter : (valuesAfter value values stores).length = values.length := by
  rw [valuesAfter]
  induction stores generalizing values with
  | nil => rfl
  | cons st stores ih => rw [List.foldl_cons, ih, length_storeIn]

theorem getElem?_storeIn {j : ℕ} (hj : j < values.length) :
    (storeIn value values st)[j]? =
      if st.index.toInt32.toInt = j then some (value st.handle) else values[j]? := by
  rw [storeIn]
  by_cases hindex : st.index.toInt32.toInt = j
  · rw [if_pos (by omega), if_pos hindex, hindex, Int.toNat_natCast, List.getElem?_set_self hj]
  · rw [if_neg hindex]
    split
    next hin => exact List.getElem?_set_ne (by omega)
    next => rfl

/-- An element is what was stored last at its position. -/
theorem getElem?_valuesAfter {j : ℕ} (hj : j < values.length) :
    (valuesAfter value values stores)[j]? =
      match lastAt stores j with
      | some r => some (value r)
      | none => values[j]? := by
  -- The induction is on the calls from the last one on.
  induction stores using List.reverseRecOn with
  | nil => rfl
  | append_singleton stores st ih =>
    rw [valuesAfter_append, lastAt_append, getElem?_storeIn value (by rwa [length_valuesAfter]),
      ElementStore.at]
    split
    · rfl
    · exact ih

end Values

namespace JniState

variable {s s' : JniState}

/-- The array of a wrapper that a handle stands for. -/
structure ObjectArray (s : JniState) (arr : Int64) (array : JObject) (o : ℕ)
    (values : List (Option ℕ)) : Prop where
  found : ∃ n, s.refs.getReference arr.toInt = .ok (some n) ∧ s.objects n = some array
  kind : array.kind = .objectArray
  value : array.value = some o
  contents : (s.heap.object o).contents = .objects values

/-- The value that is stored for a handle. -/
def valueOf (s : JniState) (r : Int64) : Option ℕ :=
  match s.refs.getReference r.toInt with
  | .ok (some n) => (s.objects n).bind JObject.value
  | _ => none

/-- The handle is one of a class. -/
def IsClassHandle (s : JniState) (r : Int64) : Prop :=
  ∃ n clzz, s.refs.getReference r.toInt = .ok (some n) ∧ s.classAt n = some clzz

/-- A live handle is one of a wrapper. -/
theorem WellFormed.run_objectOf (hs : s.WellFormed) {r : Int64} {n : ℕ}
    (hr : s.refs.getReference r.toInt = .ok (some n)) :
    ∃ object, s.objects n = some object ∧ (Jni.objectOf r).run s = .ok object s := by
  obtain ⟨object, hobject⟩ := hs.held n (JniEnv.holds_of_getReference hr)
  exact ⟨object, hobject, Jni.run_objectOf hr hobject⟩

theorem Same.valueOf (h : s.Same s') : s'.valueOf = s.valueOf := by
  rw [Same] at h
  rw [h]
  rfl

end JniState

namespace Jni

open JniState

variable {s s' t : JniState} {args : List Int64} {env arr : Int64} {array : JObject} {o : ℕ}
  {values : List (Option ℕ)} {stores : List ElementStore}

/-- The state after storing elements, if exceptions are caught. -/
def afterStores (env arr : Int64) (s : JniState) (stores : List ElementStore) : JniState :=
  stores.foldl
    (fun s st => finalState ((setObjectArrayElement [env, arr, st.index, st.handle]).run s)) s

theorem run_objectArray (h : s.ObjectArray arr array o values) :
    (objectArray arr).run s = .ok (array, o, values) s := by
  obtain ⟨n, hget, hobject⟩ := h.found
  have helements : (elements array).run s = .ok (o, values) s := by
    rw [elements, get_bind]
    simp only [h.value, h.contents]
    rfl
  rw [objectArray, bind_of_ok (run_objectOf hget hobject)]
  simp only [h.kind]
  rw [bind_of_ok helements]
  rfl

theorem run_checkIndex {i : Int32} (hi : 0 ≤ i.toInt ∧ i.toInt < values.length) :
    (checkIndex values i).run s = .ok i.toInt.toNat s := by
  rw [checkIndex, if_pos hi]
  rfl

theorem run_checkIndex_error {i : Int32} (hi : ¬(0 ≤ i.toInt ∧ i.toInt < values.length)) :
    (checkIndex values i).run s = .error .arrayIndexOutOfBounds s := by
  rw [checkIndex, if_neg hi]
  rfl

/-- An index outside the array changes nothing. -/
theorem finalState_set_of_outside (args : List Int64)
    (h : s.ObjectArray (arg args 1) array o values)
    (hi : ¬(0 ≤ (arg args 2).toInt32.toInt ∧ (arg args 2).toInt32.toInt < values.length)) :
    finalState ((setObjectArrayElement args).run s) = s := by
  rw [setObjectArrayElement, bind_of_ok (run_objectArray h)]
  have hobject := @finalState_objectOf s (arg args 3)
  refine finalState_bind_cases (P := fun t => t = s) (fun err t hrun => ?_) fun object t hrun => ?_
  · rwa [hrun] at hobject
  · rw [hrun] at hobject
    obtain rfl := hobject
    rw [bind_of_error (run_checkIndex_error hi)]
    rfl

/-- An element is set. -/
theorem run_set_of_inside (h : s.ObjectArray (arg args 1) array o values)
    (hi : 0 ≤ (arg args 2).toInt32.toInt ∧ (arg args 2).toInt32.toInt < values.length)
    {object : JObject} (hobject : (objectOf (arg args 3)).run s = .ok object s) :
    (setObjectArrayElement args).run s = .ok .noValue { s with
      heap := s.heap.setElement o (arg args 2).toInt32.toInt.toNat object.value } := by
  rw [setObjectArrayElement, bind_of_ok (run_objectArray h)]
  dsimp only
  rw [bind_of_ok hobject, bind_of_ok (run_checkIndex hi)]
  rfl

/-- What one call does to the array, and that it leaves the wrappers and references alone. -/
theorem objectArray_afterStore (args : List Int64) (hs : s.WellFormed)
    (h : s.ObjectArray (arg args 1) array o values)
    {n : ℕ} (hr : s.refs.getReference (arg args 3).toInt = .ok (some n)) :
    s.Same (finalState ((setObjectArrayElement args).run s)) ∧
      (finalState ((setObjectArrayElement args).run s)).ObjectArray (arg args 1) array o
        (storeIn s.valueOf values ⟨arg args 2, arg args 3⟩) := by
  obtain ⟨object, hobject, hrun⟩ := hs.run_objectOf hr
  rw [storeIn]
  by_cases hi : 0 ≤ (arg args 2).toInt32.toInt ∧ (arg args 2).toInt32.toInt < values.length
  · have hvalue : s.valueOf (arg args 3) = object.value := by
      simp only [valueOf, hr, hobject, Option.bind_some]
    rw [run_set_of_inside h hi hrun, if_pos hi, hvalue]
    refine ⟨rfl, h.found, h.kind, h.value, ?_⟩
    simp only [finalState, JavaHeap.setElement, Function.update_self, h.contents]
  · rw [finalState_set_of_outside args h hi, if_neg hi]
    exact ⟨rfl, h⟩

/-- What a sequence of calls does to the array. -/
theorem objectArray_afterStores (env : Int64) (hs : s.WellFormed)
    (h : s.ObjectArray arr array o values)
    (hlive : ∀ st ∈ stores, ∃ n, s.refs.getReference st.handle.toInt = .ok (some n)) :
    s.Same (afterStores env arr s stores) ∧
      (afterStores env arr s stores).ObjectArray arr array o
        (valuesAfter s.valueOf values stores) := by
  induction stores generalizing s values with
  | nil => exact ⟨rfl, h⟩
  | cons st stores ih =>
    obtain ⟨n, hn⟩ := hlive st List.mem_cons_self
    obtain ⟨hsame, harray⟩ :=
      objectArray_afterStore [env, arr, st.index, st.handle] hs h hn
    -- The references are the same, so the handles of the later calls are still live.
    have hrest := ih (hsame.wellFormed hs) harray fun st' hst' => by
      rw [hsame.refs]
      exact hlive st' (List.mem_cons_of_mem st hst')
    rw [hsame.valueOf] at hrest
    exact ⟨IsTrans.trans _ _ _ hsame hrest.1, hrest.2⟩

/-! ## What the array is to be -/

variable {size c init : Int64} {n k : ℕ} {clzz : JClass}

/-- What an element is to denote: the last thing that was stored, or the initial element. -/
def wanted (s s₁ : JniState) (init : Int64) (stores : List ElementStore) (j : ℕ) : Denotation :=
  match lastAt stores j with
  | some r => s₁.denotesHandle r
  | none => s.denotesHandle init

/-- After `NewObjectArray` in the state `s`, which gave the handle `arr` and the state `s₁`, and
after the calls, the handle is one of an array with `n` elements: for each of them a new handle is
returned that denotes what it is to denote. An index outside the array changes nothing. -/
structure ActsAsArray (s s₁ : JniState) (env arr : Int64) (init : Int64) (n : ℕ)
    (stores : List ElementStore) : Prop where
  handle : s₁.refs.getReference arr.toInt = .ok (some s.made)
  length : (getArrayLength [env, arr]).run (afterStores env arr s₁ stores) =
    .ok (.ofValue (Int64.ofNat n)) (afterStores env arr s₁ stores)
  element : ∀ j < n, ∃ h s₃, (getObjectArrayElement [env, arr, Int64.ofNat j]).run
      (afterStores env arr s₁ stores) = .ok (.ofValue h) s₃ ∧
    ¬(afterStores env arr s₁ stores).refs.Resolves h.toInt ∧
    ∃ w, s₃.refs.getReference h.toInt = .ok (some w) ∧
      s₃.denotes (some w) = wanted s s₁ init stores j
  outside : ∀ i r : Int64, ¬(0 ≤ i.toInt32.toInt ∧ i.toInt32.toInt < n) →
    finalState ((setObjectArrayElement [env, arr, i, r]).run (afterStores env arr s₁ stores)) =
      afterStores env arr s₁ stores

/-- There are local handles for the array and for an element, no class is stored, and elements that
are not stored are to be `null`. -/
structure NullsAndObjects (s : JniState) (init : Int64) (n : ℕ) (stores : List ElementStore) :
    Prop where
  arrayRoom : s.refs.hasRoom = true
  elementRoom : 0 < n → (s.refs.addLocalReference s.made).1.hasRoom = true
  stored : ∀ j < n, ∀ r, lastAt stores j = some r → ¬s.IsClassHandle r
  initial : ∀ j < n, lastAt stores j = none → s.denotesHandle init = .null

/-- An element is read: a new wrapper is handed out. -/
theorem run_getObjectArrayElement (args : List Int64)
    (h : s.ObjectArray (arg args 1) array o values) {j : ℕ}
    (hindex : (arg args 2).toInt32.toInt = j) (hj : j < values.length) :
    (getObjectArrayElement args).run s =
      (handOut ⟨.object, array.klass, array.jClass, values.getD j none⟩).run s := by
  rw [getObjectArrayElement, bind_of_ok (run_objectArray h)]
  dsimp only
  rw [bind_of_ok (run_checkIndex (by omega)), hindex, Int.toNat_natCast]

theorem run_getArrayLength (args : List Int64) (h : s.ObjectArray (arg args 1) array o values) :
    (getArrayLength args).run s = .ok (.ofValue (Int64.ofNat values.length)) s := by
  rw [getArrayLength, bind_of_ok (run_objectArray h)]
  rfl

/-- When the handle that is returned for an element is new and denotes what it is to denote. -/
theorem element_iff (args : List Int64) (hs : s.WellFormed)
    (h : s.ObjectArray (arg args 1) array o values) {j : ℕ}
    (hindex : (arg args 2).toInt32.toInt = j) (hj : j < values.length) (d : Denotation) :
    (∃ h s₃, (getObjectArrayElement args).run s = .ok (.ofValue h) s₃ ∧
        ¬s.refs.Resolves h.toInt ∧ ∃ w, s₃.refs.getReference h.toInt = .ok (some w) ∧
          s₃.denotes (some w) = d) ↔
      s.refs.hasRoom = true ∧ .ofValue (values.getD j none) = d := by
  rw [run_getObjectArrayElement args h hindex hj, hs.handOut_iff]
  cases values.getD j none <;> rfl

/-- The state after `NewObjectArray`. -/
def withArray (s : JniState) (klass : Klass) (k n : ℕ) : JniState :=
  (({ s with
      heap := { s.heap with
        size := s.heap.size + 1
        object := Function.update s.heap.object s.heap.size
          ⟨.objectArray, .objects (List.replicate n none)⟩ } } : JniState).withObject
    ⟨.objectArray, klass, some k, some s.heap.size⟩).withLocal s.made

theorem run_newObjectArray (args : List Int64)
    (hc : s.refs.getReference (arg args 2).toInt = .ok (some k))
    (hclass : s.classAt k = some clzz) (hsize : (arg args 1).toInt32.toInt = n) :
    (newObjectArray args).run s =
      .ok (.ofValue (Int64.ofInt (s.refs.addLocalReference s.made).2))
        (withArray s clzz.reflected.klass k n) := by
  have hnonneg : ¬(arg args 1).toInt32 < 0 := by
    rw [Int32.lt_iff_toInt_lt, hsize]
    exact not_lt.2 (Int.natCast_nonneg n)
  rw [newObjectArray, bind_of_ok (run_expectClass hc hclass)]
  simp only [if_neg hnonneg, hsize, Int.toNat_natCast]
  rfl

theorem objectArray_withArray (hs : s.WellFormed) (hroom : s.refs.hasRoom = true)
    (klass : Klass) :
    (withArray s klass k n).ObjectArray (Int64.ofInt (s.refs.addLocalReference s.made).2)
      ⟨.objectArray, klass, some k, some s.heap.size⟩ s.heap.size (List.replicate n none) where
  found := ⟨s.made, hs.getReference_made_iff.2 hroom, objects_withObject_self ..⟩
  kind := rfl
  value := rfl
  contents := by simp only [withArray, withLocal, withObject, Function.update_self]

theorem exists_mem_of_lastAt {j : ℕ} {r : Int64} (h : lastAt stores j = some r) :
    ∃ st ∈ stores, st.handle = r := by
  induction stores using List.reverseRecOn with
  | nil => cases h
  | append_singleton stores st ih =>
    rw [lastAt_append, ElementStore.at] at h
    split at h
    · exact ⟨st, by simp, Option.some.inj h⟩
    · obtain ⟨st', hmem, heq⟩ := ih h
      exact ⟨st', by simp [hmem], heq⟩

/-- A handle in the state with the array is one of a class if it was one before. -/
theorem isClassHandle_iff (hs : s.WellFormed) {klass : Klass} {r : Int64} {w : ℕ} {object : JObject}
    (hr : (withArray s klass k n).refs.getReference r.toInt = .ok (some w))
    (hobject : (withArray s klass k n).objects w = some object) :
    (∀ clzz, object.kind ≠ .jclass clzz) ↔ ¬s.IsClassHandle r := by
  have hrefs : (withArray s klass k n).refs = (s.refs.addLocalReference s.made).1 := rfl
  have hobjects : (withArray s klass k n).objects = Function.update s.objects s.made
      (some ⟨.objectArray, klass, some k, some s.heap.size⟩) := rfl
  rw [hrefs, hs.ranged.getReference_addLocalReference] at hr
  rw [hobjects] at hobject
  split_ifs at hr with hnew
  · -- The handle is the new one.
    obtain rfl := Option.some.inj (Except.ok.inj hr)
    rw [Function.update_self] at hobject
    obtain rfl := Option.some.inj hobject
    refine iff_of_true (fun clzz h => by cases h) ?_
    rintro ⟨m, clzz, hm, -⟩
    rw [hnew.1] at hm
    exact JniEnv.not_resolves_freeIndex hnew.2 (hs.ranged.start_pos .locals) ⟨m, hm⟩
  · obtain ⟨object', hobject'⟩ := hs.held w (JniEnv.holds_of_getReference hr)
    have hne : w ≠ s.made := (hs.bounded w object' hobject').ne
    rw [Function.update_of_ne hne] at hobject
    rw [IsClassHandle]
    constructor
    · rintro hkind ⟨m, clzz, hm, hclass⟩
      obtain rfl : w = m := Option.some.inj (Except.ok.inj (hr.symm.trans hm))
      obtain ⟨object₂, hobject₂, hkind₂⟩ := classAt_eq_some_iff.1 hclass
      obtain rfl : object = object₂ := Option.some.inj (hobject.symm.trans hobject₂)
      exact hkind clzz hkind₂
    · intro hnot clzz hkind
      exact hnot ⟨w, clzz, hr, classAt_eq_some_iff.2 ⟨object, hobject, hkind⟩⟩

/-- When the element that the code has is the one that is wanted. -/
theorem ofValue_eq_wanted_iff (hs : s.WellFormed) {klass : Klass}
    (hs₁ : (withArray s klass k n).WellFormed)
    (hlive : ∀ st ∈ stores, ∃ w,
      (withArray s klass k n).refs.getReference st.handle.toInt = .ok (some w))
    {j : ℕ} (hj : j < n) :
    .ofValue ((valuesAfter (withArray s klass k n).valueOf (List.replicate n none)
        stores).getD j none) = wanted s (withArray s klass k n) init stores j ↔
      (∀ r, lastAt stores j = some r → ¬s.IsClassHandle r) ∧
        (lastAt stores j = none → s.denotesHandle init = .null) := by
  have hlength : j < (List.replicate n (none : Option ℕ)).length := by rwa [List.length_replicate]
  rw [List.getD_eq_getElem?_getD, getElem?_valuesAfter _ hlength, wanted]
  cases hlast : lastAt stores j with
  | none =>
    simp only [List.getElem?_replicate_of_lt hj, Option.getD_some, Denotation.ofValue, reduceCtorEq,
      false_implies, implies_true, true_and, true_implies]
    exact eq_comm
  | some r =>
    obtain ⟨st, hmem, rfl⟩ := exists_mem_of_lastAt hlast
    obtain ⟨w, hw⟩ := hlive st hmem
    obtain ⟨object, hobject, -⟩ := hs₁.run_objectOf hw
    simp only [valueOf, denotesHandle, denotes, hw, hobject, Option.bind_some, Option.getD_some,
      JObject.ofValue_eq_denotes_iff, isClassHandle_iff hs hw hobject, Option.some.injEq,
      forall_eq', reduceCtorEq, false_implies, and_true]

theorem wellFormed_withArray (args : List Int64) (hs : s.WellFormed)
    (hc : s.refs.getReference (arg args 2).toInt = .ok (some k)) (hclass : s.classAt k = some clzz)
    (hsize : (arg args 1).toInt32.toInt = n) :
    (withArray s clzz.reflected.klass k n).WellFormed := by
  have hmade := (handsOut_newObjectArray .idle args hs).wellFormed
  rwa [run_newObjectArray args hc hclass hsize] at hmade

/-- If there is a handle for the array, it has the elements that are wanted if there are handles for
them and none of them is lost. -/
theorem actsAsArray_iff (stores : List ElementStore) (hs : s.WellFormed) {klass : Klass}
    (hs₁ : (withArray s klass k n).WellFormed) (hn : n < 2 ^ 31) (hroom : s.refs.hasRoom = true)
    (hlive : ∀ st ∈ stores, ∃ w,
      (withArray s klass k n).refs.getReference st.handle.toInt = .ok (some w)) :
    ActsAsArray s (withArray s klass k n) env (Int64.ofInt (s.refs.addLocalReference s.made).2)
        init n stores ↔ NullsAndObjects s init n stores := by
  obtain ⟨hsame, harray⟩ := objectArray_afterStores env hs₁
    (objectArray_withArray (n := n) hs hroom klass) hlive
  have hlength : (valuesAfter (withArray s klass k n).valueOf (List.replicate n none)
      stores).length = n := by
    rw [length_valuesAfter, List.length_replicate]
  have hrefs : (afterStores env (Int64.ofInt (s.refs.addLocalReference s.made).2)
      (withArray s klass k n) stores).refs = (s.refs.addLocalReference s.made).1 := hsame.refs
  -- To read an element takes a handle, which is where the room for it comes in.
  have helement (j : ℕ) (hj : j < n) := by
    have hindex : (Int64.ofNat j).toInt32.toInt = j := by
      rw [Int64.toInt32_ofNat', Int32.toInt_ofNat_of_lt (by omega)]
    have hiff := element_iff [env, Int64.ofInt (s.refs.addLocalReference s.made).2,
      Int64.ofNat j] (hsame.wellFormed hs₁) harray hindex (hlength.symm ▸ hj)
      (wanted s (withArray s klass k n) init stores j)
    rw [hrefs, ofValue_eq_wanted_iff hs hs₁ hlive hj] at hiff
    exact hiff
  constructor
  · intro h
    have hall (j : ℕ) (hj : j < n) := (helement j hj).1 (hrefs ▸ h.element j hj)
    exact ⟨hroom, fun hpos => (hall 0 hpos).1, fun j hj => (hall j hj).2.1,
      fun j hj => (hall j hj).2.2⟩
  · intro h
    refine ⟨hs.getReference_made_iff.2 hroom, ?_, fun j hj => ?_, fun i r hi => ?_⟩
    · have hget := run_getArrayLength
        [env, Int64.ofInt (s.refs.addLocalReference s.made).2] harray
      rwa [hlength] at hget
    · rw [hrefs]
      exact (helement j hj).2 ⟨h.elementRoom (by omega), h.stored j hj, h.initial j hj⟩
    · exact finalState_set_of_outside
        [env, Int64.ofInt (s.refs.addLocalReference s.made).2, i, r] harray
          (by rwa [hlength])

/-- Object arrays are arrays exactly if there are handles for the array and the elements, no class
is stored, and the elements that are not stored are to be `null`. -/
theorem object_array_iff (hs : s.WellFormed) (env size c init : Int64)
    (hc : s.refs.getReference c.toInt = .ok (some k)) (hclass : s.classAt k = some clzz)
    (hsize : size.toInt32.toInt = n) :
    ∃ arr s₁, (newObjectArray [env, size, c, init]).run s = .ok (.ofValue arr) s₁ ∧
      ∀ stores, (∀ st ∈ stores, ∃ w, s₁.refs.getReference st.handle.toInt = .ok (some w)) →
        (ActsAsArray s s₁ env arr init n stores ↔ NullsAndObjects s init n stores) := by
  have hs₁ := wellFormed_withArray [env, size, c, init] hs hc hclass hsize
  have hn : n < 2 ^ 31 := by
    have hlt := size.toInt32.toInt_lt
    omega
  refine ⟨_, _, run_newObjectArray [env, size, c, init] hc hclass hsize,
    fun stores hlive => ?_⟩
  by_cases hroom : s.refs.hasRoom = true
  · exact actsAsArray_iff stores hs hs₁ hn hroom hlive
  · exact iff_of_false (fun h => hroom (hs.getReference_made_iff.1 h.handle))
      fun h => hroom h.arrayRoom

/-- An array of one object in the state with a class, with handle 1, and an object of it. -/
theorem exists_newObjectArray_linked (init : Int64) :
    ∃ klass, (withArray linked klass 0 1).WellFormed ∧
      (newObjectArray [0, 1, 1, init]).run linked = .ok
        (.ofValue (Int64.ofInt (linked.refs.addLocalReference linked.made).2))
          (withArray linked klass 0 1) := by
  have hc : linked.refs.getReference (1 : Int64).toInt = .ok (some 0) := by decide +kernel
  obtain ⟨clzz, hclass⟩ := Option.isSome_iff_exists.1
    (show (linked.classAt 0).isSome = true by decide +kernel)
  exact ⟨clzz.reflected.klass,
    wellFormed_withArray [0, 1, 1, init] reachable_linked.wellFormed hc hclass rfl,
    run_newObjectArray [0, 1, 1, init] hc hclass rfl⟩

theorem isClassHandle_linked : linked.IsClassHandle 1 ∧ ¬linked.IsClassHandle 2 := by
  constructor
  · obtain ⟨clzz, hclass⟩ := Option.isSome_iff_exists.1
      (show (linked.classAt 0).isSome = true by decide +kernel)
    exact ⟨0, clzz, by decide +kernel, hclass⟩
  · rintro ⟨n, clzz, hn, hclass⟩
    have hget : linked.refs.getReference (2 : Int64).toInt = .ok (some 5) := by decide +kernel
    have hnone : (linked.classAt 5).isSome = false := by decide +kernel
    obtain rfl : 5 = n := Option.some.inj (Except.ok.inj (hget.symm.trans hn))
    rw [hclass] at hnone
    cases hnone

/-- The handles of the class and of the object stay live. -/
theorem getReference_withArray_linked (klass : Klass) :
    (withArray linked klass 0 1).refs.getReference (1 : Int64).toInt = .ok (some 0) ∧
      (withArray linked klass 0 1).refs.getReference (2 : Int64).toInt = .ok (some 5) := by
  have hrefs : (withArray linked klass 0 1).refs =
      (linked.refs.addLocalReference linked.made).1 := rfl
  rw [hrefs]
  decide +kernel

/-- An object that is stored in an array of `null`s is read back. -/
theorem object_array_stored :
    ∃ arr s₁, (newObjectArray [0, 1, 1, 0]).run linked = .ok (.ofValue arr) s₁ ∧
      ActsAsArray linked s₁ 0 arr 0 1 [⟨0, 2⟩] := by
  obtain ⟨clzz, hclass⟩ := Option.isSome_iff_exists.1
    (show (linked.classAt 0).isSome = true by decide +kernel)
  obtain ⟨arr, s₁, hrun, hiff⟩ := object_array_iff (n := 1) reachable_linked.wellFormed 0 1 1 0
    (by decide +kernel) hclass rfl
  obtain ⟨klass, -, hmade⟩ := exists_newObjectArray_linked 0
  obtain ⟨-, rfl⟩ := EStateM.Result.ok.inj (hmade.symm.trans hrun)
  refine ⟨arr, _, hrun, (hiff [⟨0, 2⟩] ?_).2
    ⟨by decide +kernel, fun _ => by decide +kernel, ?_, ?_⟩⟩
  · exact List.forall_mem_singleton.2 ⟨5, (getReference_withArray_linked klass).2⟩
  · rintro j hj r hr
    obtain rfl := Nat.lt_one_iff.1 hj
    obtain rfl : 2 = r := Option.some.inj hr
    exact isClassHandle_linked.2
  · rintro j hj hnone
    obtain rfl := Nat.lt_one_iff.1 hj
    cases hnone

/-- The object that is given as the initial element is not in the array, and neither is a class that
is stored. -/
theorem not_object_array_initial :
    linked.denotesHandle 2 = .ofObject 0 ∧
      ∃ arr s₁, (newObjectArray [0, 1, 1, 2]).run linked = .ok (.ofValue arr) s₁ ∧
        ¬ActsAsArray linked s₁ 0 arr 2 1 [] ∧ ¬ActsAsArray linked s₁ 0 arr 2 1 [⟨0, 1⟩] := by
  have hdenotes : linked.denotesHandle 2 = .ofObject 0 := by decide +kernel
  have hroom : linked.refs.hasRoom = true := by decide +kernel
  obtain ⟨klass, hs₁, hrun⟩ := exists_newObjectArray_linked 2
  refine ⟨hdenotes, _, _, hrun, fun h => ?_, fun h => ?_⟩
  · have hnull := ((actsAsArray_iff [] reachable_linked.wellFormed hs₁ (by decide) hroom
      (List.forall_mem_nil _)).1 h).initial 0 Nat.one_pos rfl
    rw [hdenotes] at hnull
    cases hnull
  · have hlost := ((actsAsArray_iff [⟨0, 1⟩] reachable_linked.wellFormed hs₁ (by decide) hroom
      (List.forall_mem_singleton.2 ⟨0, (getReference_withArray_linked klass).1⟩)).1 h).stored
    exact hlost 0 Nat.one_pos 1 rfl isClassHandle_linked.1

end Jni

end Tank
