import Tank.Jenv.Wrappers

/-!
# The class of an object

`GetObjectClass` should return a handle of the object's `JClass`. It returns the index of the object
itself instead. Indices of wrappers count from `0xFF00` on and handles of the global table from
4096, so that the index is in the range of the global table: it is the handle of nothing, or of
something else, depending on how many global references there are.

* `run_getObjectClass`: what is returned;
* `object_class_iff`: when it can be used like a handle of the class.
-/

namespace Tank

open ToMathlib

theorem toInt_register_objectIndex (n : ℕ) :
    (register (objectIndex n)).toInt = ((0xFF00 + n) % 2 ^ 32 : ℕ) := by
  have hbits : (objectIndex n).toUInt64 = 0xFF00 + UInt64.ofNat n := rfl
  rw [toInt_register, hbits]
  simp

namespace JniEnv

variable {O : Type} {env : JniEnv O} {idx : ℤ} {object : O}

/-- A handle that resolves is in one of the two ranges. -/
theorem Ranged.getReference_eq_some_iff (h : Ranged env) :
    env.getReference idx = .ok (some object) ↔
      (1 ≤ idx ∧ idx ≤ 2049 ∧ env.locals.table.get idx = some object) ∨
        (4096 ≤ idx ∧ idx ≤ 516096 ∧ env.globals.table.get idx = some object) := by
  have hlocal : env.locals.table.inRange idx = true ↔ 1 ≤ idx ∧ idx ≤ 2049 := by
    rw [JReferencTable.inRange_iff, h.localStart, h.localSize]
    omega
  have hglobal : env.globals.table.inRange idx = true ↔ 4096 ≤ idx ∧ idx ≤ 516096 := by
    rw [JReferencTable.inRange_iff, h.globalStart, h.globalSize]
    omega
  -- The ranges are disjoint, so that the order of the tests does not matter.
  rw [getReference]
  split_ifs with hzero hin hin'
  · simp only [Except.ok.injEq, reduceCtorEq, false_iff]
    omega
  · have hbounds := hlocal.1 hin
    rw [Except.ok.injEq]
    constructor
    · exact fun hget => .inl ⟨hbounds.1, hbounds.2, hget⟩
    · rintro (⟨-, -, hget⟩ | ⟨hlow, -, -⟩)
      · exact hget
      · omega
  · have hbounds := hglobal.1 hin'
    rw [Except.ok.injEq]
    constructor
    · exact fun hget => .inr ⟨hbounds.1, hbounds.2, hget⟩
    · rintro (⟨-, hhigh, -⟩ | ⟨-, -, hget⟩)
      · omega
      · exact hget
  · rw [hlocal] at hin
    rw [hglobal] at hin'
    simp only [false_iff]
    omega

end JniEnv

namespace JniState

open Jni

variable {s : JniState} {n k : ℕ} {object : JObject} {clzz : JClass} {args : List Int64}
  (rt : JavaRuntime)

/-- `CallObjectMethodV` calls the method for the handle and the id. -/
def Dispatches (s : JniState) (r id : Int64) (method : JMethod) : Prop :=
  ∃ object clzz, (objectOf r).run s = .ok object s ∧ (getJClass object).run s = .ok clzz s ∧
    (findMethod "object " object clzz id).run s = .ok method s

/-- What is to be expected of a handle `v` of the class of the object with the handle `r`. -/
structure ClassHandle (s : JniState) (v r : Int64) (k : ℕ) (clzz : JClass) : Prop where
  resolves : s.refs.getReference v.toInt = .ok (some k)
  /-- `GetMethodID` and `GetFieldID` return for it what they return for other handles of the
  class. -/
  methodIds : ∀ h env name signature orders, s.refs.getReference h.toInt = .ok (some k) →
    (getMethodIDInternal rt orders [env, v, name, signature]).run s =
      (getMethodIDInternal rt orders [env, h, name, signature]).run s
  fieldIds : ∀ h env name signature orders, s.refs.getReference h.toInt = .ok (some k) →
    (getFieldIdInternal rt orders [env, v, name, signature]).run s =
      (getFieldIdInternal rt orders [env, h, name, signature]).run s
  /-- The id of a method of the class leads to that method. -/
  dispatches : ∀ order name signature method, clzz.findMethod order name signature = some method →
    s.Dispatches r (register method.index) method

/-- The index of the wrapper `n` happens to be a handle of the wrapper `k`. -/
def LandsOn (s : JniState) (n k : ℕ) : Prop :=
  (1 ≤ (0xFF00 + n) % 2 ^ 32 ∧ (0xFF00 + n) % 2 ^ 32 ≤ 2049 ∧
    s.refs.locals.table.get ((0xFF00 + n) % 2 ^ 32 : ℕ) = some k) ∨
  (4096 ≤ (0xFF00 + n) % 2 ^ 32 ∧ (0xFF00 + n) % 2 ^ 32 ≤ 516096 ∧
    s.refs.globals.table.get ((0xFF00 + n) % 2 ^ 32 : ℕ) = some k)

instance : Decidable (s.LandsOn n k) := inferInstanceAs (Decidable (_ ∨ _))

theorem WellFormed.getReference_index_iff (hs : s.WellFormed) :
    s.refs.getReference (register (objectIndex n)).toInt = .ok (some k) ↔ s.LandsOn n k := by
  rw [hs.ranged.getReference_eq_some_iff, toInt_register_objectIndex, LandsOn]
  norm_cast

theorem run_getObjectClass (hr : s.refs.getReference (arg args 1).toInt = .ok (some n)) :
    (getObjectClass args).run s = .ok (.ofValue (objectIndex n)) s := by
  rw [getObjectClass, bind_of_ok (run_getReference hr)]
  rfl

/-- All handles of a class are the same to code that begins by looking the class up. -/
theorem run_castClass_bind_congr {α : Type} {h h' : Int64} {next : Option JClass → JniCode α}
    (hget : s.refs.getReference h.toInt = .ok (some k))
    (hget' : s.refs.getReference h'.toInt = .ok (some k)) (hclass : s.classAt k = some clzz) :
    (castClass h >>= next).run s = (castClass h' >>= next).run s := by
  rw [bind_of_ok (run_castClass hget hclass), bind_of_ok (run_castClass hget' hclass)]

/-- The index of a method is its key in the class. -/
theorem WellFormed.index_of_methods (hs : s.WellFormed) (hclass : s.classAt k = some clzz)
    {i : Int64} {method : JMethod} (hmethod : clzz.methods i = some method) : method.index = i := by
  obtain ⟨-, kindAt, b, hspans⟩ := hs.classes k clzz hclass
  have hfind : clzz.find .method i = some (.method method) := by
    rw [JClass.find, hmethod]
    rfl
  exact (hspans.found .method i _ hfind).1

/-- Every method is found by its name and signature if the iteration meets it first. -/
theorem findMethod_self {i : Int64} {method : JMethod} (hmethod : clzz.methods i = some method) :
    clzz.findMethod [i] method.method.name
      (AsmClass.methodSignature method.method.parameterTypes method.method.returnType) =
      some method := by
  have hmatch : method.isMatch method.method.name
      (AsmClass.methodSignature method.method.parameterTypes method.method.returnType) = true :=
    JMethod.isMatch_iff.2 ⟨rfl, rfl⟩
  rw [JClass.findMethod, JClass.firstMatch]
  simp [hmethod, hmatch]

/-- The calls that `CallObjectMethodV` makes for ids of the class are those of its methods exactly
if the ids fit into a register. -/
theorem WellFormed.dispatches_iff (hs : s.WellFormed) {r : Int64}
    (hr : s.refs.getReference r.toInt = .ok (some n)) (hobject : s.objects n = some object)
    (hk : object.jClass = some k) (hclass : s.classAt k = some clzz) :
    (∀ order name signature method, clzz.findMethod order name signature = some method →
      s.Dispatches r (register method.index) method) ↔
      ∀ i method, clzz.methods i = some method → FitsRegister i := by
  have hobjectOf : (objectOf r).run s = .ok object s := run_objectOf hr hobject
  have hgetJClass : (getJClass object).run s = .ok clzz s := by
    refine run_getJClass ?_
    rw [hk]
    exact hclass
  constructor
  · intro hall i method hmethod
    have hindex := hs.index_of_methods hclass hmethod
    obtain ⟨object', clzz', hobject', hclass', hfound⟩ := hall _ _ _ _ (findMethod_self hmethod)
    rw [hobjectOf] at hobject'
    cases hobject'
    rw [hgetJClass] at hclass'
    cases hclass'
    -- The method is found under what the register has left of its index.
    have hkey := hs.index_of_methods hclass (findMethod_eq_ok hfound).2
    rw [hindex] at hkey
    exact hkey.symm
  · intro hfits order name signature method hfind
    obtain ⟨i, hmethod, -⟩ := exists_of_bind_firstMatch hfind
    have hindex := hs.index_of_methods hclass hmethod
    have hregister : register method.index = i := by
      rw [hindex]
      exact hfits i method hmethod
    rw [hregister]
    exact ⟨object, clzz, hobjectOf, hgetJClass, run_findMethod hmethod⟩

/-- What `GetObjectClass` returns can be used like a handle of the class exactly if the index of the
object happens to be one, and the ids of the class fit into a register. -/
theorem object_class_iff (hreach : s.Reachable rt)
    (hr : s.refs.getReference (arg args 1).toInt = .ok (some n))
    (hobject : s.objects n = some object) (hk : object.jClass = some k)
    (hclass : s.classAt k = some clzz) :
    (∃ value, (getObjectClass args).run s = .ok (.ofValue value) s ∧
      ClassHandle rt s (register value) (arg args 1) k clzz) ↔
      s.LandsOn n k ∧ ∀ i method, clzz.methods i = some method → FitsRegister i := by
  have hs := hreach.wellFormed
  have hdispatches := hs.dispatches_iff hr hobject hk hclass
  constructor
  · rintro ⟨value, hrun, hhandle⟩
    rw [run_getObjectClass hr] at hrun
    cases hrun
    exact ⟨hs.getReference_index_iff.1 hhandle.resolves, hdispatches.1 hhandle.dispatches⟩
  · rintro ⟨hlands, hfits⟩
    have hresolves := hs.getReference_index_iff.2 hlands
    refine ⟨objectIndex n, run_getObjectClass hr, hresolves, ?_, ?_, hdispatches.2 hfits⟩
    · exact fun h env name signature orders hget => run_castClass_bind_congr hresolves hget hclass
    · exact fun h env name signature orders hget => run_castClass_bind_congr hresolves hget hclass

/-- An array of one `boolean`, with its class and the default constructor of that. -/
def oneArray : JniState :=
  (start (.inCall 0 1 0 0) .blank).step .idle (.call .newBooleanArray .none)

theorem reachable_oneArray : oneArray.Reachable .idle :=
  ⟨_, _, [.call .newBooleanArray .none], rfl⟩

/-- The object of the only handle, and its class. -/
theorem exists_oneArray : ∃ object clzz, oneArray.objects 2 = some object ∧
    object.jClass = some 0 ∧ oneArray.classAt 0 = some clzz :=
  ⟨_, _, rfl, rfl, rfl⟩

theorem object_class_of_array :
    ∃ object clzz, oneArray.objects 2 = some object ∧ object.jClass = some 0 ∧
      oneArray.classAt 0 = some clzz ∧
      ¬∃ value, (getObjectClass [0, 1]).run oneArray = .ok (.ofValue value) oneArray ∧
        ClassHandle .idle oneArray (register value) 1 0 clzz := by
  obtain ⟨object, clzz, hobject, hk, hclass⟩ := exists_oneArray
  refine ⟨object, clzz, hobject, hk, hclass, fun h => ?_⟩
  have hr : oneArray.refs.getReference (arg [0, 1] 1).toInt = .ok (some 2) := by decide +kernel
  have hlands := ((object_class_iff .idle reachable_oneArray hr hobject hk hclass).1 h).1
  exact absurd hlands (by decide +kernel)

/-- `GetObjectClass` of the array returns its index, which is in the range of the global table and
resolves to nothing. `GetMethodID` and `GetFieldID` throw for it. -/
theorem object_class_unusable :
    oneArray.refs.getReference 1 = .ok (some 2) ∧
      (oneArray.objects 2).map JObject.jClass = some (some 0) ∧
      outcome ((getObjectClass [0, 1]).run oneArray) = .ok (.ofValue 0xFF02) ∧
      oneArray.refs.getReference 0xFF02 = .ok none ∧
      outcome ((getMethodIDInternal .idle .none [0, 0xFF02, 0x10000, 0x10000]).run oneArray) =
        .error .nullPointer ∧
      outcome ((getFieldIdInternal .idle .none [0, 0xFF02, 0x10000, 0x10000]).run oneArray) =
        .error .nullPointer :=
  ⟨by decide +kernel, by decide +kernel, by decide +kernel, by decide +kernel, by decide +kernel,
    by decide +kernel⟩

end JniState

end Tank
