import Tank.Jenv.Wrappers

/-!
# Comparing objects

`IsSameObject` compares wrappers. What handles denote for Java is the object in the wrapper, or the
class for a `JClass`, and many wrappers may hold the same object: every function that returns an
object to native code makes a new one. Zero and a wrapper around `null` both denote `null`.

* `is_same_object_iff`: when the comparison is that of the objects;
* `same_element_differs`: an element that is read twice compares unequal to itself.
-/

namespace Tank

open ToMathlib NativeCallHelper

/-- What a handle stands for in Java. -/
inductive Denotation where
  | null
  | ofClass (klass : Klass)
  | ofObject (object : ℕ)
deriving DecidableEq

/-- What a wrapper stands for: a class, or the object that is its value. -/
def JObject.denotes (object : JObject) : Denotation :=
  match object.kind, object.value with
  | .jclass clzz, _ => .ofClass clzz.reflected.klass
  | _, some o => .ofObject o
  | _, none => .null

/-- What a Java reference stands for. -/
def Denotation.ofValue : Option ℕ → Denotation
  | some o => .ofObject o
  | none => .null

/-- A wrapper stands for its value, unless it is a class. -/
theorem JObject.ofValue_eq_denotes_iff (object : JObject) :
    .ofValue object.value = object.denotes ↔ ∀ clzz, object.kind ≠ .jclass clzz := by
  obtain ⟨kind, klass, jClass, value⟩ := object
  cases kind with
  | jclass clzz =>
    refine iff_of_false ?_ fun h => h clzz rfl
    cases value <;> exact fun h => by cases h
  | object => cases value <;> exact iff_of_true rfl fun _ h => by cases h
  | string => cases value <;> exact iff_of_true rfl fun _ h => by cases h
  | primitiveArray => cases value <;> exact iff_of_true rfl fun _ h => by cases h
  | objectArray => cases value <;> exact iff_of_true rfl fun _ h => by cases h

namespace JniState

open Jni

variable {s : JniState} {d1 d2 : Option ℕ} {r r1 r2 : Int64} {orders : Orders} {args : List Int64}
  (rt : JavaRuntime)

/-- What a reference to a wrapper stands for. -/
def denotes (s : JniState) (ref : Option ℕ) : Denotation :=
  match ref.bind s.objects with
  | some object => object.denotes
  | none => .null

/-- What a handle stands for. -/
def denotesHandle (s : JniState) (r : Int64) : Denotation :=
  match s.refs.getReference r.toInt with
  | .ok ref => s.denotes ref
  | .error _ => .null

/-- A wrapper that is handed out gets a new handle, which denotes what the wrapper stands for,
exactly if the handle is in range. -/
theorem WellFormed.handOut_iff (hs : s.WellFormed) (object : JObject) (d : Denotation) :
    (∃ h s', (handOut object).run s = .ok (.ofValue h) s' ∧ ¬s.refs.Resolves h.toInt ∧
        ∃ w, s'.refs.getReference h.toInt = .ok (some w) ∧ s'.denotes (some w) = d) ↔
      s.refs.hasRoom = true ∧ object.denotes = d := by
  have hrun : (handOut object).run s =
      .ok (.ofValue (Int64.ofInt (s.refs.addLocalReference s.made).2))
        ((s.withObject object).withLocal s.made) := rfl
  have hdenotes : ((s.withObject object).withLocal s.made).denotes (some s.made) =
      object.denotes := by
    have hobject : ((s.withObject object).withLocal s.made).objects s.made = some object :=
      objects_withObject_self s object
    rw [denotes, Option.bind_some, hobject]
  rw [hrun, ← hdenotes]
  refine Iff.trans ?_ (hs.ranged.new_handle_iff s.made
    (P := fun w => ((s.withObject object).withLocal s.made).denotes (some w) = d))
  constructor
  · rintro ⟨h', s', hok, hnew⟩
    obtain ⟨hret, rfl⟩ := EStateM.Result.ok.inj hok
    obtain rfl : Int64.ofInt (s.refs.addLocalReference s.made).2 = h' :=
      congrArg CallRet.value hret
    exact hnew
  · intro hnew
    exact ⟨_, _, rfl, hnew⟩

/-- What `IsSameObject` is to leave in `R0`. -/
def sameValue (s : JniState) (d1 d2 : Option ℕ) : Int64 :=
  if s.denotes d1 = s.denotes d2 then 1 else 0

theorem run_isSameObject (h1 : s.HandleOf (arg args 1) d1) (h2 : s.HandleOf (arg args 2) d2)
    (hne : ¬(arg args 1 = 0 ∧ arg args 2 = 0)) :
    (isSameObject args).run s = .ok (.ofValue (if d1 = d2 then 1 else 0)) s := by
  rw [isSameObject, if_neg hne, bind_of_ok (run_getReference h1.getReference),
    bind_of_ok (run_getReference h2.getReference)]
  rfl

/-- The comparison of wrappers is that of what they stand for, unless two wrappers stand for the
same. -/
theorem compare_eq_sameValue_iff :
    register (if d1 = d2 then 1 else 0) = s.sameValue d1 d2 ↔
      (s.denotes d1 = s.denotes d2 → d1 = d2) := by
  rw [sameValue]
  by_cases heq : d1 = d2
  · subst heq
    simp only [if_true]
    exact iff_of_true (by decide) fun _ => trivial
  · rw [if_neg heq]
    by_cases hsame : s.denotes d1 = s.denotes d2
    · rw [if_pos hsame]
      exact iff_of_false (by decide) fun h => heq (h hsame)
    · rw [if_neg hsame]
      exact iff_of_true (by decide) fun h => absurd h hsame

/-- For two handles, not both zero, `IsSameObject` leaves in `R0` whether they denote the same
exactly if no two wrappers are compared that denote the same. In the other cases, that is for two
zeros or if the arguments cannot be read, `R0` is not written. -/
theorem is_same_object_iff (h1 : s.HandleOf (s.uc.regRead .r1) d1)
    (h2 : s.HandleOf (s.uc.regRead .r2) d2) :
    (s.call rt .isSameObject orders).uc.regRead .r0 = s.sameValue d1 d2 ↔
      if argsReadable s.uc 12 = true ∧ ¬(s.uc.regRead .r1 = 0 ∧ s.uc.regRead .r2 = 0) then
        s.denotes d1 = s.denotes d2 → d1 = d2
      else s.uc.regRead .r0 = s.sameValue d1 d2 := by
  by_cases hread : argsReadable s.uc 12 = true
  · obtain ⟨args, hargs, -⟩ := exists_args hread
    obtain ⟨-, -, hr1, hr2, -⟩ := args_of_run hargs
    by_cases hzero : s.uc.regRead .r1 = 0 ∧ s.uc.regRead .r2 = 0
    · -- The result for two zeros is a `JRet` without a value.
      have hrun : (JniFunction.code rt orders args .isSameObject).run s = .ok .noValue s := by
        rw [JniFunction.code, isSameObject, if_pos (by rw [hr1, hr2]; exact hzero)]
        rfl
      rw [if_neg fun h => h.2 hzero, regRead_call_of_noValue rt hargs hrun]
    · have hrun : (JniFunction.code rt orders args .isSameObject).run s =
          .ok (.ofValue (if d1 = d2 then 1 else 0)) s :=
        run_isSameObject (hr1 ▸ h1) (hr2 ▸ h2) (by rw [hr1, hr2]; exact hzero)
      rw [if_pos ⟨hread, hzero⟩, regRead_call_of_value rt hargs hrun, compare_eq_sameValue_iff]
  · rw [if_neg fun h => hread h.1, call_of_not_readable rt (Bool.not_eq_true _ ▸ hread)]

/-- An array of one object, which is the array itself, with handle 2; its element was read twice and
has the handles 3 and 4. -/
def readTwice : JniState :=
  [.addClass (Mirrors.emptyClass .sample),
    .guest (.inCall 0 0x10000 0 0), .call .findClass .none,
    .guest (.inCall 0 1 1 0), .call .newObjectArray .none,
    .guest (.inCall 0 2 0 2), .call .setObjectArrayElement .none,
    .call .getObjectArrayElement .none, .call .getObjectArrayElement .none,
    .guest (.inCall 0 3 4 0)].foldl (step .sample)
      (start .blank .blank)

theorem handleOf_readTwice :
    readTwice.HandleOf (readTwice.uc.regRead .r1) (some 3) ∧
      readTwice.HandleOf (readTwice.uc.regRead .r2) (some 4) :=
  ⟨.inr ⟨3, rfl, by decide +kernel⟩, .inr ⟨4, rfl, by decide +kernel⟩⟩

/-- The two handles denote the same array, and the comparison is wrong for them. -/
theorem is_same_object_read_twice :
    readTwice.denotes (some 3) = readTwice.denotes (some 4) ∧
      (readTwice.call .sample .isSameObject .none).uc.regRead .r0 ≠
        readTwice.sameValue (some 3) (some 4) := by
  have hsame : readTwice.denotes (some 3) = readTwice.denotes (some 4) := by decide +kernel
  refine ⟨hsame, fun h => ?_⟩
  have hiff := (is_same_object_iff .sample handleOf_readTwice.1 handleOf_readTwice.2).1 h
  have hreturns : argsReadable readTwice.uc 12 = true ∧
      ¬(readTwice.uc.regRead .r1 = 0 ∧ readTwice.uc.regRead .r2 = 0) := by decide +kernel
  rw [if_pos hreturns] at hiff
  exact absurd (hiff hsame) (by decide)

/-- An element that is read twice compares unequal to itself: both handles denote the array, and
`R0` gets `JNI_FALSE`. Two zeros, which both denote `null`, leave `R0` as it was. -/
theorem same_element_differs :
    readTwice.denotes (some 3) = .ofObject 0 ∧ readTwice.denotes (some 4) = .ofObject 0 ∧
      readTwice.refs.getReference 3 = .ok (some 3) ∧
      readTwice.refs.getReference 4 = .ok (some 4) ∧
      (readTwice.call .sample .isSameObject .none).uc.regRead .r0 = 0 ∧
      ((start (.inCall 7 0 0 0) .blank).call .idle .isSameObject .none).uc.regRead .r0 = 7 :=
  ⟨by decide +kernel, by decide +kernel, by decide +kernel, by decide +kernel, by decide +kernel,
    by decide +kernel⟩

end JniState

end Tank
