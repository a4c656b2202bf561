import Tank.Jenv.ClassLoader
import Tank.Jenv.GlobalRefs
import Tank.Jenv.JniCalls
import Tank.ToMathlib.Trace

/-!
# Wrappers and handles along a run

What all runs of JNI calls keep, and what a single call does to the wrappers and the references.

* `WellFormed` is the invariant of all runs: a `JClass` that a wrapper has is one that describes it,
  and a handle is one of a wrapper.
* `code_cases` says what a function does to the references: it adds one wrapper, which its `JClass`
  describes or not, or does what one of the functions for references does.
* `Reachable.wellFormed`: the invariant holds in all states of runs.
-/

namespace Tank

open ToMathlib

/-! ## Objects with a handle -/

namespace JniEnv

variable {O : Type} {env : JniEnv O} {object : O}

/-- Some entry of the tables is the object. -/
def Holds (env : JniEnv O) (object : O) : Prop :=
  ∃ kind idx, (env.refs kind).table.get idx = some object

/-- No reference at the start. -/
theorem not_holds_create : ¬(create : JniEnv O).Holds object := by
  rintro ⟨kind, idx, hget⟩
  cases kind <;> cases hget

/-- What a handle gives is held. -/
theorem holds_of_getReference {idx : ℤ} (h : env.getReference idx = .ok (some object)) :
    env.Holds object := by
  rw [getReference] at h
  split_ifs at h
  · cases h
  · exact ⟨.locals, idx, Except.ok.inj h⟩
  · exact ⟨.globals, idx, Except.ok.inj h⟩

theorem holds_of_getLocalReference {idx : ℤ} (h : env.getLocalReference idx = some object) :
    env.Holds object := by
  rw [getLocalReference, References.resolve] at h
  split_ifs at h
  exact ⟨.locals, idx, h⟩

/-- An entry of a table that was changed is one of that table or of the other one from before. -/
theorem Holds.of_withRefs {kind : RefKind} {refs' : References O}
    (h : (env.withRefs kind refs').Holds object) :
    (∃ idx, refs'.table.get idx = some object) ∨ env.Holds object := by
  obtain ⟨kind', idx, hget⟩ := h
  cases kind <;> cases kind'
  · exact .inl ⟨idx, hget⟩
  · exact .inr ⟨.globals, idx, hget⟩
  · exact .inr ⟨.locals, idx, hget⟩
  · exact .inl ⟨idx, hget⟩

variable [DecidableEq O]

/-- A new reference holds its object. -/
theorem holds_add (env : JniEnv O) (kind : RefKind) (object : O) :
    (env.apply (.add kind object)).Holds object := by
  refine ⟨kind, (env.refs kind).table.freeIndex, ?_⟩
  rw [apply, refs_withRefs]
  exact JReferencTable.get_eq_some_iff.2 List.mem_cons_self

/-- Only what is added is new. -/
theorem Holds.of_apply {e : RefEffect O} (h : (env.apply e).Holds object) :
    env.Holds object ∨ ∃ kind, e = .add kind object := by
  cases e with
  | nothing => exact .inl h
  | add kind added =>
    rcases h.of_withRefs with ⟨idx, hget⟩ | hold
    · rcases List.mem_cons.1 (JReferencTable.get_eq_some_iff.1 hget) with heq | hmem
      · exact .inr ⟨kind, by rw [(Prod.mk.inj heq).2]⟩
      · exact .inl ⟨kind, idx, JReferencTable.get_eq_some_iff.2 hmem⟩
    · exact .inl hold
  | delete kind order key =>
    rcases h.of_withRefs with ⟨idx, hget⟩ | hold
    · exact .inl ⟨kind, idx, References.get_of_get_delete hget⟩
    · exact .inl hold

/-- A call of the functions for references gives no handle to an object without one. -/
theorem Holds.of_step {op : JniOp O} (h : (env.step op).Holds object)
    (hnew : ∀ added, op ≠ .newReference added) : env.Holds object := by
  rw [step_eq_apply] at h
  rcases h.of_apply with hold | ⟨kind, heffect⟩
  · exact hold
  · cases op with
    | newReference added => exact absurd rfl (hnew added)
    | newLocalRef refIdx =>
      rw [effect] at heffect
      split at heffect
      next hget =>
        cases heffect
        exact holds_of_getReference hget
      · cases heffect
    | newGlobalRef refIdx =>
      rw [effect] at heffect
      split at heffect
      next hget =>
        cases heffect
        exact holds_of_getLocalReference hget
      · cases heffect
    | deleteLocalRef order refIdx =>
      rw [effect] at heffect
      split_ifs at heffect
    | deleteGlobalRef order refIdx =>
      rw [effect] at heffect
      split_ifs at heffect

end JniEnv

namespace JniState

variable {s s' t u : JniState} {n k : ℕ} {object : JObject} {clzz : JClass}

/-! ## The invariant of all runs -/

/-- The wrapper's `JClass`, if it has one, describes it. -/
def Described (s : JniState) (object : JObject) : Prop :=
  ∀ k, object.jClass = some k → ∃ clzz, s.classAt k = some clzz ∧
    clzz.reflected.klass = object.klass

structure WellFormed (s : JniState) : Prop where
  bounded : ∀ n object, s.objects n = some object → n < s.made
  described : ∀ n object, s.objects n = some object → s.Described object
  /-- A `JClass` is its own, and its members are the wrappers that were made after it. -/
  classes : ∀ n clzz, s.classAt n = some clzz →
    (∃ object, s.objects n = some object ∧ object.jClass = some n ∧ object.value = none) ∧
      ∃ kindAt b, clzz.Spans kindAt n b
  names : ∀ name n, s.names name = some n → ∃ clzz, s.classAt n = some clzz
  held : ∀ n, s.refs.Holds n → ∃ object, s.objects n = some object
  ranged : s.refs.Ranged

/-- The tables are empty at the start. -/
theorem wellFormed_start (uc : Unicorn) (heap : JavaHeap) : (start uc heap).WellFormed :=
  ⟨by simp [start], by simp [start], by simp [start, classAt], by simp [start],
    fun _ h => absurd h JniEnv.not_holds_create, ⟨rfl, rfl, rfl, rfl⟩⟩

/-- There may be more wrappers, but the references are the same. -/
structure Extends (s s' : JniState) : Prop where
  refs : s'.refs = s.refs
  objects : ∀ n object, s.objects n = some object → s'.objects n = some object
  wellFormed : s'.WellFormed

theorem Extends.refl (hs : s.WellFormed) : s.Extends s := ⟨rfl, fun _ _ h => h, hs⟩

theorem Extends.trans (hst : s.Extends t) (htu : t.Extends u) : s.Extends u :=
  ⟨htu.refs.trans hst.refs, fun n object h => htu.objects n object (hst.objects n object h),
    htu.wellFormed⟩

theorem classAt_congr (h : s'.objects n = s.objects n) : s'.classAt n = s.classAt n := by
  rw [classAt, classAt, h]

theorem classAt_eq_some_iff :
    s.classAt n = some clzz ↔ ∃ object, s.objects n = some object ∧ object.kind = .jclass clzz := by
  rw [classAt]
  rcases s.objects n with - | ⟨kind, klass, jClass, value⟩
  · simp
  · cases kind <;> simp

theorem exists_of_classAt (h : s.classAt n = some clzz) : ∃ object, s.objects n = some object := by
  obtain ⟨object, hobject, -⟩ := classAt_eq_some_iff.1 h
  exact ⟨object, hobject⟩

theorem classAt_of_objects (hobjects : ∀ n object, s.objects n = some object →
    s'.objects n = some object) (h : s.classAt n = some clzz) : s'.classAt n = some clzz := by
  obtain ⟨object, hobject⟩ := exists_of_classAt h
  rw [classAt_congr ((hobjects n object hobject).trans hobject.symm), h]

theorem Extends.classAt (h : s.Extends s') (hclass : s.classAt n = some clzz) :
    s'.classAt n = some clzz :=
  classAt_of_objects h.objects hclass

/-- The invariant is not about the engine and the heap. -/
theorem Same.wellFormed (h : s.Same s') (hs : s.WellFormed) : s'.WellFormed := by
  rw [Same] at h
  rw [h]
  exact ⟨hs.bounded, hs.described, hs.classes, hs.names, hs.held, hs.ranged⟩

theorem Same.extends (h : s.Same s') (hs : s.WellFormed) : s.Extends s' := by
  have hwf := h.wellFormed hs
  rw [Same] at h
  rw [h] at hwf ⊢
  exact ⟨rfl, fun _ _ h => h, hwf⟩

/-- More wrappers leave the old ones described. -/
theorem Described.of_objects (h : s.Described object)
    (hobjects : ∀ n object, s.objects n = some object → s'.objects n = some object) :
    s'.Described object := by
  intro k hk
  obtain ⟨clzz, hclass, hklass⟩ := h k hk
  exact ⟨clzz, classAt_of_objects hobjects hclass, hklass⟩

/-- One more object in the state, with other numbers taken as well. -/
theorem WellFormed.insert (hs : s.WellFormed) {made' : ℕ} (hmade : s.made < made')
    (hdescribed : ∀ s' : JniState, (∀ n o, s.objects n = some o → s'.objects n = some o) →
      s'.objects s.made = some object → s'.Described object)
    (hclass : ∀ clzz, object.kind = .jclass clzz →
      (object.jClass = some s.made ∧ object.value = none) ∧
        ∃ kindAt b, clzz.Spans kindAt s.made b) :
    s.Extends { s with
      made := made'
      objects := Function.update s.objects s.made (some object) } := by
  set t : JniState :=
    { s with made := made', objects := Function.update s.objects s.made (some object) } with ht
  have hself : t.objects s.made = some object := Function.update_self ..
  have hne : ∀ n, n ≠ s.made → t.objects n = s.objects n := fun n h => Function.update_of_ne h ..
  have hobjects : ∀ n o, s.objects n = some o → t.objects n = some o := by
    intro n o ho
    rw [hne n (hs.bounded n o ho).ne, ho]
  -- A wrapper of the new state is the new one or one from before.
  have hcases : ∀ n o, t.objects n = some o →
      (n = s.made ∧ o = object) ∨ (n ≠ s.made ∧ s.objects n = some o) := by
    intro n o ho
    rcases eq_or_ne n s.made with rfl | h
    · rw [hself] at ho
      exact .inl ⟨rfl, (Option.some.inj ho).symm⟩
    · rw [hne n h] at ho
      exact .inr ⟨h, ho⟩
  refine ⟨rfl, hobjects, ⟨fun n o ho => ?_, fun n o ho => ?_, fun n clzz hclzz => ?_,
    fun name n hn => ?_, fun n hn => ?_, hs.ranged⟩⟩
  · rcases hcases n o ho with ⟨rfl, -⟩ | ⟨-, hold⟩
    · exact hmade
    · exact (hs.bounded n o hold).trans hmade
  · rcases hcases n o ho with ⟨rfl, rfl⟩ | ⟨-, hold⟩
    · exact hdescribed t hobjects hself
    · exact (hs.described n o hold).of_objects hobjects
  · obtain ⟨o, ho⟩ := exists_of_classAt hclzz
    rcases hcases n o ho with ⟨rfl, rfl⟩ | ⟨hn, hold⟩
    · have hkind : o.kind = .jclass clzz := by
        rw [classAt, ho] at hclzz
        obtain ⟨kind, klass, jClass, value⟩ := o
        cases kind <;> cases hclzz
        rfl
      exact ⟨⟨o, ho, (hclass clzz hkind).1⟩, (hclass clzz hkind).2⟩
    · rw [classAt_congr (hne n hn)] at hclzz
      obtain ⟨⟨o', ho', hown⟩, hspans⟩ := hs.classes n clzz hclzz
      exact ⟨⟨o', hobjects n o' ho', hown⟩, hspans⟩
  · obtain ⟨clzz, hclzz⟩ := hs.names name n hn
    exact ⟨clzz, classAt_of_objects hobjects hclzz⟩
  · obtain ⟨o, ho⟩ := hs.held n hn
    exact ⟨o, hobjects n o ho⟩

theorem objects_withObject_self (s : JniState) (object : JObject) :
    (s.withObject object).objects s.made = some object := Function.update_self ..

/-- A new wrapper that is not a class. -/
theorem WellFormed.withObject (hs : s.WellFormed) (hdescribed : s.Described object)
    (hkind : ∀ clzz, object.kind ≠ .jclass clzz) : s.Extends (s.withObject object) :=
  hs.insert (Nat.lt_succ_self _) (fun _ hobjects _ => hdescribed.of_objects hobjects)
    fun clzz h => absurd h (hkind clzz)

/-- The state with other references, to wrappers that exist. -/
theorem WellFormed.withRefs (hs : s.WellFormed) {refs' : JniEnv ℕ}
    (hheld : ∀ n, refs'.Holds n → ∃ object, s.objects n = some object)
    (hranged : refs'.Ranged) : { s with refs := refs' }.WellFormed :=
  ⟨hs.bounded, hs.described, hs.classes, hs.names, hheld, hranged⟩

/-- The wrapper's `JClass` is that of the Java object. If there is none, it is that of the class the
wrapper was made for. -/
def Knows (s : JniState) (object : JObject) : Prop :=
  ∃ clzz, object.jClass.bind s.classAt = some clzz ∧
    clzz.reflected.klass = object.value.elim object.klass fun o => (s.heap.object o).klass

/-- What is known stays known. -/
theorem Knows.of_extends (hs : s.Knows object) (h : s.Extends s')
    (hheap : ∀ o, object.value = some o → (s'.heap.object o).klass = (s.heap.object o).klass) :
    s'.Knows object := by
  obtain ⟨clzz, hclass, hklass⟩ := hs
  obtain ⟨k, hk, hclassAt⟩ := Option.bind_eq_some_iff.1 hclass
  refine ⟨clzz, Option.bind_eq_some_iff.2 ⟨k, hk, h.classAt hclassAt⟩, hklass.trans ?_⟩
  cases hvalue : object.value with
  | none => rfl
  | some o => exact (hheap o hvalue).symm

/-- A `JClass` is its own. -/
theorem WellFormed.knows_of_classAt (hs : s.WellFormed) (h : s.classAt n = some clzz) :
    ∃ object, s.objects n = some object ∧ s.Knows object := by
  obtain ⟨⟨object, hobject, hown, hvalue⟩, -⟩ := hs.classes n clzz h
  obtain ⟨clzz', hclass, hklass⟩ := hs.described n object hobject n hown
  refine ⟨object, hobject, clzz', ?_, ?_⟩
  · rw [hown]
    exact hclass
  · rw [hvalue]
    exact hklass

end JniState

/-- `Constructor.newInstance` returns an object of the class. -/
def JavaRuntime.MakesInstances (rt : JavaRuntime) : Prop :=
  ∀ klass constructor params heap o heap',
    (rt.newInstance klass constructor params).run heap = .ok o heap' →
      (heap'.object o).klass = klass

namespace JniState

variable {s s' t u : JniState} {n k : ℕ} {object : JObject} {clzz : JClass}

/-! ## What a function does -/

/-- What a function ends in: it throws, or returns without a new reference, or adds a local
reference to a wrapper. `describes` is the condition on the result under which the `JClass` of such
a wrapper describes it. -/
inductive HandsOut (rt : JavaRuntime) (describes : CallRet → Prop) (s : JniState) :
    EStateM.Result JavaException JniState CallRet → Prop where
  | throws (err : JavaException) (t : JniState) (h : s.Extends t) :
    HandsOut rt describes s (.error err t)
  | nothing (ret : CallRet) (t : JniState) (h : s.Extends t) (hret : describes ret) :
    HandsOut rt describes s (.ok ret t)
  | object (s' : JniState) (n : ℕ) (object : JObject) (ret : CallRet) (h : s.Extends s')
      (hobject : s'.objects n = some object)
      (hret : rt.MakesInstances → (describes ret ↔ s'.Knows object)) :
    HandsOut rt describes s (.ok ret (s'.withLocal n))

variable {rt : JavaRuntime} {describes : CallRet → Prop}

theorem HandsOut.of_extends {r : EStateM.Result JavaException JniState CallRet}
    (hst : s.Extends t) (h : HandsOut rt describes t r) : HandsOut rt describes s r := by
  cases h with
  | throws err u h => exact .throws err u (hst.trans h)
  | nothing ret u h hret => exact .nothing ret u (hst.trans h) hret
  | object s' n object ret h hobject hret =>
    exact .object s' n object ret (hst.trans h) hobject hret

section Rules

variable {α : Type} {m : JniCode α} {f : α → JniCode CallRet}

/-- The first part of a function makes no reference. -/
theorem HandsOut.bind (hm : s.Extends (finalState (m.run s)))
    (hf : ∀ a s', m.run s = .ok a s' → s.Extends s' → HandsOut rt describes s' ((f a).run s')) :
    HandsOut rt describes s ((m >>= f).run s) := by
  cases hrun : m.run s with
  | error err s' =>
    rw [hrun] at hm
    rw [bind_of_error hrun]
    exact .throws err s' hm
  | ok a s' =>
    rw [hrun] at hm
    rw [bind_of_ok hrun]
    exact .of_extends hm (hf a s' hrun hm)

/-- The first part of a function leaves wrappers and references alone. -/
theorem HandsOut.bind_same (hs : s.WellFormed) (hm : Keeps Same m)
    (hf : ∀ a s', m.run s = .ok a s' → s.Extends s' → HandsOut rt describes s' ((f a).run s')) :
    HandsOut rt describes s ((m >>= f).run s) :=
  .bind ((hm s).extends hs) hf

/-- The whole function leaves wrappers and references alone. -/
theorem HandsOut.of_same {m : JniCode CallRet} (hs : s.WellFormed) (hm : Keeps Same m)
    (hret : ∀ ret t, m.run s = .ok ret t → describes ret) : HandsOut rt describes s (m.run s) := by
  have hext := (hm s).extends hs
  cases hrun : m.run s with
  | error err t =>
    rw [hrun] at hext
    exact .throws err t hext
  | ok ret t =>
    rw [hrun] at hext
    exact .nothing ret t hext (hret ret t hrun)

/-- Code that throws hands nothing out. -/
theorem HandsOut.throw (hs : s.WellFormed) (err : JavaException) :
    HandsOut rt describes s ((throw err : JniCode CallRet).run s) :=
  .throws err s (.refl hs)

/-- A condition that says the same. -/
theorem HandsOut.congr {describes' : CallRet → Prop}
    {r : EStateM.Result JavaException JniState CallRet} (h : HandsOut rt describes s r)
    (hiff : ∀ ret, describes ret ↔ describes' ret) : HandsOut rt describes' s r := by
  have heq : describes = describes' := funext fun ret => propext (hiff ret)
  rwa [heq] at h

end Rules

/-- A new wrapper is handed out at the end of a function. -/
theorem handsOut_handOut (hs : s.WellFormed) (hdescribed : s.Described object)
    (hkind : ∀ clzz, object.kind ≠ .jclass clzz)
    (hret : rt.MakesInstances → ((∀ ret : CallRet, ret.hasReturn = true → describes ret) ∧
      (s.withObject object).Knows object) ∨
      ((∀ ret : CallRet, ret.hasReturn = true → ¬describes ret) ∧
        ¬(s.withObject object).Knows object)) :
    HandsOut rt describes s ((Jni.handOut object).run s) := by
  refine .object (s.withObject object) s.made object _ (hs.withObject hdescribed hkind)
    (objects_withObject_self s object) fun hrt => ?_
  rcases hret hrt with ⟨hdescribes, hknows⟩ | ⟨hdescribes, hknows⟩
  · exact iff_of_true (hdescribes _ rfl) hknows
  · exact iff_of_false (hdescribes _ rfl) hknows

/-- A wrapper with the `JClass` of its class describes an object of that class. -/
theorem knows_withObject_iff (hs : s.WellFormed) (hclass : s.classAt k = some clzz) (kind : JKind)
    (hkind : ∀ clzz, kind ≠ .jclass clzz) (o : ℕ) :
    (s.withObject ⟨kind, clzz.reflected.klass, some k, some o⟩).Knows
        ⟨kind, clzz.reflected.klass, some k, some o⟩ ↔
      clzz.reflected.klass = (s.heap.object o).klass := by
  have hdescribed : s.Described ⟨kind, clzz.reflected.klass, some k, some o⟩ := by
    intro k' hk'
    cases hk'
    exact ⟨clzz, hclass, rfl⟩
  have hclass' := (hs.withObject hdescribed hkind).classAt hclass
  constructor
  · rintro ⟨clzz', hclzz', hklass⟩
    cases hclass'.symm.trans hclzz'
    exact hklass
  · exact fun hklass => ⟨clzz, hclass', hklass⟩

end JniState

namespace Jni

open JniState

variable {s : JniState} (rt : JavaRuntime) (args : List Int64)

/-! ### Which objects are described -/

/-- The field of a call has a primitive type. -/
def FieldPrimitive (s : JniState) (owner : JniCode (JObject × JClass)) : Prop :=
  ∀ object clzz s' field, owner.run s = .ok (object, clzz) s' →
    clzz.fields (arg args 2) = some field → field.field.type.isPrimitive = true

/-- The method of a call returns a primitive value, or nothing. -/
def MethodPrimitive (s : JniState) (owner : JniCode (JObject × JClass)) : Prop :=
  ∀ object clzz s' method, owner.run s = .ok (object, clzz) s' →
    clzz.methods (arg args 2) = some method → method.method.returnType.isPrimitive = true

/-- The array of a call has a `JClass`, which is that of the element, if that is not `null`. -/
def ElementOfClass (s : JniState) : Prop :=
  ∀ array o values s', (objectArray (arg args 1)).run s = .ok (array, o, values) s' →
    ∃ clzz, array.jClass.bind s.classAt = some clzz ∧
      ∀ element, values.getD (arg args 2).toInt32.toInt.toNat none = some element →
        clzz.reflected.klass = (s.heap.object element).klass

/-- The class of a call is `Object[]`, which is the class of all arrays that are made. -/
def ClassIsArray (s : JniState) : Prop :=
  ∀ k clzz s', (expectClass "Except a class" (arg args 2)).run s = .ok (k, clzz) s' →
    clzz.reflected.klass = .objectArray

end Jni

/-- The condition under which a function, if it returns with this result, has handed out no object
that its `JClass` does not describe. -/
def JniFunction.Describes (s : JniState) (args : List Int64) (ret : CallRet) : JniFunction → Prop
  | .newString | .newBooleanArray => False
  | .getObjectField => Jni.FieldPrimitive args s (Jni.instanceOwner (Jni.arg args 1))
  | .getStaticObjectField => Jni.FieldPrimitive args s (Jni.staticOwner (Jni.arg args 1))
  | .callObjectMethodV =>
    ret.hasReturn = false ∨ Jni.MethodPrimitive args s (Jni.instanceOwner (Jni.arg args 1))
  | .callStaticObjectMethodV =>
    ret.hasReturn = false ∨ Jni.MethodPrimitive args s (Jni.staticOwner (Jni.arg args 1))
  | .newObjectArray => Jni.ClassIsArray args s
  | .getObjectArrayElement => Jni.ElementOfClass args s
  | _ => True

namespace Jni

open JniState

variable {s : JniState} (rt : JavaRuntime) (args : List Int64)

/-- A wrapper without a `JClass`. -/
theorem handsOut_unclassed {describes : CallRet → Prop} (hs : s.WellFormed) (kind : JKind)
    (klass : Klass) (value : Option ℕ) (hkind : ∀ clzz, kind ≠ .jclass clzz)
    (hret : ∀ ret : CallRet, ret.hasReturn = true → ¬describes ret) :
    HandsOut rt describes s ((handOut ⟨kind, klass, none, value⟩).run s) := by
  refine handsOut_handOut hs (fun _ hk => absurd hk (Option.some_ne_none _).symm) hkind
    fun _ => .inr ⟨hret, ?_⟩
  rintro ⟨clzz, hclass, -⟩
  cases hclass

/-- A wrapper with a `JClass`, which is that of the object or not. -/
theorem handsOut_classed {describes : CallRet → Prop} (hs : s.WellFormed) {k : ℕ} {clzz : JClass}
    (hclass : s.classAt k = some clzz) (kind : JKind) (o : ℕ)
    (hkind : ∀ clzz, kind ≠ .jclass clzz)
    (hret : rt.MakesInstances → ∀ ret : CallRet, ret.hasReturn = true →
      (describes ret ↔ clzz.reflected.klass = (s.heap.object o).klass)) :
    HandsOut rt describes s
      ((handOut ⟨kind, clzz.reflected.klass, some k, some o⟩).run s) := by
  refine handsOut_handOut hs (fun k' hk' => ?_) hkind fun hrt => ?_
  · cases hk'
    exact ⟨clzz, hclass, rfl⟩
  · rw [knows_withObject_iff hs hclass kind hkind o]
    by_cases hklass : clzz.reflected.klass = (s.heap.object o).klass
    · exact .inl ⟨fun ret hvalue => (hret hrt ret hvalue).2 hklass, hklass⟩
    · exact .inr ⟨fun ret hvalue h => hklass ((hret hrt ret hvalue).1 h), hklass⟩

theorem handsOut_genJRet {describes : CallRet → Prop} (hs : s.WellFormed) (type : Klass)
    (value : JavaValue)
    (hret : ∀ ret : CallRet, ret.hasReturn = true → (describes ret ↔ type.isPrimitive = true)) :
    HandsOut rt describes s ((genJRet rt type value).run s) := by
  unfold genJRet
  split
  next htype =>
    refine .bind_same hs (.getOrThrow _) fun n s₁ _ h₁ => ?_
    exact .nothing _ _ (.refl h₁.wellFormed) ((hret _ rfl).2 htype)
  next htype =>
    split
    · refine .bind_same hs (fun _ => rfl) fun _ s' _ hext => ?_
      exact handsOut_unclassed rt hext.wellFormed .object _ _ (fun _ => by simp)
        fun ret hvalue h => htype ((hret ret hvalue).1 h)
    · exact .throw hs _

theorem handsOut_methodResult (hs : s.WellFormed) (type : Klass) (value : JavaValue) :
    HandsOut rt (fun ret => ret.hasReturn = false ∨ type.isPrimitive = true) s
      ((methodResult rt type value).run s) := by
  unfold methodResult
  split
  · exact .nothing _ _ (.refl hs) (.inl rfl)
  · refine handsOut_genJRet rt hs type value fun ret hvalue => ?_
    rw [hvalue]
    simp

/-- `NewString` hands a string out. -/
theorem handsOut_newString (hs : s.WellFormed) :
    HandsOut rt (fun _ => False) s ((newString rt args).run s) := by
  refine .bind_same hs (same_onUc _) fun bb s₁ _ h₁ => ?_
  refine .bind_same h₁.wellFormed (same_onHeap _) fun str s₂ _ h₂ => ?_
  exact handsOut_unclassed rt h₂.wellFormed .string _ _ (fun _ => by simp) fun _ _ h => h

theorem handsOut_getField (hs : s.WellFormed) {owner : JniCode (JObject × JClass)}
    (howner : Keeps Same owner) (thiz : JObject → Option ℕ) :
    HandsOut rt (fun _ => FieldPrimitive args s owner) s ((getField rt args owner thiz).run s) := by
  refine .bind_same hs howner fun found s₁ hfound h₁ => ?_
  obtain ⟨object, clzz⟩ := found
  refine .bind_same h₁.wellFormed (same_findField _ _ _) fun field s₂ hfield h₂ => ?_
  refine .bind_same h₂.wellFormed (same_onHeap _) fun value s₃ _ h₃ => ?_
  obtain ⟨-, hfield⟩ := findField_eq_ok hfield
  -- The field that is found is the only one that the condition speaks of.
  refine handsOut_genJRet rt h₃.wellFormed _ _ fun ret _ => ⟨fun h => ?_, ?_⟩
  · exact h object clzz s₁ field hfound hfield
  · rintro htype object' clzz' s' field' hfound' hfield'
    cases hfound.symm.trans hfound'
    cases hfield.symm.trans hfield'
    exact htype

theorem handsOut_callMethod (hs : s.WellFormed) (what : String)
    {owner : JniCode (JObject × JClass)} (howner : Keeps Same owner)
    (thiz : JObject → Option ℕ) :
    HandsOut rt (fun ret => ret.hasReturn = false ∨ MethodPrimitive args s owner) s
      ((callMethod rt args what owner thiz).run s) := by
  refine .bind_same hs howner fun found s₁ hfound h₁ => ?_
  obtain ⟨object, clzz⟩ := found
  refine .bind_same h₁.wellFormed (same_findMethod _ _ _ _) fun method s₂ hmethod h₂ => ?_
  refine .bind_same h₂.wellFormed (same_readArgsV _ _ _) fun params s₃ _ h₃ => ?_
  refine .bind_same h₃.wellFormed (same_onHeap _) fun value s₄ _ h₄ => ?_
  obtain ⟨-, hmethod⟩ := findMethod_eq_ok hmethod
  refine (handsOut_methodResult rt h₄.wellFormed _ _).congr fun ret => or_congr_right ⟨?_, ?_⟩
  · rintro htype object' clzz' s' method' hfound' hmethod'
    cases hfound.symm.trans hfound'
    cases hmethod.symm.trans hmethod'
    exact htype
  · exact fun h => h object clzz s₁ method hfound hmethod

theorem same_setField {owner : JniCode (JObject × JClass)} (howner : Keeps Same owner)
    (thiz : JObject → Option ℕ) : Keeps Same (setField rt args owner thiz) :=
  Keeps.bind howner fun _ => Keeps.bind (same_findField _ _ _) fun _ =>
    Keeps.bind (same_storeField _ _ _ _ _ _) fun _ => .pure _

/-- `FindClass` hands a class out. -/
theorem handsOut_findClass (hs : s.WellFormed) :
    HandsOut rt (fun _ => True) s ((findClass rt args).run s) := by
  refine .bind_same hs (same_onUc _) fun name s₁ _ h₁ => ?_
  split
  · exact .throw h₁.wellFormed _
  · refine .bind_same h₁.wellFormed (fun _ => rfl) fun t s₂ hget h₂ => ?_
    cases hget
    split
    next n hn =>
      obtain ⟨clzz, hclass⟩ := h₁.wellFormed.names name n hn
      obtain ⟨object, hobject, hknows⟩ := h₁.wellFormed.knows_of_classAt hclass
      exact .object _ n object _ h₂ hobject fun _ => iff_of_true trivial hknows
    · exact .nothing _ _ (.refl h₁.wellFormed) trivial

/-- `NewObjectV` hands an instance out. -/
theorem handsOut_newObjectV (hs : s.WellFormed) :
    HandsOut rt (fun _ => True) s ((newObjectV rt args).run s) := by
  refine .bind_same hs (same_expectClass _ _) fun found s₁ hfound h₁ => ?_
  obtain ⟨n, clzz⟩ := found
  obtain ⟨rfl, -, hclass⟩ := expectClass_eq_ok hfound
  refine .bind_same h₁.wellFormed (.getOrThrow _) fun constructor s₂ _ h₂ => ?_
  split
  · exact .throw h₂.wellFormed _
  · refine .bind_same h₂.wellFormed (same_readArgsV _ _ _) fun cargs s₃ _ h₃ => ?_
    refine .bind_same h₃.wellFormed (same_onHeap _) fun newInstance s₄ hnew h₄ => ?_
    have hclass' := ((h₂.trans h₃).trans h₄).classAt hclass
    refine handsOut_classed rt h₄.wellFormed hclass' .object _ (fun _ => by simp) fun hrt _ _ => ?_
    obtain ⟨heap, hheap, rfl⟩ := onHeap_eq_ok hnew
    exact iff_of_true trivial (hrt _ _ _ _ _ _ hheap).symm

theorem handsOut_newObjectArray (hs : s.WellFormed) :
    HandsOut rt (fun _ => ClassIsArray args s) s ((newObjectArray args).run s) := by
  refine .bind_same hs (same_expectClass _ _) fun found s₁ hfound h₁ => ?_
  obtain ⟨n, clzz⟩ := found
  obtain ⟨rfl, -, hclass⟩ := expectClass_eq_ok hfound
  dsimp only
  split
  · exact .throw h₁.wellFormed _
  · refine .bind_same h₁.wellFormed (same_onHeap _) fun value s₂ hnew h₂ => ?_
    refine handsOut_classed rt h₂.wellFormed (h₂.classAt hclass) .objectArray _ (fun _ => by simp)
      fun _ _ _ => ?_
    obtain ⟨heap, hheap, rfl⟩ := onHeap_eq_ok hnew
    rw [JavaHeap.klass_new hheap]
    constructor
    · exact fun h => h n clzz _ hfound
    · rintro hklass k clzz' s' hfound'
      cases hfound.symm.trans hfound'
      exact hklass

/-- An element gets the `JClass` of the array, if that has one. -/
theorem handsOut_getObjectArrayElement (hs : s.WellFormed) :
    HandsOut rt (fun _ => ElementOfClass args s) s ((getObjectArrayElement args).run s) := by
  refine .bind_same hs (same_objectArray _) fun found s₁ hfound h₁ => ?_
  obtain ⟨array, o, values⟩ := found
  obtain ⟨rfl, ⟨n, hget, harray⟩, -⟩ := objectArray_eq_ok hfound
  refine .bind_same hs (same_checkIndex _ _) fun i s₂ hindex h₂ => ?_
  obtain ⟨rfl, rfl⟩ := checkIndex_eq_ok hindex
  set element : JObject := ⟨.object, array.klass, array.jClass,
    values.getD (arg args 2).toInt32.toInt.toNat none⟩ with helement
  have hkind : ∀ clzz, element.kind ≠ .jclass clzz := fun _ => by simp [helement]
  have hdescribed : s₂.Described element := hs.described n array harray
  have hext := hs.withObject hdescribed hkind
  refine handsOut_handOut hs hdescribed hkind fun _ => ?_
  have hiff : ElementOfClass args s₂ ↔ (s₂.withObject element).Knows element := by
    constructor
    · intro h
      obtain ⟨clzz, hclass, hklass⟩ := h array o values s₂ hfound
      obtain ⟨k, hk, hclassAt⟩ := Option.bind_eq_some_iff.1 hclass
      refine ⟨clzz, Option.bind_eq_some_iff.2 ⟨k, hk, hext.classAt hclassAt⟩, ?_⟩
      cases hvalue : values.getD (arg args 2).toInt32.toInt.toNat none with
      | none =>
        obtain ⟨clzz', hclassAt', hklass'⟩ := hs.described n array harray k hk
        cases hclassAt.symm.trans hclassAt'
        rw [helement, hvalue]
        exact hklass'
      | some o' =>
        rw [helement, hvalue]
        exact hklass o' hvalue
    · rintro ⟨clzz, hclass, hklass⟩ array' o' values' s' hfound'
      cases hfound.symm.trans hfound'
      obtain ⟨k, hk, hclassAt⟩ := Option.bind_eq_some_iff.1 hclass
      obtain ⟨clzz', hclassAt', -⟩ := hs.described n array harray k hk
      cases (hext.classAt hclassAt').symm.trans hclassAt
      refine ⟨clzz, Option.bind_eq_some_iff.2 ⟨k, hk, hclassAt'⟩, fun o' hvalue => ?_⟩
      rw [helement, hvalue] at hklass
      exact hklass
  by_cases h : ElementOfClass args s₂
  · exact .inl ⟨fun _ _ => h, hiff.1 h⟩
  · exact .inr ⟨fun _ _ => h, fun hknows => h (hiff.2 hknows)⟩

/-! ### New classes -/

theorem made_mirrors (s : JniState) : s.mirrors.Made s.made := ⟨rfl, rfl⟩

theorem newClass_spec (hs : s.WellFormed) (reflected : Reflected) :
    s.Extends (finalState ((newClass reflected).run s)) ∧
      ∀ n s', (newClass reflected).run s = .ok n s' →
        ∃ clzz, s'.classAt n = some clzz ∧ clzz.reflected = reflected := by
  obtain ⟨clzz, mirrors, made', hcreate, hmade, -, -, hspans, -, -⟩ :=
    run_create reflected (made_mirrors s)
  obtain ⟨clzz', mirrors', hcreate', hreflected, -, -, -⟩ :=
    Mirrors.run_create_maps reflected s.mirrors
  -- Both lemmas are about the same run.
  rw [hcreate] at hcreate'
  cases hcreate'
  subst hreflected
  have hlength : mirrors.created.length = made' := by
    rw [hmade.created, List.length_map, List.length_range]
  have hself : ∀ s' : JniState, s'.objects s.made =
      some ⟨.jclass clzz, clzz.reflected.klass, some s.made, none⟩ →
      s'.classAt s.made = some clzz := by
    intro s' hobject
    rw [classAt, hobject]
  have hrun : (newClass clzz.reflected).run s = .ok s.made
      { s with
        made := mirrors.created.length
        objects := Function.update s.objects s.made
          (some ⟨.jclass clzz, clzz.reflected.klass, some s.made, none⟩) } := by
    simp only [EStateM.run] at hcreate
    simp only [EStateM.run, newClass, hcreate]
  rw [hrun]
  obtain ⟨kindAt, hspans⟩ := hspans
  refine ⟨hs.insert ?_ (fun s' _ hobject k hk => ?_) fun clzz' hkind => ?_, fun n s' h => ?_⟩
  · rw [hlength]
    exact hspans.lt
  · cases hk
    exact ⟨clzz, hself s' hobject, rfl⟩
  · cases hkind
    exact ⟨⟨rfl, rfl⟩, kindAt, made', hspans⟩
  · cases h
    exact ⟨clzz, hself _ (Function.update_self ..), rfl⟩

theorem handsOut_newBooleanArray (hs : s.WellFormed) :
    HandsOut rt (fun _ => False) s ((newBooleanArray args).run s) := by
  obtain ⟨hext, hclass⟩ := newClass_spec hs booleanClass
  refine .bind hext fun n s₁ hrun h₁ => ?_
  obtain ⟨clzz, hclzz, hreflected⟩ := hclass n s₁ hrun
  have hklass : Klass.primitive .boolean = clzz.reflected.klass := by rw [hreflected]; rfl
  dsimp only
  split
  · refine .throws _ _ (h₁.wellFormed.withObject (fun k hk => ?_) fun _ => by simp)
    cases hk
    exact ⟨clzz, hclzz, hklass.symm⟩
  · refine .bind_same h₁.wellFormed (same_onHeap _) fun value s₂ hnew h₂ => ?_
    obtain ⟨heap, hheap, rfl⟩ := onHeap_eq_ok hnew
    rw [hklass]
    refine handsOut_classed rt h₂.wellFormed (h₂.classAt hclzz) .primitiveArray _ (fun _ => by simp)
      fun _ _ _ => iff_of_false not_false ?_
    -- The class is that of the elements.
    rw [JavaHeap.klass_new hheap, ← hklass]
    simp

end Jni

/-! ## Calls -/

namespace JniState

open Jni

variable {s s' t : JniState} (rt : JavaRuntime)

/-- The function does what one of the functions for references does. -/
def Refers (s t : JniState) : Prop :=
  ∃ op, (∀ n, op ≠ .newReference n) ∧ t = { s with refs := s.refs.step op }

theorem refers_onRefs (s : JniState) (op : JniOp ℕ) (hnew : ∀ n, op ≠ .newReference n) :
    s.Refers (finalState ((do
      let ref ← onRefs op.code
      pure (ofHandle ref) : JniCode CallRet).run s)) := by
  refine ⟨op, hnew, ?_⟩
  rw [finalState_bind_pure]
  simp only [EStateM.run, onRefs, JniEnv.step]
  split
  next hrun => rw [hrun]; rfl
  next hrun => rw [hrun]; rfl

/-- What a function does to the references. -/
theorem code_cases (hs : s.WellFormed) (f : JniFunction) (orders : Orders) (args : List Int64) :
    ((∀ ret, f.Describes s args ret) ∧
        s.Refers (finalState ((f.code rt orders args).run s))) ∨
      HandsOut rt (fun ret => f.Describes s args ret) s ((f.code rt orders args).run s) := by
  have hsame {m : JniCode CallRet} (hm : Keeps Same m) :
      HandsOut rt (fun _ => True) s (m.run s) := .of_same hs hm fun _ _ _ => trivial
  -- The functions for references come down to a step of the tables, others hand out an object at
  -- the end, and the rest touches the engine and the heap only.
  cases f with
  | findClass => exact .inr (handsOut_findClass rt args hs)
  | newGlobalRef =>
    exact .inl ⟨fun _ => trivial, refers_onRefs s (.newGlobalRef _) (fun _ => by simp)⟩
  | deleteGlobalRef =>
    exact .inl ⟨fun _ => trivial,
      refers_onRefs s (.deleteGlobalRef orders.indices _) (fun _ => by simp)⟩
  | deleteLocalRef =>
    exact .inl ⟨fun _ => trivial,
      refers_onRefs s (.deleteLocalRef orders.indices _) (fun _ => by simp)⟩
  | newLocalRef =>
    exact .inl ⟨fun _ => trivial, refers_onRefs s (.newLocalRef _) (fun _ => by simp)⟩
  | isSameObject =>
    refine .inr (hsame ?_)
    rw [JniFunction.code, isSameObject]
    split
    · exact .pure _
    · exact Keeps.bind (same_getReference _) fun _ => Keeps.bind (same_getReference _) fun _ =>
        .pure _
  | newObjectV => exact .inr (handsOut_newObjectV rt args hs)
  | getObjectClass =>
    refine .inr (hsame (Keeps.bind (same_getReference _) fun ref => ?_))
    cases ref with
    | none => exact .throw _
    | some n => exact .pure _
  | isInstanceOf =>
    exact .inr (hsame (Keeps.bind (same_getReference _) fun _ =>
      Keeps.bind (same_getReference _) fun _ => Keeps.bind (same_dereference _) fun _ =>
      Keeps.bind (same_dereference _) fun _ => Keeps.bind (same_getJClass _) fun _ =>
      Keeps.bind (same_getJClass _) fun _ => .pure _))
  | getMethodID =>
    refine .inr (hsame (Keeps.bind (same_castClass _) fun clzz =>
      Keeps.bind (same_onUc _) fun _ => Keeps.bind (same_onUc _) fun _ => ?_))
    cases clzz with
    | none => exact .throw _
    | some clzz => exact .pure _
  | getFieldID =>
    refine .inr (hsame (Keeps.bind (same_castClass _) fun clzz =>
      Keeps.bind (same_onUc _) fun _ => Keeps.bind (same_onUc _) fun _ => ?_))
    cases clzz with
    | none => exact .throw _
    | some clzz => exact .pure _
  | callObjectMethodV =>
    exact .inr (handsOut_callMethod rt args hs "object " (same_instanceOwner (arg args 1))
      JObject.value)
  | getObjectField =>
    exact .inr (handsOut_getField rt args hs (same_instanceOwner (arg args 1)) JObject.value)
  | setObjectField =>
    exact .inr (hsame (same_setField rt args (same_instanceOwner (arg args 1)) JObject.value))
  | callStaticObjectMethodV =>
    exact .inr (handsOut_callMethod rt args hs "clzz " (same_staticOwner (arg args 1))
      fun _ => none)
  | getStaticObjectField =>
    exact .inr (handsOut_getField rt args hs (same_staticOwner (arg args 1)) fun _ => none)
  | setStaticObjectField =>
    exact .inr (hsame (same_setField rt args (same_staticOwner (arg args 1)) fun _ => none))
  | newString => exact .inr (handsOut_newString rt args hs)
  | getArrayLength => exact .inr (hsame (Keeps.bind (same_objectArray _) fun _ => .pure _))
  | newObjectArray => exact .inr (handsOut_newObjectArray rt args hs)
  | getObjectArrayElement => exact .inr (handsOut_getObjectArrayElement rt args hs)
  | setObjectArrayElement =>
    have hset : ∀ o i value, Keeps Same
        (modify fun s => { s with heap := s.heap.setElement o i value } : JniCode PUnit) :=
      fun _ _ _ _ => rfl
    exact .inr (hsame (Keeps.bind (same_objectArray _) fun _ =>
      Keeps.bind (same_objectOf _) fun _ => Keeps.bind (same_checkIndex _ _) fun _ =>
      Keeps.bind (hset _ _ _) fun _ => .pure _))
  | newBooleanArray => exact .inr (handsOut_newBooleanArray rt args hs)
  | notImplemented => exact .inr (hsame (.throw _))

/-- The end of a call differs from the end of its function in the engine only. -/
theorem call_cases (s : JniState) (f : JniFunction) (orders : Orders) :
    s.Same (s.call rt f orders) ∨ ∃ args s₁, s.Same s₁ ∧
      (finalState ((f.code rt orders args).run s₁)).Same (s.call rt f orders) := by
  rw [call]
  split
  · exact .inl rfl
  next args uc hargs =>
    refine .inr ⟨args.getD [], { s with uc }, rfl, ?_⟩
    split
    next hrun =>
      rw [hrun]
      exact Std.Refl.refl _
    next ret s' hrun =>
      rw [hrun]
      split
      · exact rfl
      · exact Std.Refl.refl _

/-- A call of the functions for references keeps the state well-formed. -/
theorem Refers.wellFormed (hs : s.WellFormed) (h : s.Refers t) : t.WellFormed := by
  obtain ⟨op, hnew, rfl⟩ := h
  refine hs.withRefs (fun m hm => hs.held m (hm.of_step hnew)) ?_
  rw [JniEnv.step_eq_apply]
  exact hs.ranged.apply _

theorem holds_withLocal {n m : ℕ} (hm : (s.withLocal n).refs.Holds m) :
    s.refs.Holds m ∨ m = n := by
  have hm' : (s.refs.apply (.add .locals n)).Holds m := hm
  rcases hm'.of_apply with hold | ⟨kind, heq⟩
  · exact .inl hold
  · cases heq
    exact .inr rfl

/-- A reference to a wrapper that exists. -/
theorem WellFormed.withLocal (hs : s.WellFormed) {n : ℕ} {object : JObject}
    (hobject : s.objects n = some object) : (s.withLocal n).WellFormed := by
  refine hs.withRefs (fun m hm => ?_) (hs.ranged.apply (.add .locals n))
  rcases holds_withLocal hm with hold | rfl
  · exact hs.held m hold
  · exact ⟨object, hobject⟩

theorem HandsOut.wellFormed {rt : JavaRuntime} {describes : CallRet → Prop}
    {r : EStateM.Result JavaException JniState CallRet} (h : HandsOut rt describes s r) :
    (finalState r).WellFormed := by
  cases h with
  | throws err t h => exact h.wellFormed
  | nothing ret t h hret => exact h.wellFormed
  | object s' n object ret h hobject hret => exact h.wellFormed.withLocal hobject

/-- A registered class is one more wrapper, without a reference. -/
theorem WellFormed.addClass (hs : s.WellFormed) (reflected : Reflected) :
    s.Extends (finalState ((addClass reflected).run s)) := by
  obtain ⟨hext, hclass⟩ := newClass_spec hs reflected
  rw [JniState.addClass]
  refine finalState_bind_cases (P := fun t => s.Extends t) (fun err s' hrun => ?_)
    fun n s' hrun => ?_
  · rwa [hrun] at hext
  · rw [hrun] at hext
    obtain ⟨clzz, hclzz, -⟩ := hclass n s' hrun
    have hwf := hext.wellFormed
    have hmodify : ∀ g : JniState → JniState,
        finalState ((modify g : JniCode PUnit).run s') = g s' := fun _ => rfl
    rw [hmodify]
    split
    · exact hext
    · -- The name leads to the new class, the other names are as before.
      refine ⟨hext.refs, hext.objects, hwf.bounded, hwf.described, hwf.classes,
        fun name m hm => ?_, hwf.held, hwf.ranged⟩
      dsimp only at hm
      rcases eq_or_ne name (AsmClass.getType reflected.klass) with rfl | hne
      · rw [Function.update_self] at hm
        cases hm
        exact ⟨clzz, hclzz⟩
      · rw [Function.update_of_ne hne] at hm
        exact hwf.names name m hm

theorem Same.refs (h : s.Same s') : s'.refs = s.refs := by
  rw [Same] at h
  rw [h]

/-- Every event keeps the invariant. -/
theorem WellFormed.step (hs : s.WellFormed) (event : JniEvent) : (s.step rt event).WellFormed := by
  cases event with
  | call f orders =>
    rcases call_cases rt s f orders with hsame | ⟨args, s₁, hsame, hend⟩
    · exact hsame.wellFormed hs
    · have hs₁ := hsame.wellFormed hs
      refine hend.wellFormed ?_
      rcases code_cases rt hs₁ f orders args with ⟨-, hrefers⟩ | hout
      · exact hrefers.wellFormed hs₁
      · exact hout.wellFormed
  | addClass reflected => exact (hs.addClass reflected).wellFormed
  | guest uc =>
    have hsame : s.Same (s.step rt (.guest uc)) := rfl
    exact hsame.wellFormed hs
  | java heap =>
    have hsame : s.Same (s.step rt (.java heap)) := rfl
    exact hsame.wellFormed hs

/-- The states of runs. -/
def Reachable (s : JniState) : Prop :=
  ∃ uc heap, ∃ events : List JniEvent, events.foldl (JniState.step rt) (start uc heap) = s

/-- The invariant holds in every run. -/
theorem Reachable.wellFormed (h : s.Reachable rt) : s.WellFormed := by
  obtain ⟨uc, heap, events, rfl⟩ := h
  exact foldl_invariant (I := WellFormed) (H := fun _ _ => True)
    (fun s event hs _ => hs.step rt event) (wellFormed_start uc heap) fun _ _ => trivial

/-! ## Handles -/

/-- The handle is zero, or a live one of a wrapper. -/
def HandleOf (s : JniState) (r : Int64) (ref : Option ℕ) : Prop :=
  (r = 0 ∧ ref = none) ∨ ∃ n, ref = some n ∧ s.refs.getReference r.toInt = .ok (some n)

theorem HandleOf.getReference {r : Int64} {ref : Option ℕ} (h : s.HandleOf r ref) :
    s.refs.getReference r.toInt = .ok ref := by
  rcases h with ⟨rfl, rfl⟩ | ⟨n, rfl, hget⟩
  · rfl
  · exact hget

/-! ## New handles -/

end JniState

namespace JniEnv

variable {O : Type} {env : JniEnv O}

/-- The next local handle is in range. -/
def hasRoom (env : JniEnv O) : Bool := env.locals.table.inRange env.locals.table.freeIndex

/-- A new local handle is one of its object if it is in range. The others are what they were. -/
theorem Ranged.getReference_addLocalReference (h : Ranged env) (ref : O) (idx : ℤ) :
    (env.addLocalReference ref).1.getReference idx =
      if idx = env.locals.table.freeIndex ∧ env.hasRoom = true then .ok (some ref)
      else env.getReference idx := by
  have hpos : 1 ≤ env.locals.table.freeIndex := by
    have hle : env.locals.table.start ≤ env.locals.table.freeIndex := le_firstFree _ _
    rwa [h.localStart] at hle
  have hget : (env.addLocalReference ref).1.locals.table.get idx =
      if idx = env.locals.table.freeIndex then some ref else env.locals.table.get idx := by
    have hcons : (env.addLocalReference ref).1.locals.table.get idx =
        List.lookup idx ((env.locals.table.freeIndex, ref) :: env.locals.table.tables) := rfl
    rw [hcons, List.lookup_cons]
    by_cases heq : idx = env.locals.table.freeIndex
    · rw [if_pos heq, beq_iff_eq.2 heq]
    · rw [if_neg heq, beq_eq_false_iff_ne.2 heq]
      rfl
  have hrange : (env.addLocalReference ref).1.locals.table.inRange idx =
      env.locals.table.inRange idx := rfl
  have hglobals : (env.addLocalReference ref).1.globals = env.globals := rfl
  rw [getReference, hrange, hget, hglobals]
  by_cases heq : idx = env.locals.table.freeIndex
  · have hne : env.locals.table.freeIndex ≠ 0 := by omega
    subst heq
    by_cases hroom : env.locals.table.inRange env.locals.table.freeIndex = true
    · simp only [hasRoom, hne, hroom, and_self, if_true, if_false]
    · simp only [getReference, hasRoom, hne, hroom, Bool.false_eq_true, and_false, if_false]
  · simp only [heq, false_and, if_false, getReference]

/-- The next local handle is not in use yet. -/
theorem not_resolves_freeIndex (hroom : env.hasRoom = true) (hpos : 0 < env.locals.table.start) :
    ¬env.Resolves env.locals.table.freeIndex := by
  rintro ⟨object, hobject⟩
  have hbounds := JReferencTable.inRange_iff.1 hroom
  have hfree : env.locals.table.freeIndex ∉ env.locals.table.keys := firstFree_notMem _ _
  rw [hasRoom] at hroom
  rw [getReference, if_neg (by omega), if_pos hroom] at hobject
  exact hfree (JReferencTable.mem_keys_iff.2 ⟨object, Except.ok.inj hobject⟩)

/-- A handle in range is not changed by being made a `long`. -/
theorem Ranged.toInt_ofInt_freeIndex (h : Ranged env) (hroom : env.hasRoom = true) :
    (Int64.ofInt env.locals.table.freeIndex).toInt = env.locals.table.freeIndex := by
  have hbounds := JReferencTable.inRange_iff.1 hroom
  rw [h.localStart, h.localSize] at hbounds
  exact Int64.toInt_ofInt_of_le (by omega) (by omega)

/-- A new handle that was not in use is one of the object exactly if it is in range. -/
theorem Ranged.new_handle_iff (h : Ranged env) (ref : O) {P : O → Prop} :
    (¬env.Resolves (Int64.ofInt (env.addLocalReference ref).2).toInt ∧ ∃ object,
        (env.addLocalReference ref).1.getReference
          (Int64.ofInt (env.addLocalReference ref).2).toInt = .ok (some object) ∧ P object) ↔
      env.hasRoom = true ∧ P ref := by
  have hidx : (env.addLocalReference ref).2 = env.locals.table.freeIndex := rfl
  rw [hidx, h.getReference_addLocalReference]
  constructor
  · rintro ⟨hnot, object, hget, hobject⟩
    split_ifs at hget with hnew
    · cases hget
      exact ⟨hnew.2, hobject⟩
    · exact absurd ⟨object, hget⟩ hnot
  · rintro ⟨hroom, href⟩
    have hpos : 0 < env.locals.table.start := h.start_pos .locals
    rw [h.toInt_ofInt_freeIndex hroom, if_pos ⟨rfl, hroom⟩]
    exact ⟨not_resolves_freeIndex hroom hpos, ref, rfl, href⟩

end JniEnv

namespace JniState

variable {s : JniState}

/-- The handle of an object that had none is one of it exactly if it is in range. -/
theorem WellFormed.getReference_made_iff (hs : s.WellFormed) :
    (s.refs.addLocalReference s.made).1.getReference
        (Int64.ofInt (s.refs.addLocalReference s.made).2).toInt = .ok (some s.made) ↔
      s.refs.hasRoom = true := by
  have hidx : (s.refs.addLocalReference s.made).2 = s.refs.locals.table.freeIndex := rfl
  rw [hidx, hs.ranged.getReference_addLocalReference]
  constructor
  · intro hget
    split_ifs at hget with hnew
    · exact hnew.2
    · -- No wrapper has the next number.
      obtain ⟨object, hobject⟩ := hs.held _ (JniEnv.holds_of_getReference hget)
      exact absurd (hs.bounded _ _ hobject) (Nat.lt_irrefl _)
  · intro hroom
    rw [hs.ranged.toInt_ofInt_freeIndex hroom, if_pos ⟨rfl, hroom⟩]

end JniState

end Tank
