import Tank.Jenv.Wrappers

/-!
# Handles of null

In JNI the handle zero is `null`, in both directions. The functions that store an object or pass one
to a method use the value of its wrapper, and for zero there is no wrapper. In the other direction,
`genJRet` asks the object for its class, an element of an array gets a wrapper in any case, and a
method that returns `null` is taken for one without a result.

* `Receives` are the calls that get zero for an object, with what is to happen then;
* `YieldsNull` are the calls by which Java hands out `null`;
* `null_handles_iff`: zero is never accepted, and `R0` is zero after `null` only by chance.
-/

namespace Tank

open ToMathlib

/-- The object and the class that a function for members works on. -/
def JniFunction.owner (args : List Int64) : JniFunction → JniCode (JObject × JClass)
  | .setStaticObjectField | .getStaticObjectField | .callStaticObjectMethodV =>
    Jni.staticOwner (Jni.arg args 1)
  | _ => Jni.instanceOwner (Jni.arg args 1)

/-- The object that reflection gets. -/
def JniFunction.thiz : JniFunction → JObject → Option ℕ
  | .setStaticObjectField | .getStaticObjectField | .callStaticObjectMethodV => fun _ => none
  | _ => JObject.value

namespace JniState

open Jni

variable (rt : JavaRuntime) (orders : Orders) (s : JniState) (args : List Int64)

/-! ## The convention -/

/-- The parameter `i` is of a reference type and gets zero, and all such parameters get handles. -/
structure ParamZero (types : List Klass) (i : ℕ) : Prop where
  reference : ∃ type, types[i]? = some type ∧ type.isPrimitive = false
  zero : args[3 + i]? = some 0
  handles : ∀ j type, types[j]? = some type → type.isPrimitive = false →
    ∃ value ref, args[3 + j]? = some value ∧ s.HandleOf value ref

/-- `null` is passed for the parameter. -/
def PassesNull (types : List Klass) (i : ℕ) : Prop :=
  ∃ params, (readArgsV 3 args types).run s = .ok params s ∧ params[i]? = some (.ref none)

/-- The call gets zero for an object that is to be stored or passed, and what is to happen. -/
inductive Receives : JniFunction → Prop → Prop where
  | field {f : JniFunction} {object : JObject} {clzz : JClass} {field : JField}
      {target : Option ℕ} (hf : f = .setObjectField ∨ f = .setStaticObjectField)
      (howner : (f.owner args).run s = .ok (object, clzz) s)
      (hfield : clzz.fields (arg args 2) = some field)
      (htype : field.field.type.isPrimitive = false)
      (htarget : field.target rt clzz.reflected.klass s.heap object.value = .ok target)
      (hzero : arg args 3 = 0) :
      Receives f (∃ s', (f.code rt orders args).run s = .ok .noValue s' ∧
        s'.heap.fields target clzz.reflected.klass field.field = .ref none)
  | element {array : JObject} {o i : ℕ} {values : List (Option ℕ)}
      (harray : (objectArray (arg args 1)).run s = .ok (array, o, values) s)
      (hindex : (arg args 2).toInt32.toInt = i) (hlt : i < values.length)
      (hzero : arg args 3 = 0) :
      Receives .setObjectArrayElement
        (∃ s', (JniFunction.code rt orders args .setObjectArrayElement).run s = .ok .noValue s' ∧
          (s'.heap.object o).contents = .objects (values.set i none))
  | parameter {f : JniFunction} {object : JObject} {clzz : JClass} {method : JMethod} {i : ℕ}
      (hf : f = .callObjectMethodV ∨ f = .callStaticObjectMethodV)
      (howner : (f.owner args).run s = .ok (object, clzz) s)
      (hmethod : clzz.methods (arg args 2) = some method)
      (hzero : s.ParamZero args method.method.parameterTypes i) :
      Receives f (s.PassesNull args method.method.parameterTypes i)
  | constructor {n i : ℕ} {clzz : JClass} {constructor : JConstructor} {reflected : Constructor}
      (hclass : (expectClass "Expected a jclass." (arg args 1)).run s = .ok (n, clzz) s)
      (hconstructor : JniEnv.newObjectV clzz (arg args 2) = .ok constructor)
      (hreflected : constructor.constructor = some reflected)
      (hzero : s.ParamZero args reflected.parameterTypes i) :
      Receives .newObjectV (s.PassesNull args reflected.parameterTypes i)

/-- The call is one by which Java hands out `null`. -/
inductive YieldsNull : JniFunction → Prop where
  | field {f : JniFunction} {object : JObject} {clzz : JClass} {field : JField}
      (hf : f = .getObjectField ∨ f = .getStaticObjectField)
      (howner : (f.owner args).run s = .ok (object, clzz) s)
      (hfield : clzz.fields (arg args 2) = some field)
      (htype : field.field.type.isPrimitive = false)
      (hvalue : (field.getValue rt clzz.reflected.klass (f.thiz object)).run s.heap =
        .ok (.ref none) s.heap) :
      YieldsNull f
  | element {array : JObject} {o i : ℕ} {values : List (Option ℕ)}
      (harray : (objectArray (arg args 1)).run s = .ok (array, o, values) s)
      (hindex : (arg args 2).toInt32.toInt = i) (hnull : values[i]? = some none) :
      YieldsNull .getObjectArrayElement
  | method {f : JniFunction} {object : JObject} {clzz : JClass} {method : JMethod}
      {params : List JavaValue} {heap : JavaHeap}
      (hf : f = .callObjectMethodV ∨ f = .callStaticObjectMethodV)
      (howner : (f.owner args).run s = .ok (object, clzz) s)
      (hmethod : clzz.methods (arg args 2) = some method)
      (htype : method.method.returnType.isPrimitive = false)
      (hparams : (readArgsV 3 args method.method.parameterTypes).run s = .ok params s)
      (hvalue : (rt.invoke clzz.reflected.klass method.method (f.thiz object) params).run s.heap =
        .ok (.ref none) heap) :
      YieldsNull f

/-- Zero is taken for `null`. -/
def NullIn (f : JniFunction) : Prop := ∀ P, Receives rt orders s args f P → P

/-- `null` is returned as zero. -/
def NullOut (f : JniFunction) : Prop :=
  YieldsNull rt s args f → (s.call rt f orders).uc.regRead .r0 = 0

/-- The function leaves zero in `R0` for `null`: it is there already, or the handle of the wrapper
around `null` has only zeros in its lower half. -/
def LeavesZero : JniFunction → Prop
  | .getObjectArrayElement => (2 ^ 32 : ℤ) ∣ s.refs.locals.table.freeIndex
  | _ => s.uc.regRead .r0 = 0

/-! ## Zero as an argument -/

variable {rt orders s args} {object : JObject} {clzz : JClass} {f : JniFunction} {P : Prop}

/-- A parameter that gets zero cannot be read. -/
theorem readArgsFrom_zero {argv : List Int64} {types : List Klass} {offset i : ℕ} {type : Klass}
    (htype : types[i]? = some type) (href : type.isPrimitive = false)
    (hzero : argv[offset + i]? = some 0) (params : List JavaValue) (s' : JniState) :
    (readArgsFrom argv offset types).run s ≠ .ok params s' := by
  induction types generalizing offset i params s s' with
  | nil => simp at htype
  | cons head types ih =>
    intro h
    obtain ⟨value, param, rest, s₁, hvalue, hparam, hrest, -⟩ := readArgsFrom_cons_eq_ok_iff.1 h
    cases i with
    | zero =>
      -- This is the parameter.
      obtain rfl : head = type := by simpa using htype
      obtain rfl : value = 0 := by simpa [hvalue] using hzero
      rw [readArg_of_reference href, bind_of_error run_objectOf_zero] at hparam
      cases hparam
    | succ i =>
      exact ih (by simpa using htype) (by rw [Nat.add_assoc, Nat.add_comm 1 i]; exact hzero)
        rest s' hrest

theorem ParamZero.not_passesNull {types : List Klass} {i : ℕ} (h : s.ParamZero args types i) :
    ¬s.PassesNull args types i := by
  rintro ⟨params, hparams, -⟩
  obtain ⟨type, htype, href⟩ := h.reference
  exact readArgsFrom_zero htype href h.zero params s hparams

theorem run_storeField_zero {klass : Klass} {field : JField} {primitiveOwner owner : Option ℕ}
    (h : field.field.type.isPrimitive = false) :
    (storeField rt klass field primitiveOwner owner 0).run s = .error .nullPointer s := by
  rw [storeField]
  split
  next htype =>
    rw [htype] at h
    cases h
  · exact bind_of_error run_objectOf_zero

theorem run_setField_zero {owner : JniCode (JObject × JClass)} {thiz : JObject → Option ℕ}
    {field : JField} (howner : owner.run s = .ok (object, clzz) s)
    (hfield : clzz.fields (arg args 2) = some field)
    (htype : field.field.type.isPrimitive = false) (hzero : arg args 3 = 0) :
    (setField rt args owner thiz).run s = .error .nullPointer s := by
  rw [setField, bind_of_ok howner, bind_of_ok (run_findField hfield), hzero,
    bind_of_error (run_storeField_zero htype)]

theorem run_setObjectArrayElement_zero {array : JObject} {o : ℕ} {values : List (Option ℕ)}
    (harray : (objectArray (arg args 1)).run s = .ok (array, o, values) s)
    (hzero : arg args 3 = 0) :
    (setObjectArrayElement args).run s = .error .nullPointer s := by
  rw [setObjectArrayElement, bind_of_ok harray, hzero, bind_of_error run_objectOf_zero]

/-- The two functions that write fields are one, up to the owner. -/
theorem code_of_setField (hf : f = .setObjectField ∨ f = .setStaticObjectField) :
    f.code rt orders args = setField rt args (f.owner args) f.thiz := by
  rcases hf with rfl | rfl <;> rfl

/-- Zero is never accepted. -/
theorem Receives.not (h : Receives rt orders s args f P) : ¬P := by
  cases h with
  | field hf howner hfield htype htarget hzero =>
    rintro ⟨s', hrun, -⟩
    rw [code_of_setField hf, run_setField_zero howner hfield htype hzero] at hrun
    cases hrun
  | element harray hindex hlt hzero =>
    rintro ⟨s', hrun, -⟩
    rw [JniFunction.code, run_setObjectArrayElement_zero harray hzero] at hrun
    cases hrun
  | parameter hf howner hmethod hzero => exact hzero.not_passesNull
  | constructor hclass hconstructor hreflected hzero => exact hzero.not_passesNull

/-! ## Null as a result -/

theorem run_genJRet_null {type : Klass} (h : type.isPrimitive = false) :
    (genJRet rt type (.ref none)).run s = .error .nullPointer s := by
  cases type with
  | primitive type => cases h
  | ofName name => rfl
  | array type => rfl

theorem run_getField_null {owner : JniCode (JObject × JClass)} {thiz : JObject → Option ℕ}
    {field : JField} (howner : owner.run s = .ok (object, clzz) s)
    (hfield : clzz.fields (arg args 2) = some field)
    (htype : field.field.type.isPrimitive = false)
    (hvalue : (field.getValue rt clzz.reflected.klass (thiz object)).run s.heap =
      .ok (.ref none) s.heap) :
    (getField rt args owner thiz).run s = .error .nullPointer s := by
  rw [getField, bind_of_ok howner, bind_of_ok (run_findField hfield),
    bind_of_ok (run_onHeap hvalue), run_genJRet_null htype]

theorem run_callMethod_null {what : String} {owner : JniCode (JObject × JClass)}
    {thiz : JObject → Option ℕ} {method : JMethod} {params : List JavaValue} {heap : JavaHeap}
    (howner : owner.run s = .ok (object, clzz) s)
    (hmethod : clzz.methods (arg args 2) = some method)
    (hparams : (readArgsV 3 args method.method.parameterTypes).run s = .ok params s)
    (hvalue : (rt.invoke clzz.reflected.klass method.method (thiz object) params).run s.heap =
      .ok (.ref none) heap) :
    (callMethod rt args what owner thiz).run s = .ok .noValue { s with heap } := by
  rw [run_callMethod howner hmethod hparams, bind_of_ok (run_onHeap hvalue), methodResult,
    if_pos rfl]
  rfl

theorem run_getObjectArrayElement {array : JObject} {o i : ℕ} {values : List (Option ℕ)}
    (harray : (objectArray (arg args 1)).run s = .ok (array, o, values) s)
    (hindex : (arg args 2).toInt32.toInt = i) (hlt : i < values.length) :
    ∃ s', (getObjectArrayElement args).run s =
      .ok (.ofValue (Int64.ofInt s.refs.locals.table.freeIndex)) s' := by
  have hcheck : (checkIndex values (arg args 2).toInt32).run s = .ok i s := by
    rw [checkIndex, hindex, if_pos ⟨Int.natCast_nonneg i, by exact_mod_cast hlt⟩,
      Int.toNat_natCast]
    rfl
  rw [getObjectArrayElement, bind_of_ok harray, bind_of_ok hcheck]
  exact ⟨_, rfl⟩

/-- The two functions that read fields are one, up to the owner. -/
theorem code_of_getField (hf : f = .getObjectField ∨ f = .getStaticObjectField) :
    f.code rt orders args = getField rt args (f.owner args) f.thiz := by
  rcases hf with rfl | rfl <;> rfl

/-- The two functions that call methods are one, up to the owner and the text of an error. -/
theorem code_of_callMethod (hf : f = .callObjectMethodV ∨ f = .callStaticObjectMethodV) :
    ∃ what, f.code rt orders args = callMethod rt args what (f.owner args) f.thiz := by
  rcases hf with rfl | rfl
  · exact ⟨"object ", rfl⟩
  · exact ⟨"clzz ", rfl⟩

/-- What is left of a handle in a register. -/
theorem register_ofInt_eq_zero_iff (idx : ℤ) :
    register (Int64.ofInt idx) = 0 ↔ (2 ^ 32 : ℤ) ∣ idx := by
  have hzero : (0 : Int64).toInt = 0 := rfl
  have hlow : ((Int64.ofInt idx).toUInt64.toUInt32.toNat : ℤ) = idx % 2 ^ 32 := by
    have hsize : (Int64.size : ℤ) = 2 ^ 64 := rfl
    rw [UInt64.toNat_toUInt32]
    push_cast
    rw [toNat_toUInt64_emod, Int64.toInt_ofInt, Int.bmod_def, hsize]
    split <;> omega
  rw [← Int64.toInt_inj, toInt_register, hzero, hlow]
  exact Int.dvd_iff_emod_eq_zero.symm

/-- What is left in `R0` by a call that hands out `null`. -/
theorem YieldsNull.regRead_iff (h : YieldsNull rt s args f)
    (hargs : (JCallHelper.readVaArgs 12).run s.uc = .ok (some args) s.uc) :
    (s.call rt f orders).uc.regRead .r0 = 0 ↔ s.LeavesZero f := by
  cases h with
  | field hf howner hfield htype hvalue =>
    -- `genJRet` throws, and nothing is written.
    have hrun : (f.code rt orders args).run s = .error .nullPointer s := by
      rw [code_of_getField hf, run_getField_null howner hfield htype hvalue]
    rw [call_of_error rt hargs hrun]
    rcases hf with rfl | rfl <;> rfl
  | element harray hindex hnull =>
    -- The element gets a wrapper like any other, and its handle is the next free one.
    have hlt := (List.getElem?_eq_some_iff.1 hnull).1
    obtain ⟨s', hrun⟩ := run_getObjectArrayElement harray hindex hlt
    have hcode : (JniFunction.code rt orders args .getObjectArrayElement).run s =
        .ok (.ofValue (Int64.ofInt s.refs.locals.table.freeIndex)) s' := hrun
    rw [regRead_call_of_value rt hargs hcode, register_ofInt_eq_zero_iff]
    rfl
  | method hf howner hmethod htype hparams hvalue =>
    -- `null` is taken for the result of a `void` method.
    have hrun : ∃ heap, (f.code rt orders args).run s = .ok .noValue { s with heap } := by
      obtain ⟨what, hcode⟩ := code_of_callMethod hf
      rw [hcode]
      exact ⟨_, run_callMethod_null howner hmethod hparams hvalue⟩
    obtain ⟨heap, hrun⟩ := hrun
    rw [regRead_call_of_noValue rt hargs hrun]
    rcases hf with rfl | rfl <;> rfl

/-- A call keeps to the convention exactly if it gets no zero for an object, and, in case Java hands
out `null`, `R0` was zero before, or the handle of an element that is `null` is a multiple of
`2 ^ 32`. -/
theorem null_handles_iff (hargs : (JCallHelper.readVaArgs 12).run s.uc = .ok (some args) s.uc) :
    NullIn rt orders s args f ∧ NullOut rt orders s args f ↔
      (∀ P, ¬Receives rt orders s args f P) ∧ (YieldsNull rt s args f → s.LeavesZero f) := by
  refine and_congr ⟨fun hin P hP => hP.not (hin P hP), fun hno P hP => absurd hP (hno P)⟩ ?_
  exact forall_congr' fun hnull => hnull.regRead_iff hargs

/-! ## A class with links -/

/-- A class with a field, a constructor with a parameter and a method, all of its own type. -/
def linkedClass : Reflected where
  klass := .ofName .sample
  declaredFields := [⟨"next", .ofName .sample⟩]
  declaredConstructors := [⟨[]⟩, ⟨[.ofName .sample]⟩]
  declaredMethods := [⟨"next", [], .ofName .sample⟩]
  fields_lt := by decide
  constructors_lt := by decide
  methods_lt := by decide
  name_ne_init := List.forall_mem_singleton.2 (by decide)

/-- The class with handle 1, an object of it with handle 2, and an array of one object that is not
set with handle 3, whose element is about to be read. The ids of the field, of the two constructors
and of the method are the next numbers after `0xFF00`. -/
def linked : JniState :=
  [.addClass linkedClass,
    .guest (.inCall 0 0x10000 0 0), .call .findClass .none,
    .guest (.inCall 0 1 0xFF02 0), .call .newObjectV .none,
    .guest (.inCall 0 1 1 0), .call .newObjectArray .none,
    .guest (.inCall 0 3 0 0)].foldl (step .sample) (start .blank .blank)

theorem reachable_linked : linked.Reachable .sample := ⟨_, _, _, rfl⟩

theorem null_handles_unset_element :
    ∃ args, (JCallHelper.readVaArgs 12).run linked.uc = .ok (some args) linked.uc ∧
      YieldsNull .sample linked args .getObjectArrayElement ∧
      ¬(NullIn .sample .none linked args .getObjectArrayElement ∧
        NullOut .sample .none linked args .getObjectArrayElement) := by
  obtain ⟨args, hargs, -⟩ :=
    exists_args (show NativeCallHelper.argsReadable linked.uc 12 = true by decide +kernel)
  obtain ⟨-, -, harg1, harg2, -⟩ := args_of_run hargs
  have hr1 : arg args 1 = 3 := harg1.trans (by decide +kernel)
  have hr2 : arg args 2 = 0 := harg2.trans (by decide +kernel)
  have hnull : YieldsNull .sample linked args .getObjectArrayElement := by
    have hread : (outcome ((objectArray 3).run linked)).map Prod.snd = .ok (1, [none]) := by
      decide +kernel
    cases harray : (objectArray 3).run linked with
    | error e s' =>
      rw [harray] at hread
      cases hread
    | ok found s' =>
      obtain ⟨array, o, values⟩ := found
      rw [harray] at hread
      obtain ⟨rfl, rfl⟩ : o = 1 ∧ values = [none] := Prod.mk.inj (Except.ok.inj hread)
      obtain ⟨hstate, -⟩ := objectArray_eq_ok harray
      rw [hstate, ← hr1] at harray
      exact .element harray (i := 0) (by rw [hr2]; rfl) rfl
  refine ⟨args, hargs, hnull, fun h => ?_⟩
  have hzero : linked.LeavesZero .getObjectArrayElement := ((null_handles_iff hargs).1 h).2 hnull
  exact absurd hzero
    (show ¬(2 ^ 32 : ℤ) ∣ linked.refs.locals.table.freeIndex by decide +kernel)

/-- Zero is refused by `SetObjectField`, `SetObjectArrayElement` and `NewObjectV`. For `null`,
`GetObjectField` throws, `GetObjectArrayElement` returns a new handle, and `CallObjectMethodV`
leaves `R0` as it was. -/
theorem null_handle_mistaken :
    linked.Reachable .sample ∧
      outcome ((setObjectField .sample [0, 2, 0xFF01, 0]).run linked) = .error .nullPointer ∧
      outcome ((setObjectArrayElement [0, 3, 0, 0]).run linked) = .error .nullPointer ∧
      outcome ((newObjectV .sample [0, 1, 0xFF03, 0]).run linked) = .error .nullPointer ∧
      outcome ((getObjectField .sample [0, 2, 0xFF01]).run linked) = .error .nullPointer ∧
      (linked.call .sample .getObjectArrayElement .none).uc.regRead .r0 = 4 ∧
      ((linked.step .sample (.guest (.inCall 7 2 0xFF04 0))).call .sample .callObjectMethodV
        .none).uc.regRead .r0 = 7 :=
  ⟨reachable_linked, by decide +kernel, by decide +kernel, by decide +kernel, by decide +kernel,
    by decide +kernel, by decide +kernel⟩

end JniState

end Tank
