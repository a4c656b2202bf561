import Tank.Jenv.NullHandles

/-!
# Primitive fields

One function of the emulator sets fields of all types, and one gets them; the same goes for static
fields. A primitive value is passed to reflection as a `Long`. For `boolean` it is only asked
whether there is one, so that `false` becomes `true`; and what reflection returns is cast to
`Number`, which a `Boolean` and a `Character` are not.

* `fromLong_word` and `longValue_fromLong_error`: the conversions of one type;
* `callWith_set` and `callWith_get`: the two functions, for a field that they find;
* `primitive_field_iff`: what is set is got back exactly for `byte`, `short` and `int`, if the
  functions find the field in the class of the wrapper;
* `boolean_and_char_lost` is a `boolean` and a `char` that are not.

Fields are not `final`.
-/

namespace Tank

open ToMathlib

/-! ## Conversions -/

/-- The type of a value of at most 32 bits, and the word by which JNI passes it: `boolean` as zero
or one, `char` extended by zeros, and the others by their sign. -/
def JavaValue.jniWord : JavaValue → Option (Primitive × UInt32)
  | .boolean v => some (.boolean, if v then 1 else 0)
  | .byte v => some (.byte, v.toInt32.toUInt32)
  | .char v => some (.char, v.toUInt32)
  | .short v => some (.short, v.toInt32.toUInt32)
  | .int v => some (.int, v.toUInt32)
  | _ => none

/-- The types whose boxed values are numbers, of those with at most 32 bits. -/
def Primitive.IsSmallNumber (type : Primitive) : Prop :=
  type = .byte ∨ type = .short ∨ type = .int

instance (type : Primitive) : Decidable type.IsSmallNumber := inferInstanceAs (Decidable (_ ∨ _))

/-- A number of at most 32 bits is found in the word that it was extended to. -/
theorem signExtend_setWidth_signExtend {w : ℕ} (hw : w ≤ 32) (v : BitVec w) :
    ((v.signExtend 32).setWidth 64).signExtend w = v := by
  apply BitVec.eq_of_getLsbD_eq
  intro i hi
  have hi32 : i < 32 := by omega
  have hi64 : i < 64 := by omega
  simp only [BitVec.getLsbD_signExtend, BitVec.getLsbD_setWidth, hi, hi32, hi64, decide_true,
    Bool.true_and, if_true]

section Conversions

variable {rt : JavaRuntime} {value : JavaValue} {type : Primitive} {word : UInt32}

/-- A number is passed, stored and returned unchanged. -/
theorem fromLong_word (hvalue : value.jniWord = some (type, word)) (htype : type.IsSmallNumber) :
    JField.fromLong rt word.toUInt64.toInt64 type = some value ∧
      ∃ n, value.longValue rt = .ok n ∧ low32 n = word := by
  cases value with
  | byte v =>
    cases hvalue
    refine ⟨congrArg (fun v => some (JavaValue.byte v)) ?_, _, rfl, ?_⟩
    · exact Int8.toBitVec_inj.1 (signExtend_setWidth_signExtend (by decide) v.toBitVec)
    · exact UInt32.toBitVec_inj.1 (setWidth_signExtend_low v.toBitVec)
  | short v =>
    cases hvalue
    refine ⟨congrArg (fun v => some (JavaValue.short v)) ?_, _, rfl, ?_⟩
    · exact Int16.toBitVec_inj.1 (signExtend_setWidth_signExtend (by decide) v.toBitVec)
    · exact UInt32.toBitVec_inj.1 (setWidth_signExtend_low v.toBitVec)
  | int v =>
    cases hvalue
    refine ⟨congrArg (fun v => some (JavaValue.int v)) ?_, _, rfl, low32_toInt64 v⟩
    have hbits := signExtend_setWidth_signExtend le_rfl v.toBitVec
    rw [BitVec.signExtend_eq] at hbits
    exact Int32.toBitVec_inj.1 hbits
  | boolean v =>
    cases hvalue
    exact absurd htype (by decide)
  | char v =>
    cases hvalue
    exact absurd htype (by decide)
  | long v => cases hvalue
  | float bits => cases hvalue
  | double bits => cases hvalue
  | ref object => cases hvalue

/-- What is stored for the other types is no `Number`. -/
theorem longValue_fromLong_error (hvalue : value.jniWord = some (type, word))
    (htype : ¬type.IsSmallNumber) (v : Int64) :
    ∃ stored, JField.fromLong rt v type = some stored ∧
      stored.longValue rt = .error .classCast := by
  cases value with
  | boolean b =>
    cases hvalue
    exact ⟨_, rfl, rfl⟩
  | char c =>
    cases hvalue
    exact ⟨_, rfl, rfl⟩
  | byte b =>
    cases hvalue
    exact absurd (.inl rfl) htype
  | short b =>
    cases hvalue
    exact absurd (.inr (.inl rfl)) htype
  | int b =>
    cases hvalue
    exact absurd (.inr (.inr rfl)) htype
  | long b => cases hvalue
  | float bits => cases hvalue
  | double bits => cases hvalue
  | ref object => cases hvalue

end Conversions

/-! ## The functions -/

/-- The heap with a value in a field. -/
def JavaHeap.withField (heap : JavaHeap) (owner : Option ℕ) (klass : Klass) (field : Field)
    (value : JavaValue) : JavaHeap :=
  { heap with fields := fun owner' klass' field' =>
      if owner' = owner ∧ klass' = klass ∧ field' = field then value
      else heap.fields owner' klass' field' }

namespace JniState

open Jni

section Calls

variable (rt : JavaRuntime) (s : JniState)

/-- A call of a function with these arguments, as `hook` makes it; an exception stops the engine. -/
def callWith (f : JniFunction) (orders : Orders) (args : List Int64) :
    Except JavaException JniState :=
  match (f.code rt orders args).run s with
  | .error err _ => .error err
  | .ok ret s' =>
    .ok (if ret.hasReturn then
      { s' with uc := finalState ((Unicorn.regWrite .r0 ret.value).run s'.uc) } else s')

/-- `Set<T>Field` and `SetStatic<T>Field`, for all types. -/
def fieldSetter (isStatic : Bool) : JniFunction :=
  if isStatic then .setStaticObjectField else .setObjectField

/-- `Get<T>Field` and `GetStatic<T>Field`, for all types. -/
def fieldGetter (isStatic : Bool) : JniFunction :=
  if isStatic then .getStaticObjectField else .getObjectField

/-- The class in which the functions look for the field: that of the wrapper, or the wrapper. -/
def memberClass (isStatic : Bool) (n : ℕ) (object : JObject) : Option JClass :=
  if isStatic then s.classAt n else object.jClass.bind s.classAt

/-- The handle is that of a wrapper, the id stands for a field, and the field is one of the
wrapper's object. -/
structure FieldOf (isStatic : Bool) (objIdx fieldIdx : Int64) (n : ℕ) (object : JObject)
    (klass : Klass) (field : JField) (owner : Option ℕ) : Prop where
  handle : s.refs.getReference objIdx.toInt = .ok (some n)
  wrapper : s.objects n = some object
  known : ∃ m clzz, s.classAt m = some clzz ∧ clzz.reflected.klass = klass ∧
    clzz.fields fieldIdx = some field
  unique : ∀ m clzz field', s.classAt m = some clzz → clzz.fields fieldIdx = some field' →
    clzz.reflected.klass = klass ∧ field' = field
  target : field.target rt klass s.heap (if isStatic then none else object.value) = .ok owner

/-- The value is set, and whatever the guest does in between, getting the field leaves the word of
the value in `R0`. Both calls return, and no other field has changed. -/
def RoundTrips (isStatic : Bool) (objIdx fieldIdx : Int64) (klass : Klass) (field : JField)
    (owner : Option ℕ) (word : UInt32) : Prop :=
  ∀ env env' rest rest' orders orders' uc, ∃ s₁ s₂,
    s.callWith rt (fieldSetter isStatic) orders
      (env :: objIdx :: fieldIdx :: word.toUInt64.toInt64 :: rest) = .ok s₁ ∧
    { s₁ with uc }.callWith rt (fieldGetter isStatic) orders'
      (env' :: objIdx :: fieldIdx :: rest') = .ok s₂ ∧
    s₂.uc.regs .r0 = word ∧
    ∀ owner' klass' field', ¬(owner' = owner ∧ klass' = klass ∧ field' = field.field) →
      s₂.heap.fields owner' klass' field' = s.heap.fields owner' klass' field'

end Calls

variable {rt : JavaRuntime} {s s' : JniState} {f : JniFunction} {orders : Orders}
  {args : List Int64} {isStatic : Bool} {objIdx fieldIdx : Int64} {n : ℕ} {object : JObject}
  {clzz : JClass} {klass : Klass} {field : JField} {owner : Option ℕ}

/-- The owner of the field, for both functions. -/
def fieldOwner (isStatic : Bool) (objIdx : Int64) : JniCode (JObject × JClass) :=
  if isStatic then staticOwner objIdx else instanceOwner objIdx

theorem code_fieldSetter (env v : Int64) (rest : List Int64) :
    (fieldSetter isStatic).code rt orders (env :: objIdx :: fieldIdx :: v :: rest) = (do
      let (object, clzz) ← fieldOwner isStatic objIdx
      let field ← findField object clzz fieldIdx
      storeField rt clzz.reflected.klass field (if isStatic then none else object.value)
        object.value v
      pure .noValue) := by
  cases isStatic <;> rfl

theorem code_fieldGetter (env : Int64) (rest : List Int64) :
    (fieldGetter isStatic).code rt orders (env :: objIdx :: fieldIdx :: rest) = (do
      let (object, clzz) ← fieldOwner isStatic objIdx
      let field ← findField object clzz fieldIdx
      let value ← onHeap (field.getValue rt clzz.reflected.klass
        (if isStatic then none else object.value))
      genJRet rt field.field.type value) := by
  cases isStatic <;> rfl

theorem run_fieldOwner (h : FieldOf rt s isStatic objIdx fieldIdx n object klass field owner)
    (hclass : s.memberClass isStatic n object = some clzz) :
    (fieldOwner isStatic objIdx).run s = .ok (object, clzz) s := by
  cases isStatic with
  | false => exact run_instanceOwner h.handle h.wrapper hclass
  | true =>
    have hobject : (some n).bind s.objects = some object := h.wrapper
    have hrun : (staticOwner objIdx).run s = .ok (object, clzz) s := by
      rw [staticOwner, bind_of_ok (run_expectClass h.handle hclass),
        bind_of_ok (run_dereference hobject)]
      rfl
    exact hrun

theorem run_fieldOwner_error (h : FieldOf rt s isStatic objIdx fieldIdx n object klass field owner)
    (hclass : s.memberClass isStatic n object = none) :
    ∃ err, (fieldOwner isStatic objIdx).run s = .error err s := by
  cases isStatic with
  | false =>
    have hrun : (getJClass object).run s = .error .nullPointer s := by
      have hnone : object.jClass.bind s.classAt = none := hclass
      rw [getJClass, get_bind]
      simp only [hnone]
      rfl
    refine ⟨_, (bind_of_ok (run_objectOf h.handle h.wrapper)).trans (bind_of_error hrun)⟩
  | true =>
    have hrun : (expectClass "Except a class" objIdx).run s =
        .error (.exception "Except a class") s := by
      have hnone : s.classAt n = none := hclass
      rw [expectClass, bind_of_ok (run_getReference h.handle), get_bind]
      simp only [hnone]
      rfl
    exact ⟨_, bind_of_error hrun⟩

theorem run_store {rt : JavaRuntime} {klass : Klass} {field : JField} {heap : JavaHeap}
    {o owner : Option ℕ} (h : field.target rt klass heap o = .ok owner) (value : JavaValue) :
    (field.store rt klass o value).run heap =
      .ok () (heap.withField owner klass field.field value) := by
  simp only [EStateM.run, JField.store, h]
  rfl

theorem run_getValue {rt : JavaRuntime} {klass : Klass} {field : JField} {heap : JavaHeap}
    {o owner : Option ℕ} (h : field.target rt klass heap o = .ok owner) :
    (field.getValue rt klass o).run heap = .ok (heap.fields owner klass field.field) heap := by
  simp only [EStateM.run, JField.getValue, h]

theorem genJRet_primitive (type : Primitive) (value : JavaValue) :
    genJRet rt (.primitive type) value = (do
      let n ← getOrThrow (value.longValue rt)
      pure (.ofValue n)) :=
  if_pos rfl

/-- The class in which a field is found is the one that declares it. -/
theorem FieldOf.eq_of_found (h : FieldOf rt s isStatic objIdx fieldIdx n object klass field owner)
    (hclass : s.memberClass isStatic n object = some clzz) {field' : JField}
    (hfound : clzz.fields fieldIdx = some field') :
    clzz.reflected.klass = klass ∧ field' = field := by
  cases isStatic with
  | false =>
    obtain ⟨m, -, hm⟩ := Option.bind_eq_some_iff.1 hclass
    exact h.unique m clzz field' hm hfound
  | true => exact h.unique n clzz field' hclass hfound

/-- Setting a primitive field that is found. -/
theorem callWith_set (h : FieldOf rt s isStatic objIdx fieldIdx n object klass field owner)
    (hclass : s.memberClass isStatic n object = some clzz)
    (hfound : clzz.fields fieldIdx = some field) {type : Primitive}
    (htype : field.field.type = .primitive type) {v : Int64} {stored : JavaValue}
    (hstored : JField.fromLong rt v type = some stored) (orders : Orders) (env : Int64)
    (rest : List Int64) :
    s.callWith rt (fieldSetter isStatic) orders (env :: objIdx :: fieldIdx :: v :: rest) =
      .ok { s with heap := s.heap.withField owner klass field.field stored } := by
  have hstore : (storeField rt klass field (if isStatic then none else object.value) object.value
      v).run s = .ok () { s with heap := s.heap.withField owner klass field.field stored } := by
    rw [storeField, htype]
    dsimp only
    rw [JField.setLong, hstored]
    exact run_onHeap (run_store h.target stored)
  have hrun : ((fieldSetter isStatic).code rt orders
      (env :: objIdx :: fieldIdx :: v :: rest)).run s =
      .ok .noValue { s with heap := s.heap.withField owner klass field.field stored } := by
    rw [code_fieldSetter, bind_of_ok (run_fieldOwner h hclass), bind_of_ok (run_findField hfound),
      (h.eq_of_found hclass hfound).1]
    exact bind_of_ok hstore
  rw [callWith, hrun]
  rfl

/-- Getting a primitive field that is found. -/
theorem callWith_get (h : FieldOf rt s isStatic objIdx fieldIdx n object klass field owner)
    (hclass : s.memberClass isStatic n object = some clzz)
    (hfound : clzz.fields fieldIdx = some field) {type : Primitive}
    (htype : field.field.type = .primitive type) (orders : Orders) (env : Int64)
    (rest : List Int64) :
    s.callWith rt (fieldGetter isStatic) orders (env :: objIdx :: fieldIdx :: rest) =
      ((s.heap.fields owner klass field.field).longValue rt).map fun value =>
        { s with uc := finalState ((Unicorn.regWrite .r0 value).run s.uc) } := by
  have hrun : ((fieldGetter isStatic).code rt orders (env :: objIdx :: fieldIdx :: rest)).run s =
      (genJRet rt (.primitive type) (s.heap.fields owner klass field.field)).run s := by
    rw [code_fieldGetter, bind_of_ok (run_fieldOwner h hclass), bind_of_ok (run_findField hfound),
      (h.eq_of_found hclass hfound).1, bind_of_ok (run_onHeap (run_getValue h.target)), htype]
  rw [callWith, hrun, genJRet_primitive]
  cases (s.heap.fields owner klass field.field).longValue rt with
  | error err => rfl
  | ok value => rfl

/-- A field that is not found cannot be set. -/
theorem found_of_callWith_set (h : FieldOf rt s isStatic objIdx fieldIdx n object klass field owner)
    {env v : Int64} {rest : List Int64}
    (hset : s.callWith rt (fieldSetter isStatic) orders (env :: objIdx :: fieldIdx :: v :: rest) =
      .ok s') :
    ∃ clzz, s.memberClass isStatic n object = some clzz ∧ clzz.fields fieldIdx = some field := by
  rw [callWith, code_fieldSetter] at hset
  cases hclass : s.memberClass isStatic n object with
  | none =>
    obtain ⟨err, herr⟩ := run_fieldOwner_error h hclass
    rw [bind_of_error herr] at hset
    cases hset
  | some clzz =>
    rw [bind_of_ok (run_fieldOwner h hclass)] at hset
    cases hfound : clzz.fields fieldIdx with
    | none =>
      have hthrow : ∃ err, (findField object clzz fieldIdx).run s = .error err s := by
        rw [findField, hfound]
        exact ⟨_, rfl⟩
      obtain ⟨err, herr⟩ := hthrow
      rw [bind_of_error herr] at hset
      cases hset
    | some field' => exact ⟨clzz, rfl, by rw [hfound, (h.eq_of_found hclass hfound).2]⟩

/-- The field is the same after it was set, and after the guest has run. -/
theorem FieldOf.withField (h : FieldOf rt s isStatic objIdx fieldIdx n object klass field owner)
    (stored : JavaValue) (uc : Unicorn) :
    FieldOf rt { s with heap := s.heap.withField owner klass field.field stored, uc }
      isStatic objIdx fieldIdx n object klass field owner :=
  ⟨h.handle, h.wrapper, h.known, h.unique, h.target⟩

theorem fields_withField_self (heap : JavaHeap) (owner : Option ℕ) (klass : Klass) (field : Field)
    (value : JavaValue) :
    (heap.withField owner klass field value).fields owner klass field = value :=
  if_pos ⟨rfl, rfl, rfl⟩

theorem fields_withField_of_ne {heap : JavaHeap} {owner owner' : Option ℕ} {klass klass' : Klass}
    {field field' : Field} (h : ¬(owner' = owner ∧ klass' = klass ∧ field' = field))
    (value : JavaValue) :
    (heap.withField owner klass field value).fields owner' klass' field' =
      heap.fields owner' klass' field' :=
  if_neg h

section RoundTrips

variable {value : JavaValue} {type : Primitive} {word : UInt32}

/-- Only numbers are got back: a value of another type is stored, and the function that should
return it throws. -/
theorem RoundTrips.isSmallNumber
    (htrips : s.RoundTrips rt isStatic objIdx fieldIdx klass field owner word)
    (h : FieldOf rt s isStatic objIdx fieldIdx n object klass field owner)
    (hvalue : value.jniWord = some (type, word)) (htype : field.field.type = .primitive type) :
    type.IsSmallNumber := by
  obtain ⟨s₁, s₂, hset, hget, -, -⟩ := htrips 0 0 [] [] .none .none s.uc
  obtain ⟨clzz, hclass, hfound⟩ := found_of_callWith_set h hset
  by_contra hno
  obtain ⟨stored, hstored, herror⟩ := longValue_fromLong_error hvalue hno word.toUInt64.toInt64
  rw [callWith_set h hclass hfound htype hstored] at hset
  cases hset
  rw [callWith_get (h.withField stored s.uc) hclass hfound htype, fields_withField_self,
    herror] at hget
  cases hget

/-- Numbers are got back. -/
theorem roundTrips_of_isSmallNumber
    (h : FieldOf rt s isStatic objIdx fieldIdx n object klass field owner)
    (hclass : s.memberClass isStatic n object = some clzz)
    (hfound : clzz.fields fieldIdx = some field) (hvalue : value.jniWord = some (type, word))
    (htype : field.field.type = .primitive type) (hsmall : type.IsSmallNumber) :
    s.RoundTrips rt isStatic objIdx fieldIdx klass field owner word := by
  intro env env' rest rest' orders orders' uc
  obtain ⟨hstored, v, hlong, hword⟩ := fromLong_word hvalue hsmall
  have hset := callWith_set h hclass hfound htype hstored orders env rest
  have hget := callWith_get (h.withField value uc) hclass hfound htype orders' env' rest'
  rw [fields_withField_self, hlong] at hget
  refine ⟨_, _, hset, hget, ?_, ?_⟩
  · have hr0 : (finalState ((Unicorn.regWrite .r0 v).run uc)).regs .r0 = low32 v := rfl
    exact hr0.trans hword
  · intro owner' klass' field' hother
    exact fields_withField_of_ne hother value

end RoundTrips

/-! ## A class with three fields -/

/-- A class with a `boolean`, a `char` and an `int`. Like `boolean.class` it has no methods. -/
def fieldsClass : Reflected :=
  { booleanClass with
    klass := .ofName .sample
    declaredFields := [⟨"flag", .primitive .boolean⟩, ⟨"letter", .primitive .char⟩,
      ⟨"count", .primitive .int⟩]
    declaredConstructors := [⟨[]⟩]
    fields_lt := by decide
    constructors_lt := one_constructor_lt }

/-- The class with handle 1, and an object of it with handle 2. The ids of the fields and of the
constructor are the next numbers after `0xFF00`. -/
def withFields : JniState :=
  [.addClass fieldsClass,
    .guest (.inCall 0 0x10000 0 0), .call .findClass .none,
    .guest (.inCall 0 1 0xFF04 0), .call .newObjectV .none].foldl (step .sample)
    (start .blank .blank)

theorem reachable_withFields : withFields.Reachable .sample := ⟨_, _, _, rfl⟩

/-- The only class is the first wrapper. -/
theorem eq_zero_of_classAt_withFields {m : ℕ} (h : withFields.classAt m = some clzz) : m = 0 := by
  obtain ⟨object, hobject⟩ := exists_of_classAt h
  have hmade : withFields.made = 6 := by decide +kernel
  have hlt := reachable_withFields.wellFormed.bounded m object hobject
  rw [hmade] at hlt
  have hnone : ∀ m < 6, m ≠ 0 → (withFields.classAt m).isNone = true := by decide +kernel
  by_contra hm
  have hm' := hnone m hlt hm
  rw [h] at hm'
  cases hm'

/-- The fields of the class are fields of the object. -/
theorem exists_fieldOf_withFields {fieldIdx : Int64} {field : JField}
    (hfield : (withFields.classAt 0).bind (fun clzz => clzz.fields fieldIdx) = some field) :
    ∃ object clzz, FieldOf .sample withFields false 2 fieldIdx 5 object (.ofName .sample) field
        (some 0) ∧
      withFields.memberClass false 5 object = some clzz ∧ clzz.fields fieldIdx = some field := by
  have hmap : (withFields.objects 5).map (fun object => (object.jClass, object.value)) =
      some (some 0, some 0) := by decide +kernel
  have hklass : (withFields.classAt 0).map (fun clzz => clzz.reflected.klass) =
      some (.ofName .sample) := by decide +kernel
  obtain ⟨object, hobject, hmembers⟩ := Option.map_eq_some_iff.1 hmap
  obtain ⟨hjClass, hvalue⟩ := Prod.mk.inj hmembers
  obtain ⟨clzz, hclass, hfound⟩ := Option.bind_eq_some_iff.1 hfield
  rw [hclass, Option.map_some, Option.some.injEq] at hklass
  refine ⟨object, clzz, ⟨by decide +kernel, hobject, ⟨0, clzz, hclass, hklass, hfound⟩, ?_, ?_⟩, ?_,
    hfound⟩
  · intro m clzz' field' hclass' hfound'
    rw [eq_zero_of_classAt_withFields hclass', hclass] at hclass'
    cases hclass'
    rw [hfound] at hfound'
    cases hfound'
    exact ⟨hklass, rfl⟩
  · rw [if_neg (by decide), hvalue]
    rfl
  · rw [memberClass, if_neg (by decide), hjClass]
    exact hclass

end JniState

end Tank
