import Tank.Helper.HookArgs
import Tank.Helper.MemoryHelper
import Tank.Hook.Hookers
import Tank.Jenv.JavaHeap
import Tank.Jenv.JniEnv
import Tank.Jenv.MemberIds

/-!
# Calls of JNI functions

Native code calls the JNI functions of `JniEnv` through the stubs of `JHandler`. The functions see
Java objects through wrappers: a `JObject` has the class it was made for, its `JClass`, and the Java
object itself as its value. Handles stand for wrappers. Wrappers are compared by identity and are
numbers here, in the order in which they are made; the number determines the index (`objectIndex`).

A call reads twelve arguments, runs the function, and puts its result into `R0`, unless the function
returns without a value. An exception stops the engine (`JniState.call`).

The functions for strings and arrays of `boolean`, `ToReflectedMethod`, `ExceptionClear`,
`RegisterNatives` and `GetJavaVM` make no wrappers and leave the references alone. They are among
the events that leave the engine or the heap in any state, as does guest code between two calls.
Some of them are in modules of their own, `BooleanArrays`, `NativeMemory` and `RegisterNatives`; the
addresses that `RegisterNatives` sets in a `JClass` are not read by the functions here. Java code
that is called does not call native code again.
-/

namespace Tank

open ToMathlib

/-! ## Wrappers -/

/-- `JObject` and its subclasses. -/
inductive JKind where
  | object
  | jclass (clzz : JClass)
  | string
  | primitiveArray
  | objectArray

/-- `JObject`. -/
structure JObject where
  kind : JKind
  klass : Klass
  /-- The number of its `JClass`; `none` is `null`. -/
  jClass : Option ℕ
  value : Option ℕ

/-- The emulator, as far as JNI functions are concerned. -/
structure JniState where
  uc : Unicorn
  heap : JavaHeap
  /-- The number of wrappers that were made. -/
  made : ℕ
  objects : ℕ → Option JObject
  /-- `classes2` of the `JClassLoader`. -/
  names : String → Option ℕ
  refs : JniEnv ℕ

/-- Code of the JNI functions. -/
abbrev JniCode := EStateM JavaException JniState

namespace JniState

/-- The `JClass` with a number. -/
def classAt (s : JniState) (n : ℕ) : Option JClass :=
  match s.objects n with
  | some ⟨.jclass clzz, _, _, _⟩ => some clzz
  | _ => none

/-- No class was registered, and there are no references. -/
def start (uc : Unicorn) (heap : JavaHeap) : JniState :=
  ⟨uc, heap, 0, fun _ => none, fun _ => none, .create⟩

/-- The counter of the wrappers, as the constructors of mirrors see it. -/
def mirrors (s : JniState) : Mirrors :=
  ⟨objectIndex s.made, (List.range s.made).map objectIndex, fun _ => none, fun _ => none⟩

/-- The state with one more wrapper. -/
def withObject (s : JniState) (object : JObject) : JniState :=
  { s with made := s.made + 1, objects := Function.update s.objects s.made (some object) }

/-- The state with one more local reference. -/
def withLocal (s : JniState) (n : ℕ) : JniState :=
  { s with refs := (s.refs.addLocalReference n).1 }

end JniState

/-- The order in which a call meets the keys of the maps it goes through. -/
structure Orders where
  indices : List ℤ
  fields : List Int64
  constructors : List Int64
  methods : List Int64

/-- `new JRet()` -/
def CallRet.noValue : CallRet := ⟨false, 0⟩

/-- `new JRet(value)` -/
def CallRet.ofValue (value : Int64) : CallRet := ⟨true, value⟩

namespace Jni

/-! ## Parts of the functions -/

section Parts

variable {α : Type}

/-- Runs code on the engine. -/
def onUc (m : UcM α) : JniCode α := fun s =>
  match m.run s.uc with
  | .ok a uc => .ok a { s with uc }
  | .error err uc => .error err { s with uc }

/-- Runs Java code. -/
def onHeap (m : HeapM α) : JniCode α := fun s =>
  match m.run s.heap with
  | .ok a heap => .ok a { s with heap }
  | .error err heap => .error err { s with heap }

/-- Runs code on the references. -/
def onRefs (m : JniM ℕ α) : JniCode α := fun s =>
  match m.run s.refs with
  | .ok a refs => .ok a { s with refs }
  | .error err refs => .error err { s with refs }

end Parts

/-- `getReference` -/
def getReference (idx : Int64) : JniCode (Option ℕ) := do
  let s ← get
  getOrThrow (s.refs.getReference idx.toInt)

/-- The wrapper behind a reference to a `JObject` whose members are used. -/
def dereference (ref : Option ℕ) : JniCode JObject := do
  let s ← get
  match ref.bind s.objects with
  | some object => pure object
  | none => throw .nullPointer

/-- `getReference(idx)`, followed by a use of its members. -/
def objectOf (idx : Int64) : JniCode JObject := do
  let ref ← getReference idx
  dereference ref

/-- `object.getJClass()`, followed by a use of its members. -/
def getJClass (object : JObject) : JniCode JClass := do
  let s ← get
  match object.jClass.bind s.classAt with
  | some clzz => pure clzz
  | none => throw .nullPointer

/-- The reference must be one to a `JClass`. -/
def expectClass (message : String) (idx : Int64) : JniCode (ℕ × JClass) := do
  let ref ← getReference idx
  let s ← get
  match ref with
  | none => throw (.exception message)
  | some n =>
    match s.classAt n with
    | some clzz => pure (n, clzz)
    | none => throw (.exception message)

/-- `(JClass) getReference(idx)`; a cast of `null` is `null`. -/
def castClass (idx : Int64) : JniCode (Option JClass) := do
  let ref ← getReference idx
  let s ← get
  match ref with
  | none => pure none
  | some n =>
    match s.classAt n with
    | some clzz => pure (some clzz)
    | none => throw .classCast

/-- `addLocalReference`, with the handle as the result. -/
def addLocalReference (n : ℕ) : JniCode CallRet := fun s =>
  .ok (.ofValue (Int64.ofInt (s.refs.addLocalReference n).2)) (s.withLocal n)

/-- A new wrapper is made, filled and added to the local references. -/
def handOut (object : JObject) : JniCode CallRet := fun s =>
  addLocalReference s.made (s.withObject object)

/-- `new JClass(klass)` -/
def newClass (reflected : Reflected) : JniCode ℕ := fun s =>
  match (JClass.create reflected).run s.mirrors with
  | .error err _ => .error err s
  | .ok clzz mirrors =>
    -- The members are wrappers too, but no reference is ever made to them.
    .ok s.made
      { s with
        made := mirrors.created.length
        objects := Function.update s.objects s.made
          (some ⟨.jclass clzz, reflected.klass, some s.made, none⟩) }

variable (rt : JavaRuntime)

/-- `genJRet`. Reflection returns a reference for a type that is not primitive. -/
def genJRet (type : Klass) (value : JavaValue) : JniCode CallRet :=
  if type.isPrimitive then do
    let n ← getOrThrow (value.longValue rt)
    pure (.ofValue n)
  else
    match value with
    | .ref (some o) => do
      let s ← get
      -- The new wrapper does not get a `JClass`.
      handOut ⟨.object, (s.heap.object o).klass, none, some o⟩
    | _ => throw .nullPointer

/-- An argument of a Java method. Primitive types other than `int` and `boolean` are all passed as a
`Long`. -/
def readArg (value : Int64) : Klass → JniCode JavaValue
  | .primitive .int => pure (.int value.toInt32)
  | .primitive .boolean => pure (.boolean (value == 1))
  | .primitive _ => pure (.long value)
  | _ => do
    let object ← objectOf value
    pure (.ref object.value)

/-- The loop of `readArgsV`, from the argument `i` on. -/
def readArgsFrom (argv : List Int64) : ℕ → List Klass → JniCode (List JavaValue)
  | _, [] => pure []
  | i, type :: types =>
    match argv[i]? with
    | none => throw .arrayIndexOutOfBounds
    | some value => do
      let arg ← readArg value type
      let args ← readArgsFrom argv (i + 1) types
      pure (arg :: args)

/-- `readArgsV` -/
def readArgsV (offset : ℕ) (argv : List Int64) (types : List Klass) : JniCode (List JavaValue) :=
  readArgsFrom argv offset types

/-- The object of a handle and its class, for the functions for members of objects. -/
def instanceOwner (idx : Int64) : JniCode (JObject × JClass) := do
  let object ← objectOf idx
  let clzz ← getJClass object
  pure (object, clzz)

/-- The class of a handle, for the functions for static members. -/
def staticOwner (idx : Int64) : JniCode (JObject × JClass) := do
  let (n, clzz) ← expectClass "Except a class" idx
  let object ← dereference (some n)
  pure (object, clzz)

/-- The field of an id. -/
def findField (object : JObject) (clzz : JClass) (fieldIdx : Int64) : JniCode JField :=
  match clzz.fields fieldIdx with
  | some field => pure field
  | none => throw (.exception ("Could not find field " ++ toString fieldIdx ++ " in object " ++
      object.klass.getName ++ " by id."))

/-- The method of an id. -/
def findMethod (what : String) (object : JObject) (clzz : JClass) (methodIx : Int64) :
    JniCode JMethod :=
  match clzz.methods methodIx with
  | some method => pure method
  | none => throw (.exception ("Could not find method " ++ toString methodIx ++ " in " ++ what ++
      object.klass.getName ++ " by id."))

/-- `(Object[]) array.getValue()`, followed by a use of its elements. -/
def elements (array : JObject) : JniCode (ℕ × List (Option ℕ)) := do
  let s ← get
  match array.value with
  | none => throw .nullPointer
  | some o =>
    match (s.heap.object o).contents with
    | .objects values => pure (o, values)
    | _ => throw .classCast

/-- `(JArray) getReference(ref)`, with the array and its elements. -/
def objectArray (ref : Int64) : JniCode (JObject × ℕ × List (Option ℕ)) := do
  let array ← objectOf ref
  match array.kind with
  | .primitiveArray | .objectArray =>
    let (o, values) ← elements array
    pure (array, o, values)
  | _ => throw .classCast

/-- A Java array is accessed at an `int`. -/
def checkIndex (values : List (Option ℕ)) (i : Int32) : JniCode ℕ :=
  if 0 ≤ i.toInt ∧ i.toInt < values.length then pure i.toInt.toNat
  else throw .arrayIndexOutOfBounds

/-- The value is stored in the field: a primitive value as a `Long`, an object by its handle. -/
def storeField (klass : Klass) (field : JField) (primitiveOwner owner : Option ℕ) (value : Int64) :
    JniCode Unit :=
  match field.field.type with
  | .primitive type => onHeap (field.setLong rt klass primitiveOwner value type)
  | _ => do
    let obj ← objectOf value
    onHeap (field.setObject rt klass owner obj.value)

/-- The result of a method: `null` is no value. -/
def methodResult (type : Klass) (value : JavaValue) : JniCode CallRet :=
  if value = .ref none then pure .noValue else genJRet rt type value

/-! ## The functions

They take the arguments as an array, of which the first is the environment. -/

variable (orders : Orders) (args : List Int64)

/-- `args[i]` -/
def arg (i : ℕ) : Int64 := args.getD i 0

/-- `FindClass` -/
def findClass : JniCode CallRet := do
  let name ← onUc (MemoryHelper.readUTF8 rt.decode (arg args 1))
  if name.startsWith "[" then throw (.exception "Array type not implemented.")
  else
    let s ← get
    match s.names name with
    | some n => addLocalReference n
    | none => pure (.ofValue 0)

/-- How a function returns a handle or no value. -/
def ofHandle (ref : Option ℤ) : CallRet :=
  match ref with
  | some idx => .ofValue (Int64.ofInt idx)
  | none => .noValue

/-- `NewLocalRef` -/
def newLocalRef : JniCode CallRet := do
  let ref ← onRefs (JniEnv.newLocalRef (arg args 1).toInt)
  pure (ofHandle ref)

/-- `NewGlobalRef` -/
def newGlobalRef : JniCode CallRet := do
  let ref ← onRefs (JniEnv.newGlobalRef (arg args 1).toInt)
  pure (ofHandle ref)

/-- `deleteLocalRef` -/
def deleteLocalRef : JniCode CallRet := do
  let ref ← onRefs (JniEnv.deleteLocalRef orders.indices (arg args 1).toInt)
  pure (ofHandle ref)

/-- `deleteGlobalRef` -/
def deleteGlobalRef : JniCode CallRet := do
  let ref ← onRefs (JniEnv.deleteGlobalRef orders.indices (arg args 1).toInt)
  pure (ofHandle ref)

/-- `IsSameObject`. For two handles that are zero there is no value. -/
def isSameObject : JniCode CallRet := do
  if arg args 1 = 0 ∧ arg args 2 = 0 then pure .noValue
  else
    let def1 ← getReference (arg args 1)
    let def2 ← getReference (arg args 2)
    pure (.ofValue (if def1 = def2 then 1 else 0))

/-- `NewObjectV` -/
def newObjectV : JniCode CallRet := do
  let (n, clzz) ← expectClass "Expected a jclass." (arg args 1)
  let constructor ← getOrThrow (JniEnv.newObjectV clzz (arg args 2))
  match constructor.constructor with
  | none => throw .nullPointer
  | some reflected =>
    let cargs ← readArgsV 3 args reflected.parameterTypes
    let newInstance ← onHeap (rt.newInstance clzz.reflected.klass reflected cargs)
    handOut ⟨.object, clzz.reflected.klass, some n, some newInstance⟩

/-- `GetObjectClass`. It returns the index of the object itself, which is not a handle. -/
def getObjectClass : JniCode CallRet := do
  let ref ← getReference (arg args 1)
  match ref with
  | none => throw .nullPointer
  | some n => pure (.ofValue (objectIndex n))

/-- `IsInstanceOf` -/
def isInstanceOf : JniCode CallRet := do
  let ref1 ← getReference (arg args 1)
  let ref2 ← getReference (arg args 2)
  let o1 ← dereference ref1
  let o2 ← dereference ref2
  let c1 ← getJClass o1
  let c2 ← getJClass o2
  let same := c1.reflected.klass.getName == c2.reflected.klass.getName
  pure (.ofValue (if same then 1 else 0))

/-- `GetMethodIDInternal` -/
def getMethodIDInternal : JniCode CallRet := do
  let clzz ← castClass (arg args 1)
  let name ← onUc (MemoryHelper.readUTF8 rt.decode (arg args 2))
  let signature ← onUc (MemoryHelper.readUTF8 rt.decode (arg args 3))
  match clzz with
  | none => throw .nullPointer
  | some clzz =>
    pure (.ofValue
      (JniEnv.getMethodIDInternal clzz orders.methods orders.constructors name signature))

/-- `GetFieldIdInternal` -/
def getFieldIdInternal : JniCode CallRet := do
  let clzz ← castClass (arg args 1)
  let name ← onUc (MemoryHelper.readUTF8 rt.decode (arg args 2))
  let signature ← onUc (MemoryHelper.readUTF8 rt.decode (arg args 3))
  match clzz with
  | none => throw .nullPointer
  | some clzz => pure (.ofValue (JniEnv.getFieldIdInternal clzz orders.fields name signature))

/-- A method of the owner is called on `thiz`. -/
def callMethod (what : String) (owner : JniCode (JObject × JClass)) (thiz : JObject → Option ℕ) :
    JniCode CallRet := do
  let (object, clzz) ← owner
  let method ← findMethod what object clzz (arg args 2)
  let params ← readArgsV 3 args method.method.parameterTypes
  let value ← onHeap (rt.invoke clzz.reflected.klass method.method (thiz object) params)
  methodResult rt method.method.returnType value

/-- `CallObjectMethodV` -/
def callObjectMethodV : JniCode CallRet :=
  callMethod rt args "object " (instanceOwner (arg args 1)) JObject.value

/-- `CallStaticObjectMethodV` -/
def callStaticObjectMethodV : JniCode CallRet :=
  callMethod rt args "clzz " (staticOwner (arg args 1)) fun _ => none

/-- A field of the owner is read. -/
def getField (owner : JniCode (JObject × JClass)) (thiz : JObject → Option ℕ) :
    JniCode CallRet := do
  let (object, clzz) ← owner
  let field ← findField object clzz (arg args 2)
  let value ← onHeap (field.getValue rt clzz.reflected.klass (thiz object))
  genJRet rt field.field.type value

/-- `GetObjectField` -/
def getObjectField : JniCode CallRet :=
  getField rt args (instanceOwner (arg args 1)) JObject.value

/-- `GetStaticObjectField` -/
def getStaticObjectField : JniCode CallRet :=
  getField rt args (staticOwner (arg args 1)) fun _ => none

/-- A field of the owner is written, a primitive value on `thiz`, and an object always on the value
of the wrapper. -/
def setField (owner : JniCode (JObject × JClass)) (thiz : JObject → Option ℕ) :
    JniCode CallRet := do
  let (object, clzz) ← owner
  let field ← findField object clzz (arg args 2)
  storeField rt clzz.reflected.klass field (thiz object) object.value (arg args 3)
  pure .noValue

/-- `SetObjectField` -/
def setObjectField : JniCode CallRet :=
  setField rt args (instanceOwner (arg args 1)) JObject.value

/-- `SetStaticObjectField` -/
def setStaticObjectField : JniCode CallRet :=
  setField rt args (staticOwner (arg args 1)) fun _ => none

/-- `NewString` -/
def newString : JniCode CallRet := do
  let bb ← onUc (MemoryHelper.readByteArray (arg args 1) (arg args 2))
  let str ← onHeap (JavaHeap.new ⟨.string, .string (utf16 (rt.decode bb))⟩)
  -- The new wrapper does not get a `JClass`.
  handOut ⟨.string, .string, none, some str⟩

/-- `GetArrayLength` -/
def getArrayLength : JniCode CallRet := do
  let (_, _, values) ← objectArray (arg args 1)
  pure (.ofValue (Int64.ofNat values.length))

/-- `NewObjectArray` -/
def newObjectArray : JniCode CallRet := do
  let (n, clzz) ← expectClass "Except a class" (arg args 2)
  let len := (arg args 1).toInt32
  if len < 0 then throw .negativeArraySize
  else
    let value ← onHeap (JavaHeap.new ⟨.objectArray, .objects (List.replicate len.toInt.toNat none)⟩)
    handOut ⟨.objectArray, clzz.reflected.klass, some n, some value⟩

/-- `GetObjectArrayElement`. The class of the new wrapper is that of the array's. -/
def getObjectArrayElement : JniCode CallRet := do
  let (array, _, values) ← objectArray (arg args 1)
  let i ← checkIndex values (arg args 2).toInt32
  handOut ⟨.object, array.klass, array.jClass, values.getD i none⟩

/-- `SetObjectArrayElement`. The value is computed before the index is checked. -/
def setObjectArrayElement : JniCode CallRet := do
  let (_, o, values) ← objectArray (arg args 1)
  let object ← objectOf (arg args 3)
  let i ← checkIndex values (arg args 2).toInt32
  modify fun s => { s with heap := s.heap.setElement o i object.value }
  pure .noValue

/-- `boolean.class` -/
def booleanClass : Reflected where
  klass := .primitive .boolean
  declaredFields := []
  declaredConstructors := []
  declaredMethods := []
  fields_lt := Nat.two_pow_pos 16
  constructors_lt := Nat.two_pow_pos 16
  methods_lt := Nat.two_pow_pos 16
  name_ne_init := List.forall_mem_nil _

/-- `NewBooleanArray`. It makes a `JClass` of its own for each array. -/
def newBooleanArray : JniCode CallRet := do
  let n ← newClass booleanClass
  let size := (arg args 1).toInt32
  if size < 0 then
    -- The class and the wrapper are made before the array.
    modify fun s => s.withObject ⟨.primitiveArray, .primitive .boolean, some n, none⟩
    throw .negativeArraySize
  else
    let value ← onHeap (JavaHeap.new
      ⟨.array (.primitive .boolean), .booleans (List.replicate size.toInt.toNat false)⟩)
    handOut ⟨.primitiveArray, .primitive .boolean, some n, some value⟩

/-- `notImplemented` -/
def notImplemented : JniCode CallRet := throw (.exception "notImplemented")

end Jni

/-! ## The function table -/

/-- The functions that are modelled. -/
inductive JniFunction where
  | findClass | newGlobalRef | deleteGlobalRef | deleteLocalRef | isSameObject | newLocalRef
  | newObjectV | getObjectClass | isInstanceOf | getMethodID | callObjectMethodV | getFieldID
  | getObjectField | setObjectField | callStaticObjectMethodV | getStaticObjectField
  | setStaticObjectField | newString | getArrayLength | newObjectArray | getObjectArrayElement
  | setObjectArrayElement | newBooleanArray | notImplemented
deriving DecidableEq

/-- What a function does with its arguments. -/
def JniFunction.code (rt : JavaRuntime) (orders : Orders) (args : List Int64) :
    JniFunction → JniCode CallRet
  | .findClass => Jni.findClass rt args
  | .newGlobalRef => Jni.newGlobalRef args
  | .deleteGlobalRef => Jni.deleteGlobalRef orders args
  | .deleteLocalRef => Jni.deleteLocalRef orders args
  | .isSameObject => Jni.isSameObject args
  | .newLocalRef => Jni.newLocalRef args
  | .newObjectV => Jni.newObjectV rt args
  | .getObjectClass => Jni.getObjectClass args
  | .isInstanceOf => Jni.isInstanceOf args
  | .getMethodID => Jni.getMethodIDInternal rt orders args
  | .callObjectMethodV => Jni.callObjectMethodV rt args
  | .getFieldID => Jni.getFieldIdInternal rt orders args
  | .getObjectField => Jni.getObjectField rt args
  | .setObjectField => Jni.setObjectField rt args
  | .callStaticObjectMethodV => Jni.callStaticObjectMethodV rt args
  | .getStaticObjectField => Jni.getStaticObjectField rt args
  | .setStaticObjectField => Jni.setStaticObjectField rt args
  | .newString => Jni.newString rt args
  | .getArrayLength => Jni.getArrayLength args
  | .newObjectArray => Jni.newObjectArray args
  | .getObjectArrayElement => Jni.getObjectArrayElement args
  | .setObjectArrayElement => Jni.setObjectArrayElement args
  | .newBooleanArray => Jni.newBooleanArray args
  | .notImplemented => Jni.notImplemented

/-- The entries with numbers from `first` on. -/
def jniEntries (first count : ℕ) (f : JniFunction) : List (ℕ × JniFunction) :=
  (List.range' first count).map (·, f)

/-- `initJniTables`, without the functions that are not modelled. The functions that are not
implemented are left out. -/
def initJniTables : List (ℕ × JniFunction) := List.flatten [
  [(6, .findClass), (21, .newGlobalRef), (22, .deleteGlobalRef), (23, .deleteLocalRef),
    (24, .isSameObject), (25, .newLocalRef)],
  -- `NewObject`, `NewObjectV` and `NewObjectA`
  jniEntries 28 3 .newObjectV,
  [(31, .getObjectClass), (32, .isInstanceOf), (33, .getMethodID)],
  [35, 38, 41, 44, 47, 50, 53, 56, 59].map (·, .callObjectMethodV),
  -- `CallVoidMethod` and `CallVoidMethodV`
  jniEntries 61 2 .callObjectMethodV,
  [(94, .getFieldID)],
  jniEntries 95 9 .getObjectField,
  jniEntries 104 9 .setObjectField,
  [(113, .getMethodID)],
  -- `CallStaticObjectMethod` and `CallStaticObjectMethodV`
  jniEntries 114 2 .callStaticObjectMethodV,
  [117, 118, 121, 124, 127, 130, 133, 136, 139, 141, 142].map (·, .callStaticObjectMethodV),
  [(144, .getFieldID)],
  jniEntries 145 9 .getStaticObjectField,
  jniEntries 154 9 .setStaticObjectField,
  [(163, .newString), (171, .getArrayLength), (172, .newObjectArray),
    (173, .getObjectArrayElement), (174, .setObjectArrayElement), (175, .newBooleanArray)]]

/-! ## Calls and runs -/

namespace JniState

variable (rt : JavaRuntime)

/-- The state after a call, as `callFunc` has it: the arguments are read, the function is called,
and its result goes to `R0`. An exception stops the engine. -/
def call (s : JniState) (f : JniFunction) (orders : Orders) : JniState :=
  match (JCallHelper.readVaArgs 12).run s.uc with
  | .error _ uc => { s with uc }
  | .ok args uc =>
    match (f.code rt orders (args.getD [])).run { s with uc } with
    | .error _ s' => s'
    | .ok ret s' =>
      if ret.hasReturn then
        { s' with uc := finalState ((Unicorn.regWrite .r0 ret.value).run s'.uc) }
      else s'

end JniState

/-- What happens one after the other. -/
inductive JniEvent where
  | call (f : JniFunction) (orders : Orders)
  /-- A class is registered. -/
  | addClass (reflected : Reflected)
  /-- Guest code runs, or one of the other functions. -/
  | guest (uc : Unicorn)
  /-- Java code runs, or one of the other functions. -/
  | java (heap : JavaHeap)

namespace JniState

variable (rt : JavaRuntime)

/-- `Jvm.addClass` -/
def addClass (reflected : Reflected) : JniCode Unit := do
  let n ← Jni.newClass reflected
  modify fun s =>
    if (s.names reflected.klass.getName).isSome then s
    else { s with names := Function.update s.names (AsmClass.getType reflected.klass) (some n) }

/-- The state after an event. -/
def step (s : JniState) : JniEvent → JniState
  | .call f orders => s.call rt f orders
  | .addClass reflected => finalState ((addClass reflected).run s)
  | .guest uc => { s with uc }
  | .java heap => { s with heap }

end JniState

/-- A value on its way through a register, which has 32 bits. -/
def register (value : Int64) : Int64 := value.toUInt64.toUInt32.toUInt64.toInt64

/-- A register holds the low word, as a number without sign. -/
theorem toInt_register (value : Int64) :
    (register value).toInt = value.toUInt64.toUInt32.toNat :=
  toInt_toInt64_toUInt64 _

/-- A register is read back as it was written. -/
theorem regRead_regWrite (uc : Unicorn) (reg : ArmReg) (value : Int64) :
    (finalState ((Unicorn.regWrite reg value).run uc)).regRead reg = register value := by
  have hregs : (finalState ((Unicorn.regWrite reg value).run uc)).regs reg =
      value.toUInt64.toUInt32 := Function.update_self ..
  rw [Unicorn.regRead, hregs, register]

namespace JniState

variable {s s' : JniState} {f : JniFunction} {orders : Orders} {args : List Int64}
  (rt : JavaRuntime)

open NativeCallHelper

/-- The arguments of a call, if they can be read. -/
theorem exists_args {uc : Unicorn} (h : argsReadable uc 12 = true) :
    ∃ args, (JCallHelper.readVaArgs 12).run uc = .ok (some args) uc ∧ args.length = 12 ∧
      args[0]? = some (uc.regRead .r0) ∧ args[1]? = some (uc.regRead .r1) ∧
      args[2]? = some (uc.regRead .r2) ∧ args[3]? = some (uc.regRead .r3) := by
  obtain ⟨stackArgs, hlength, hrun⟩ := exists_readArgs (n := 12) (by decide) (by decide) h
  refine ⟨_, hrun, ?_, rfl, rfl, rfl, rfl⟩
  rw [List.length_append, hlength]
  rfl

/-- The array of arguments that all functions get. -/
theorem args_of_run {uc : Unicorn}
    (hargs : (JCallHelper.readVaArgs 12).run uc = .ok (some args) uc) :
    argsReadable uc 12 = true ∧ args.length = 12 ∧ Jni.arg args 1 = uc.regRead .r1 ∧
      Jni.arg args 2 = uc.regRead .r2 ∧ args[3]? = some (uc.regRead .r3) := by
  by_cases hread : argsReadable uc 12 = true
  · obtain ⟨args', hargs', hlength, -, h1, h2, h3⟩ := exists_args hread
    cases hargs.symm.trans hargs'
    refine ⟨hread, hlength, ?_, ?_, h3⟩
    · rw [Jni.arg, List.getD_eq_getElem?_getD, h1]
      rfl
    · rw [Jni.arg, List.getD_eq_getElem?_getD, h2]
      rfl
  · obtain ⟨err, herr⟩ := run_readArgs_of_not_readable (Bool.not_eq_true _ ▸ hread)
    cases hargs.symm.trans herr

/-- A call whose arguments cannot be read does nothing. -/
theorem call_of_not_readable (h : argsReadable s.uc 12 = false) : s.call rt f orders = s := by
  obtain ⟨err, herr⟩ := run_readArgs_of_not_readable h
  have hrun : (JCallHelper.readVaArgs 12).run s.uc = .error err s.uc := herr
  rw [call, hrun]

/-- A call that returns, with `R0` if there is a value. -/
theorem call_of_ok {ret : CallRet}
    (hargs : (JCallHelper.readVaArgs 12).run s.uc = .ok (some args) s.uc)
    (hrun : (f.code rt orders args).run s = .ok ret s') :
    s.call rt f orders = if ret.hasReturn then
      { s' with uc := finalState ((Unicorn.regWrite .r0 ret.value).run s'.uc) } else s' := by
  simp only [call, hargs, Option.getD_some, hrun]

/-- A call that throws leaves the state as its code has left it. -/
theorem call_of_error {err : JavaException}
    (hargs : (JCallHelper.readVaArgs 12).run s.uc = .ok (some args) s.uc)
    (hrun : (f.code rt orders args).run s = .error err s') : s.call rt f orders = s' := by
  simp only [call, hargs, Option.getD_some, hrun]

/-- The result of a call is left in `R0`. -/
theorem regRead_call_of_value {value : Int64}
    (hargs : (JCallHelper.readVaArgs 12).run s.uc = .ok (some args) s.uc)
    (hrun : (f.code rt orders args).run s = .ok (.ofValue value) s') :
    (s.call rt f orders).uc.regRead .r0 = register value := by
  rw [call_of_ok rt hargs hrun]
  exact regRead_regWrite s'.uc .r0 value

/-- Without a result `R0` is left as it was. -/
theorem regRead_call_of_noValue
    (hargs : (JCallHelper.readVaArgs 12).run s.uc = .ok (some args) s.uc)
    (hrun : (f.code rt orders args).run s = .ok .noValue s') :
    (s.call rt f orders).uc.regRead .r0 = s'.uc.regRead .r0 := by
  rw [call_of_ok rt hargs hrun]
  rfl

end JniState

/-! ## Values for examples -/

/-- A Java runtime in which nothing happens. -/
def JavaRuntime.idle : JavaRuntime where
  decode _ := ""
  floatLong _ := 0
  doubleLong _ := 0
  longFloat _ := 0
  longDouble _ := 0
  isStatic _ _ := false
  isInstance _ _ := true
  invoke _ _ _ _ := pure (.ref none)
  newInstance klass _ _ := JavaHeap.new ⟨klass, .plain⟩

/-- A class of a package. -/
theorem isBinaryName_sample : IsBinaryName "sample.A" := by decide

/-- The name of the class of the samples. -/
def ClassName.sample : ClassName := ⟨"sample.A", isBinaryName_sample⟩

/-- A runtime in which every name is that of the same class. -/
def JavaRuntime.sample : JavaRuntime := { JavaRuntime.idle with decode := fun _ => "sample/A" }

/-- A runtime whose default charset is UTF-8. -/
def JavaRuntime.inUTF8 : JavaRuntime := { JavaRuntime.idle with decode := decodeUTF8 }

/-- A heap without objects. -/
def JavaHeap.blank : JavaHeap := ⟨0, fun _ => ⟨.string, .plain⟩, fun _ _ _ => .ref none⟩

/-- No map has more than one key. -/
def Orders.none : Orders := ⟨[], [], [], []⟩

/-- A class with a constructor without parameters is in bounds. -/
theorem one_constructor_lt : [(⟨[]⟩ : Constructor)].length < 2 ^ 16 := by decide

/-- An engine in a stub, with the arguments in the registers and a stack of zeros. -/
def Unicorn.inCall (r0 r1 r2 r3 : UInt32) : Unicorn :=
  { Unicorn.blank with
    regions := [⟨0x10000, 0x1000⟩]
    regs := fun reg => match reg with
      | .r0 => r0
      | .r1 => r1
      | .r2 => r2
      | .r3 => r3
      | .sp => 0x10008
      | _ => 0 }

/-! ## What the parts leave alone -/

namespace JniState

/-- Only the engine and the heap are different. -/
def Same (s s' : JniState) : Prop := s' = { s with uc := s'.uc, heap := s'.heap }

instance isPreorder_jniSame : IsPreorder JniState Same where
  refl _ := rfl
  trans _ _ _ hst htu := by
    rw [Same] at hst htu ⊢
    rw [htu, hst]

end JniState

namespace Jni

open JniState

variable {α β : Type}

/-- The engine may change. -/
theorem same_onUc (m : UcM α) : Keeps Same (onUc m) := by
  intro s
  simp only [EStateM.run, onUc]
  split <;> exact rfl

/-- The heap may change. -/
theorem same_onHeap (m : HeapM α) : Keeps Same (onHeap m) := by
  intro s
  simp only [EStateM.run, onHeap]
  split <;> exact rfl

/-- References are only looked up. -/
theorem same_getReference (idx : Int64) : Keeps Same (getReference idx) :=
  Keeps.get_bind fun _ => .getOrThrow _

/-- So are objects. -/
theorem same_dereference (ref : Option ℕ) : Keeps Same (dereference ref) := by
  refine Keeps.get_bind fun s => ?_
  split
  · exact .pure _
  · exact .throw _

/-- Both, one after the other. -/
theorem same_objectOf (idx : Int64) : Keeps Same (objectOf idx) :=
  Keeps.bind (same_getReference idx) same_dereference

/-- The class of an object is looked up. -/
theorem same_getJClass (object : JObject) : Keeps Same (getJClass object) := by
  refine Keeps.get_bind fun s => ?_
  split
  · exact .pure _
  · exact .throw _

/-- A class is looked up, or it is no class. -/
theorem same_expectClass (message : String) (idx : Int64) :
    Keeps Same (expectClass message idx) := by
  refine Keeps.bind (same_getReference idx) fun ref => Keeps.get_bind fun s => ?_
  cases ref with
  | none => exact .throw _
  | some n =>
    dsimp only
    split
    · exact .pure _
    · exact .throw _

/-- `null` may be passed for a class. -/
theorem same_castClass (idx : Int64) : Keeps Same (castClass idx) := by
  refine Keeps.bind (same_getReference idx) fun ref => Keeps.get_bind fun s => ?_
  cases ref with
  | none => exact .pure _
  | some n =>
    dsimp only
    split
    · exact .pure _
    · exact .throw _

/-- The object and its class. -/
theorem same_instanceOwner (idx : Int64) : Keeps Same (instanceOwner idx) :=
  Keeps.bind (same_objectOf idx) fun object => Keeps.bind (same_getJClass object) fun _ => .pure _

/-- The class and its object. -/
theorem same_staticOwner (idx : Int64) : Keeps Same (staticOwner idx) :=
  Keeps.bind (same_expectClass _ idx) fun _ => Keeps.bind (same_dereference _) fun _ => .pure _

/-- One argument of a call. -/
theorem same_readArg (value : Int64) (type : Klass) : Keeps Same (readArg value type) := by
  unfold readArg
  split
  · exact .pure _
  · exact .pure _
  · exact .pure _
  · exact Keeps.bind (same_objectOf value) fun _ => .pure _

/-- The arguments of a call. -/
theorem same_readArgsV (offset : ℕ) (argv : List Int64) (types : List Klass) :
    Keeps Same (readArgsV offset argv types) := by
  unfold readArgsV
  induction types generalizing offset with
  | nil => exact .pure _
  | cons type types ih =>
    unfold readArgsFrom
    split
    · exact .throw _
    · exact Keeps.bind (same_readArg _ type) fun _ =>
        Keeps.bind (ih (offset + 1)) fun _ => .pure _

/-- Fields are only looked up. -/
theorem same_findField (object : JObject) (clzz : JClass) (fieldIdx : Int64) :
    Keeps Same (findField object clzz fieldIdx) := by
  unfold findField
  split
  · exact .pure _
  · exact .throw _

/-- So are methods. -/
theorem same_findMethod (what : String) (object : JObject) (clzz : JClass) (methodIx : Int64) :
    Keeps Same (findMethod what object clzz methodIx) := by
  unfold findMethod
  split
  · exact .pure _
  · exact .throw _

/-- The elements of an array are on the heap. -/
theorem same_elements (array : JObject) : Keeps Same (elements array) := by
  refine Keeps.get_bind fun s => ?_
  split
  · exact .throw _
  · split
    · exact .pure _
    · exact .throw _

/-- An array of objects is looked up. -/
theorem same_objectArray (ref : Int64) : Keeps Same (objectArray ref) := by
  refine Keeps.bind (same_objectOf ref) fun array => ?_
  split
  · exact Keeps.bind (same_elements array) fun _ => .pure _
  · exact Keeps.bind (same_elements array) fun _ => .pure _
  · exact .throw _

/-- An index is in the array, or the code throws. -/
theorem same_checkIndex (values : List (Option ℕ)) (i : Int32) :
    Keeps Same (checkIndex values i) := by
  unfold checkIndex
  split
  · exact .pure _
  · exact .throw _

/-- A field is stored on the heap. -/
theorem same_storeField (rt : JavaRuntime) (klass : Klass) (field : JField)
    (primitiveOwner owner : Option ℕ) (value : Int64) :
    Keeps Same (storeField rt klass field primitiveOwner owner value) := by
  unfold storeField
  split
  · exact same_onHeap _
  · exact Keeps.bind (same_objectOf value) fun _ => same_onHeap _

/-! ## What the parts find -/

section Results

variable {s s' : JniState} {idx : Int64} {n : ℕ} {r : Option ℕ} {object : JObject} {clzz : JClass}

/-- A handle that has a reference. -/
theorem run_getReference (h : s.refs.getReference idx.toInt = .ok r) :
    (getReference idx).run s = .ok r s := by
  rw [getReference, get_bind, h]
  rfl

/-- A handle that has none. -/
theorem run_getReference_error {err : JavaException}
    (h : s.refs.getReference idx.toInt = .error err) :
    (getReference idx).run s = .error err s := by
  rw [getReference, get_bind, h]
  rfl

/-- `getReference` returns what the table has. -/
theorem getReference_eq_ok (h : (getReference idx).run s = .ok r s') :
    s' = s ∧ s.refs.getReference idx.toInt = .ok r := by
  cases hget : s.refs.getReference idx.toInt with
  | ok r' =>
    rw [run_getReference hget] at h
    cases h
    exact ⟨rfl, rfl⟩
  | error err =>
    rw [run_getReference_error hget] at h
    cases h

/-- A reference to an object. -/
theorem run_dereference {ref : Option ℕ} (h : ref.bind s.objects = some object) :
    (dereference ref).run s = .ok object s := by
  rw [dereference, get_bind, h]
  rfl

/-- A reference to nothing. -/
theorem run_dereference_none {ref : Option ℕ} (h : ref.bind s.objects = none) :
    (dereference ref).run s = .error .nullPointer s := by
  rw [dereference, get_bind, h]
  rfl

/-- `dereference` returns what the reference is to. -/
theorem dereference_eq_ok {ref : Option ℕ} (h : (dereference ref).run s = .ok object s') :
    s' = s ∧ ref.bind s.objects = some object := by
  cases hobject : ref.bind s.objects with
  | some object' =>
    rw [run_dereference hobject] at h
    cases h
    exact ⟨rfl, rfl⟩
  | none =>
    rw [run_dereference_none hobject] at h
    cases h

/-- A handle of a class. -/
theorem run_castClass (h : s.refs.getReference idx.toInt = .ok (some n))
    (hclass : s.classAt n = some clzz) :
    (castClass idx).run s = .ok (some clzz) s := by
  rw [castClass, bind_of_ok (run_getReference h), get_bind]
  simp only [hclass]
  rfl

/-- A class with a field of that id. -/
theorem run_findField {fieldIdx : Int64} {field : JField} (h : clzz.fields fieldIdx = some field) :
    (findField object clzz fieldIdx).run s = .ok field s := by
  rw [findField, h]
  rfl

/-- `findField` returns the field of that id. -/
theorem findField_eq_ok {fieldIdx : Int64} {field : JField}
    (h : (findField object clzz fieldIdx).run s = .ok field s') :
    s' = s ∧ clzz.fields fieldIdx = some field := by
  rw [findField] at h
  split at h
  next hfield =>
    cases h
    exact ⟨rfl, hfield⟩
  · cases h

/-- Code on the heap concerns the heap. -/
theorem onHeap_eq_ok {α : Type} {m : HeapM α} {a : α} (h : (onHeap m).run s = .ok a s') :
    ∃ heap, m.run s.heap = .ok a heap ∧ s' = { s with heap } := by
  simp only [EStateM.run, onHeap] at h ⊢
  split at h
  next hrun =>
    cases h
    exact ⟨_, hrun, rfl⟩
  · cases h

/-- `checkIndex` returns the index. -/
theorem checkIndex_eq_ok {values : List (Option ℕ)} {i : Int32}
    (h : (checkIndex values i).run s = .ok n s') : s' = s ∧ n = i.toInt.toNat := by
  rw [checkIndex] at h
  split at h
  · cases h
    exact ⟨rfl, rfl⟩
  · cases h

/-- Code on the heap that returns. -/
theorem run_onHeap {α : Type} {m : HeapM α} {a : α} {heap : JavaHeap}
    (h : m.run s.heap = .ok a heap) : (onHeap m).run s = .ok a { s with heap } := by
  simp only [EStateM.run] at h
  simp only [EStateM.run, onHeap, h]

/-- Code on the engine concerns the engine. -/
theorem onUc_eq_ok_iff {α : Type} {m : UcM α} {a : α} :
    (onUc m).run s = .ok a s' ↔ ∃ uc, m.run s.uc = .ok a uc ∧ s' = { s with uc } := by
  have hrun : (onUc m).run s = match m.run s.uc with
    | .ok a uc => .ok a { s with uc }
    | .error err uc => .error err { s with uc } := rfl
  rw [hrun]
  cases m.run s.uc with
  | ok b uc => simp [eq_comm]
  | error err uc => simp

/-- What code of the engine can return, for `bind_eq_ok_iff_of_ok_iff`. -/
theorem onUc_ok_iff {α : Type} {m : UcM α} {p : Prop} {a : α} {uc : Unicorn}
    (h : ∀ a' uc', m.run s.uc = .ok a' uc' ↔ p ∧ a' = a ∧ uc' = uc) (a' : α) (t : JniState) :
    (onUc m).run s = .ok a' t ↔ p ∧ a' = a ∧ t = { s with uc } := by
  rw [onUc_eq_ok_iff]
  constructor
  · rintro ⟨uc', hrun, rfl⟩
    obtain ⟨hp, rfl, rfl⟩ := (h a' uc').1 hrun
    exact ⟨hp, rfl, rfl⟩
  · rintro ⟨hp, rfl, rfl⟩
    exact ⟨uc, (h a' uc).2 ⟨hp, rfl, rfl⟩, rfl⟩

/-- One step of the loop over the parameters. -/
theorem readArgsFrom_cons_eq_ok_iff {argv : List Int64} {i : ℕ} {type : Klass} {types : List Klass}
    {params : List JavaValue} :
    (readArgsFrom argv i (type :: types)).run s = .ok params s' ↔
      ∃ value param rest s₁, argv[i]? = some value ∧ (readArg value type).run s = .ok param s₁ ∧
        (readArgsFrom argv (i + 1) types).run s₁ = .ok rest s' ∧ params = param :: rest := by
  rw [readArgsFrom]
  cases argv[i]? with
  | none =>
    refine iff_of_false (fun h => by cases h) ?_
    rintro ⟨value, param, rest, s₁, hvalue, -⟩
    cases hvalue
  | some value =>
    dsimp only
    constructor
    · intro h
      obtain ⟨param, s₁, hparam, h⟩ := bind_eq_ok h
      obtain ⟨rest, s₂, hrest, hpure⟩ := bind_eq_ok h
      obtain ⟨rfl, rfl⟩ := pure_eq_ok_iff.1 hpure
      exact ⟨value, param, rest, s₁, rfl, hparam, hrest, rfl⟩
    · rintro ⟨value', param, rest, s₁, hvalue, hparam, hrest, rfl⟩
      cases hvalue
      rw [bind_of_ok hparam, bind_of_ok hrest]
      rfl

/-- A class with a method of that id. -/
theorem run_findMethod {what : String} {methodIx : Int64} {method : JMethod}
    (h : clzz.methods methodIx = some method) :
    (findMethod what object clzz methodIx).run s = .ok method s := by
  rw [findMethod, h]
  rfl

/-- `findMethod` returns the method of that id. -/
theorem findMethod_eq_ok {what : String} {methodIx : Int64} {method : JMethod}
    (h : (findMethod what object clzz methodIx).run s = .ok method s') :
    s' = s ∧ clzz.methods methodIx = some method := by
  rw [findMethod] at h
  split at h
  next hmethod =>
    cases h
    exact ⟨rfl, hmethod⟩
  · cases h

/-- A handle of an object. -/
theorem run_objectOf (h : s.refs.getReference idx.toInt = .ok r)
    (hobject : r.bind s.objects = some object) :
    (objectOf idx).run s = .ok object s := by
  rw [objectOf, bind_of_ok (run_getReference h), run_dereference hobject]

/-- Looking an object up changes nothing. -/
theorem finalState_objectOf : finalState ((objectOf idx).run s) = s := by
  cases hget : s.refs.getReference idx.toInt with
  | error err =>
    rw [objectOf, bind_of_error (run_getReference_error hget)]
    rfl
  | ok r =>
    rw [objectOf, bind_of_ok (run_getReference hget)]
    cases hobject : r.bind s.objects with
    | none =>
      rw [run_dereference_none hobject]
      rfl
    | some object =>
      rw [run_dereference hobject]
      rfl

/-- Zero is the handle of `null`. -/
theorem run_objectOf_zero : (objectOf 0).run s = .error .nullPointer s := by
  have hget : s.refs.getReference (0 : Int64).toInt = .ok none := rfl
  rw [objectOf, bind_of_ok (run_getReference hget), run_dereference_none rfl]

/-- An argument that is a reference is looked up. -/
theorem readArg_of_reference {type : Klass} (h : type.isPrimitive = false) (value : Int64) :
    readArg value type = (do
      let object ← objectOf value
      pure (.ref object.value)) := by
  cases type with
  | primitive type => cases h
  | ofName name => rfl
  | array type => rfl

/-- `objectOf` returns what the handle is of. -/
theorem objectOf_eq_ok (h : (objectOf idx).run s = .ok object s') :
    s' = s ∧ ∃ n, s.refs.getReference idx.toInt = .ok (some n) ∧ s.objects n = some object := by
  obtain ⟨r, s₁, hr, hrest⟩ := bind_eq_ok h
  obtain ⟨rfl, hget⟩ := getReference_eq_ok hr
  obtain ⟨rfl, hbind⟩ := dereference_eq_ok hrest
  obtain ⟨n, rfl, hobject⟩ := Option.bind_eq_some_iff.1 hbind
  exact ⟨rfl, n, hget, hobject⟩

/-- An object with a class. -/
theorem run_getJClass (h : object.jClass.bind s.classAt = some clzz) :
    (getJClass object).run s = .ok clzz s := by
  rw [getJClass, get_bind, h]
  rfl

/-- A handle of a class. -/
theorem run_expectClass {message : String} (h : s.refs.getReference idx.toInt = .ok (some n))
    (hclass : s.classAt n = some clzz) :
    (expectClass message idx).run s = .ok (n, clzz) s := by
  rw [expectClass, bind_of_ok (run_getReference h), get_bind]
  simp only [hclass]
  rfl

/-- `expectClass` returns the class of the handle. -/
theorem expectClass_eq_ok {message : String}
    (h : (expectClass message idx).run s = .ok (n, clzz) s') :
    s' = s ∧ s.refs.getReference idx.toInt = .ok (some n) ∧ s.classAt n = some clzz := by
  obtain ⟨r, s₁, hr, hrest⟩ := bind_eq_ok h
  obtain ⟨rfl, hget⟩ := getReference_eq_ok hr
  rw [get_bind] at hrest
  cases r with
  | none => cases hrest
  | some m =>
    dsimp only at hrest
    cases hclass : s₁.classAt m with
    | none =>
      rw [hclass] at hrest
      cases hrest
    | some clzz' =>
      rw [hclass] at hrest
      cases hrest
      exact ⟨rfl, hget, hclass⟩

/-- A call of a method comes down to the invocation of what is found. -/
theorem run_callMethod {what : String} {owner : JniCode (JObject × JClass)}
    {thiz : JObject → Option ℕ} {method : JMethod} {params : List JavaValue}
    (howner : owner.run s = .ok (object, clzz) s)
    (hmethod : clzz.methods (arg args 2) = some method)
    (hparams : (readArgsV 3 args method.method.parameterTypes).run s = .ok params s) :
    (callMethod rt args what owner thiz).run s =
      (onHeap (rt.invoke clzz.reflected.klass method.method (thiz object) params) >>=
        methodResult rt method.method.returnType).run s := by
  rw [callMethod, bind_of_ok howner, bind_of_ok (run_findMethod hmethod), bind_of_ok hparams]

/-- `NewObjectV` with a constructor and its arguments. -/
theorem run_newObjectV {constructor : JConstructor} {reflected : Constructor}
    {params : List JavaValue} (hget : s.refs.getReference (arg args 1).toInt = .ok (some n))
    (hclass : s.classAt n = some clzz)
    (hconstructor : JniEnv.newObjectV clzz (arg args 2) = .ok constructor)
    (hreflected : constructor.constructor = some reflected)
    (hparams : (readArgsV 3 args reflected.parameterTypes).run s = .ok params s) :
    (newObjectV rt args).run s =
      (onHeap (rt.newInstance clzz.reflected.klass reflected params) >>= fun newInstance =>
        handOut ⟨.object, clzz.reflected.klass, some n, some newInstance⟩).run s := by
  have hfound : (getOrThrow (JniEnv.newObjectV clzz (arg args 2)) : JniCode _).run s =
      .ok constructor s := by
    rw [hconstructor]
    rfl
  rw [newObjectV, bind_of_ok (run_expectClass hget hclass), bind_of_ok hfound]
  simp only [hreflected]
  rw [bind_of_ok hparams]

/-- A handle of an object with a class. -/
theorem run_instanceOwner (hget : s.refs.getReference idx.toInt = .ok (some n))
    (hobject : s.objects n = some object) (hclass : object.jClass.bind s.classAt = some clzz) :
    (instanceOwner idx).run s = .ok (object, clzz) s := by
  rw [instanceOwner, bind_of_ok (run_objectOf hget hobject), bind_of_ok (run_getJClass hclass)]
  rfl

/-- `elements` returns what is on the heap. -/
theorem elements_eq_ok {array : JObject} {o : ℕ} {values : List (Option ℕ)}
    (h : (elements array).run s = .ok (o, values) s') :
    s' = s ∧ array.value = some o ∧ (s.heap.object o).contents = .objects values := by
  rw [elements, get_bind] at h
  cases hvalue : array.value with
  | none =>
    rw [hvalue] at h
    cases h
  | some o' =>
    simp only [hvalue] at h
    split at h
    next hcontents =>
      cases h
      exact ⟨rfl, rfl, hcontents⟩
    · cases h

/-- `objectArray` returns an object and its elements. -/
theorem objectArray_eq_ok {array : JObject} {o : ℕ} {values : List (Option ℕ)}
    (h : (objectArray idx).run s = .ok (array, o, values) s') :
    s' = s ∧ (∃ n, s.refs.getReference idx.toInt = .ok (some n) ∧ s.objects n = some array) ∧
      array.value = some o ∧ (s.heap.object o).contents = .objects values := by
  obtain ⟨array', s₁, harray, hrest⟩ := bind_eq_ok h
  obtain ⟨rfl, hfound⟩ := objectOf_eq_ok harray
  have hread : ∀ t, (do
      let (o, values) ← elements array'
      pure (array', o, values) : JniCode _).run s₁ = .ok (array, o, values) t →
      t = s₁ ∧ array' = array ∧ array'.value = some o ∧
        (s₁.heap.object o).contents = .objects values := by
    intro t ht
    obtain ⟨⟨o', values'⟩, s₂, helements, hpure⟩ := bind_eq_ok ht
    obtain ⟨rfl, hvalue, hcontents⟩ := elements_eq_ok helements
    cases hpure
    exact ⟨rfl, rfl, hvalue, hcontents⟩
  split at hrest
  · obtain ⟨rfl, rfl, hvalue, hcontents⟩ := hread _ hrest
    exact ⟨rfl, hfound, hvalue, hcontents⟩
  · obtain ⟨rfl, rfl, hvalue, hcontents⟩ := hread _ hrest
    exact ⟨rfl, hfound, hvalue, hcontents⟩
  · cases hrest

end Results

end Jni

end Tank
