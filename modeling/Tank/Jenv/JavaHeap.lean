import Tank.Jenv.Mirror
import Tank.ToMathlib.Unicode

/-!
# Objects of the Java runtime

The JNI functions of the emulator work on objects of the Java virtual machine that the emulator
itself runs on, by reflection. Objects are numbers here, and `null` is `none`. The heap has the
class of each object, the contents of arrays and strings, and the values of fields; static fields
belong to no object.

What methods and constructors do, and which classes are subclasses of others, is a parameter
(`JavaRuntime`).
-/

namespace Tank

open ToMathlib

/-- A value as reflection passes it. -/
inductive JavaValue where
  | boolean (v : Bool)
  | byte (v : Int8)
  | char (v : UInt16)
  | short (v : Int16)
  | int (v : Int32)
  | long (v : Int64)
  /-- A `float`, by its bits. -/
  | float (bits : UInt32)
  /-- A `double`, by its bits. -/
  | double (bits : UInt64)
  | ref (object : Option ℕ)
deriving DecidableEq

/-- What an object holds besides its fields. -/
inductive Contents where
  | plain
  /-- A string, by its UTF-16 code units. -/
  | string (units : List UInt16)
  | booleans (values : List Bool)
  | objects (values : List (Option ℕ))
deriving DecidableEq

structure JavaObject where
  klass : Klass
  contents : Contents
deriving DecidableEq

/-- The heap: the objects that were made so far, and the fields by object, declaring class and
field. -/
structure JavaHeap where
  size : ℕ
  object : ℕ → JavaObject
  fields : Option ℕ → Klass → Field → JavaValue

/-- Java code. -/
abbrev HeapM := EStateM JavaException JavaHeap

/-- The parts of the Java runtime that the emulator does not determine. -/
structure JavaRuntime where
  /-- `new String(bytes)` -/
  decode : List UInt8 → String
  /-- `longValue` of a `Float` and of a `Double`. -/
  floatLong : UInt32 → Int64
  doubleLong : UInt64 → Int64
  /-- `floatValue` and `doubleValue` of a `Long`. -/
  longFloat : Int64 → UInt32
  longDouble : Int64 → UInt64
  isStatic : Klass → Field → Bool
  /-- Objects of the first class are instances of the second one. -/
  isInstance : Klass → Klass → Bool
  /-- `Method.invoke`; a method without a result returns `null`. -/
  invoke : Klass → Method → Option ℕ → List JavaValue → HeapM JavaValue
  /-- `Constructor.newInstance` -/
  newInstance : Klass → Constructor → List JavaValue → HeapM ℕ

/-- `java.lang.String` -/
def Klass.string : Klass := .ofName ⟨"java.lang.String", by decide⟩

/-- `java.lang.Object[]` -/
def Klass.objectArray : Klass := .array (.ofName ⟨"java.lang.Object", by decide⟩)

def Klass.isPrimitive : Klass → Bool
  | .primitive _ => true
  | _ => false

namespace JavaHeap

/-- A new object. -/
def new (object : JavaObject) : HeapM ℕ := fun heap =>
  .ok heap.size
    { heap with
      size := heap.size + 1
      object := Function.update heap.object heap.size object }

theorem klass_new {object : JavaObject} {heap heap' : JavaHeap} {o : ℕ}
    (h : (new object).run heap = .ok o heap') : (heap'.object o).klass = object.klass := by
  cases h
  exact congrArg JavaObject.klass (Function.update_self ..)

/-- The element of an array is set. -/
def setElement (heap : JavaHeap) (array i : ℕ) (value : Option ℕ) : JavaHeap :=
  { heap with
    object := Function.update heap.object array
      { heap.object array with
        contents := match (heap.object array).contents with
          | .objects values => .objects (values.set i value)
          | contents => contents } }

end JavaHeap

namespace JField

variable (rt : JavaRuntime) (klass : Klass) (f : JField)

/-- The object whose field reflection accesses; that of a static field is not looked at. -/
def target (heap : JavaHeap) (o : Option ℕ) : Except JavaException (Option ℕ) :=
  if rt.isStatic klass f.field then .ok none
  else
    match o with
    | none => .error .nullPointer
    | some object =>
      if rt.isInstance (heap.object object).klass klass then .ok (some object)
      else .error .illegalArgument

/-- `getValue` -/
def getValue (o : Option ℕ) : HeapM JavaValue := fun heap =>
  match f.target rt klass heap o with
  | .error err => .error err heap
  | .ok owner => .ok (heap.fields owner klass f.field) heap

/-- The value is stored in the field. -/
def store (o : Option ℕ) (value : JavaValue) : HeapM Unit := fun heap =>
  match f.target rt klass heap o with
  | .error err => .error err heap
  | .ok owner =>
    .ok ()
      { heap with fields := fun owner' klass' field' =>
          if owner' = owner ∧ klass' = klass ∧ field' = f.field then value
          else heap.fields owner' klass' field' }

/-- What a `Long` is converted to for a field of a primitive type. For `boolean` it is only asked
whether there is a value. -/
def fromLong (v : Int64) : Primitive → Option JavaValue
  | .boolean => some (.boolean true)
  | .byte => some (.byte v.toInt8)
  | .short => some (.short v.toInt16)
  | .int => some (.int v.toInt32)
  | .long => some (.long v)
  | .char => some (.char v.toInt32.toUInt32.toUInt16)
  | .double => some (.double (rt.longDouble v))
  | .float => some (.float (rt.longFloat v))
  | .void => none

/-- `setValue` of a `Long` for a field of a primitive type. -/
def setLong (o : Option ℕ) (v : Int64) (type : Primitive) : HeapM Unit :=
  match fromLong rt v type with
  | some value => f.store rt klass o value
  | none => pure ()

/-- `setValue` of an object; it must fit the type of the field. -/
def setObject (o value : Option ℕ) : HeapM Unit := do
  let heap ← get
  let fits := match value with
    | none => true
    | some object => rt.isInstance (heap.object object).klass f.field.type
  if fits then f.store rt klass o (.ref value) else throw .illegalArgument

end JField

/-- `((Number) value).longValue()` -/
def JavaValue.longValue (rt : JavaRuntime) : JavaValue → Except JavaException Int64
  | .byte v => .ok v.toInt64
  | .short v => .ok v.toInt64
  | .int v => .ok v.toInt64
  | .long v => .ok v
  | .float bits => .ok (rt.floatLong bits)
  | .double bits => .ok (rt.doubleLong bits)
  | .boolean _ => .error .classCast
  | .char _ => .error .classCast
  | .ref none => .error .nullPointer
  | .ref (some _) => .error .classCast

end Tank
