import Mathlib.Logic.Function.Basic
import Tank.Jenv.AsmClass
import Tank.Unicorn

/-!
# Mirrors of classes and their members

`JClass` mirrors a Java class for native code: its constructor makes a `JField`, `JConstructor` or
`JMethod` for every declared member. Each mirror takes the next value of a counter as its index when
it is made, and a class keeps its members in three maps by their indices.

The maps are `HashMap`s, whose order of iteration is not specified; where the code iterates, the
order is an argument (`Enumerates`). `overload_determined` says that for methods it makes no
difference.
-/

namespace Tank

open ToMathlib AsmClass

/-! ## Reflection -/

/-- `java.lang.reflect.Field` -/
structure Field where
  name : String
  type : Klass
deriving DecidableEq

/-- `java.lang.reflect.Constructor` -/
structure Constructor where
  parameterTypes : List Klass
deriving DecidableEq

/-- `java.lang.reflect.Method` -/
structure Method where
  name : String
  parameterTypes : List Klass
  returnType : Klass
deriving DecidableEq

/-- A class as reflection shows it. A class file counts the members of a kind with 16 bits, and a
constructor is none of the methods. -/
structure Reflected where
  klass : Klass
  declaredFields : List Field
  declaredConstructors : List Constructor
  declaredMethods : List Method
  fields_lt : declaredFields.length < 2 ^ 16
  constructors_lt : declaredConstructors.length < 2 ^ 16
  methods_lt : declaredMethods.length < 2 ^ 16
  name_ne_init : ∀ method ∈ declaredMethods, method.name ≠ "<init>"

/-! ## Members -/

/-- `JField` -/
structure JField where
  index : Int64
  field : Field
deriving DecidableEq

/-- `JConstructor`; the default constructor of a class that declares none without parameters has
nothing to reflect. -/
structure JConstructor where
  index : Int64
  constructor : Option Constructor
deriving DecidableEq

/-- `JMethod`, with the address of its native function. -/
structure JMethod where
  index : Int64
  method : Method
  ptr : Int64
deriving DecidableEq

/-- `match` of a field. -/
def JField.isMatch (f : JField) (name signature : String) : Bool :=
  f.field.name == name && getSignature f.field.type == signature

/-- `getSignature` of a constructor. -/
def JConstructor.getSignature (c : JConstructor) : String :=
  match c.constructor with
  | none => "()V"
  | some constructor => constructorSignature constructor.parameterTypes ++ "V"

/-- `match` of a constructor. -/
def JConstructor.isMatch (c : JConstructor) (name signature : String) : Bool :=
  "<init>" == name && c.getSignature == signature

/-- `match` of a method. -/
def JMethod.isMatch (m : JMethod) (name signature : String) : Bool :=
  m.method.name == name &&
    methodSignature m.method.parameterTypes m.method.returnType == signature

/-! ## Classes -/

/-- `JClass` -/
structure JClass where
  index : Int64
  reflected : Reflected
  fields : Int64 → Option JField
  constructors : Int64 → Option JConstructor
  methods : Int64 → Option JMethod

/-- The static counter of `JObject` and the classes of the `JClassLoader`. -/
structure Mirrors where
  referenceIndex : Int64
  /-- The indices of the objects that were made so far. A history that nothing reads. -/
  created : List Int64
  classes : Int64 → Option JClass
  classes2 : String → Option JClass

/-- Code that makes mirrors. -/
abbrev MirrorM := EStateM JavaException Mirrors

/-- `incrementReferenceIndex`, which every constructor of a `JObject` calls. -/
def incrementReferenceIndex : MirrorM Int64 := fun s =>
  .ok s.referenceIndex
    { s with
      referenceIndex := s.referenceIndex + 1
      created := s.created ++ [s.referenceIndex] }

/-- A loop of `register`: every member takes the next index and is put into the map under it. -/
def registerAll {α β : Type} (mirror : Int64 → α → β) :
    List α → (Int64 → Option β) → MirrorM (Int64 → Option β)
  | [], map => pure map
  | x :: xs, map => do
    let i ← incrementReferenceIndex
    registerAll mirror xs (Function.update map i (some (mirror i x)))

namespace JClass

/-- `addDefaultConstructor`. The values of the map are the declared constructors. -/
def addDefaultConstructor (declared : List Constructor)
    (constructors : Int64 → Option JConstructor) : MirrorM (Int64 → Option JConstructor) := do
  let hasDefault := declared.any fun c => JConstructor.getSignature ⟨0, some c⟩ == "()V"
  if hasDefault then pure constructors
  else
    let i ← incrementReferenceIndex
    pure (Function.update constructors i (some ⟨i, none⟩))

/-- The constructor, with `register`. -/
def create (reflected : Reflected) : MirrorM JClass := do
  let index ← incrementReferenceIndex
  let fields ← registerAll JField.mk reflected.declaredFields fun _ => none
  let constructors ← registerAll (fun i c => ⟨i, some c⟩) reflected.declaredConstructors
    fun _ => none
  let constructors ← addDefaultConstructor reflected.declaredConstructors constructors
  let methods ← registerAll (fun i m => ⟨i, m, 0⟩) reflected.declaredMethods fun _ => none
  pure { index, reflected, fields, constructors, methods }

/-- The first index, in the order of the iteration, of a member with the property. -/
def firstMatch {β : Type} (map : Int64 → Option β) (p : β → Bool) (order : List Int64) :
    Option Int64 :=
  order.find? fun i => (map i).any p

variable (c : JClass)

/-- `findMethod` of a name and a signature. -/
def findMethod (order : List Int64) (name signature : String) : Option JMethod :=
  (firstMatch c.methods (·.isMatch name signature) order).bind c.methods

/-- `findConstructor` of a name and a signature. -/
def findConstructor (order : List Int64) (name signature : String) : Option JConstructor :=
  (firstMatch c.constructors (·.isMatch name signature) order).bind c.constructors

/-- `findField` of a name and a signature. -/
def findField (order : List Int64) (name signature : String) : Option JField :=
  (firstMatch c.fields (·.isMatch name signature) order).bind c.fields

/-- `registerNative`: the native function of the first method that matches. -/
def registerNative (order : List Int64) (name signature : String) (ptr : Int64) : JClass :=
  match firstMatch c.methods (·.isMatch name signature) order with
  | none => c
  | some i =>
    { c with methods := Function.update c.methods i ((c.methods i).map ({ · with ptr })) }

end JClass

/-! ## Registering classes -/

/-- The part of an array's name after the first bracket. -/
def Klass.componentName : Klass → String
  | .primitive type => getPrimitiveLetter type
  | .ofName className => "L" ++ className.name ++ ";"
  | .array componentType => "[" ++ componentType.componentName

/-- `Class.getName` -/
def Klass.getName : Klass → String
  | .primitive .int => "int"
  | .primitive .void => "void"
  | .primitive .boolean => "boolean"
  | .primitive .char => "char"
  | .primitive .byte => "byte"
  | .primitive .short => "short"
  | .primitive .float => "float"
  | .primitive .long => "long"
  | .primitive .double => "double"
  | .ofName className => className.name
  | .array componentType => "[" ++ componentType.componentName

/-- `addClass` of the `JClassLoader`. The test asks for a name with dots, but the keys are names
with slashes. -/
def JClassLoader.addClass (clzz : JClass) : MirrorM Unit := fun s =>
  if (s.classes2 clzz.reflected.klass.getName).isSome then .ok () s
  else
    .ok ()
      { s with
        classes := Function.update s.classes clzz.index (some clzz)
        classes2 := Function.update s.classes2 (getType clzz.reflected.klass) (some clzz) }

namespace Jvm

/-- `addClass` -/
def addClass (reflected : Reflected) : MirrorM Unit := do
  let clzz ← JClass.create reflected
  JClassLoader.addClass clzz

/-- The beginning of `newInstance`: an unknown class is registered. -/
def ensureClass (reflected : Reflected) : MirrorM Unit := do
  let s ← get
  if (s.classes2 (getType reflected.klass)).isNone then addClass reflected else pure ()

/-- `newInstance`, which throws what `Class.newInstance` throws; otherwise it returns a new object,
here its index. -/
def newInstance (reflected : Reflected) (thrown : Option JavaException) : MirrorM Int64 := do
  ensureClass reflected
  let s ← get
  match s.classes2 (getType reflected.klass), thrown with
  | none, _ => throw .nullPointer
  | some _, some err => throw err
  | some _, none => incrementReferenceIndex

end Jvm

/-! ## Overloads -/

/-- The order goes through the keys of the map. -/
def Enumerates {β : Type} (map : Int64 → Option β) (order : List Int64) : Prop :=
  ∀ i, i ∈ order ↔ (map i).isSome = true

theorem firstMatch_eq_some {β : Type} {map : Int64 → Option β} {p : β → Bool}
    {order : List Int64} {i : Int64} (h : JClass.firstMatch map p order = some i) :
    ∃ x, map i = some x ∧ p x = true := by
  have hany : (map i).any p = true := List.find?_some (p := fun i => (map i).any p) h
  rcases hmap : map i with _ | x
  · rw [hmap] at hany
    cases hany
  · rw [hmap] at hany
    exact ⟨x, rfl, hany⟩

/-- If at most one member has the property, then the order makes no difference. -/
theorem firstMatch_congr {β : Type} {map : Int64 → Option β} {p : β → Bool}
    {order order' : List Int64} (horder : Enumerates map order) (horder' : Enumerates map order')
    (hone : ∀ i j x y, map i = some x → map j = some y → p x = true → p y = true → i = j) :
    JClass.firstMatch map p order = JClass.firstMatch map p order' := by
  -- A match in one order is one in the other, since both go through the same keys.
  have hfind : ∀ {order order' : List Int64}, Enumerates map order → Enumerates map order' →
      ∀ i, JClass.firstMatch map p order = some i → JClass.firstMatch map p order' = some i := by
    intro order order' _ horder' i hi
    obtain ⟨x, hx, hpx⟩ := firstMatch_eq_some hi
    have hmem : i ∈ order' := (horder' i).2 (by rw [hx]; rfl)
    have hsome : (order'.find? fun i => (map i).any p).isSome = true :=
      List.find?_isSome.2 ⟨i, hmem, by rw [hx]; exact hpx⟩
    obtain ⟨j, hj⟩ := Option.isSome_iff_exists.1 hsome
    obtain ⟨y, hy, hpy⟩ := firstMatch_eq_some hj
    rw [hone i j x y hx hy hpx hpy]
    exact hj
  ext i
  exact ⟨hfind horder horder' i, hfind horder' horder i⟩

theorem JMethod.isMatch_iff {m : JMethod} {name signature : String} :
    m.isMatch name signature = true ↔ m.method.name = name ∧
      methodSignature m.method.parameterTypes m.method.returnType = signature := by
  rw [JMethod.isMatch, Bool.and_eq_true, beq_iff_eq, beq_iff_eq]

namespace JClass

/-- No two methods of the class have the same name and the same types. -/
def OverloadsDistinct (c : JClass) : Prop :=
  ∀ i j m m', c.methods i = some m → c.methods j = some m' → m.method = m'.method → i = j

variable {c : JClass} {name signature : String}

/-- A name and a signature belong to one method. -/
theorem OverloadsDistinct.eq_of_isMatch (h : c.OverloadsDistinct) {i j : Int64} {m m' : JMethod}
    (hi : c.methods i = some m) (hj : c.methods j = some m')
    (hm : m.isMatch name signature = true) (hm' : m'.isMatch name signature = true) : i = j := by
  obtain ⟨hname, hsig⟩ := JMethod.isMatch_iff.1 hm
  obtain ⟨hname', hsig'⟩ := JMethod.isMatch_iff.1 hm'
  obtain ⟨htypes, hreturn⟩ := methodSignature_inj (hsig.trans hsig'.symm)
  refine h i j m m' hi hj ?_
  obtain ⟨index, method, ptr⟩ := m
  obtain ⟨index', method', ptr'⟩ := m'
  obtain ⟨mname, types, returnType⟩ := method
  obtain ⟨mname', types', returnType'⟩ := method'
  simp only at hname hname' htypes hreturn
  rw [hname, hname', htypes, hreturn]

/-- Registering a native function does not change which methods there are. -/
theorem methods_registerNative (order : List Int64) (ptr : Int64) (i : Int64) :
    ((c.registerNative order name signature ptr).methods i).map JMethod.method =
      (c.methods i).map JMethod.method := by
  rw [registerNative]
  split
  · rfl
  next j hj =>
    dsimp only
    rcases eq_or_ne i j with rfl | hne
    · rw [Function.update_self, Option.map_map]
      rfl
    · rw [Function.update_of_ne hne]

/-- The overloads are still distinct after a native function was registered, so that the next
registration has one candidate as well. -/
theorem OverloadsDistinct.registerNative (h : c.OverloadsDistinct) (order : List Int64)
    (ptr : Int64) : (c.registerNative order name signature ptr).OverloadsDistinct := by
  intro i j m m' hi hj heq
  have hbefore : ∀ k m, (c.registerNative order name signature ptr).methods k = some m →
      ∃ old, c.methods k = some old ∧ old.method = m.method := by
    intro k m hk
    have hsame : (some m).map JMethod.method = (c.methods k).map JMethod.method := by
      rw [← hk, methods_registerNative]
    exact Option.map_eq_some_iff.1 hsame.symm
  obtain ⟨old, hold, hmethod⟩ := hbefore i m hi
  obtain ⟨old', hold', hmethod'⟩ := hbefore j m' hj
  exact h i j old old' hold hold' (hmethod.trans (heq.trans hmethod'.symm))

end JClass

/-- The signature of a method determines the types of its parameters and its result. In a class
without two methods of the same name and types, a name and a signature therefore have at most one
candidate, and neither `findMethod` nor `registerNative` depends on the order of iteration. -/
theorem overload_determined :
    (∀ types types' returnType returnType',
      methodSignature types returnType = methodSignature types' returnType' →
        types = types' ∧ returnType = returnType') ∧
    ∀ c : JClass, c.OverloadsDistinct → ∀ name signature,
      (∀ i j m m', c.methods i = some m → c.methods j = some m' →
        m.isMatch name signature = true → m'.isMatch name signature = true → i = j) ∧
      ∀ order order', Enumerates c.methods order → Enumerates c.methods order' →
        c.findMethod order name signature = c.findMethod order' name signature ∧
        ∀ ptr, c.registerNative order name signature ptr =
          c.registerNative order' name signature ptr := by
  refine ⟨fun types types' returnType returnType' h => methodSignature_inj h, ?_⟩
  intro c hdistinct name signature
  have hone : ∀ i j m m', c.methods i = some m → c.methods j = some m' →
      m.isMatch name signature = true → m'.isMatch name signature = true → i = j := by
    intro i j m m' hi hj hm hm'
    exact hdistinct.eq_of_isMatch hi hj hm hm'
  refine ⟨hone, fun order order' horder horder' => ?_⟩
  have hfirst := firstMatch_congr horder horder' hone
  refine ⟨?_, fun ptr => ?_⟩
  · rw [JClass.findMethod, JClass.findMethod, hfirst]
  · rw [JClass.registerNative, JClass.registerNative, hfirst]

/-- A class with the methods `void f(int)` and `void f(long)`, under the indices `1` and `2`. -/
def overloaded : JClass where
  index := 0
  reflected :=
    { klass := .ofName ⟨"sample.A", by decide⟩
      declaredFields := []
      declaredConstructors := []
      declaredMethods := []
      fields_lt := by decide
      constructors_lt := by decide
      methods_lt := by decide
      name_ne_init := by simp }
  fields := fun _ => none
  constructors := fun _ => none
  methods := fun i =>
    if i = 1 then some ⟨1, ⟨"f", [.primitive .int], .primitive .void⟩, 0⟩
    else if i = 2 then some ⟨2, ⟨"f", [.primitive .long], .primitive .void⟩, 0⟩
    else none

theorem overloaded_distinct : overloaded.OverloadsDistinct := by
  intro i j m m' hi hj hm
  simp only [overloaded] at hi hj
  split_ifs at hi hj <;> cases hi <;> cases hj
  · simp_all
  · cases hm
  · cases hm
  · simp_all

theorem overload_determined_two :
    overloaded.OverloadsDistinct ∧
      overloaded.findMethod [1, 2] "f" "(I)V" = overloaded.findMethod [2, 1] "f" "(I)V" := by
  refine ⟨overloaded_distinct, ?_⟩
  have henum : ∀ order : List Int64, (∀ i, i ∈ order ↔ i = 1 ∨ i = 2) →
      Enumerates overloaded.methods order := by
    intro order horder i
    rw [horder i, overloaded]
    dsimp only
    split_ifs <;> simp_all
  exact ((overload_determined.2 overloaded overloaded_distinct "f" "(I)V").2 [1, 2] [2, 1]
    (henum _ (by simp)) (henum _ (by simp [or_comm]))).1

end Tank
