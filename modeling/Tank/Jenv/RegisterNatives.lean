import Tank.Helper.Strings
import Tank.Jenv.Wrappers

/-!
# Registering native functions

`RegisterNatives` goes through an array of `JNINativeMethod`s in guest memory, three words each, and
sets the native function of the first method of the class that has the name and the signature. The
strings are read by `readUTF8`, that is in pieces of 32 bytes.

* `NativeMethod.At` says that an entry of the array is in guest memory;
* `register_natives_iff`: each method gets the function of the last entry that matches it, exactly
  if all the pieces of the strings are mapped.
-/

namespace Tank

open ToMathlib MemoryHelper

namespace JniState

/-- The state in which the `JClass` with the number is another one. -/
def withClass (s : JniState) (n : ℕ) (clzz : JClass) : JniState :=
  { s with
    objects := Function.update s.objects n ((s.objects n).map ({ · with kind := .jclass clzz })) }

end JniState

/-! ## The code -/

namespace Jni

variable (rt : JavaRuntime)

/-- The part of the loop of `RegisterNatives` that reads an entry. -/
def readNativeMethod (addr : Int64) : UcM (String × String × Int64) := do
  let nameAddr ← readPtr32 addr
  let signatureAddr ← readPtr32 (addr + 4)
  let ptr ← readPtr32 (addr + 8)
  let name ← readUTF8 rt.decode nameAddr
  let signature ← readUTF8 rt.decode signatureAddr
  pure (name, signature, ptr)

/-- The loop of `RegisterNatives` from the entry `i` on, with the number of entries that are left.
Every entry changes the `JClass`. -/
def registerFrom (order : List Int64) (n : ℕ) (methodAddr : Int64) :
    ℕ → Int64 → JClass → JniCode Unit
  | 0, _, _ => pure ()
  | left + 1, i, clzz => do
    let (name, signature, ptr) ← onUc (readNativeMethod rt (i * 12 + methodAddr))
    let clzz := clzz.registerNative order name signature ptr
    modify (·.withClass n clzz)
    registerFrom order n methodAddr left (i + 1) clzz

/-- `RegisterNatives`. The handle must be a local one. -/
def registerNatives (orders : Orders) (args : List Int64) : JniCode CallRet := do
  let s ← get
  match s.refs.getLocalReference (arg args 1).toInt with
  | none => throw (.exception "Expected a jclass.")
  | some n =>
    match s.classAt n with
    | none => throw (.exception "Expected a jclass.")
    | some clzz =>
      registerFrom rt orders.methods n (arg args 2) (arg args 3).toInt.toNat 0 clzz
      pure (.ofValue 0)

end Jni

/-! ## The array in guest memory -/

/-- A string in readable memory. -/
structure StringAt (uc : Unicorn) (a : UInt64) (bytes : List UInt8) : Prop where
  terminated : Terminated uc.mem a bytes
  readable : uc.checkMemArea a (bytes.length + 1) = true

/-- `JNINativeMethod`, with the strings that it points to. -/
structure NativeMethod where
  nameAddr : UInt32
  signatureAddr : UInt32
  fnPtr : UInt32
  name : List UInt8
  signature : List UInt8

namespace NativeMethod

/-- The entry is at an address. -/
structure At (uc : Unicorn) (a : UInt64) (t : NativeMethod) : Prop where
  readable : uc.checkMemArea a 12 = true
  nameAddr : leWord (readBytes uc.mem a 4) = t.nameAddr
  signatureAddr : leWord (readBytes uc.mem (a + 4) 4) = t.signatureAddr
  fnPtr : leWord (readBytes uc.mem (a + 8) 4) = t.fnPtr
  name : StringAt uc t.nameAddr.toUInt64 t.name
  signature : StringAt uc t.signatureAddr.toUInt64 t.signature

/-- The entries are at an address, one after the other. -/
def AllAt (uc : Unicorn) (a : UInt64) : List NativeMethod → Prop
  | [] => True
  | t :: ts => t.At uc a ∧ AllAt uc (a + 12) ts

/-- The entry is for the method. -/
def isFor (decode : List UInt8 → String) (m : JMethod) (t : NativeMethod) : Bool :=
  m.isMatch (decode t.name) (decode t.signature)

/-- The method with the function of the last entry for it. -/
def bindLast (decode : List UInt8 → String) (ts : List NativeMethod) (m : JMethod) : JMethod :=
  match (ts.filter (isFor decode m)).getLast? with
  | some t => { m with ptr := t.fnPtr.toUInt64.toInt64 }
  | none => m

/-- A string of which all pieces are mapped, and that fits into an array. -/
def StringInPieces (uc : Unicorn) (a : UInt64) (bytes : List UInt8) : Prop :=
  uc.checkMemArea a (piecesLength bytes.length) = true ∧ bytes.length < 2 ^ 31

/-- All pieces of the strings are mapped. -/
structure InPieces (uc : Unicorn) (t : NativeMethod) : Prop where
  name : StringInPieces uc t.nameAddr.toUInt64 t.name
  signature : StringInPieces uc t.signatureAddr.toUInt64 t.signature

end NativeMethod

open NativeMethod

/-! ## Entries -/

section Entries

variable {uc uc' : Unicorn} {addr : Int64} {a : UInt64} {bytes : List UInt8}

theorem run_readPtr32 (addr : Int64) {w : UInt32} (h : uc.checkMemArea addr.toUInt64 4 = true)
    (hw : leWord (readBytes uc.mem addr.toUInt64 4) = w) :
    (readPtr32 addr).run uc = .ok w.toUInt64.toInt64 uc := by
  rw [readPtr32, bind_of_ok (Unicorn.run_memRead_of_mapped h), bytes2Long_four length_readBytes, hw,
    and_mask32, low32_toInt64]
  rfl

theorem StringAt.readUTF8_eq_ok_iff {decode : List UInt8 → String} {w : UInt32} {value : String}
    (h : StringAt uc w.toUInt64 bytes) :
    (readUTF8 decode w.toUInt64.toInt64).run uc = .ok value uc' ↔
      StringInPieces uc w.toUInt64 bytes ∧ value = decode bytes ∧ uc' = uc := by
  rw [MemoryHelper.readUTF8_eq_ok_iff]
  constructor
  · rintro ⟨huc, utf, hvalue, hstring, hpieces⟩
    obtain rfl := hstring.unique h.terminated
    exact ⟨hpieces, hvalue, huc⟩
  · rintro ⟨hpieces, hvalue, huc⟩
    exact ⟨huc, bytes, hvalue, h.terminated, hpieces⟩

/-- An entry is read exactly if the pieces of its strings are mapped. -/
theorem NativeMethod.At.readNativeMethod_eq_ok_iff {t : NativeMethod} (rt : JavaRuntime)
    (h : t.At uc addr.toUInt64) {entry : String × String × Int64} :
    (Jni.readNativeMethod rt addr).run uc = .ok entry uc' ↔
      t.InPieces uc ∧
        entry = (rt.decode t.name, rt.decode t.signature, t.fnPtr.toUInt64.toInt64) ∧ uc' = uc := by
  have harea := h.readable
  rw [uc.checkMemArea_add addr.toUInt64 4 8, uc.checkMemArea_add _ 4 4, Bool.and_eq_true,
    Bool.and_eq_true, UInt64.add_assoc] at harea
  obtain ⟨hname, hsignature, hptr⟩ := harea
  rw [Jni.readNativeMethod, bind_of_ok (run_readPtr32 addr hname h.nameAddr),
    bind_of_ok (run_readPtr32 (addr + 4) hsignature h.signatureAddr),
    bind_of_ok (run_readPtr32 (addr + 8) hptr h.fnPtr)]
  rw [bind_eq_ok_iff_of_ok_iff fun _ _ => h.name.readUTF8_eq_ok_iff,
    bind_eq_ok_iff_of_ok_iff fun _ _ => h.signature.readUTF8_eq_ok_iff, pure_eq_ok_iff]
  constructor
  · rintro ⟨hpieces, hpieces', hentry⟩
    exact ⟨⟨hpieces, hpieces'⟩, hentry⟩
  · rintro ⟨hpieces, hentry⟩
    exact ⟨hpieces.name, hpieces.signature, hentry⟩

end Entries

/-! ## The loop -/

section Loop

variable {decode : List UInt8 → String} {c : JClass} {order : List Int64} {t : NativeMethod}
  {ts : List NativeMethod}

/-- The function of a later entry replaces the one of an entry. -/
theorem bindLast_cons (m : JMethod) :
    bindLast decode (t :: ts) m =
      bindLast decode ts
        (if t.isFor decode m then { m with ptr := t.fnPtr.toUInt64.toInt64 } else m) := by
  have hfilter : ts.filter (isFor decode { m with ptr := t.fnPtr.toUInt64.toInt64 }) =
      ts.filter (isFor decode m) := rfl
  rw [bindLast, List.filter_cons]
  by_cases h : t.isFor decode m = true
  · rw [if_pos h, if_pos h, bindLast, hfilter, List.getLast?_cons]
    cases (ts.filter (isFor decode m)).getLast? <;> rfl
  · rw [if_neg h, if_neg h]
    rfl

/-- In a class without two methods of the same name and types, an entry sets the function of every
method that it is for. -/
theorem methods_registerNative_eq (hdistinct : c.OverloadsDistinct)
    (horder : Enumerates c.methods order) (name signature : String) (ptr : Int64) :
    c.registerNative order name signature ptr =
      { c with methods := fun i => (c.methods i).map fun m =>
        if m.isMatch name signature then { m with ptr } else m } := by
  rw [JClass.registerNative]
  split
  next hnone =>
    have hno (i : Int64) : (c.methods i).map (fun m : JMethod =>
        if m.isMatch name signature then { m with ptr } else m) = c.methods i := by
      rcases hi : c.methods i with _ | m
      · rfl
      · have hmem : i ∈ order := (horder i).2 (by rw [hi]; rfl)
        have hm := List.find?_eq_none.1 hnone i hmem
        rw [hi] at hm
        exact congrArg some (if_neg hm)
    simp only [hno]
  next j hj =>
    obtain ⟨x, hx, hmatch⟩ := firstMatch_eq_some hj
    congr 1
    funext i
    rcases eq_or_ne i j with rfl | hne
    · rw [Function.update_self, hx]
      exact congrArg some (if_pos hmatch).symm
    · rw [Function.update_of_ne hne]
      rcases hi : c.methods i with _ | m
      · rfl
      · refine congrArg some (if_neg fun hm => hne ?_).symm
        exact hdistinct.eq_of_isMatch hi hx hm hmatch

/-- The class after some entries. -/
def JClass.bindAll (c : JClass) (decode : List UInt8 → String) (ts : List NativeMethod) : JClass :=
  { c with methods := fun i => (c.methods i).map (bindLast decode ts) }

theorem JClass.bindAll_nil : c.bindAll decode [] = c := by
  have hnil : bindLast decode [] = id := rfl
  simp only [JClass.bindAll, hnil, Option.map_id, id]

theorem JClass.bindAll_registerNative (hdistinct : c.OverloadsDistinct)
    (horder : Enumerates c.methods order) :
    (c.registerNative order (decode t.name) (decode t.signature) t.fnPtr.toUInt64.toInt64).bindAll
      decode ts = c.bindAll decode (t :: ts) := by
  rw [methods_registerNative_eq hdistinct horder, JClass.bindAll, JClass.bindAll,
    funext bindLast_cons]
  simp only [Option.map_map]
  rfl

theorem enumerates_registerNative (horder : Enumerates c.methods order) (name signature : String)
    (ptr : Int64) : Enumerates (c.registerNative order name signature ptr).methods order := by
  intro i
  rw [horder i, ← Option.isSome_map (f := JMethod.method),
    ← Option.isSome_map (f := JMethod.method), JClass.methods_registerNative]

end Loop

namespace JniState

variable {s : JniState} {n : ℕ} {clzz clzz' : JClass}

theorem withClass_self (h : s.classAt n = some clzz) : s.withClass n clzz = s := by
  obtain ⟨object, hobject, hkind⟩ := classAt_eq_some_iff.1 h
  have hself : (s.objects n).map ({ · with kind := .jclass clzz }) = s.objects n := by
    rw [hobject, ← hkind]
    rfl
  rw [withClass, hself, Function.update_eq_self]

theorem classAt_withClass (h : s.classAt n = some clzz) :
    (s.withClass n clzz').classAt n = some clzz' := by
  obtain ⟨object, hobject⟩ := exists_of_classAt h
  refine classAt_eq_some_iff.2 ⟨{ object with kind := .jclass clzz' }, ?_, rfl⟩
  simp only [withClass, hobject, Option.map_some, Function.update_self]

theorem withClass_withClass :
    (s.withClass n clzz).withClass n clzz' = s.withClass n clzz' := by
  simp only [withClass, Function.update_self, Function.update_idem, Option.map_map]
  rfl

end JniState

namespace Jni

open JniState

variable {rt : JavaRuntime} {order : List Int64} {n : ℕ} {methodAddr i : Int64} {clzz : JClass}
  {s s' : JniState} {ts : List NativeMethod}

/-- The loop ends exactly if the pieces of all strings are mapped. -/
theorem registerFrom_eq_ok_iff (rt : JavaRuntime) (s' : JniState)
    (hdistinct : clzz.OverloadsDistinct) (horder : Enumerates clzz.methods order)
    (hclass : s.classAt n = some clzz)
    (hts : AllAt s.uc (i * 12 + methodAddr).toUInt64 ts) :
    (registerFrom rt order n methodAddr ts.length i clzz).run s = .ok () s' ↔
      (∀ t ∈ ts, t.InPieces s.uc) ∧ s' = s.withClass n (clzz.bindAll rt.decode ts) := by
  induction ts generalizing s i clzz with
  | nil =>
    rw [JClass.bindAll_nil, withClass_self hclass]
    constructor
    · intro h
      exact ⟨List.forall_mem_nil _, (EStateM.Result.ok.inj h).2.symm⟩
    · rintro ⟨-, rfl⟩
      rfl
  | cons t ts ih =>
    obtain ⟨hentry, hrest⟩ := hts
    have hnext : ((i + 1) * 12 + methodAddr).toUInt64 = (i * 12 + methodAddr).toUInt64 + 12 := by
      have hadd : (i + 1) * 12 + methodAddr = i * 12 + methodAddr + 12 := by grind
      rw [hadd]
      rfl
    -- The entry changes the class in its wrapper, and the loop goes on with the changed class.
    have hstep := ih (s := s.withClass n (clzz.registerNative order (rt.decode t.name)
      (rt.decode t.signature) t.fnPtr.toUInt64.toInt64)) (i := i + 1)
      (hdistinct.registerNative order _) (enumerates_registerNative horder _ _ _)
      (classAt_withClass hclass) (hnext ▸ hrest)
    have huc (clzz : JClass) : (s.withClass n clzz).uc = s.uc := rfl
    rw [JClass.bindAll_registerNative hdistinct horder, withClass_withClass, huc] at hstep
    rw [List.length_cons, registerFrom, List.forall_mem_cons, and_assoc, ← hstep,
      bind_eq_ok_iff_of_ok_iff (onUc_ok_iff fun _ _ => hentry.readNativeMethod_eq_ok_iff rt)]
    rfl

/-! ## The result -/

/-- After `RegisterNatives` each method of the class has the function of the last entry for it, or
the one it had. Nothing else was changed. -/
structure Registered (rt : JavaRuntime) (s s' : JniState) (n : ℕ) (clzz : JClass)
    (ts : List NativeMethod) : Prop where
  methods : ∃ clzz', s'.classAt n = some clzz' ∧
    ∀ i, clzz'.methods i = (clzz.methods i).map (bindLast rt.decode ts)
  others : ∀ m ≠ n, s'.objects m = s.objects m
  frame : s' = { s with objects := s'.objects }

theorem registered_withClass (hclass : s.classAt n = some clzz) :
    Registered rt s (s.withClass n (clzz.bindAll rt.decode ts)) n clzz ts where
  methods := ⟨_, classAt_withClass hclass, fun _ => rfl⟩
  others := fun _ hm => Function.update_of_ne hm _ _
  frame := rfl

/-- `RegisterNatives` returns exactly if the pieces of all strings are mapped. -/
theorem registerNatives_eq_ok_iff (rt : JavaRuntime) {orders : Orders} (args : List Int64)
    (ret : CallRet) (s' : JniState) (href : s.refs.getLocalReference (arg args 1).toInt = some n)
    (hclass : s.classAt n = some clzz) (hdistinct : clzz.OverloadsDistinct)
    (horder : Enumerates clzz.methods orders.methods)
    (hcount : (arg args 3).toInt.toNat = ts.length) (hts : AllAt s.uc (arg args 2).toUInt64 ts) :
    (registerNatives rt orders args).run s = .ok ret s' ↔
      (∀ t ∈ ts, t.InPieces s.uc) ∧ ret = .ofValue 0 ∧
        s' = s.withClass n (clzz.bindAll rt.decode ts) := by
  have hzero : (0 * 12 + arg args 2).toUInt64 = (arg args 2).toUInt64 := by
    rw [Int64.zero_mul, Int64.zero_add]
  have hloop (s₁ : JniState) := registerFrom_eq_ok_iff rt s₁ hdistinct horder hclass
    (hzero.symm ▸ hts)
  rw [registerNatives, get_bind]
  simp only [href, hclass, hcount]
  rw [bind_eq_ok_iff]
  constructor
  · rintro ⟨u, s₁, hrun, hret⟩
    obtain ⟨hpieces, rfl⟩ := (hloop s₁).1 hrun
    obtain ⟨rfl, rfl⟩ := EStateM.Result.ok.inj hret
    exact ⟨hpieces, rfl, rfl⟩
  · rintro ⟨hpieces, rfl, rfl⟩
    exact ⟨(), _, (hloop _).2 ⟨hpieces, rfl⟩, rfl⟩

/-- `RegisterNatives` does what it is to do exactly if the pieces of all strings are mapped. -/
theorem register_natives_iff (rt : JavaRuntime) (orders : Orders)
    (env classIdx methodAddr methodCount : Int64)
    (href : s.refs.getLocalReference classIdx.toInt = some n)
    (hclass : s.classAt n = some clzz) (hdistinct : clzz.OverloadsDistinct)
    (horder : Enumerates clzz.methods orders.methods)
    (hcount : methodCount.toInt.toNat = ts.length) (hts : AllAt s.uc methodAddr.toUInt64 ts) :
    (∃ s', (registerNatives rt orders [env, classIdx, methodAddr, methodCount]).run s =
        .ok (.ofValue 0) s' ∧ Registered rt s s' n clzz ts) ↔
      ∀ t ∈ ts, t.InPieces s.uc := by
  have hiff (s' : JniState) := registerNatives_eq_ok_iff rt [env, classIdx, methodAddr, methodCount]
    (.ofValue 0) s' href hclass hdistinct horder hcount hts
  constructor
  · rintro ⟨s', hrun, -⟩
    exact ((hiff s').1 hrun).1
  · intro hpieces
    exact ⟨_, (hiff _).2 ⟨hpieces, rfl, rfl⟩, registered_withClass hclass⟩

/-- A class with methods `f(int)` and `f(long)`. -/
def twoMethodsClass : Reflected where
  klass := overloaded.reflected.klass
  declaredFields := []
  declaredConstructors := []
  declaredMethods := [⟨"f", [.primitive .int], .primitive .void⟩,
    ⟨"f", [.primitive .long], .primitive .void⟩]
  fields_lt := overloaded.reflected.fields_lt
  constructors_lt := overloaded.reflected.constructors_lt
  methods_lt := by decide
  name_ne_init := by decide

/-- The class was registered and has the handle 1. -/
def twoMethods (uc : Unicorn) : JniState :=
  (((JniState.start .blank .blank).step .idle (.addClass twoMethodsClass)).withLocal 0).step .idle
    (.guest uc)

/-- The mirror of the class. -/
def twoMethodsMirror : JClass where
  index := 0xFF00
  reflected := twoMethodsClass
  fields := fun _ => none
  constructors := Function.update (fun _ => none) 0xFF01 (some ⟨0xFF01, none⟩)
  methods := Function.update (Function.update (fun _ => none) 0xFF02
    (some ⟨0xFF02, ⟨"f", [.primitive .int], .primitive .void⟩, 0⟩)) 0xFF03
    (some ⟨0xFF03, ⟨"f", [.primitive .long], .primitive .void⟩, 0⟩)

theorem getLocalReference_twoMethods (uc : Unicorn) :
    (twoMethods uc).refs.getLocalReference (1 : Int64).toInt = some 0 := by
  have hrefs : (twoMethods .blank).refs.getLocalReference (1 : Int64).toInt = some 0 := by
    decide +kernel
  exact hrefs

theorem classAt_twoMethods (uc : Unicorn) : (twoMethods uc).classAt 0 = some twoMethodsMirror :=
  rfl

theorem methods_twoMethodsMirror (i : Int64) :
    twoMethodsMirror.methods i =
      if i = 0xFF03 then some ⟨0xFF03, ⟨"f", [.primitive .long], .primitive .void⟩, 0⟩
      else if i = 0xFF02 then some ⟨0xFF02, ⟨"f", [.primitive .int], .primitive .void⟩, 0⟩
      else none := by
  simp only [twoMethodsMirror, Function.update_apply]

theorem twoMethodsMirror_distinct : twoMethodsMirror.OverloadsDistinct := by
  intro i j m m' hi hj hm
  rw [methods_twoMethodsMirror] at hi hj
  split_ifs at hi hj with h₁ h₂ h₃ h₄ <;> cases hi <;> cases hj
  · simp_all
  · cases hm
  · cases hm
  · simp_all

theorem enumerates_twoMethodsMirror : Enumerates twoMethodsMirror.methods [0xFF02, 0xFF03] := by
  intro i
  rw [methods_twoMethodsMirror]
  split_ifs <;> simp_all

/-- A page with the string `(I)V`, the string `f` at its beginning and at its end, and entries for
them. -/
def nativesPage : Unicorn :=
  ((({ Unicorn.blank with regions := [⟨0x1000, 0x1000⟩] }.store 0x1000 [102, 0]).store 0x1002
    [40, 73, 41, 86, 0]).store 0x1FFE [102, 0]).store 0x1800
      [0, 0x10, 0, 0, 2, 0x10, 0, 0, 1, 0x80, 0, 0, 0, 0x10, 0, 0, 2, 0x10, 0, 0, 1, 0x90, 0, 0,
        0xFE, 0x1F, 0, 0, 2, 0x10, 0, 0, 1, 0x80, 0, 0]

/-- An entry for `f(I)V`. -/
def nativeF (nameAddr fnPtr : UInt32) : NativeMethod :=
  ⟨nameAddr, 0x1002, fnPtr, [102], [40, 73, 41, 86]⟩

theorem stringAt_nativesPage :
    StringAt nativesPage 0x1000 [102] ∧ StringAt nativesPage 0x1FFE [102] ∧
      StringAt nativesPage 0x1002 [40, 73, 41, 86] :=
  ⟨⟨by decide +kernel, by decide +kernel⟩, ⟨by decide +kernel, by decide +kernel⟩,
    ⟨by decide +kernel, by decide +kernel⟩⟩

/-- Of two entries for a method the second one counts. -/
theorem register_natives_twice :
    (bindLast decodeUTF8 [nativeF 0x1000 0x8001, nativeF 0x1000 0x9001]
        ⟨0xFF02, ⟨"f", [.primitive .int], .primitive .void⟩, 0⟩).ptr = 0x9001 ∧
      ∃ s', (registerNatives .inUTF8 ⟨[], [], [], [0xFF02, 0xFF03]⟩ [0, 1, 0x1800, 2]).run
          (twoMethods nativesPage) = .ok (.ofValue 0) s' ∧
        Registered .inUTF8 (twoMethods nativesPage) s' 0 twoMethodsMirror
          [nativeF 0x1000 0x8001, nativeF 0x1000 0x9001] := by
  obtain ⟨hname, -, hsignature⟩ := stringAt_nativesPage
  refine ⟨by decide +kernel, (register_natives_iff _ ⟨[], [], [], [0xFF02, 0xFF03]⟩ 0 1 0x1800 2
    (getLocalReference_twoMethods _) (classAt_twoMethods _) twoMethodsMirror_distinct
    enumerates_twoMethodsMirror rfl ?_).2 ?_⟩
  · exact ⟨⟨by decide +kernel, by decide +kernel, by decide +kernel, by decide +kernel, hname,
      hsignature⟩, ⟨by decide +kernel, by decide +kernel, by decide +kernel, by decide +kernel,
      hname, hsignature⟩, trivial⟩
  · have hname : StringInPieces nativesPage 0x1000 [102] := ⟨by decide +kernel, by decide⟩
    have hsignature : StringInPieces nativesPage 0x1002 [40, 73, 41, 86] :=
      ⟨by decide +kernel, by decide⟩
    have hpieces (fnPtr : UInt32) : (nativeF 0x1000 fnPtr).InPieces nativesPage :=
      ⟨hname, hsignature⟩
    exact List.forall_mem_cons.2 ⟨hpieces _, List.forall_mem_singleton.2 (hpieces _)⟩

/-- A name that ends at the end of the mapped memory is not read, and the method is not
registered. -/
theorem not_register_natives_page_end :
    AllAt nativesPage (0x1818 : Int64).toUInt64 [nativeF 0x1FFE 0x8001] ∧
      ∀ ret s', (registerNatives .inUTF8 ⟨[], [], [], [0xFF02, 0xFF03]⟩ [0, 1, 0x1818, 1]).run
        (twoMethods nativesPage) ≠ .ok ret s' := by
  obtain ⟨-, hname, hsignature⟩ := stringAt_nativesPage
  have hentry : AllAt nativesPage (0x1818 : Int64).toUInt64 [nativeF 0x1FFE 0x8001] :=
    ⟨⟨by decide +kernel, by decide +kernel, by decide +kernel, by decide +kernel, hname,
      hsignature⟩, trivial⟩
  refine ⟨hentry, fun ret s' hrun => ?_⟩
  have hpieces := ((registerNatives_eq_ok_iff .inUTF8 [0, 1, 0x1818, 1] ret s'
    (getLocalReference_twoMethods _) (classAt_twoMethods _) twoMethodsMirror_distinct
    enumerates_twoMethodsMirror rfl
    hentry).1 hrun).1 _ List.mem_cons_self
  exact absurd hpieces.name.1 (by decide +kernel)

end Jni

end Tank
