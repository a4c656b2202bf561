import Tank.Jenv.Wrappers

/-!
# Variants of calls

`NewObject` gets the arguments of the constructor inline, `NewObjectV` gets them in the area of a
`va_list`, and `NewObjectA` in an array of `jvalue`s. All three are entered in the table as the same
function, which takes `R3` for the first argument and words of the stack for the others. The same
holds for `CallStaticObjectMethod`, `CallVoidMethod` and their variants.

* `Passed` says where the arguments are in each variant;
* `valueRead` is what the function takes for an argument;
* `call_variants_iff`: the variants call the same thing exactly if what is read in them happens to
  be the same.
-/

namespace Tank

open ToMathlib NativeCallHelper

/-- How the arguments of a Java method are passed. -/
inductive Convention where
  | inline
  | vaList
  | jvalues
deriving DecidableEq

/-- The functions with variants. -/
inductive Variants where
  | newObject
  | callStaticObjectMethod
  | callVoidMethod
deriving DecidableEq

/-- The number of a variant in the table, of those that are implemented. -/
def Variants.slot : Variants → Convention → Option ℕ
  | .newObject, .inline => some 28
  | .newObject, .vaList => some 29
  | .newObject, .jvalues => some 30
  | .callStaticObjectMethod, .inline => some 114
  | .callStaticObjectMethod, .vaList => some 115
  | .callVoidMethod, .inline => some 61
  | .callVoidMethod, .vaList => some 62
  | _, .jvalues => none

/-- The function that is behind all variants. -/
def Variants.function : Variants → JniFunction
  | .newObject => .newObjectV
  | .callStaticObjectMethod => .callStaticObjectMethodV
  | .callVoidMethod => .callObjectMethodV

theorem Variants.lookup_slot {v : Variants} {c : Convention} {k : ℕ} (h : v.slot c = some k) :
    initJniTables.lookup k = some v.function := by
  cases v <;> cases c <;> cases h <;> decide

/-- Words with a distance of `stride` bytes, from an address on. -/
def WordsAt (uc : Unicorn) (start : UInt32) (stride : ℕ) (words : List UInt32) : Prop :=
  ∀ (i : ℕ) a, words[i]? = some a →
    uc.wordAt (start + UInt32.ofNat (stride * i)).toUInt64 = some a

/-- The engine is in the stub of a call with these words as the arguments of a member. Inline they
are arguments of the call itself, otherwise its last argument is their address. -/
def Passed (uc : Unicorn) (spc owner id : UInt32) (words : List UInt32) : Convention → Prop
  | .inline => ArgsPassed uc spc (uc.regs .r0 :: owner :: id :: words)
  | .vaList =>
    ArgsPassed uc spc [uc.regs .r0, owner, id, uc.regs .r3] ∧ WordsAt uc (uc.regs .r3) 4 words
  | .jvalues =>
    ArgsPassed uc spc [uc.regs .r0, owner, id, uc.regs .r3] ∧ WordsAt uc (uc.regs .r3) 8 words

theorem Passed.owner_id {uc : Unicorn} {spc owner id : UInt32} {words : List UInt32}
    {c : Convention} (h : Passed uc spc owner id words c) :
    uc.regs .r1 = owner ∧ uc.regs .r2 = id := by
  cases c with
  | inline => exact ⟨ArgsPassed.registers h 1 _ _ rfl rfl, ArgsPassed.registers h 2 _ _ rfl rfl⟩
  | vaList => exact ⟨h.1.registers 1 _ _ rfl rfl, h.1.registers 2 _ _ rfl rfl⟩
  | jvalues => exact ⟨h.1.registers 1 _ _ rfl rfl, h.1.registers 2 _ _ rfl rfl⟩

/-- The variants that get an address. -/
theorem Passed.of_address {uc : Unicorn} {spc owner id : UInt32} {words : List UInt32}
    {c : Convention} (hc : c ≠ .inline)
    (h : ArgsPassed uc spc [uc.regs .r0, owner, id, uc.regs .r3])
    (hwords : ∀ stride, WordsAt uc (uc.regs .r3) stride words) :
    Passed uc spc owner id words c := by
  cases c with
  | inline => exact absurd rfl hc
  | vaList => exact ⟨h, hwords 4⟩
  | jvalues => exact ⟨h, hwords 8⟩

/-- What the function takes for the argument `i`, of which there can be nine: first the argument
itself or the address of all of them, and then words of the stack, which are the ones 16 bytes above
the inline arguments. -/
def valueRead (uc : Unicorn) (words : List UInt32) : Convention → ℕ → Option Int64
  | .inline, 0 => words[0]?.map fun word => word.toUInt64.toInt64
  | _, 0 => some (uc.regRead .r3)
  | _, i + 1 =>
    if i < 8 then (uc.wordAt (stackArg uc (4 + i)).toUInt64).map fun word => word.toInt32.toInt64
    else none

/-- The type is `int` or one of references. -/
def Klass.isIntOrReference (type : Klass) : Bool := type == .primitive .int || !type.isPrimitive

namespace JniState

open Jni

/-- The member that a function calls for an owner and an id, with the types of its parameters. -/
inductive Resolves (s : JniState) (owner id : Int64) : JniFunction → List Klass → Prop where
  | newObject {n : ℕ} {clzz : JClass} {constructor : JConstructor} {reflected : Constructor}
      (hget : s.refs.getReference owner.toInt = .ok (some n)) (hclass : s.classAt n = some clzz)
      (hconstructor : JniEnv.newObjectV clzz id = .ok constructor)
      (hreflected : constructor.constructor = some reflected) :
      Resolves s owner id .newObjectV reflected.parameterTypes
  | ofClass {n : ℕ} {clzz : JClass} {method : JMethod}
      (hget : s.refs.getReference owner.toInt = .ok (some n)) (hclass : s.classAt n = some clzz)
      (hmethod : clzz.methods id = some method) :
      Resolves s owner id .callStaticObjectMethodV method.method.parameterTypes
  | ofObject {n : ℕ} {object : JObject} {clzz : JClass} {method : JMethod}
      (hget : s.refs.getReference owner.toInt = .ok (some n)) (hobject : s.objects n = some object)
      (hclass : object.jClass.bind s.classAt = some clzz)
      (hmethod : clzz.methods id = some method) :
      Resolves s owner id .callObjectMethodV method.method.parameterTypes

/-- The function calls a member with these Java values. -/
def Calls (s : JniState) (f : JniFunction) (params : List JavaValue) : Prop :=
  ∃ args types, (JCallHelper.readVaArgs 12).run s.uc = .ok (some args) s.uc ∧
    s.Resolves (arg args 1) (arg args 2) f types ∧
    (readArgsV 3 args types).run s = .ok params s

/-- The Java value of an argument that is an `int` or a handle. -/
def Means (s : JniState) (value : Int64) (param : JavaValue) : Klass → Prop
  | .primitive .int => param = .int value.toInt32
  | .primitive _ => False
  | _ => ∃ n object, s.refs.getReference value.toInt = .ok (some n) ∧
      s.objects n = some object ∧ param = .ref object.value

/-- The Java values are those of what is read for the arguments. -/
def Decoded (s : JniState) (read : ℕ → Option Int64) (types : List Klass)
    (params : List JavaValue) : Prop :=
  params.length = types.length ∧
    ∀ i type param, types[i]? = some type → params[i]? = some param →
      ∃ value, read i = some value ∧ s.Means value param type

variable {s s' : JniState} {f : JniFunction} {type : Klass} {types types' : List Klass}
  {param : JavaValue} {params : List JavaValue} {args : List Int64}

theorem Resolves.unique {owner id : Int64} (h : s.Resolves owner id f types)
    (h' : s.Resolves owner id f types') : types = types' := by
  cases h with
  | newObject hget hclass hconstructor hreflected =>
    cases h' with
    | newObject hget' hclass' hconstructor' hreflected' =>
      cases hget.symm.trans hget'
      cases hclass.symm.trans hclass'
      cases hconstructor.symm.trans hconstructor'
      cases hreflected.symm.trans hreflected'
      rfl
  | ofClass hget hclass hmethod =>
    cases h' with
    | ofClass hget' hclass' hmethod' =>
      cases hget.symm.trans hget'
      cases hclass.symm.trans hclass'
      cases hmethod.symm.trans hmethod'
      rfl
  | ofObject hget hobject hclass hmethod =>
    cases h' with
    | ofObject hget' hobject' hclass' hmethod' =>
      cases hget.symm.trans hget'
      cases hobject.symm.trans hobject'
      cases hclass.symm.trans hclass'
      cases hmethod.symm.trans hmethod'
      rfl

/-- The engine plays no part in it. -/
theorem Resolves.withUc {uc : Unicorn} {owner id : Int64} (h : s.Resolves owner id f types) :
    Resolves { s with uc } owner id f types := by
  cases h with
  | newObject hget hclass hconstructor hreflected =>
    exact .newObject hget hclass hconstructor hreflected
  | ofClass hget hclass hmethod => exact .ofClass hget hclass hmethod
  | ofObject hget hobject hclass hmethod => exact .ofObject hget hobject hclass hmethod

/-! ## The decoder -/

theorem readArg_reference_eq_ok_iff {value : Int64} :
    (do
      let object ← objectOf value
      pure (.ref object.value) : JniCode JavaValue).run s = .ok param s' ↔
      s' = s ∧ ∃ n object, s.refs.getReference value.toInt = .ok (some n) ∧
        s.objects n = some object ∧ param = .ref object.value := by
  constructor
  · intro h
    obtain ⟨object, s₁, hobject, hpure⟩ := bind_eq_ok h
    obtain ⟨rfl, n, hget, hn⟩ := objectOf_eq_ok hobject
    cases hpure
    exact ⟨rfl, n, object, hget, hn, rfl⟩
  · rintro ⟨rfl, n, object, hget, hn, rfl⟩
    rw [bind_of_ok (run_objectOf hget hn)]
    rfl

theorem readArg_eq_ok_iff {value : Int64} (h : type.isIntOrReference = true) :
    (readArg value type).run s = .ok param s' ↔ s' = s ∧ s.Means value param type := by
  cases type with
  | primitive primitive =>
    cases primitive with
    | int =>
      constructor
      · intro hrun
        cases hrun
        exact ⟨rfl, rfl⟩
      · rintro ⟨rfl, hparam⟩
        rw [show param = .int value.toInt32 from hparam]
        rfl
    | _ => exact absurd h (by decide)
  | ofName name => exact readArg_reference_eq_ok_iff
  | array type => exact readArg_reference_eq_ok_iff

/-- The values of a list are decoded one by one. -/
theorem decoded_cons_iff {read : ℕ → Option Int64} :
    s.Decoded read (type :: types) (param :: params) ↔
      (∃ value, read 0 = some value ∧ s.Means value param type) ∧
        s.Decoded (fun i => read (i + 1)) types params := by
  constructor
  · rintro ⟨hlength, hvalues⟩
    refine ⟨hvalues 0 type param rfl rfl, by simpa using hlength, fun i type' param' => ?_⟩
    exact hvalues (i + 1) type' param'
  · rintro ⟨hfirst, hlength, hvalues⟩
    refine ⟨by simpa using hlength, fun i type' param' htype hparam => ?_⟩
    cases i with
    | zero =>
      cases htype
      cases hparam
      exact hfirst
    | succ i => exact hvalues i type' param' htype hparam

/-- The loop over the parameters. -/
theorem readArgsFrom_eq_ok_iff {offset : ℕ}
    (htypes : ∀ type ∈ types, type.isIntOrReference = true) :
    (readArgsFrom args offset types).run s = .ok params s ↔
      s.Decoded (fun i => args[offset + i]?) types params := by
  induction types generalizing offset params with
  | nil =>
    constructor
    · intro h
      cases h
      exact ⟨rfl, fun i type param htype => by cases htype⟩
    · rintro ⟨hlength, -⟩
      rw [List.length_eq_zero_iff.1 hlength]
      rfl
  | cons type types ih =>
    obtain ⟨htype, htypes⟩ := List.forall_mem_cons.1 htypes
    -- The place of the next argument moves along with the list of types.
    have hshift : (fun i => args[offset + (i + 1)]?) = fun i => args[offset + 1 + i]? := by
      funext i
      rw [Nat.add_assoc, Nat.add_comm 1 i]
    rw [readArgsFrom_cons_eq_ok_iff]
    constructor
    · rintro ⟨value, param, rest, s₁, hvalue, hparam, hrest, rfl⟩
      obtain ⟨rfl, hmeans⟩ := (readArg_eq_ok_iff htype).1 hparam
      rw [decoded_cons_iff, hshift]
      exact ⟨⟨value, hvalue, hmeans⟩, (ih htypes).1 hrest⟩
    · intro h
      cases params with
      | nil => cases h.1
      | cons param params =>
        rw [decoded_cons_iff, hshift] at h
        obtain ⟨⟨value, hvalue, hmeans⟩, hrest⟩ := h
        exact ⟨value, param, params, s, hvalue, (readArg_eq_ok_iff htype).2 ⟨rfl, hmeans⟩,
          (ih htypes).2 hrest, rfl⟩

/-! ## What the decoder gets -/

variable {uc : Unicorn} {spc owner id : UInt32} {words : List UInt32} {c : Convention}

theorem getElem?_args (h : Passed uc spc owner id words c)
    (hargs : (JCallHelper.readVaArgs 12).run uc = .ok (some args) uc) {i : ℕ}
    (hi : i < words.length) : args[3 + i]? = valueRead uc words c i := by
  obtain ⟨-, hlength, -, -, h3⟩ := args_of_run hargs
  have hrun : (readArgs (Int32.ofNat 12)).run uc = .ok (some args) uc := hargs
  cases i with
  | zero =>
    cases c with
    | inline =>
      have hword : words[0]? = some (words[0]) := List.getElem?_eq_getElem hi
      have hr3 : uc.regs .r3 = words[0] := ArgsPassed.registers h 3 _ _ rfl hword
      rw [valueRead, hword, h3, Unicorn.regRead, hr3]
      rfl
    | vaList => exact h3
    | jvalues => exact h3
  | succ i =>
    -- From the second argument on the words come from the stack in all variants.
    have hread : valueRead uc words c (i + 1) = if i < 8 then
        (uc.wordAt (stackArg uc (4 + i)).toUInt64).map fun word => word.toInt32.toInt64
        else none := by
      cases c <;> rfl
    have hplace : 3 + (i + 1) = 4 + i := by omega
    rw [hread, hplace]
    by_cases hlt : i < 8
    · obtain ⟨word, hword, hvalue⟩ :=
        readArgs_getElem?_stack (show 4 ≤ 4 + i by omega) (by omega) (by omega) hrun
      rw [if_pos hlt, hvalue, hword]
      rfl
    · rw [if_neg hlt, List.getElem?_eq_none (by omega)]

/-- What a variant calls is determined by what is read for the arguments. -/
theorem calls_iff (hpassed : Passed uc spc owner id words c)
    (hresolves : s.Resolves owner.toUInt64.toInt64 id.toUInt64.toInt64 f types)
    (htypes : ∀ type ∈ types, type.isIntOrReference = true)
    (hlength : words.length = types.length) :
    Calls { s with uc } f params ↔
      argsReadable uc 12 = true ∧ s.Decoded (valueRead uc words c) types params := by
  obtain ⟨hr1, hr2⟩ := hpassed.owner_id
  have howner : uc.regRead .r1 = owner.toUInt64.toInt64 := by rw [Unicorn.regRead, hr1]
  have hid : uc.regRead .r2 = id.toUInt64.toInt64 := by rw [Unicorn.regRead, hr2]
  -- Below the number of parameters, the decoder gets what `valueRead` says.
  have hdecode : ∀ args, (JCallHelper.readVaArgs 12).run uc = .ok (some args) uc →
      ((readArgsV 3 args types).run { s with uc } = .ok params { s with uc } ↔
        s.Decoded (valueRead uc words c) types params) := by
    intro args hargs
    rw [readArgsV, readArgsFrom_eq_ok_iff htypes]
    refine and_congr_right fun _ => forall₃_congr fun i type param => ?_
    refine forall_congr' fun htype => ?_
    have hi : i < types.length := (List.getElem?_eq_some_iff.1 htype).1
    rw [← getElem?_args hpassed hargs (hlength ▸ hi)]
    exact Iff.rfl
  constructor
  · rintro ⟨args, types', hargs, hresolves', hparams⟩
    obtain ⟨hread, -, h1, h2, -⟩ := args_of_run hargs
    rw [h1, h2, howner, hid] at hresolves'
    have htypes' : types = types' := hresolves.withUc.unique hresolves'
    subst htypes'
    exact ⟨hread, (hdecode args hargs).1 hparams⟩
  · rintro ⟨hread, hdecoded⟩
    obtain ⟨args, hargs, -⟩ := exists_args hread
    obtain ⟨-, -, h1, h2, -⟩ := args_of_run hargs
    refine ⟨args, types, hargs, ?_, (hdecode args hargs).2 hdecoded⟩
    rw [h1, h2, howner, hid]
    exact hresolves.withUc

/-- The variants of a function call the same thing exactly if all of them can read their arguments,
and the values that they read in place of the arguments stand for the same Java values. -/
theorem call_variants_iff {v : Variants} {engine : Convention → Unicorn} {spc : Convention → UInt32}
    (hpassed : ∀ c, (v.slot c).isSome = true → Passed (engine c) (spc c) owner id words c)
    (hresolves : s.Resolves owner.toUInt64.toInt64 id.toUInt64.toInt64 v.function types)
    (htypes : ∀ type ∈ types, type.isIntOrReference = true)
    (hlength : words.length = types.length) :
    (∃ params, ∀ c k, v.slot c = some k → ∃ f, initJniTables.lookup k = some f ∧
      Calls { s with uc := engine c } f params) ↔
      (∀ c, (v.slot c).isSome = true → argsReadable (engine c) 12 = true) ∧
        ∃ params, ∀ c, (v.slot c).isSome = true →
          s.Decoded (valueRead (engine c) words c) types params := by
  -- One variant: the entry in the table is the common function.
  have hcalls : ∀ c k params, v.slot c = some k →
      ((∃ f, initJniTables.lookup k = some f ∧ Calls { s with uc := engine c } f params) ↔
        argsReadable (engine c) 12 = true ∧
          s.Decoded (valueRead (engine c) words c) types params) := by
    intro c k params hslot
    have hc := hpassed c (by rw [hslot]; rfl)
    rw [← calls_iff hc hresolves htypes hlength]
    constructor
    · rintro ⟨f, hf, h⟩
      rw [Variants.lookup_slot hslot] at hf
      cases hf
      exact h
    · intro h
      exact ⟨_, Variants.lookup_slot hslot, h⟩
  constructor
  · rintro ⟨params, h⟩
    have hvariant : ∀ c, (v.slot c).isSome = true → argsReadable (engine c) 12 = true ∧
        s.Decoded (valueRead (engine c) words c) types params := by
      intro c hc
      obtain ⟨k, hslot⟩ := Option.isSome_iff_exists.1 hc
      exact (hcalls c k params hslot).1 (h c k hslot)
    exact ⟨fun c hc => (hvariant c hc).1, params, fun c hc => (hvariant c hc).2⟩
  · rintro ⟨hread, params, hdecoded⟩
    refine ⟨params, fun c k hslot => (hcalls c k params hslot).2 ?_⟩
    have hc : (v.slot c).isSome = true := by rw [hslot]; rfl
    exact ⟨hread c hc, hdecoded c hc⟩

/-! ## A class with an `int` -/

/-- The class with handle 1. Its constructor takes an `int`. -/
def withInt : JniState :=
  [.addClass intClass, .guest (.inCall 0 0x10000 0 0), .call .findClass .none].foldl
    (step { JavaRuntime.idle with decode := fun _ => "sample/B" }) (start .blank .blank)

theorem resolves_withInt : withInt.Resolves 1 0xFF02 .newObjectV [.primitive .int] := by
  have hmap : (withInt.classAt 0).map (fun clzz => JniEnv.newObjectV clzz 0xFF02) =
      some (.ok ⟨0xFF02, some ⟨[.primitive .int]⟩⟩) := by decide +kernel
  obtain ⟨clzz, hclass, hconstructor⟩ := Option.map_eq_some_iff.1 hmap
  exact .newObject (by decide +kernel) hclass hconstructor rfl

/-- A single argument is at the address itself. -/
theorem wordsAt_singleton {uc : Unicorn} {start word : UInt32}
    (h : uc.wordAt start.toUInt64 = some word) (stride : ℕ) : WordsAt uc start stride [word] := by
  intro i w hw
  cases i with
  | zero =>
    cases hw
    have hzero : start + UInt32.ofNat (stride * 0) = start := UInt32.add_zero start
    rw [hzero, h]
  | succ i => cases hw

/-- The engine in a call of the constructor with `0x10100`, which is in `R3`, and also the word at
the address in `R3`. -/
def ownAddress : Unicorn :=
  { Unicorn.inCall 0 1 0xFF02 0x10100 with
    mem := fun x => if x = 0x10101 ∨ x = 0x10102 then 1 else 0 }

/-- An argument that is its own address is read right by all variants. -/
theorem call_variants_own_address :
    ∃ params, ∀ c k, Variants.newObject.slot c = some k → ∃ f, initJniTables.lookup k = some f ∧
      Calls { withInt with uc := ownAddress } f params := by
  have hregs : ArgsPassed ownAddress 0x10010 [0, 1, 0xFF02, 0x10100] :=
    argsPassed_of_registers (by decide) (by decide) (by decide)
  have hpassed : ∀ c, Passed ownAddress 0x10010 1 0xFF02 [0x10100] c := by
    intro c
    by_cases hc : c = .inline
    · subst hc
      exact hregs
    · exact .of_address hc hregs (wordsAt_singleton (by decide +kernel))
  refine (call_variants_iff (v := .newObject) (fun c _ => hpassed c) resolves_withInt
    (by simp; decide) rfl).2 ⟨fun c _ => by decide +kernel, [.int 0x10100], fun c _ => ⟨rfl, ?_⟩⟩
  intro i type param htype hparam
  cases i with
  | zero =>
    cases htype
    cases hparam
    exact ⟨0x10100, by cases c <;> decide +kernel, rfl⟩
  | succ i => cases htype

/-- The engine in a call of the constructor with `5`, which is in `R3` or at the address in `R3`. -/
def passing : Convention → Unicorn
  | .inline => .inCall 0 1 0xFF02 5
  | _ => { Unicorn.inCall 0 1 0xFF02 0x10100 with mem := fun x => if x = 0x10100 then 5 else 0 }

/-- `NewObject` calls the constructor with `5`, and the other two with the address of the `5`. -/
theorem variants_differ :
    (∀ c, Passed (passing c) 0x10010 1 0xFF02 [5] c) ∧
      Calls { withInt with uc := passing .inline } .newObjectV [.int 5] ∧
      Calls { withInt with uc := passing .vaList } .newObjectV [.int 0x10100] ∧
      Calls { withInt with uc := passing .jvalues } .newObjectV [.int 0x10100] := by
  have hwords : ∀ stride, WordsAt (passing .vaList) 0x10100 stride [5] :=
    wordsAt_singleton (by decide +kernel)
  have hpassed : ∀ c, Passed (passing c) 0x10010 1 0xFF02 [5] c := by
    have hregs : ArgsPassed (passing .vaList) 0x10010 [0, 1, 0xFF02, 0x10100] :=
      argsPassed_of_registers (by decide) (by decide) (by decide)
    intro c
    cases c with
    | inline => exact argsPassed_of_registers (by decide) (by decide) (by decide)
    | vaList => exact .of_address (by decide) hregs hwords
    | jvalues => exact .of_address (by decide) hregs hwords
  have hcalls : ∀ c value, valueRead (passing c) [5] c 0 = some value →
      Calls { withInt with uc := passing c } .newObjectV [.int value.toInt32] := by
    intro c value hvalue
    refine (calls_iff (hpassed c) resolves_withInt (by simp; decide) rfl).2 ⟨?_, rfl, ?_⟩
    · cases c <;> decide +kernel
    · intro i type param htype hparam
      cases i with
      | zero =>
        cases htype
        cases hparam
        exact ⟨value, hvalue, rfl⟩
      | succ i => cases htype
  exact ⟨hpassed, hcalls .inline 5 (by decide +kernel), hcalls .vaList 0x10100 (by decide +kernel),
    hcalls .jvalues 0x10100 (by decide +kernel)⟩

end JniState

end Tank
