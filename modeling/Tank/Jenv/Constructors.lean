import Tank.Jenv.Arguments
import Tank.Jenv.RegisterNatives

/-!
# Ids of constructors

A `JClass` has a table with the declared constructors of its class. If none of them is without
parameters, one entry more is made for the default constructor, which has nothing to reflect.
`GetMethodID` finds this entry, but `NewObjectV` cannot call it.

* `JClass.Tabled` is what is in the table, `tabled_of_create` that the constructor of `JClass` makes
  it so, and `tabled_registerNatives` that it stays so;
* `JClass.Tabled.idsUsable_iff`: an id tells what a class declares, unless it is the one of a
  default constructor that is not declared;
* `constructor_ids_iff`: an id stands for a declared constructor, and `NewObject` calls it, exactly
  if there is no such entry for the signature, the id fits into a register, the arguments can be
  decoded, and there is a handle for the new object.
-/

namespace Tank

open ToMathlib AsmClass NativeCallHelper

/-! ## The table -/

/-- The signature of a constructor. -/
def Constructor.signature (constructor : Constructor) : String :=
  constructorSignature constructor.parameterTypes ++ "V"

theorem Constructor.signature_inj {x y : Constructor} (h : x.signature = y.signature) : x = y := by
  have hmethod : methodSignature x.parameterTypes (.primitive .void) =
      methodSignature y.parameterTypes (.primitive .void) := h
  obtain ⟨types⟩ := x
  obtain ⟨types'⟩ := y
  exact congrArg Constructor.mk (methodSignature_inj hmethod).1

namespace JClass

variable {c : JClass} {reflected : Reflected} {m m' : Mirrors} {n : ℕ} {i : Int64}
  {k : JConstructor}

/-- The class declares a constructor with the signature. -/
def Declares (c : JClass) (signature : String) : Prop :=
  ∃ x ∈ c.reflected.declaredConstructors, x.signature = signature

/-- The table has one entry for each declared constructor, and at most one for a signature. -/
structure Tabled (c : JClass) : Prop where
  named : c.MethodsNamed
  index : ∀ i k, c.constructors i = some k → k.index = i
  declared : ∀ x ∈ c.reflected.declaredConstructors,
    ∃ i k, c.constructors i = some k ∧ k.constructor = some x
  mirrored : ∀ i k x, c.constructors i = some k → k.constructor = some x →
    x ∈ c.reflected.declaredConstructors
  single : ∀ i j k k', c.constructors i = some k → c.constructors j = some k' →
    k.getSignature = k'.getSignature → i = j
  default : ∃ i k, c.constructors i = some k ∧ k.getSignature = "()V"

/-- An entry of the table is one of a declared constructor, or the default constructor. -/
theorem constructors_create (hm : m.Made n) (h : (create reflected).run m = .ok c m')
    (hk : c.constructors i = some k) :
    (∃ j x, reflected.declaredConstructors[j]? = some x ∧
        i = objectIndex (n + 1 + reflected.declaredFields.length + j) ∧ k = ⟨i, some x⟩) ∨
      k.constructor = none ∧
        i = objectIndex (n + 1 + reflected.declaredFields.length +
          reflected.declaredConstructors.length) ∧
        ∀ x ∈ reflected.declaredConstructors, x.signature ≠ "()V" := by
  have hfields := reflected.fields_lt
  have hconstructors := reflected.constructors_lt
  obtain ⟨fields, m₁, hrun₁, hm₁, -⟩ :=
    run_registerAll JField.mk reflected.declaredFields (fun _ => none) hm.succ (by omega)
  obtain ⟨declared, m₂, hrun₂, hm₂, -, -, hholds⟩ :=
    run_registerAll (fun i c => (⟨i, some c⟩ : JConstructor)) reflected.declaredConstructors
      (fun _ => none) hm₁ (by omega)
  rw [create, bind_of_ok (run_incrementReferenceIndex m), bind_of_ok hrun₁,
    bind_of_ok hrun₂] at h
  obtain ⟨constructors, m₃, hrun₃, hrest⟩ := bind_eq_ok h
  obtain ⟨methods, m₄, hrun₄, hpure⟩ := bind_eq_ok hrest
  cases hpure
  have hdeclared : declared i = some k → ∃ j x, reflected.declaredConstructors[j]? = some x ∧
      i = objectIndex (n + 1 + reflected.declaredFields.length + j) ∧ k = ⟨i, some x⟩ := by
    intro hi
    obtain ⟨j, x, -, hx, hij, rfl⟩ := hholds.exists hi
    exact ⟨j, x, hx, hij, rfl⟩
  -- The entry without a constructor is made only if no declared one has its signature.
  simp only [addDefaultConstructor] at hrun₃
  split at hrun₃
  next =>
    cases hrun₃
    exact .inl (hdeclared hk)
  next hnone =>
    rw [bind_of_ok (run_incrementReferenceIndex m₂)] at hrun₃
    cases hrun₃
    rcases eq_or_ne i m₂.referenceIndex with rfl | hne
    · have hentry := hk
      simp only [Function.update_self] at hentry
      cases hentry
      refine .inr ⟨rfl, hm₂.referenceIndex, fun x hx hsignature => hnone ?_⟩
      exact List.any_eq_true.2 ⟨x, hx, beq_iff_eq.2 hsignature⟩
    · simp only [Function.update_of_ne hne] at hk
      exact .inl (hdeclared hk)

theorem reflected_create (h : (create reflected).run m = .ok c m') : c.reflected = reflected := by
  obtain ⟨_, _, -, h₁⟩ := bind_eq_ok h
  obtain ⟨_, _, -, h₂⟩ := bind_eq_ok h₁
  obtain ⟨_, _, -, h₃⟩ := bind_eq_ok h₂
  obtain ⟨_, _, -, h₄⟩ := bind_eq_ok h₃
  obtain ⟨_, _, -, h₅⟩ := bind_eq_ok h₄
  cases h₅
  rfl

/-- The constructor of `JClass` makes such a table for a class without two constructors of the same
types. -/
theorem tabled_of_create (hnodup : reflected.declaredConstructors.Nodup) (hm : m.Made n)
    (h : (create reflected).run m = .ok c m') : c.Tabled := by
  obtain ⟨c', m'', n', hrun, -, -, -, ⟨kindAt, hspans⟩, hcomplete, hnamed⟩ :=
    run_create reflected hm
  obtain ⟨rfl, rfl⟩ := EStateM.Result.ok.inj (hrun.symm.trans h)
  refine ⟨hnamed, fun i k hk => ?_, hcomplete.constructors, fun i k x hk hx => ?_,
    fun i j k k' hk hk' hsignature => ?_, hcomplete.default⟩
  · have hfind : c'.find .constructor i = some (.constructor k) := by rw [find, hk]; rfl
    exact (hspans.found .constructor i _ hfind).1
  · rw [reflected_create h]
    rcases constructors_create hm h hk with ⟨j, y, hy, -, rfl⟩ | ⟨hnone, -⟩
    · cases hx
      exact List.mem_of_getElem? hy
    · rw [hx] at hnone
      cases hnone
  · rcases constructors_create hm h hk with ⟨a, x, hx, hi, rfl⟩ | ⟨hnone, hi, hothers⟩ <;>
      rcases constructors_create hm h hk' with ⟨b, y, hy, hj, rfl⟩ | ⟨hnone', hj, hothers'⟩
    · -- A signature is one of a single declared constructor.
      obtain rfl : x = y := Constructor.signature_inj hsignature
      have hlt : a < reflected.declaredConstructors.length := (List.getElem?_eq_some_iff.1 hx).1
      obtain rfl : a = b := List.getElem?_inj hlt hnodup |>.1 (hx.trans hy.symm)
      rw [hi, hj]
    · refine absurd (hsignature.trans ?_) (hothers' x (List.mem_of_getElem? hx))
      rw [JConstructor.getSignature, hnone']
    · refine absurd (hsignature.symm.trans ?_) (hothers y (List.mem_of_getElem? hy))
      rw [JConstructor.getSignature, hnone]
    · rw [hi, hj]

theorem MethodsNamed.registerNative (h : c.MethodsNamed) (order : List Int64)
    (name signature : String) (ptr : Int64) :
    (c.registerNative order name signature ptr).MethodsNamed := by
  intro i m hm
  have hsame : (some m).map JMethod.method = (c.methods i).map JMethod.method := by
    rw [← hm, methods_registerNative]
  obtain ⟨old, hold, hmethod⟩ := Option.map_eq_some_iff.1 hsame.symm
  rw [← hmethod]
  exact h i old hold

/-- Registering a native function does not touch the table. -/
theorem Tabled.registerNative (h : c.Tabled) (order : List Int64) (name signature : String)
    (ptr : Int64) : (c.registerNative order name signature ptr).Tabled := by
  have hnamed := h.named.registerNative order name signature ptr
  revert hnamed
  rw [JClass.registerNative]
  split
  · exact fun _ => h
  · exact fun hnamed => ⟨hnamed, h.index, h.declared, h.mirrored, h.single, h.default⟩

/-! ## Ids -/

variable {methods order : List Int64} {signature : String}

/-- No method is found for the name of constructors. -/
theorem findMethod_init (hnamed : c.MethodsNamed) :
    c.findMethod methods "<init>" signature = none := by
  rw [Option.eq_none_iff_forall_ne_some]
  intro m hm
  obtain ⟨i, hi, hmatch⟩ := exists_of_bind_firstMatch hm
  exact hnamed i m hi (JMethod.isMatch_iff.1 hmatch).1

/-- The id is the one of the entry with the signature. -/
theorem Tabled.constructorId_eq (h : c.Tabled) (horder : Enumerates c.constructors order)
    (hk : c.constructors i = some k) (hsignature : k.getSignature = signature) :
    JniEnv.getMethodIDInternal c methods order "<init>" signature = i := by
  have hmatch : k.isMatch "<init>" signature = true := JConstructor.isMatch_iff.2 ⟨rfl, hsignature⟩
  have hmem : i ∈ order := (horder i).2 (by rw [hk]; rfl)
  have hsome : (firstMatch c.constructors (·.isMatch "<init>" signature) order).isSome = true :=
    List.find?_isSome.2 ⟨i, hmem, by rw [hk]; exact hmatch⟩
  obtain ⟨j, hj⟩ := Option.isSome_iff_exists.1 hsome
  obtain ⟨k', hk', hmatch'⟩ := firstMatch_eq_some hj
  have hij : j = i := h.single j i k' k hk' hk
    ((JConstructor.isMatch_iff.1 hmatch').2.trans hsignature.symm)
  have hfind : c.findConstructor order "<init>" signature = some k := by
    rw [findConstructor, hj, hij, Option.bind_some, hk]
  simp only [JniEnv.getMethodIDInternal, findMethod_init h.named, hfind]
  exact h.index i k hk

theorem constructorId_eq_zero (hnamed : c.MethodsNamed)
    (hno : ∀ i k, c.constructors i = some k → k.getSignature ≠ signature) :
    JniEnv.getMethodIDInternal c methods order "<init>" signature = 0 := by
  have hfind : c.findConstructor order "<init>" signature = none := by
    rw [Option.eq_none_iff_forall_ne_some]
    intro k hk
    obtain ⟨i, hi, hmatch⟩ := exists_of_bind_firstMatch hk
    exact hno i k hi (JConstructor.isMatch_iff.1 hmatch).2
  simp only [JniEnv.getMethodIDInternal, findMethod_init hnamed, hfind]

/-- An entry with the signature is one of a declared constructor exactly if its id is not zero. -/
def IdsUsable (c : JClass) (signature : String) : Prop :=
  ∀ i k, c.constructors i = some k → k.getSignature = signature →
    (k.constructor.isSome = true ↔ i ≠ 0)

/-- The id of an entry with the signature comes back from a register. -/
def IdsInRegister (c : JClass) (signature : String) : Prop :=
  ∀ i k, c.constructors i = some k → k.getSignature = signature → FitsRegister i

theorem Tabled.idsInRegister_iff (h : c.Tabled) (hk : c.constructors i = some k)
    (hsignature : k.getSignature = signature) : c.IdsInRegister signature ↔ FitsRegister i := by
  refine ⟨fun hall => hall i k hk hsignature, fun hfits j k' hk' hsignature' => ?_⟩
  rwa [h.single j i k' k hk' hk (hsignature'.trans hsignature.symm)]

/-- The class declares what the entry with the signature reflects. -/
theorem Tabled.declares_iff (h : c.Tabled) (hk : c.constructors i = some k)
    (hsignature : k.getSignature = signature) :
    c.Declares signature ↔ k.constructor.isSome = true := by
  constructor
  · rintro ⟨x, hx, hxs⟩
    obtain ⟨j, k', hk', hreflects⟩ := h.declared x hx
    have hsignature' : k'.getSignature = signature := by
      rw [JConstructor.getSignature, hreflects]
      exact hxs
    obtain rfl := h.single j i k' k hk' hk (hsignature'.trans hsignature.symm)
    obtain rfl : k' = k := Option.some.inj (hk'.symm.trans hk)
    rw [hreflects]
    rfl
  · intro hsome
    obtain ⟨x, hx⟩ := Option.isSome_iff_exists.1 hsome
    refine ⟨x, h.mirrored i k x hk hx, ?_⟩
    rw [← hsignature, JConstructor.getSignature, hx]
    rfl

/-- An entry without a declared constructor is the one of the default constructor. -/
theorem isSome_of_signature_ne (hsignature : k.getSignature ≠ "()V") :
    k.constructor.isSome = true := by
  cases hk : k.constructor with
  | none =>
    rw [JConstructor.getSignature, hk] at hsignature
    exact absurd rfl hsignature
  | some x => rfl

/-- If no id is zero, just the default constructor matters, where it is not declared. -/
theorem Tabled.idsUsable_iff (h : c.Tabled) (hzero : c.constructors 0 = none) :
    c.IdsUsable signature ↔ signature ≠ "()V" ∨ c.Declares "()V" := by
  have hne : ∀ i k, c.constructors i = some k → i ≠ 0 := by
    rintro i k hk rfl
    rw [hzero] at hk
    cases hk
  constructor
  · intro husable
    by_cases hsignature : signature = "()V"
    · subst hsignature
      obtain ⟨i, k, hk, hentry⟩ := h.default
      exact .inr ((h.declares_iff hk hentry).2 ((husable i k hk hentry).2 (hne i k hk)))
    · exact .inl hsignature
  · intro hdeclares i k hk hentry
    refine iff_of_true ?_ (hne i k hk)
    by_cases hsignature : signature = "()V"
    · exact (h.declares_iff hk (hentry.trans hsignature)).1 (hdeclares.neg_resolve_left hsignature)
    · exact isSome_of_signature_ne (hentry.trans_ne hsignature)

/-- The id tells what the class declares, unless the entry is one of a default constructor. -/
theorem Tabled.id_ne_zero_iff (h : c.Tabled) (methods : List Int64)
    (horder : Enumerates c.constructors order) :
    (JniEnv.getMethodIDInternal c methods order "<init>" signature ≠ 0 ↔ c.Declares signature) ↔
      c.IdsUsable signature := by
  by_cases hentry : ∃ i k, c.constructors i = some k ∧ k.getSignature = signature
  · obtain ⟨i, k, hk, hsignature⟩ := hentry
    rw [h.constructorId_eq horder hk hsignature, h.declares_iff hk hsignature]
    constructor
    · intro hiff j k' hk' hsignature'
      obtain rfl := h.single j i k' k hk' hk (hsignature'.trans hsignature.symm)
      obtain rfl : k' = k := Option.some.inj (hk'.symm.trans hk)
      exact hiff.symm
    · intro husable
      exact (husable i k hk hsignature).symm
  · have hno : ∀ i k, c.constructors i = some k → k.getSignature ≠ signature :=
      fun i k hk hsignature => hentry ⟨i, k, hk, hsignature⟩
    rw [constructorId_eq_zero h.named hno]
    refine iff_of_true (iff_of_false (fun hne => hne rfl) ?_)
      fun i k hk hsignature => absurd hsignature (hno i k hk)
    rintro ⟨x, hx, hxs⟩
    obtain ⟨i, k, hk, hreflects⟩ := h.declared x hx
    refine hno i k hk ?_
    rw [JConstructor.getSignature, hreflects]
    exact hxs

end JClass

/-! ## Calls -/

namespace JniState

open Jni JClass

variable {s : JniState} {uc : Unicorn} {spc owner idWord : UInt32} {words : List UInt32} {n : ℕ}
  {clzz : JClass} {orders : Orders} {types : List Klass} {args : List JArg} {argv : List Int64}
  {params : List JavaValue} {rt : JavaRuntime} {k : JConstructor}

/-- `NewObject` calls the constructor with the arguments, and if the constructor returns an object,
it returns a new handle of it. -/
def Constructs (rt : JavaRuntime) (s : JniState) (uc : Unicorn) (clzz : JClass) (types : List Klass)
    (args : List JArg) : Prop :=
  ∃ argv params, (JCallHelper.readVaArgs 12).run uc = .ok (some argv) uc ∧
    s.Resolves (arg argv 1) (arg argv 2) .newObjectV types ∧
    (readArgsV 3 argv types).run { s with uc } = .ok params { s with uc } ∧
    List.Forall₂ s.Stands args params ∧
    ∀ o heap, (rt.newInstance clzz.reflected.klass ⟨types⟩ params).run s.heap = .ok o heap →
      ∃ h s', (newObjectV rt argv).run { s with uc } = .ok (.ofValue h) s' ∧
        ¬s.refs.Resolves h.toInt ∧ ∃ w, s'.refs.getReference h.toInt = .ok (some w) ∧
          s'.denotes (some w) = .ofObject o

/-- The arguments can be decoded, and there is a handle for the object that the constructor
returns. -/
structure Prepared (rt : JavaRuntime) (s : JniState) (uc : Unicorn) (words : List UInt32)
    (clzz : JClass) (types : List Klass) (args : List JArg) : Prop where
  readable : argsReadable uc 12 = true
  decodes : ∀ i a, args[i]? = some a →
    ∃ value, valueRead uc words .inline i = some value ∧ s.Decodes value a
  room : ∀ params o heap, List.Forall₂ s.Stands args params →
    (rt.newInstance clzz.reflected.klass ⟨types⟩ params).run s.heap = .ok o heap →
      s.refs.hasRoom = true

theorem newObjectV_eq_ok_iff {i : Int64} :
    JniEnv.newObjectV clzz i = .ok k ↔
      clzz.constructors i = some k ∧ k.constructor.isSome = true := by
  rw [JniEnv.newObjectV]
  cases clzz.constructors i with
  | none => simp
  | some k' =>
    dsimp only
    split
    next hsome =>
      constructor
      · rintro ⟨⟩
        exact ⟨rfl, hsome⟩
      · rintro ⟨⟨⟩, -⟩
        rfl
    next hnone =>
      refine iff_of_false (by simp) ?_
      rintro ⟨⟨⟩, hsome⟩
      exact hnone hsome

theorem newObjectV_eq_ok {i : Int64} (hk : clzz.constructors i = some k)
    (hreflects : k.constructor = some ⟨types⟩) : JniEnv.newObjectV clzz i = .ok k :=
  newObjectV_eq_ok_iff.2 ⟨hk, by rw [hreflects]; rfl⟩

/-- A call of a constructor that returns an object. -/
theorem run_newObjectV_of_returns (hget : s.refs.getReference (arg argv 1).toInt = .ok (some n))
    (hclass : s.classAt n = some clzz) (hk : clzz.constructors (arg argv 2) = some k)
    (hreflects : k.constructor = some ⟨types⟩)
    (hparams : (readArgsV 3 argv types).run s = .ok params s) {o : ℕ} {heap : JavaHeap}
    (hnew : (rt.newInstance clzz.reflected.klass ⟨types⟩ params).run s.heap = .ok o heap) :
    (newObjectV rt argv).run s =
      (handOut ⟨.object, clzz.reflected.klass, some n, some o⟩).run { s with heap } := by
  rw [run_newObjectV hget hclass (newObjectV_eq_ok hk hreflects) hreflects hparams,
    bind_of_ok (run_onHeap hnew)]

/-- An argument has one Java value. -/
theorem Stands.unique {a : JArg} {p p' : JavaValue} (h : s.Stands a p) (h' : s.Stands a p') :
    p = p' := by
  cases a with
  | handle r =>
    obtain ⟨o, rfl, ho⟩ := h
    obtain ⟨o', rfl, ho'⟩ := h'
    have hvalue : Denotation.ofValue o = .ofValue o' := ho.trans ho'.symm
    cases o <;> cases o' <;> cases hvalue <;> rfl
  | _ => exact Eq.trans h (Eq.symm h')

theorem forall₂_stands_unique {params' : List JavaValue} (h : List.Forall₂ s.Stands args params)
    (h' : List.Forall₂ s.Stands args params') : params = params' := by
  induction h generalizing params' with
  | nil => cases h' with | nil => rfl
  | cons hfirst _ ih =>
    cases h' with
    | cons hfirst' hrest' => rw [hfirst.unique hfirst', ih hrest']

/-- The class handle and the id that `NewObject` sees are what was passed. -/
theorem owner_id_of_passed (hpassed : Passed uc spc owner idWord words .inline)
    (hread : (JCallHelper.readVaArgs 12).run uc = .ok (some argv) uc) :
    arg argv 1 = owner.toUInt64.toInt64 ∧ arg argv 2 = idWord.toUInt64.toInt64 := by
  obtain ⟨hr1, hr2⟩ := hpassed.owner_id
  obtain ⟨-, -, h1, h2, -⟩ := args_of_run hread
  rw [h1, h2, Unicorn.regRead, Unicorn.regRead, hr1, hr2]
  exact ⟨rfl, rfl⟩

/-- All classes have such a table. -/
def AllTabled (s : JniState) : Prop := ∀ n clzz, s.classAt n = some clzz → clzz.Tabled

theorem AllTabled.withClass (h : s.AllTabled) (htabled : clzz.Tabled) (n : ℕ) :
    (s.withClass n clzz).AllTabled := by
  intro j clzz' hclass
  obtain ⟨object, hobject, hkind⟩ := classAt_eq_some_iff.1 hclass
  rcases eq_or_ne j n with rfl | hne
  · simp only [JniState.withClass, Function.update_self, Option.map_eq_some_iff] at hobject
    obtain ⟨old, -, rfl⟩ := hobject
    cases hkind
    exact htabled
  · simp only [JniState.withClass, Function.update_of_ne hne] at hobject
    exact h j clzz' (classAt_eq_some_iff.2 ⟨object, hobject, hkind⟩)

/-- Every entry registers a function with the class as the last one has left it. -/
theorem keeps_registerFrom (rt : JavaRuntime) (order : List Int64) (n : ℕ) (methodAddr : Int64)
    (left : ℕ) (i : Int64) (htabled : clzz.Tabled) :
    Keeps (fun s s' => s.AllTabled → s'.AllTabled)
      (Jni.registerFrom rt order n methodAddr left i clzz) := by
  induction left generalizing i clzz with
  | zero => exact fun _ h => h
  | succ left ih =>
    rw [Jni.registerFrom]
    refine Keeps.bind (fun s h => ?_) fun entry => ?_
    · intro j clzz' hclass
      rw [same_onUc (readNativeMethod rt (i * 12 + methodAddr)) s] at hclass
      exact h j clzz' hclass
    · obtain ⟨name, signature, ptr⟩ := entry
      have htabled' := htabled.registerNative order name signature ptr
      exact Keeps.bind (fun s h => h.withClass htabled' n) fun _ => ih (i + 1) htabled'

/-- `RegisterNatives` keeps the tables, also if it throws. -/
theorem tabled_registerNatives (rt : JavaRuntime) (orders : Orders) (argv : List Int64) :
    Keeps (fun s s' => s.AllTabled → s'.AllTabled) (registerNatives rt orders argv) := by
  intro s h
  rw [registerNatives, get_bind]
  split
  · exact h
  · split
    · exact h
    next clzz hclass =>
      rw [finalState_bind_pure]
      exact keeps_registerFrom rt _ _ _ _ _ (h _ _ hclass) s h

/-- What `NewObject` calls is the entry with the id that was passed. -/
theorem Constructs.exists_entry (hpassed : Passed uc spc owner idWord words .inline)
    (hget : s.refs.getReference owner.toUInt64.toInt64.toInt = .ok (some n))
    (hclass : s.classAt n = some clzz) (h : Constructs rt s uc clzz types args) :
    ∃ k, clzz.constructors idWord.toUInt64.toInt64 = some k ∧ k.constructor = some ⟨types⟩ := by
  obtain ⟨argv, params, hread, hresolves, -⟩ := h
  obtain ⟨h1, h2⟩ := owner_id_of_passed hpassed hread
  rw [h1, h2] at hresolves
  cases hresolves with
  | newObject hget' hclass' hconstructor hreflected =>
    obtain rfl := Option.some.inj (Except.ok.inj (hget.symm.trans hget'))
    obtain rfl := Option.some.inj (hclass.symm.trans hclass')
    exact ⟨_, (newObjectV_eq_ok_iff.1 hconstructor).1, hreflected⟩

/-- For the id of a declared constructor. -/
theorem WellFormed.constructs_iff (hs : s.WellFormed)
    (hpassed : Passed uc spc owner idWord words .inline)
    (hget : s.refs.getReference owner.toUInt64.toInt64.toInt = .ok (some n))
    (hclass : s.classAt n = some clzz)
    (hk : clzz.constructors idWord.toUInt64.toInt64 = some k)
    (hreflects : k.constructor = some ⟨types⟩) (hlaid : JArg.LaidOut 3 args words)
    (hfits : List.Forall₂ s.Fits args types) :
    Constructs rt s uc clzz types args ↔ Prepared rt s uc words clzz types args := by
  have hreturns (argv : List Int64) (params : List JavaValue)
      (hread : (JCallHelper.readVaArgs 12).run uc = .ok (some argv) uc)
      (hparams : (readArgsV 3 argv types).run { s with uc } = .ok params { s with uc }) (o : ℕ)
      (heap : JavaHeap)
      (hnew : (rt.newInstance clzz.reflected.klass ⟨types⟩ params).run s.heap = .ok o heap) :
      (∃ h s', (newObjectV rt argv).run { s with uc } = .ok (.ofValue h) s' ∧
        ¬s.refs.Resolves h.toInt ∧ ∃ w, s'.refs.getReference h.toInt = .ok (some w) ∧
          s'.denotes (some w) = .ofObject o) ↔ s.refs.hasRoom = true := by
    obtain ⟨h1, h2⟩ := owner_id_of_passed hpassed hread
    have hsame : s.Same { s with uc, heap } := rfl
    rw [run_newObjectV_of_returns (s := { s with uc }) (h1 ▸ hget) hclass (h2 ▸ hk) hreflects
      hparams hnew]
    exact ((hsame.wellFormed hs).handOut_iff _ _).trans (and_iff_left rfl)
  constructor
  · rintro ⟨argv, params, hread, -, hparams, hstands, hreturned⟩
    refine ⟨(args_of_run hread).1, ?_, fun params' o heap hstands' hnew => ?_⟩
    · exact (readArgsV_stands_iff hpassed hlaid hfits hread).1 ⟨params, hparams, hstands⟩
    · obtain rfl := forall₂_stands_unique hstands hstands'
      exact (hreturns argv params hread hparams o heap hnew).1 (hreturned o heap hnew)
  · intro h
    obtain ⟨argv, hread, -⟩ := exists_args h.readable
    obtain ⟨h1, h2⟩ := owner_id_of_passed hpassed hread
    obtain ⟨params, hparams, hstands⟩ :=
      (readArgsV_stands_iff hpassed hlaid hfits hread).2 h.decodes
    refine ⟨argv, params, hread, ?_, hparams, hstands, fun o heap hnew => ?_⟩
    · exact .newObject (h1 ▸ hget) hclass (newObjectV_eq_ok (h2 ▸ hk) hreflects) hreflects
    · exact (hreturns argv params hread hparams o heap hnew).2 (h.room params o heap hstands hnew)

/-- For a class with such a table `GetMethodID` tells which constructors the class declares
exactly if the default constructor is not asked for where there is none. A call of `NewObject` with
the id works, in addition, exactly if the id comes back from the register and the call is
prepared. -/
theorem constructor_ids_iff (rt : JavaRuntime) (orders : Orders) (hs : s.WellFormed)
    (htabled : clzz.Tabled)
    (hget : s.refs.getReference owner.toUInt64.toInt64.toInt = .ok (some n))
    (hclass : s.classAt n = some clzz)
    (horder : Enumerates clzz.constructors orders.constructors) {id : Int64}
    (hid : JniEnv.getMethodIDInternal clzz orders.methods orders.constructors "<init>"
      (Constructor.signature ⟨types⟩) = id)
    (hpassed : Passed uc spc owner (low32 id) words .inline) (hlaid : JArg.LaidOut 3 args words)
    (hfits : List.Forall₂ s.Fits args types) :
    (∀ signature, (JniEnv.getMethodIDInternal clzz orders.methods orders.constructors "<init>"
        signature ≠ 0 ↔ clzz.Declares signature) ↔ clzz.IdsUsable signature) ∧
      ((id ≠ 0 ↔ clzz.Declares (Constructor.signature ⟨types⟩)) ∧
          (id ≠ 0 → Constructs rt s uc clzz types args) ↔
        clzz.IdsUsable (Constructor.signature ⟨types⟩) ∧
          (clzz.Declares (Constructor.signature ⟨types⟩) →
            clzz.IdsInRegister (Constructor.signature ⟨types⟩) ∧
              Prepared rt s uc words clzz types args)) := by
  refine ⟨fun signature => htabled.id_ne_zero_iff orders.methods horder, ?_⟩
  rw [← htabled.id_ne_zero_iff orders.methods horder, hid]
  refine and_congr_right fun hdeclares => ?_
  rw [hdeclares]
  refine imp_congr_right fun hdeclared => ?_
  -- The id is the one of the entry of the declared constructor.
  obtain ⟨x, hx, hsignature⟩ := hdeclared
  obtain rfl := Constructor.signature_inj hsignature
  obtain ⟨i, k, hk, hreflects⟩ := htabled.declared _ hx
  have hentry : k.getSignature = Constructor.signature ⟨types⟩ := by
    rw [JConstructor.getSignature, hreflects]
    rfl
  obtain rfl : i = id := (htabled.constructorId_eq horder hk hentry).symm.trans hid
  rw [htabled.idsInRegister_iff hk hentry]
  by_cases hregister : FitsRegister i
  · rw [and_iff_right hregister]
    have hback : (low32 i).toUInt64.toInt64 = i := hregister
    exact hs.constructs_iff hpassed hget hclass (hback.symm ▸ hk) hreflects hlaid hfits
  · -- Another id arrives, and its entry, if there is one, has another signature.
    refine iff_of_false (fun hconstructs => ?_) fun h => hregister h.1
    obtain ⟨k', hk', hreflects'⟩ := hconstructs.exists_entry hpassed hget hclass
    exact hregister (htabled.single _ _ k' k hk' hk
      (by rw [JConstructor.getSignature, JConstructor.getSignature, hreflects, hreflects']))

/-! ## A class without a default constructor -/

/-- The class with handle 1, of which the only constructor takes an `int`. -/
def registeredInt : JniState := ((start .blank .blank).step .idle (.addClass intClass)).withLocal 0

theorem classAt_registeredInt : registeredInt.classAt 0 = some intMirror := rfl

theorem tabled_intMirror : intMirror.Tabled := by
  obtain ⟨m', hcreate⟩ : ∃ m', (JClass.create intClass).run (start .blank .blank).mirrors =
      .ok intMirror m' := ⟨_, rfl⟩
  exact tabled_of_create (by decide) (n := 0) ⟨rfl, rfl⟩ hcreate

theorem wellFormed_registeredInt : registeredInt.WellFormed := by
  have hs := (wellFormed_start .blank .blank).step .idle (.addClass intClass)
  obtain ⟨object, hobject, -⟩ := classAt_eq_some_iff.1 classAt_registeredInt
  exact hs.withLocal hobject

/-- The entries of the table. -/
theorem constructors_intMirror {i : Int64} {k : JConstructor} :
    intMirror.constructors i = some k ↔
      i = 0xFF02 ∧ k = ⟨0xFF02, some ⟨[.primitive .int]⟩⟩ ∨ i = 0xFF03 ∧ k = ⟨0xFF03, none⟩ := by
  have htable : intMirror.constructors = Function.update (Function.update (fun _ => none) 0xFF02
      (some ⟨0xFF02, some ⟨[.primitive .int]⟩⟩)) 0xFF03 (some ⟨0xFF03, none⟩) := rfl
  rw [htable]
  rcases eq_or_ne i 0xFF03 with rfl | hne
  · rw [Function.update_self]
    simp [eq_comm]
  · rw [Function.update_of_ne hne]
    rcases eq_or_ne i 0xFF02 with rfl | hne'
    · rw [Function.update_self]
      simp [eq_comm]
    · rw [Function.update_of_ne hne']
      simp [hne, hne']

theorem enumerates_intMirror : Enumerates intMirror.constructors [0xFF02, 0xFF03] := by
  intro i
  rw [Option.isSome_iff_exists]
  simp only [constructors_intMirror, List.mem_cons, List.not_mem_nil, or_false]
  constructor
  · rintro (rfl | rfl)
    · exact ⟨_, .inl ⟨rfl, rfl⟩⟩
    · exact ⟨_, .inr ⟨rfl, rfl⟩⟩
  · rintro ⟨k, ⟨rfl, -⟩ | ⟨rfl, -⟩⟩
    · exact .inl rfl
    · exact .inr rfl

theorem passed_registeredInt (idWord word : UInt32) :
    Passed (.inCall 0 1 idWord word) 0x10010 1 idWord [word] .inline := by
  refine argsPassed_of_registers le_rfl rfl ?_
  simp [Unicorn.inCall]

/-- The declared constructor is called with the `int`. -/
theorem constructor_ids_int :
    JniEnv.getMethodIDInternal intMirror [0xFF04] [0xFF02, 0xFF03] "<init>" "(I)V" ≠ 0 ∧
      Constructs .idle registeredInt (.inCall 0 1 0xFF02 5) intMirror [.primitive .int]
        [.int 5] := by
  have hlaid : JArg.LaidOut 3 [.int 5] [5] := .cons (by decide) .nil
  have hfits : List.Forall₂ registeredInt.Fits [.int 5] [.primitive .int] := .cons rfl .nil
  have husable : intMirror.IdsUsable "(I)V" :=
    (tabled_intMirror.idsUsable_iff rfl).2 (.inl (by decide))
  have hregister : intMirror.IdsInRegister "(I)V" := by
    intro i k hk _
    rcases constructors_intMirror.1 hk with ⟨rfl, -⟩ | ⟨rfl, -⟩ <;> rfl
  have hid : JniEnv.getMethodIDInternal intMirror [0xFF04] [0xFF02, 0xFF03] "<init>"
      (Constructor.signature ⟨[.primitive .int]⟩) = 0xFF02 := by
    decide
  have hprepared : Prepared .idle registeredInt (.inCall 0 1 0xFF02 5) [5] intMirror
      [.primitive .int] [.int 5] := by
    refine ⟨by decide +kernel, fun i a ha => ?_, fun _ _ _ _ _ => by decide +kernel⟩
    cases i with
    | zero =>
      cases ha
      exact ⟨5, rfl, rfl⟩
    | succ i => cases ha
  have hworks := (constructor_ids_iff .idle ⟨[], [], [0xFF02, 0xFF03], [0xFF04]⟩
    wellFormed_registeredInt tabled_intMirror (by decide +kernel)
    classAt_registeredInt enumerates_intMirror hid (passed_registeredInt 0xFF02 5) hlaid hfits).2.2
    ⟨husable, fun _ => ⟨hregister, hprepared⟩⟩
  exact ⟨by decide, hworks.2 (by decide)⟩

/-- There is an id for the default constructor, which the class does not declare, and `NewObject`
throws a `NullPointerException` for it. -/
theorem not_constructor_ids_default :
    JniEnv.getMethodIDInternal intMirror [0xFF04] [0xFF02, 0xFF03] "<init>" "()V" = 0xFF03 ∧
      ¬intMirror.Declares "()V" ∧
      (∀ argv, arg argv 1 = 1 → arg argv 2 = 0xFF03 →
        (newObjectV .idle argv).run registeredInt = .error .nullPointer registeredInt) ∧
      ¬Constructs .idle registeredInt (.inCall 0 1 0xFF03 0) intMirror [] [] := by
  have hget : registeredInt.refs.getReference (1 : Int64).toInt = .ok (some 0) := by
    decide +kernel
  have hthrows : JniEnv.newObjectV intMirror 0xFF03 = .error .nullPointer := by decide
  refine ⟨by decide, ?_, fun argv h1 h2 => ?_, ?_⟩
  · rintro ⟨x, hx, hsignature⟩
    obtain rfl := List.mem_singleton.1 hx
    exact absurd hsignature (by decide)
  · rw [newObjectV, bind_of_ok (run_expectClass (h1 ▸ hget) classAt_registeredInt), h2]
    simp only [hthrows]
    rfl
  · intro hconstructs
    obtain ⟨k, hk, hreflects⟩ :=
      hconstructs.exists_entry (passed_registeredInt 0xFF03 0) hget classAt_registeredInt
    rcases constructors_intMirror.1 hk with ⟨hi, -⟩ | ⟨-, rfl⟩
    · exact absurd hi (by decide)
    · cases hreflects

end JniState

end Tank
