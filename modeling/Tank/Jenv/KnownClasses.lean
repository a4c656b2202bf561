import Tank.Jenv.Wrappers

/-!
# Classes of referenced objects

Functions that work on the members of an object ask its wrapper for the `JClass`. A wrapper has one
only if the function that made it has set it. `NewString` and `genJRet`, by which fields and results
of methods are returned, do not. The functions for arrays set one, but it is that of the elements
for an array and that of the array for an element.

* `known_step_iff`: when the objects of all handles know their classes after an event;
* `known_classes_iff`: they do exactly as long as the functions return nothing else, which
  `JniFunction.Describes` says for each function;
* `new_string_unknown` is a string whose class is not known.
-/

namespace Tank

open ToMathlib

namespace JniState

open Jni

variable {s s' t : JniState} {rt : JavaRuntime}

/-- The object of every handle has a `JClass` that describes it. -/
def Known (s : JniState) : Prop :=
  ∀ n, s.refs.Holds n → ∃ object, s.objects n = some object ∧ s.Knows object

/-- The Java objects of the handles are of the same classes, as objects in Java are. -/
def KeepsClasses (s s' : JniState) : Prop :=
  ∀ n object o, s.refs.Holds n → s.objects n = some object → object.value = some o →
    (s'.heap.object o).klass = (s.heap.object o).klass

theorem known_start (uc : Unicorn) (heap : JavaHeap) : (start uc heap).Known :=
  fun _ h => absurd h JniEnv.not_holds_create

/-- Among the same handles, more wrappers make no difference. -/
theorem Known.of_extends (hknown : s.Known) (h : s.Extends s') (hheap : s.KeepsClasses s') :
    s'.Known := by
  intro n hn
  rw [h.refs] at hn
  obtain ⟨object, hobject, hknows⟩ := hknown n hn
  exact ⟨object, h.objects n object hobject,
    hknows.of_extends h fun o ho => hheap n object o hn hobject ho⟩

theorem Known.of_refers (hknown : s.Known) (h : s.Refers t) : t.Known := by
  obtain ⟨op, hnew, rfl⟩ := h
  exact fun n hn => hknown n (hn.of_step hnew)

/-- With one more handle, its object has to know its class. -/
theorem known_withLocal_iff {n : ℕ} {object : JObject} (hknown : s.Known)
    (hobject : s.objects n = some object) : (s.withLocal n).Known ↔ s.Knows object := by
  constructor
  · intro h
    obtain ⟨object', hobject', hknows⟩ := h n (JniEnv.holds_add s.refs .locals n)
    cases hobject.symm.trans hobject'
    exact hknows
  · intro hknows m hm
    rcases holds_withLocal hm with hold | rfl
    · exact hknown m hold
    · exact ⟨object, hobject, hknows⟩

/-- A function leaves all objects known exactly if it throws, or returns with a result that meets
the condition. -/
theorem HandsOut.known_iff {describes : CallRet → Prop}
    {r : EStateM.Result JavaException JniState CallRet} (hrt : rt.MakesInstances)
    (hknown : s.Known) (h : HandsOut rt describes s r) (hheap : s.KeepsClasses (finalState r)) :
    (finalState r).Known ↔ ∀ ret t, r = .ok ret t → describes ret := by
  cases h with
  | throws err t h => exact iff_of_true (hknown.of_extends h hheap) fun _ _ hr => by cases hr
  | nothing ret t h hret =>
    refine iff_of_true (hknown.of_extends h hheap) fun ret' t' hr => ?_
    cases hr
    exact hret
  | object s' n object ret h hobject hret =>
    refine (known_withLocal_iff (hknown.of_extends h hheap) hobject).trans ?_
    rw [← hret hrt]
    constructor
    · intro hdescribes ret' t' hr
      cases hr
      exact hdescribes
    · exact fun hall => hall ret _ rfl

variable (rt)

/-- No call returns an object that its `JClass` does not describe. -/
def ReturnsDescribed (s : JniState) : JniEvent → Prop
  | .call f orders => ∀ args, (JCallHelper.readVaArgs 12).run s.uc = .ok (some args) s.uc →
      ∀ ret t, (f.code rt orders args).run s = .ok ret t → f.Describes s args ret
  | _ => True

/-- One call. -/
theorem known_call_iff (hrt : rt.MakesInstances) (hs : s.WellFormed) (hknown : s.Known)
    (f : JniFunction) (orders : Orders) (hheap : s.KeepsClasses (s.call rt f orders)) :
    (s.call rt f orders).Known ↔ ReturnsDescribed rt s (.call f orders) := by
  by_cases hread : NativeCallHelper.argsReadable s.uc 12 = true
  · obtain ⟨args, hargs, -⟩ := exists_args hread
    -- The end of the call differs from that of the function in the engine only.
    have hend : ∃ uc, s.call rt f orders =
        { finalState ((f.code rt orders args).run s) with uc } := by
      cases hrun : (f.code rt orders args).run s with
      | error err t => exact ⟨t.uc, call_of_error rt hargs hrun⟩
      | ok ret t =>
        rw [call_of_ok rt hargs hrun]
        split
        · exact ⟨_, rfl⟩
        · exact ⟨t.uc, rfl⟩
    obtain ⟨uc, hend⟩ := hend
    rw [hend] at hheap ⊢
    show (finalState ((f.code rt orders args).run s)).Known ↔ _
    have hreturns : ReturnsDescribed rt s (.call f orders) ↔
        ∀ ret t, (f.code rt orders args).run s = .ok ret t → f.Describes s args ret := by
      constructor
      · exact fun h => h args hargs
      · intro h args' hargs'
        cases hargs.symm.trans hargs'
        exact h
    rw [hreturns]
    rcases code_cases rt hs f orders args with ⟨hdescribes, hrefers⟩ | hout
    · exact iff_of_true (hknown.of_refers hrefers) fun ret _ _ => hdescribes ret
    · exact hout.known_iff hrt hknown hheap
  · rw [call_of_not_readable rt (Bool.eq_false_iff.2 hread)]
    refine iff_of_true hknown fun args hargs => ?_
    exact absurd (args_of_run hargs).1 hread

/-- One event. -/
theorem known_step_iff (hrt : rt.MakesInstances) (hs : s.WellFormed) (hknown : s.Known)
    (event : JniEvent) (hheap : s.KeepsClasses (s.step rt event)) :
    (s.step rt event).Known ↔ ReturnsDescribed rt s event := by
  cases event with
  | call f orders => exact known_call_iff rt hrt hs hknown f orders hheap
  | addClass reflected =>
    exact iff_of_true (hknown.of_extends (hs.addClass reflected) hheap) trivial
  | guest uc => exact iff_of_true hknown trivial
  | java heap =>
    refine iff_of_true ?_ trivial
    have hext : s.Extends (s.step rt (.java heap)) := by
      have hsame : s.Same (s.step rt (.java heap)) := rfl
      exact hsame.extends hs
    exact hknown.of_extends hext hheap

/-- Along a run from the start, the objects of all handles know their classes exactly as long as
the functions return only objects that are described. In a state in which they do, asking the object
of a handle for its class does not throw. Java objects do not change their classes, and a
constructor makes an object of its class. -/
theorem known_classes_iff (hrt : rt.MakesInstances) (uc : Unicorn) (heap : JavaHeap)
    (events : List JniEvent)
    (hjava : ∀ c ∈ trace (step rt) (start uc heap) events, c.1.KeepsClasses (c.1.step rt c.2)) :
    ((∀ c ∈ trace (step rt) (start uc heap) events, (c.1.step rt c.2).Known) ↔
      ∀ c ∈ trace (step rt) (start uc heap) events, ReturnsDescribed rt c.1 c.2) ∧
    ∀ s : JniState, s.Known → ∀ idx n, s.refs.getReference idx = .ok (some n) →
      ∃ object clzz, s.objects n = some object ∧ (getJClass object).run s = .ok clzz s := by
  refine ⟨?_, fun s hknown idx n hget => ?_⟩
  · refine forall_trace_iff (I := fun s => s.WellFormed ∧ s.Known)
      (H := fun s event => s.KeepsClasses (s.step rt event))
      (P := fun s event => (s.step rt event).Known) (Q := ReturnsDescribed rt)
      (fun s event hs hheap => known_step_iff rt hrt hs.1 hs.2 event hheap)
      (fun s event hs hheap hQ => ?_) ⟨wellFormed_start uc heap, known_start uc heap⟩ hjava
    exact ⟨hs.1.step rt event, (known_step_iff rt hrt hs.1 hs.2 event hheap).2 hQ⟩
  · obtain ⟨object, hobject, clzz, hclass, -⟩ := hknown n (JniEnv.holds_of_getReference hget)
    exact ⟨object, clzz, hobject, run_getJClass hclass⟩

/-- A class with a constructor without parameters. -/
def plainClass : Reflected :=
  { booleanClass with
    klass := .ofName .sample
    declaredConstructors := [⟨[]⟩]
    constructors_lt := one_constructor_lt }

/-- The class is registered and found, and its constructor called. -/
def plainEvents : List JniEvent :=
  [.addClass plainClass, .guest (.inCall 0 0x10000 0 0), .call .findClass .none,
    .guest (.inCall 0 1 0xFF01 0), .call .newObjectV .none]

/-- The state after the first `n` of these events. -/
def plainAfter (n : ℕ) : JniState := (plainEvents.take n).foldl (step .sample) (start .blank .blank)

theorem wellFormed_plainAfter (n : ℕ) : (plainAfter n).WellFormed :=
  Reachable.wellFormed .sample ⟨_, _, _, rfl⟩

/-- Where no wrapper has a Java object, there is nothing to keep. -/
theorem keepsClasses_of_noValue {made : ℕ} (hs : s.WellFormed) (hmade : s.made = made)
    (hnone : ∀ n < made, ((s.objects n).all fun object => object.value.isNone) = true)
    (s' : JniState) : s.KeepsClasses s' := by
  intro n object o _ hobject hvalue
  have hlt := hs.bounded n object hobject
  rw [hmade] at hlt
  have hno := hnone n hlt
  rw [hobject, Option.all_some, hvalue] at hno
  cases hno

theorem makesInstances_sample : JavaRuntime.sample.MakesInstances :=
  fun _ _ _ _ _ _ h => JavaHeap.klass_new h

/-- The object with handle 2 knows its class. -/
theorem known_classes_plain :
    let s := plainEvents.foldl (step .sample) (start .blank .blank)
    s.Known ∧ s.refs.getReference 2 = .ok (some 2) ∧
      (s.objects 2).bind JObject.jClass = some 0 := by
  intro s
  -- Only the constructor touches the heap, and then there is no handle of an object yet.
  have hjava : ∀ c ∈ trace (step .sample) (start .blank .blank) plainEvents,
      c.1.KeepsClasses (c.1.step .sample c.2) := by
    intro c hc
    simp only [plainEvents, trace, List.mem_cons, List.not_mem_nil, or_false] at hc
    rcases hc with rfl | rfl | rfl | rfl | rfl
    · exact fun _ _ _ _ _ _ => rfl
    · exact fun _ _ _ _ _ _ => rfl
    · exact keepsClasses_of_noValue (wellFormed_plainAfter 2) rfl (by decide +kernel) _
    · exact fun _ _ _ _ _ _ => rfl
    · exact keepsClasses_of_noValue (wellFormed_plainAfter 4) rfl (by decide +kernel) _
  have hreturns : ∀ c ∈ trace (step .sample) (start .blank .blank) plainEvents,
      ReturnsDescribed .sample c.1 c.2 := by
    intro c hc
    simp only [plainEvents, trace, List.mem_cons, List.not_mem_nil, or_false] at hc
    rcases hc with rfl | rfl | rfl | rfl | rfl <;> first | trivial | exact fun _ _ _ _ _ => trivial
  have hall := (known_classes_iff .sample makesInstances_sample .blank .blank plainEvents hjava).1.2
    hreturns
  exact ⟨hall (_, .call .newObjectV .none) (List.mem_of_getElem? (i := 4) rfl), by decide +kernel,
    by decide +kernel⟩

/-- `NewString` returns a handle of a string whose class is not known, and the functions for members
of an object throw for it. -/
theorem new_string_unknown :
    let s := (start (.inCall 0 0x10000 1 0) .blank).step .idle (.call .newString .none)
    s.refs.getReference 1 = .ok (some 0) ∧ (s.objects 0).map JObject.jClass = some none ∧
      ¬s.Known ∧
      outcome ((getObjectField .idle [0, 1, 0xFF00]).run s) = .error .nullPointer ∧
      outcome ((setObjectField .idle [0, 1, 0xFF00, 0]).run s) = .error .nullPointer ∧
      outcome ((callObjectMethodV .idle [0, 1, 0xFF00]).run s) = .error .nullPointer ∧
      outcome ((isInstanceOf [0, 1, 1]).run s) = .error .nullPointer := by
  intro s
  have hget : s.refs.getReference 1 = .ok (some 0) := by decide +kernel
  have hclass : (s.objects 0).map JObject.jClass = some none := by decide +kernel
  refine ⟨hget, hclass, fun hknown => ?_, by decide +kernel, by decide +kernel, by decide +kernel,
    by decide +kernel⟩
  obtain ⟨object, hobject, clzz, hknows, -⟩ := hknown 0 (JniEnv.holds_of_getReference hget)
  rw [hobject, Option.map_some, Option.some_inj] at hclass
  rw [hclass] at hknows
  cases hknows

end JniState

end Tank
