import Tank.Jenv.MemberIds
import Tank.ToMathlib.Trace

/-!
# One mirror for each class

`JClassLoader` finds a class by its index and by its name. The by-name map has the names with
slashes of `getType` as its keys; `addClass` tests for the name with dots of `getName`. The test
finds a class that has no package, and none of the others.

* `Registered` is the invariant of a loader in which each class has one mirror;
* `keepsMirrors_register_iff`: what a registration does to it;
* `one_mirror_iff`: for which runs there is one mirror for each class. `packaged_class_twice` is a
  run with two.
-/

namespace Tank

open ToMathlib AsmClass

/-- Calls that make or register mirrors. -/
inductive LoaderOp where
  /-- `new JClass(klass)` -/
  | create (reflected : Reflected)
  /-- `JClassLoader.addClass` of a `JClass` at hand. -/
  | register (clzz : JClass)
  | addClass (reflected : Reflected)
  | newInstance (reflected : Reflected) (thrown : Option JavaException)
  /-- Any other new object. -/
  | newObject

def LoaderOp.code : LoaderOp → MirrorM Unit
  | .create reflected => do
    let _ ← JClass.create reflected
    pure ()
  | .register clzz => JClassLoader.addClass clzz
  | .addClass reflected => Jvm.addClass reflected
  | .newInstance reflected thrown => do
    let _ ← Jvm.newInstance reflected thrown
    pure ()
  | .newObject => do
    let _ ← incrementReferenceIndex
    pure ()

/-- The class that a call registers. -/
def LoaderOp.klass : LoaderOp → Option Klass
  | .register clzz => some clzz.reflected.klass
  | .addClass reflected => some reflected.klass
  | .newInstance reflected _ => some reflected.klass
  | .create _ | .newObject => none

namespace Mirrors

/-- The loader after a call. -/
def loaderStep (s : Mirrors) (op : LoaderOp) : Mirrors := finalState (op.code.run s)

/-- The class has a mirror in the loader. -/
def HasMirror (s : Mirrors) (klass : Klass) : Prop :=
  ∃ i c, s.classes i = some c ∧ c.reflected.klass = klass

/-- Between two states of the loader every lookup that found a class still finds it, and each class
has one mirror, in both maps. Registering a class that is registered changes nothing. -/
structure KeepsMirrors (s s' : Mirrors) (klass : Option Klass) : Prop where
  /-- `findClass` of an index -/
  byIndex : ∀ i c, s.classes i = some c → s'.classes i = some c
  /-- `findClass` of a name and of a `Class` -/
  byName : ∀ name c, s.classes2 name = some c → s'.classes2 name = some c
  oneMirror : ∀ i j c d, s'.classes i = some c → s'.classes j = some d →
    c.reflected.klass = d.reflected.klass → i = j ∧ c = d
  sameClasses : ∀ c, (∃ i, s'.classes i = some c) ↔ ∃ name, s'.classes2 name = some c
  repeated : ∀ k ∈ klass, s.HasMirror k → s'.classes = s.classes ∧ s'.classes2 = s.classes2

/-- The test of `addClass` finds the class, or nothing is registered under its type and its index,
or it is registered itself. -/
def Registers (s : Mirrors) (c : JClass) : Prop :=
  (s.classes2 c.reflected.klass.getName).isSome = true ∨
    (s.classes2 (getType c.reflected.klass) = none ∧ s.classes c.index = none) ∨
    s.classes2 (getType c.reflected.klass) = some c

/-- What a call needs so that there is one mirror for each class. -/
def RegistersOnce (s : Mirrors) : LoaderOp → Prop
  | .create _ | .newObject => True
  | .register clzz => s.Registers clzz
  | .addClass reflected => ∀ c s', (JClass.create reflected).run s = .ok c s' → s.Registers c
  | .newInstance reflected _ => s.classes2 (getType reflected.klass) = none →
      ∀ c s', (JClass.create reflected).run s = .ok c s' → s.Registers c

/-- Both maps hold the same classes, each under its own keys. -/
structure Registered (s : Mirrors) : Prop where
  byIndex : ∀ i c, s.classes i = some c →
    c.index = i ∧ s.classes2 (getType c.reflected.klass) = some c
  byName : ∀ name c, s.classes2 name = some c →
    getType c.reflected.klass = name ∧ s.classes c.index = some c

theorem registered_start : start.Registered := ⟨by simp [start], by simp [start]⟩

variable {s s' : Mirrors} {c : JClass} {klass : Option Klass}

theorem Registered.congr (h : s.Registered) (hclasses : s'.classes = s.classes)
    (hclasses2 : s'.classes2 = s.classes2) : s'.Registered :=
  ⟨by rw [hclasses, hclasses2]; exact h.byIndex, by rw [hclasses, hclasses2]; exact h.byName⟩

/-- The type of a registered class is its key. -/
theorem Registered.exists_of_hasMirror (h : s.Registered) {k : Klass} (hk : s.HasMirror k) :
    ∃ c, s.classes2 (getType k) = some c ∧ c.reflected.klass = k := by
  obtain ⟨i, c, hi, rfl⟩ := hk
  exact ⟨c, (h.byIndex i c hi).2, rfl⟩

/-- A state with one mirror for each class, as far as it is about that state. -/
theorem Registered.keepsMirrors (h : s'.Registered)
    (hindex : ∀ i c, s.classes i = some c → s'.classes i = some c)
    (hname : ∀ name c, s.classes2 name = some c → s'.classes2 name = some c)
    (hrepeated : ∀ k ∈ klass, s.HasMirror k →
      s'.classes = s.classes ∧ s'.classes2 = s.classes2) : KeepsMirrors s s' klass where
  byIndex := hindex
  byName := hname
  oneMirror := by
    intro i j c d hi hj hklass
    obtain ⟨hci, hc⟩ := h.byIndex i c hi
    obtain ⟨hdj, hd⟩ := h.byIndex j d hj
    rw [hklass, hd] at hc
    cases hc
    exact ⟨hci.symm.trans hdj, rfl⟩
  sameClasses := by
    intro c
    constructor
    · rintro ⟨i, hi⟩
      exact ⟨_, (h.byIndex i c hi).2⟩
    · rintro ⟨name, hname⟩
      exact ⟨_, (h.byName name c hname).2⟩
  repeated := hrepeated

/-- Without a change to the maps there is nothing to lose. -/
theorem Registered.keepsMirrors_of_eq (h : s.Registered) (hclasses : s'.classes = s.classes)
    (hclasses2 : s'.classes2 = s.classes2) : KeepsMirrors s s' klass := by
  refine (h.congr hclasses hclasses2).keepsMirrors ?_ ?_ fun _ _ _ => ⟨hclasses, hclasses2⟩
  · rw [hclasses]
    exact fun _ _ hi => hi
  · rw [hclasses2]
    exact fun _ _ hname => hname

/-! ## A registration -/

/-- The loader with a class put into both maps. -/
def put (s : Mirrors) (c : JClass) : Mirrors :=
  { s with
    classes := Function.update s.classes c.index (some c)
    classes2 := Function.update s.classes2 (getType c.reflected.klass) (some c) }

@[simp]
theorem classes_put_self : (s.put c).classes c.index = some c := Function.update_self _ _ _

@[simp]
theorem classes2_put_self : (s.put c).classes2 (getType c.reflected.klass) = some c :=
  Function.update_self _ _ _

theorem classes_put_of_ne {i : Int64} (h : i ≠ c.index) : (s.put c).classes i = s.classes i :=
  Function.update_of_ne h _ _

theorem classes2_put_of_ne {name : String} (h : name ≠ getType c.reflected.klass) :
    (s.put c).classes2 name = s.classes2 name :=
  Function.update_of_ne h _ _

theorem run_register (s : Mirrors) (c : JClass) :
    (JClassLoader.addClass c).run s =
      .ok () (if (s.classes2 c.reflected.klass.getName).isSome then s else s.put c) := by
  have hrun : (JClassLoader.addClass c).run s =
      if (s.classes2 c.reflected.klass.getName).isSome then .ok () s else .ok () (s.put c) := rfl
  rw [hrun]
  split_ifs <;> rfl

/-- A class whose keys are both free joins the others. -/
theorem Registered.put (h : s.Registered)
    (hkey : s.classes2 (getType c.reflected.klass) = none) (hindex : s.classes c.index = none) :
    (s.put c).Registered := by
  constructor
  · intro i d hi
    rcases eq_or_ne i c.index with rfl | hic
    · rw [classes_put_self] at hi
      cases hi
      exact ⟨rfl, classes2_put_self⟩
    · rw [classes_put_of_ne hic] at hi
      obtain ⟨hd, hname⟩ := h.byIndex i d hi
      have hne : getType d.reflected.klass ≠ getType c.reflected.klass := by
        intro heq
        rw [heq, hkey] at hname
        cases hname
      exact ⟨hd, (classes2_put_of_ne hne).trans hname⟩
  · intro name d hname
    rcases eq_or_ne name (getType c.reflected.klass) with rfl | hnc
    · rw [classes2_put_self] at hname
      cases hname
      exact ⟨rfl, classes_put_self⟩
    · rw [classes2_put_of_ne hnc] at hname
      obtain ⟨hd, hi⟩ := h.byName name d hname
      have hne : d.index ≠ c.index := by
        intro heq
        rw [heq, hindex] at hi
        cases hi
      exact ⟨hd, (classes_put_of_ne hne).trans hi⟩

/-- Putting a class where it is changes nothing. -/
theorem Registered.put_of_mem (h : s.Registered)
    (hkey : s.classes2 (getType c.reflected.klass) = some c) :
    (s.put c).classes = s.classes ∧ (s.put c).classes2 = s.classes2 := by
  obtain ⟨-, hindex⟩ := h.byName _ _ hkey
  refine ⟨?_, ?_⟩
  · rw [Mirrors.put, ← hindex, Function.update_eq_self]
  · rw [Mirrors.put, ← hkey, Function.update_eq_self]

theorem registered_register (h : s.Registered) (hregisters : s.Registers c) :
    (finalState ((JClassLoader.addClass c).run s)).Registered := by
  rw [run_register, finalState]
  split_ifs with htest
  · exact h
  · rcases hregisters with hsome | ⟨hkey, hindex⟩ | hthat
    · exact absurd hsome htest
    · exact h.put hkey hindex
    · obtain ⟨hclasses, hclasses2⟩ := h.put_of_mem hthat
      exact h.congr hclasses hclasses2

/-- A registration keeps one mirror for each class exactly if the class is refused or both its keys
are free or its own. -/
theorem keepsMirrors_register_iff (h : s.Registered) :
    KeepsMirrors s (finalState ((JClassLoader.addClass c).run s)) (some c.reflected.klass) ↔
      s.Registers c := by
  have hregistered := registered_register (c := c) h
  rw [run_register, finalState] at hregistered ⊢
  constructor
  · intro hkeeps
    rw [Registers, or_iff_not_imp_left]
    intro htest
    rw [if_neg htest] at hkeeps
    -- What was under the keys before is still there, so it is the class itself.
    have hname : ∀ d, s.classes2 (getType c.reflected.klass) = some d → d = c := by
      intro d hd
      have hafter := hkeeps.byName _ d hd
      rw [classes2_put_self] at hafter
      exact (Option.some.inj hafter).symm
    have hindex : ∀ d, s.classes c.index = some d → d = c := by
      intro d hd
      have hafter := hkeeps.byIndex _ d hd
      rw [classes_put_self] at hafter
      exact (Option.some.inj hafter).symm
    cases hkey : s.classes2 (getType c.reflected.klass) with
    | some d => exact .inr (by rw [hname d hkey])
    | none =>
      refine .inl ⟨rfl, ?_⟩
      cases hslot : s.classes c.index with
      | none => rfl
      | some d =>
        obtain rfl := hindex d hslot
        rw [(h.byIndex _ _ hslot).2] at hkey
        cases hkey
  · intro hregisters
    have hafter := hregistered hregisters
    split_ifs at hafter ⊢ with htest
    · exact h.keepsMirrors_of_eq rfl rfl
    · rcases hregisters with hsome | ⟨hkey, hindex⟩ | hthat
      · exact absurd hsome htest
      · refine hafter.keepsMirrors (fun i d hi => ?_) (fun name d hname => ?_) ?_
        · have hne : i ≠ c.index := by
            rintro rfl
            rw [hindex] at hi
            cases hi
          exact (classes_put_of_ne hne).trans hi
        · have hne : name ≠ getType c.reflected.klass := by
            rintro rfl
            rw [hkey] at hname
            cases hname
          exact (classes2_put_of_ne hne).trans hname
        · rintro k ⟨⟩ hmirror
          obtain ⟨d, hd, -⟩ := h.exists_of_hasMirror hmirror
          rw [hkey] at hd
          cases hd
      · obtain ⟨hclasses, hclasses2⟩ := h.put_of_mem hthat
        exact h.keepsMirrors_of_eq hclasses hclasses2

/-! ## Runs -/

theorem run_registerAll_maps {α β : Type} (mirror : Int64 → α → β) (xs : List α)
    (before : Int64 → Option β) (s : Mirrors) :
    ∃ map s', (registerAll mirror xs before).run s = .ok map s' ∧ s'.classes = s.classes ∧
      s'.classes2 = s.classes2 := by
  induction xs generalizing before s with
  | nil => exact ⟨before, s, rfl, rfl, rfl⟩
  | cons x xs ih =>
    obtain ⟨map, s', hrun, hclasses, hclasses2⟩ :=
      ih (Function.update before s.referenceIndex (some (mirror s.referenceIndex x))) s.made
    refine ⟨map, s', ?_, hclasses, hclasses2⟩
    rw [registerAll, bind_of_ok (run_incrementReferenceIndex s), hrun]

/-- Making a mirror does not register it. -/
theorem run_create_maps (reflected : Reflected) (s : Mirrors) :
    ∃ c s', (JClass.create reflected).run s = .ok c s' ∧ c.reflected = reflected ∧
      c.index = s.referenceIndex ∧ s'.classes = s.classes ∧ s'.classes2 = s.classes2 := by
  obtain ⟨fields, s₁, hrun₁, hc₁, hd₁⟩ :=
    run_registerAll_maps JField.mk reflected.declaredFields (fun _ => none) s.made
  obtain ⟨declared, s₂, hrun₂, hc₂, hd₂⟩ :=
    run_registerAll_maps (fun i c => (⟨i, some c⟩ : JConstructor)) reflected.declaredConstructors
      (fun _ => none) s₁
  have hdefault : ∃ map s₃,
      (JClass.addDefaultConstructor reflected.declaredConstructors declared).run s₂ = .ok map s₃ ∧
        s₃.classes = s₂.classes ∧ s₃.classes2 = s₂.classes2 := by
    unfold JClass.addDefaultConstructor
    dsimp only
    split_ifs
    · exact ⟨_, _, rfl, rfl, rfl⟩
    · exact ⟨_, _, rfl, rfl, rfl⟩
  obtain ⟨constructors, s₃, hrun₃, hc₃, hd₃⟩ := hdefault
  obtain ⟨methods, s₄, hrun₄, hc₄, hd₄⟩ :=
    run_registerAll_maps (fun i m => (⟨i, m, 0⟩ : JMethod)) reflected.declaredMethods
      (fun _ => none) s₃
  refine ⟨⟨s.referenceIndex, reflected, fields, constructors, methods⟩, s₄, ?_, rfl, rfl, ?_, ?_⟩
  · rw [JClass.create, bind_of_ok (run_incrementReferenceIndex s), bind_of_ok hrun₁,
      bind_of_ok hrun₂, bind_of_ok hrun₃, bind_of_ok hrun₄]
    rfl
  · exact hc₄.trans (hc₃.trans (hc₂.trans hc₁))
  · exact hd₄.trans (hd₃.trans (hd₂.trans hd₁))

/-- The maps are the same. -/
def SameMaps (s s' : Mirrors) : Prop := s'.classes = s.classes ∧ s'.classes2 = s.classes2

instance refl_sameMaps : Std.Refl SameMaps where
  refl _ := ⟨rfl, rfl⟩

/-- `KeepsMirrors` is about the maps of the states. -/
theorem keepsMirrors_congr {t t' : Mirrors} (h : s.SameMaps t) (h' : s'.SameMaps t') :
    KeepsMirrors t t' klass ↔ KeepsMirrors s s' klass := by
  obtain ⟨_, _, classes, classes2⟩ := t
  obtain ⟨_, _, classes', classes2'⟩ := t'
  obtain rfl : classes = s.classes := h.1
  obtain rfl : classes2 = s.classes2 := h.2
  obtain rfl : classes' = s'.classes := h'.1
  obtain rfl : classes2' = s'.classes2 := h'.2
  exact ⟨fun h => ⟨h.1, h.2, h.3, h.4, h.5⟩, fun h => ⟨h.1, h.2, h.3, h.4, h.5⟩⟩

theorem registers_congr {t : Mirrors} (hclasses : t.classes = s.classes)
    (hclasses2 : t.classes2 = s.classes2) : t.Registers c ↔ s.Registers c := by
  rw [Registers, Registers, hclasses, hclasses2]

/-- `Jvm.addClass` registers a new mirror. -/
theorem addClass_iff (h : s.Registered) (reflected : Reflected) :
    (KeepsMirrors s (finalState ((Jvm.addClass reflected).run s)) (some reflected.klass) ↔
      ∀ c s', (JClass.create reflected).run s = .ok c s' → s.Registers c) ∧
    ((∀ c s', (JClass.create reflected).run s = .ok c s' → s.Registers c) →
      (finalState ((Jvm.addClass reflected).run s)).Registered) := by
  obtain ⟨c, s', hrun, rfl, -, hclasses, hclasses2⟩ := run_create_maps reflected s
  have hs' := h.congr hclasses hclasses2
  have hall : (∀ d t, (JClass.create c.reflected).run s = .ok d t → s.Registers d) ↔
      s'.Registers c := by
    rw [forall_ok_iff (B := fun d _ => s.Registers d) hrun, registers_congr hclasses hclasses2]
  rw [Jvm.addClass, bind_of_ok hrun, hall,
    ← keepsMirrors_congr ⟨hclasses, hclasses2⟩ ⟨rfl, rfl⟩]
  exact ⟨keepsMirrors_register_iff hs', registered_register hs'⟩

/-- `newInstance` after the class was registered. -/
theorem keeps_newInstance_rest (reflected : Reflected) (thrown : Option JavaException) :
    Keeps SameMaps (do
      let s ← get
      match s.classes2 (getType reflected.klass), thrown with
      | none, _ => throw .nullPointer
      | some _, some err => throw err
      | some _, none => incrementReferenceIndex : MirrorM Int64) := by
  intro s
  rw [get_bind]
  cases s.classes2 (getType reflected.klass) with
  | none => exact ⟨rfl, rfl⟩
  | some c => cases thrown <;> exact ⟨rfl, rfl⟩

/-- The maps after `newInstance` are those after its class was registered, if it was not before. -/
theorem sameMaps_newInstance (s : Mirrors) (reflected : Reflected)
    (thrown : Option JavaException) :
    (if s.classes2 (getType reflected.klass) = none then
        finalState ((Jvm.addClass reflected).run s) else s).SameMaps
      (s.loaderStep (.newInstance reflected thrown)) := by
  have hensure : finalState ((Jvm.ensureClass reflected).run s) =
      if s.classes2 (getType reflected.klass) = none then
        finalState ((Jvm.addClass reflected).run s) else s := by
    rw [Jvm.ensureClass, get_bind]
    cases s.classes2 (getType reflected.klass) <;> rfl
  have hstep : finalState ((Jvm.newInstance reflected thrown).run s) =
      s.loaderStep (.newInstance reflected thrown) := (finalState_bind_pure fun _ => ()).symm
  rw [← hensure, ← hstep]
  exact rel_finalState_rest (fun _ => keeps_newInstance_rest reflected thrown) s

/-- One call: it keeps one mirror for each class exactly if what it registers is registered once,
and then it keeps the invariant. -/
theorem loaderStep_iff (h : s.Registered) (op : LoaderOp) :
    (KeepsMirrors s (s.loaderStep op) op.klass ↔ s.RegistersOnce op) ∧
      (s.RegistersOnce op → (s.loaderStep op).Registered) := by
  have hsame : ∀ op, s.SameMaps (s.loaderStep op) →
      KeepsMirrors s (s.loaderStep op) op.klass ∧ (s.loaderStep op).Registered :=
    fun _ hmaps => ⟨h.keepsMirrors_of_eq hmaps.1 hmaps.2, h.congr hmaps.1 hmaps.2⟩
  cases op with
  | create reflected =>
    obtain ⟨c, s', hrun, -, -, hclasses, hclasses2⟩ := run_create_maps reflected s
    have hstep : s.loaderStep (.create reflected) = s' := by
      rw [loaderStep, LoaderOp.code, finalState_bind_pure, hrun, finalState]
    obtain ⟨hkeeps, hregistered⟩ := hsame (.create reflected) (hstep ▸ ⟨hclasses, hclasses2⟩)
    exact ⟨iff_of_true hkeeps trivial, fun _ => hregistered⟩
  | register clzz => exact ⟨keepsMirrors_register_iff h, registered_register h⟩
  | addClass reflected => exact addClass_iff h reflected
  | newInstance reflected thrown =>
    have hmaps := sameMaps_newInstance s reflected thrown
    by_cases hkey : s.classes2 (getType reflected.klass) = none
    · rw [if_pos hkey] at hmaps
      obtain ⟨hiff, hregistered⟩ := addClass_iff h reflected
      rw [RegistersOnce, forall_prop_of_true hkey]
      exact ⟨(keepsMirrors_congr ⟨rfl, rfl⟩ hmaps).trans hiff,
        fun honce => (hregistered honce).congr hmaps.1 hmaps.2⟩
    · rw [if_neg hkey] at hmaps
      obtain ⟨hkeeps, hregistered⟩ := hsame _ hmaps
      exact ⟨iff_of_true hkeeps fun hnone => absurd hnone hkey, fun _ => hregistered⟩
  | newObject =>
    obtain ⟨hkeeps, hregistered⟩ := hsame .newObject ⟨rfl, rfl⟩
    exact ⟨iff_of_true hkeeps trivial, fun _ => hregistered⟩

/-- In every run of calls each class has one mirror, with all lookups kept, exactly if each class
that is registered is found by its name with dots, or is not there by its type and index, or is the
registered `JClass` itself. -/
theorem one_mirror_iff (ops : List LoaderOp) :
    (∀ c ∈ trace loaderStep start ops, KeepsMirrors c.1 (c.1.loaderStep c.2) c.2.klass) ↔
      ∀ c ∈ trace loaderStep start ops, RegistersOnce c.1 c.2 :=
  forall_trace_iff (I := Registered) (H := fun _ _ => True)
    (P := fun s op => KeepsMirrors s (s.loaderStep op) op.klass)
    (fun _ op h _ => (loaderStep_iff h op).1) (fun _ op h _ => (loaderStep_iff h op).2)
    registered_start fun _ _ => trivial

/-- A class without members. -/
def emptyClass (name : ClassName) : Reflected :=
  { overloaded.reflected with klass := .ofName name }

/-- A class in a package that is registered twice has two mirrors, and its name leads to the second
one. -/
theorem packaged_class_twice :
    let once := loaderStep start (.addClass (emptyClass ⟨"sample.A", by decide⟩))
    let twice := loaderStep once (.addClass (emptyClass ⟨"sample.A", by decide⟩))
    (once.classes2 "sample/A").map JClass.index = some 0xFF00 ∧
      (twice.classes2 "sample/A").map JClass.index = some 0xFF02 ∧
      (twice.classes 0xFF00).isSome = true ∧ (twice.classes 0xFF02).isSome = true := by
  decide +kernel

end Mirrors

end Tank
