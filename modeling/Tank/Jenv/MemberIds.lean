import Mathlib.Data.List.Nodup
import Tank.Jenv.Mirror
import Tank.ToMathlib.EState

/-!
# Ids of members

The index of a mirror is the id that native code gets for a field, a method or a constructor. All
mirrors take their indices from one counter, which is a `long`.

* `run_create`: a new class and its members take consecutive indices, fields first, then
  constructors, then methods (`JClass.Spans`).
* `Mirrors.Indexed` is the invariant of a run: the ranges of registered classes are apart.
* `member_ids`: until the counter gets to zero again, an id stands for one member, and the JNI
  functions find it. `default_constructor_id` is a class for which an id cannot be used.
-/

namespace Tank

open ToMathlib AsmClass

/-! ## The counter -/

/-- The index of the object number `n`. The counter starts at `0xFF00` and goes around after
`2 ^ 64` objects. -/
def objectIndex (n : ℕ) : Int64 := 0xFF00 + Int64.ofNat n

theorem objectIndex_succ (n : ℕ) : objectIndex (n + 1) = objectIndex n + 1 := by
  rw [objectIndex, objectIndex, Int64.ofNat_add, Int64.add_assoc]
  rfl

theorem objectIndex_eq_iff {m n : ℕ} :
    objectIndex m = objectIndex n ↔ m % 2 ^ 64 = n % 2 ^ 64 := by
  rw [objectIndex, objectIndex, Int64.add_right_inj, ← Int64.toBitVec_inj, ← BitVec.toNat_inj]
  simp

theorem objectIndex_eq_zero_iff {n : ℕ} : objectIndex n = 0 ↔ n % 2 ^ 64 = 2 ^ 64 - 0xFF00 := by
  rw [objectIndex, ← Int64.toBitVec_inj, ← BitVec.toNat_inj]
  simp only [Int64.toBitVec_add, Int64.toBitVec_ofNat, BitVec.toNat_add]
  simp
  omega

/-- So many objects have been made. -/
structure Mirrors.Made (s : Mirrors) (n : ℕ) : Prop where
  referenceIndex : s.referenceIndex = objectIndex n
  created : s.created = (List.range n).map objectIndex

/-- The state after one more object. -/
def Mirrors.made (s : Mirrors) : Mirrors :=
  { s with referenceIndex := s.referenceIndex + 1, created := s.created ++ [s.referenceIndex] }

theorem Mirrors.Made.succ {s : Mirrors} {n : ℕ} (h : s.Made n) : s.made.Made (n + 1) where
  referenceIndex := by rw [objectIndex_succ, ← h.referenceIndex]; rfl
  created := by rw [List.range_succ, List.map_append, ← h.created, List.map_singleton,
    ← h.referenceIndex]; rfl

theorem run_incrementReferenceIndex (s : Mirrors) :
    incrementReferenceIndex.run s = .ok s.referenceIndex s.made := rfl

/-- The map holds mirrors of the list, from the object number `n` on, and what it held before. -/
structure Holds {α β : Type} (mirror : Int64 → α → β) (xs : List α) (n : ℕ)
    (before map : Int64 → Option β) : Prop where
  /-- Every mirror is found under its index. -/
  mirrors : ∀ k x, xs[k]? = some x →
    map (objectIndex (n + k)) = some (mirror (objectIndex (n + k)) x)
  /-- Nothing else was put. -/
  others : ∀ i, (∀ k < xs.length, i ≠ objectIndex (n + k)) → map i = before i

theorem run_registerAll {α β : Type} (mirror : Int64 → α → β) (xs : List α) {n : ℕ}
    (before : Int64 → Option β) {s : Mirrors} (hs : s.Made n) (hlen : xs.length ≤ 2 ^ 64) :
    ∃ map s', (registerAll mirror xs before).run s = .ok map s' ∧ s'.Made (n + xs.length) ∧
      s'.classes = s.classes ∧ s'.classes2 = s.classes2 ∧ Holds mirror xs n before map := by
  induction xs generalizing n before s with
  | nil => exact ⟨before, s, rfl, hs, rfl, rfl, by simp, fun _ _ => rfl⟩
  | cons x xs ih =>
    rw [List.length_cons] at hlen
    obtain ⟨map, s', hrun, hs', hclasses, hclasses2, hholds⟩ :=
      ih (Function.update before s.referenceIndex (some (mirror s.referenceIndex x)))
        hs.succ (by omega)
    refine ⟨map, s', ?_, ?_, hclasses, hclasses2, ?_, ?_⟩
    · rw [registerAll, bind_of_ok (run_incrementReferenceIndex s), hrun]
    · rw [List.length_cons, Nat.add_comm xs.length, ← Nat.add_assoc]
      exact hs'
    · intro k y hy
      rcases k with _ | k
      · -- The first index is not used again: the loop is shorter than the way around.
        have hfirst : ∀ k < xs.length, objectIndex (n + 0) ≠ objectIndex (n + 1 + k) := by
          intro k hk heq
          rw [objectIndex_eq_iff] at heq
          omega
        obtain rfl : x = y := by simpa using hy
        rw [hholds.others _ hfirst, Nat.add_zero, hs.referenceIndex, Function.update_self]
      · rw [← Nat.add_assoc, Nat.add_right_comm]
        exact hholds.mirrors k y (by simpa using hy)
    · intro i hi
      have hrest : ∀ k < xs.length, i ≠ objectIndex (n + 1 + k) := by
        intro k hk
        rw [Nat.add_right_comm]
        exact hi (k + 1) (by simpa using hk)
      have hne : i ≠ s.referenceIndex := by
        rw [hs.referenceIndex]
        exact hi 0 (by simp)
      rw [hholds.others i hrest, Function.update_of_ne hne]

/-- What is found in a map that was empty before is a mirror of the list. -/
theorem Holds.exists {α β : Type} {mirror : Int64 → α → β} {xs : List α} {n : ℕ}
    {map : Int64 → Option β} (h : Holds mirror xs n (fun _ => none) map) {i : Int64} {y : β}
    (hi : map i = some y) :
    ∃ k x, k < xs.length ∧ xs[k]? = some x ∧ i = objectIndex (n + k) ∧ y = mirror i x := by
  by_contra hno
  have hnone : map i = none := by
    refine h.others i fun k hk heq => hno ?_
    have hx : xs[k]? = some xs[k] := List.getElem?_eq_getElem hk
    refine ⟨k, xs[k], hk, hx, heq, ?_⟩
    have hmirror := h.mirrors k xs[k] hx
    rw [← heq, hi] at hmirror
    exact Option.some.inj hmirror
  rw [hi] at hnone
  cases hnone

/-! ## The members of a class -/

/-- The kinds of members. -/
inductive MemberKind where
  | field
  | constructor
  | method
deriving DecidableEq

/-- A member of a class. -/
inductive Member where
  | field (f : JField)
  | constructor (k : JConstructor)
  | method (m : JMethod)
deriving DecidableEq

/-- `getIndex` -/
def Member.index : Member → Int64
  | .field f => f.index
  | .constructor k => k.index
  | .method m => m.index

namespace JClass

/-- `findField`, `findConstructor` and `findMethod` of an id. -/
def find (c : JClass) : MemberKind → Int64 → Option Member
  | .field, reference => (c.fields reference).map .field
  | .constructor, reference => (c.constructors reference).map .constructor
  | .method, reference => (c.methods reference).map .method

/-- The class and its members are objects from the number `n` on, up to `n'`. -/
structure Spans (c : JClass) (kindAt : ℕ → MemberKind) (n n' : ℕ) : Prop where
  lt : n < n'
  index : c.index = objectIndex n
  found : ∀ kind i m, c.find kind i = some m →
    m.index = i ∧ ∃ p, n < p ∧ p < n' ∧ i = objectIndex p ∧ kindAt p = kind

/-- Everything that the class declares has a mirror, and there is a constructor without
parameters. -/
structure Complete (c : JClass) : Prop where
  fields : ∀ field ∈ c.reflected.declaredFields, ∃ i f, c.fields i = some f ∧ f.field = field
  constructors : ∀ constructor ∈ c.reflected.declaredConstructors,
    ∃ i k, c.constructors i = some k ∧ k.constructor = some constructor
  default : ∃ i k, c.constructors i = some k ∧ k.getSignature = "()V"
  methods : ∀ method ∈ c.reflected.declaredMethods, ∃ i m, c.methods i = some m ∧ m.method = method

/-- No method is called like a constructor. -/
def MethodsNamed (c : JClass) : Prop := ∀ i m, c.methods i = some m → m.method.name ≠ "<init>"

end JClass

theorem Holds.exists_mirror {α β : Type} {mirror : Int64 → α → β} {xs : List α} {n : ℕ}
    {before map : Int64 → Option β} (h : Holds mirror xs n before map) {x : α} (hx : x ∈ xs) :
    ∃ i, map i = some (mirror i x) := by
  obtain ⟨k, hk⟩ := List.mem_iff_getElem?.1 hx
  exact ⟨_, h.mirrors k x hk⟩

/-- The map of the constructors of a class: objects from the number `n` on, up to `n'`. -/
structure Constructed (declared : List Constructor) (n n' : ℕ) (map : Int64 → Option JConstructor) :
    Prop where
  found : ∀ i k, map i = some k → k.index = i ∧ ∃ p, n ≤ p ∧ p < n' ∧ i = objectIndex p
  declared : ∀ constructor ∈ declared, ∃ i k, map i = some k ∧ k.constructor = some constructor
  default : ∃ i k, map i = some k ∧ k.getSignature = "()V"

/-- The default constructor takes one more index, unless there is a constructor like it. -/
theorem run_addDefaultConstructor {declared : List Constructor} {n : ℕ}
    {before : Int64 → Option JConstructor} {s : Mirrors} (hs : s.Made (n + declared.length))
    (hbefore : Holds (fun i c => ⟨i, some c⟩) declared n (fun _ => none) before)
    (hlen : declared.length < 2 ^ 64) :
    ∃ map s' n', (JClass.addDefaultConstructor declared before).run s = .ok map s' ∧ s'.Made n' ∧
      n ≤ n' ∧ s'.classes = s.classes ∧ s'.classes2 = s.classes2 ∧
      Constructed declared n n' map := by
  have hfound : ∀ i k, before i = some k →
      k.index = i ∧ ∃ p, n ≤ p ∧ p < n + declared.length ∧ i = objectIndex p := by
    intro i k hi
    obtain ⟨j, x, hj, -, hij, rfl⟩ := hbefore.exists hi
    exact ⟨rfl, n + j, by omega, by omega, hij⟩
  by_cases hdefault : (declared.any fun c => JConstructor.getSignature ⟨0, some c⟩ == "()V") = true
  · refine ⟨before, s, _, ?_, hs, Nat.le_add_right _ _, rfl, rfl, hfound, fun c hc => ?_, ?_⟩
    · simp only [JClass.addDefaultConstructor, if_pos hdefault]
      rfl
    · obtain ⟨i, hi⟩ := hbefore.exists_mirror hc
      exact ⟨i, _, hi, rfl⟩
    · obtain ⟨c, hc, hsig⟩ := List.any_eq_true.1 hdefault
      obtain ⟨i, hi⟩ := hbefore.exists_mirror hc
      exact ⟨i, _, hi, beq_iff_eq.1 hsig⟩
  · refine ⟨Function.update before s.referenceIndex (some ⟨s.referenceIndex, none⟩), s.made, _, ?_,
      hs.succ, by omega, rfl, rfl, fun i k hi => ?_, fun c hc => ?_, ?_⟩
    · simp only [JClass.addDefaultConstructor, if_neg hdefault]
      exact bind_of_ok (run_incrementReferenceIndex s)
    · rcases eq_or_ne i s.referenceIndex with rfl | hne
      · rw [Function.update_self] at hi
        cases hi
        exact ⟨rfl, _, Nat.le_add_right _ _, Nat.lt_succ_self _, hs.referenceIndex⟩
      · rw [Function.update_of_ne hne] at hi
        obtain ⟨hindex, p, hle, hlt, hp⟩ := hfound i k hi
        exact ⟨hindex, p, hle, by omega, hp⟩
    · -- The new index is none of those of the declared constructors.
      obtain ⟨j, hj⟩ := List.mem_iff_getElem?.1 hc
      have hlt : j < declared.length := (List.getElem?_eq_some_iff.1 hj).1
      have hne : objectIndex (n + j) ≠ s.referenceIndex := by
        rw [hs.referenceIndex, ne_eq, objectIndex_eq_iff]
        omega
      refine ⟨objectIndex (n + j), ⟨objectIndex (n + j), some c⟩, ?_, rfl⟩
      rw [Function.update_of_ne hne, hbefore.mirrors j c hj]
    · exact ⟨s.referenceIndex, ⟨s.referenceIndex, none⟩, Function.update_self .., rfl⟩

/-- What the constructor of a class makes. -/
theorem run_create (reflected : Reflected) {s : Mirrors} {n : ℕ} (hs : s.Made n) :
    ∃ c s' n', (JClass.create reflected).run s = .ok c s' ∧ s'.Made n' ∧
      s'.classes = s.classes ∧ s'.classes2 = s.classes2 ∧
      (∃ kindAt, c.Spans kindAt n n') ∧ c.Complete ∧ c.MethodsNamed := by
  have hfields := reflected.fields_lt
  have hconstructors := reflected.constructors_lt
  have hmethods := reflected.methods_lt
  -- The four stages of the constructor, each of which starts where the one before has stopped.
  obtain ⟨fields, s₁, hrun₁, hs₁, hc₁, hd₁, hholds₁⟩ :=
    run_registerAll JField.mk reflected.declaredFields (fun _ => none) hs.succ (by omega)
  obtain ⟨declared, s₂, hrun₂, hs₂, hc₂, hd₂, hholds₂⟩ :=
    run_registerAll (fun i c => (⟨i, some c⟩ : JConstructor)) reflected.declaredConstructors
      (fun _ => none) hs₁ (by omega)
  obtain ⟨constructors, s₃, n₃, hrun₃, hs₃, hle₃, hc₃, hd₃, hmade₃⟩ :=
    run_addDefaultConstructor hs₂ hholds₂ (by omega)
  obtain ⟨methods, s₄, hrun₄, hs₄, hc₄, hd₄, hholds₄⟩ :=
    run_registerAll (fun i m => (⟨i, m, 0⟩ : JMethod)) reflected.declaredMethods
      (fun _ => none) hs₃ (by omega)
  refine ⟨⟨s.referenceIndex, reflected, fields, constructors, methods⟩, s₄, _, ?_, hs₄, ?_, ?_,
    ⟨fun p => if p < n + 1 + reflected.declaredFields.length then .field
      else if p < n₃ then .constructor else .method, ?_⟩, ?_, ?_⟩
  · rw [JClass.create, bind_of_ok (run_incrementReferenceIndex s), bind_of_ok hrun₁,
      bind_of_ok hrun₂, bind_of_ok hrun₃, bind_of_ok hrun₄]
    rfl
  · rw [hc₄, hc₃, hc₂, hc₁]
    rfl
  · rw [hd₄, hd₃, hd₂, hd₁]
    rfl
  · -- Fields come first, then constructors, with the default one, and then methods.
    refine ⟨by omega, hs.referenceIndex, fun kind i m hm => ?_⟩
    cases kind with
    | field =>
      obtain ⟨f, hf, rfl⟩ := Option.map_eq_some_iff.1 hm
      obtain ⟨k, x, hk, -, hi, rfl⟩ := hholds₁.exists hf
      exact ⟨rfl, n + 1 + k, by omega, by omega, hi, if_pos (by omega)⟩
    | constructor =>
      obtain ⟨k, hk, rfl⟩ := Option.map_eq_some_iff.1 hm
      obtain ⟨hindex, p, hle, hlt, hi⟩ := hmade₃.found i k hk
      refine ⟨hindex, p, by omega, by omega, hi, ?_⟩
      rw [if_neg (by omega), if_pos hlt]
    | method =>
      obtain ⟨m', hm', rfl⟩ := Option.map_eq_some_iff.1 hm
      obtain ⟨k, x, hk, -, hi, rfl⟩ := hholds₄.exists hm'
      refine ⟨rfl, n₃ + k, by omega, by omega, hi, ?_⟩
      rw [if_neg (by omega), if_neg (by omega)]
  · refine ⟨fun f hf => ?_, hmade₃.declared, hmade₃.default, fun m hm => ?_⟩
    · obtain ⟨i, hi⟩ := hholds₁.exists_mirror hf
      exact ⟨i, _, hi, rfl⟩
    · obtain ⟨i, hi⟩ := hholds₄.exists_mirror hm
      exact ⟨i, _, hi, rfl⟩
  · intro i m hm
    obtain ⟨k, x, -, hx, -, rfl⟩ := hholds₄.exists hm
    exact reflected.name_ne_init x (List.mem_of_getElem? hx)

/-! ## Runs -/

/-- The classes and objects that are made one after the other. -/
inductive MirrorOp where
  | addClass (reflected : Reflected)
  | newInstance (reflected : Reflected) (thrown : Option JavaException)
  /-- A string, an array or an object that is handed to native code. -/
  | newObject

def MirrorOp.code : MirrorOp → MirrorM Unit
  | .addClass reflected => Jvm.addClass reflected
  | .newInstance reflected thrown => do
    let _ ← Jvm.newInstance reflected thrown
    pure ()
  | .newObject => do
    let _ ← incrementReferenceIndex
    pure ()

namespace Mirrors

/-- No object was made yet. -/
def start : Mirrors := ⟨0xFF00, [], fun _ => none, fun _ => none⟩

/-- The state after an operation. -/
def step (s : Mirrors) (op : MirrorOp) : Mirrors := finalState (op.code.run s)

def run (ops : List MirrorOp) : Mirrors := ops.foldl step start

/-- Every registered class has its own range of objects. -/
structure Indexed (s : Mirrors) (n : ℕ) : Prop where
  made : s.Made n
  index : ∀ k c, s.classes k = some c → c.index = k ∧ c.Complete ∧ c.MethodsNamed
  spans : ∀ k c, s.classes k = some c → ∃ kindAt a b, c.Spans kindAt a b ∧ b ≤ n
  apart : ∀ k k' c c', s.classes k = some c → s.classes k' = some c' → k ≠ k' →
    ∃ kindAt kindAt' a b a' b', c.Spans kindAt a b ∧ c'.Spans kindAt' a' b' ∧ b ≤ n ∧ b' ≤ n ∧
      (b ≤ a' ∨ b' ≤ a)

theorem indexed_start : start.Indexed 0 :=
  ⟨⟨rfl, rfl⟩, by simp [start], by simp [start], by simp [start]⟩

variable {s s' : Mirrors} {n n' : ℕ}

/-- More objects leave the classes as they are. -/
theorem Indexed.mono (h : s.Indexed n) (hle : n ≤ n') (hmade : s'.Made n')
    (hclasses : s'.classes = s.classes) : s'.Indexed n' := by
  refine ⟨hmade, fun k c hk => ?_, fun k c hk => ?_, fun k k' c c' hk hk' hne => ?_⟩
  · rw [hclasses] at hk
    exact h.index k c hk
  · rw [hclasses] at hk
    obtain ⟨kindAt, a, b, hspans, hb⟩ := h.spans k c hk
    exact ⟨kindAt, a, b, hspans, hb.trans hle⟩
  · rw [hclasses] at hk hk'
    obtain ⟨kindAt, kindAt', a, b, a', b', hspans, hspans', hb, hb', hapart⟩ :=
      h.apart k k' c c' hk hk' hne
    exact ⟨kindAt, kindAt', a, b, a', b', hspans, hspans', hb.trans hle, hb'.trans hle, hapart⟩

/-- A class that was just made is put under its index. -/
theorem Indexed.register {c : JClass} {kindAt : ℕ → MemberKind} (h : s.Indexed n)
    (hspans : c.Spans kindAt n n') (hcomplete : c.Complete) (hnamed : c.MethodsNamed)
    (hmade : s'.Made n') (hclasses : s'.classes = Function.update s.classes c.index (some c)) :
    s'.Indexed n' := by
  have hle : n ≤ n' := hspans.lt.le
  -- A class in the map is the new one or one from before.
  have hcases : ∀ k d, s'.classes k = some d →
      (k = c.index ∧ d = c) ∨ (k ≠ c.index ∧ s.classes k = some d) := by
    intro k d hk
    rw [hclasses] at hk
    rcases eq_or_ne k c.index with rfl | hne
    · rw [Function.update_self] at hk
      exact .inl ⟨rfl, (Option.some.inj hk).symm⟩
    · rw [Function.update_of_ne hne] at hk
      exact .inr ⟨hne, hk⟩
  refine ⟨hmade, fun k d hk => ?_, fun k d hk => ?_, fun k k' d d' hk hk' hne => ?_⟩
  · rcases hcases k d hk with ⟨rfl, rfl⟩ | ⟨-, hold⟩
    · exact ⟨rfl, hcomplete, hnamed⟩
    · exact h.index k d hold
  · rcases hcases k d hk with ⟨rfl, rfl⟩ | ⟨-, hold⟩
    · exact ⟨kindAt, n, n', hspans, le_rfl⟩
    · obtain ⟨kindAt', a, b, hspans', hb⟩ := h.spans k d hold
      exact ⟨kindAt', a, b, hspans', hb.trans hle⟩
  · rcases hcases k d hk with ⟨rfl, rfl⟩ | ⟨-, hold⟩ <;>
      rcases hcases k' d' hk' with ⟨rfl, rfl⟩ | ⟨-, hold'⟩
    · exact absurd rfl hne
    · obtain ⟨kindAt', a, b, hspans', hb⟩ := h.spans k' d' hold'
      exact ⟨kindAt, kindAt', n, n', a, b, hspans, hspans', le_rfl, hb.trans hle, .inr hb⟩
    · obtain ⟨kindAt', a, b, hspans', hb⟩ := h.spans k d hold
      exact ⟨kindAt', kindAt, a, b, n, n', hspans', hspans, hb.trans hle, le_rfl, .inl hb⟩
    · obtain ⟨kindAt₁, kindAt₂, a, b, a', b', hspans₁, hspans₂, hb, hb', hapart⟩ :=
        h.apart k k' d d' hold hold' hne
      exact ⟨kindAt₁, kindAt₂, a, b, a', b', hspans₁, hspans₂, hb.trans hle, hb'.trans hle,
        hapart⟩

/-- The classes stay in their ranges. -/
def Grows (s s' : Mirrors) : Prop := ∀ n, s.Indexed n → ∃ n', n ≤ n' ∧ s'.Indexed n'

instance isPreorder_grows : IsPreorder Mirrors Grows where
  refl _ n h := ⟨n, le_rfl, h⟩
  trans s t u h h' n hn := by
    obtain ⟨n₁, hle₁, hn₁⟩ := h n hn
    obtain ⟨n₂, hle₂, hn₂⟩ := h' n₁ hn₁
    exact ⟨n₂, hle₁.trans hle₂, hn₂⟩

theorem keeps_incrementReferenceIndex : Keeps Grows incrementReferenceIndex :=
  fun _ n h => ⟨n + 1, Nat.le_succ n, h.mono (Nat.le_succ n) h.made.succ rfl⟩

theorem keeps_addClass (reflected : Reflected) : Keeps Grows (Jvm.addClass reflected) := by
  intro s n h
  obtain ⟨c, s', n', hrun, hmade, hclasses, hclasses2, ⟨kindAt, hspans⟩, hcomplete, hnamed⟩ :=
    run_create reflected h.made
  refine ⟨n', hspans.lt.le, ?_⟩
  rw [Jvm.addClass, bind_of_ok hrun]
  by_cases hname : (s'.classes2 c.reflected.klass.getName).isSome = true
  · -- A class of that name is there already, and the new one is dropped.
    have hrun' : (JClassLoader.addClass c).run s' = .ok () s' := if_pos hname
    rw [hrun']
    exact h.mono hspans.lt.le hmade hclasses
  · have hrun' : (JClassLoader.addClass c).run s' = .ok () { s' with
        classes := Function.update s'.classes c.index (some c)
        classes2 := Function.update s'.classes2 (getType c.reflected.klass) (some c) } :=
      if_neg hname
    rw [hrun']
    refine h.register hspans hcomplete hnamed ⟨hmade.referenceIndex, hmade.created⟩ ?_
    rw [← hclasses]
    rfl

theorem keeps_newInstance (reflected : Reflected) (thrown : Option JavaException) :
    Keeps Grows (Jvm.newInstance reflected thrown) := by
  refine Keeps.bind (Keeps.get_bind fun s₁ => ?_) fun _ => Keeps.get_bind fun s₂ => ?_
  · split
    · exact keeps_addClass reflected
    · exact Keeps.pure _
  · split
    · exact .throw _
    · exact .throw _
    · exact keeps_incrementReferenceIndex

/-- One operation. -/
theorem grows_step (s : Mirrors) (op : MirrorOp) : s.Grows (s.step op) := by
  cases op with
  | addClass reflected => exact keeps_addClass reflected s
  | newInstance reflected thrown =>
    exact (keeps_newInstance reflected thrown).bind (fun _ => .pure _) s
  | newObject =>
    exact keeps_incrementReferenceIndex.bind (fun _ => .pure _) s

/-- Any run of operations. -/
theorem exists_indexed_run (ops : List MirrorOp) : ∃ n, (run ops).Indexed n := by
  have hfold : ∀ (ops : List MirrorOp) (s : Mirrors), s.Grows (ops.foldl step s) := by
    intro ops
    induction ops with
    | nil => exact Std.Refl.refl
    | cons op ops ih => exact fun s => IsTrans.trans _ _ _ (grows_step s op) (ih (s.step op))
  obtain ⟨n, -, hn⟩ := hfold ops start 0 indexed_start
  exact ⟨n, hn⟩

end Mirrors

/-! ## JNI functions

The functions of the JNI environment that find a member, up to the point where they have it. The
class is that of the handle or of the object that native code passes. -/

namespace JniEnv

/-- `GetMethodIDInternal`, for `GetMethodID` and `GetStaticMethodID`. -/
def getMethodIDInternal (clzz : JClass) (methods constructors : List Int64)
    (name signature : String) : Int64 :=
  match clzz.findMethod methods name signature with
  | some method => method.index
  | none =>
    match clzz.findConstructor constructors name signature with
    | some constructor => constructor.index
    | none => 0

/-- `GetFieldIdInternal`, for `GetFieldID` and `GetStaticFieldID`. -/
def getFieldIdInternal (clzz : JClass) (fields : List Int64) (name signature : String) : Int64 :=
  match clzz.findField fields name signature with
  | some field => field.index
  | none => 0

/-- The method that is called for an id, or the message that there is none. -/
def methodById (what : String) (clzz : JClass) (methodIx : Int64) :
    Except JavaException JMethod :=
  match clzz.methods methodIx with
  | some method => .ok method
  | none => .error (.exception ("Could not find method " ++ toString methodIx ++ " in " ++ what ++
      clzz.reflected.klass.getName ++ " by id."))

/-- `CallObjectMethodV` -/
def callObjectMethodV : JClass → Int64 → Except JavaException JMethod := methodById "object "

/-- `CallStaticObjectMethodV` -/
def callStaticObjectMethodV : JClass → Int64 → Except JavaException JMethod := methodById "clzz "

/-- The field of an id for `GetObjectField`, `SetObjectField`, `GetStaticObjectField` and
`SetStaticObjectField`. -/
def fieldById (clzz : JClass) (fieldIdx : Int64) : Except JavaException JField :=
  match clzz.fields fieldIdx with
  | some field => .ok field
  | none => .error (.exception ("Could not find field " ++ toString fieldIdx ++ " in object " ++
      clzz.reflected.klass.getName ++ " by id."))

/-- `NewObjectV`, with the constructor that it calls. It logs the name of the constructor, and
asking the default constructor for it throws, as there is nothing to reflect. -/
def newObjectV (clzz : JClass) (constructorIdx : Int64) : Except JavaException JConstructor :=
  match clzz.constructors constructorIdx with
  | none => .error .nullPointer
  | some constructor =>
    if constructor.constructor.isSome then .ok constructor else .error .nullPointer

end JniEnv

/-! ## What an id stands for -/

/-- The indices are pairwise distinct and none of them is zero. -/
def IdsDistinct (s : Mirrors) : Prop := s.created.Nodup ∧ 0 ∉ s.created

/-- The index survives the way through a register, which has 32 bits. -/
def FitsRegister (i : Int64) : Prop := i.toUInt64.toUInt32.toUInt64.toInt64 = i

/-- The index of a member of the class stands for that member only. -/
structure IdsIdentify (s : Mirrors) (k : Int64) (c : JClass) : Prop where
  complete : c.Complete
  own : ∀ kind i m, c.find kind i = some m → m.index = i ∧ i ∈ s.created
  otherKinds : ∀ kind i m, c.find kind i = some m → ∀ kind', kind' ≠ kind → c.find kind' i = none
  otherClasses : ∀ kind i m, c.find kind i = some m →
    ∀ k' c', k' ≠ k → s.classes k' = some c' → ∀ kind', c'.find kind' i = none

/-- The ids that native code gets for a name and a signature lead back to a member with that name
and signature. -/
structure IdsResolve (c : JClass) : Prop where
  method : ∀ methods constructors name signature, name ≠ "<init>" →
    let id := JniEnv.getMethodIDInternal c methods constructors name signature
    id ≠ 0 → ∃ m, JniEnv.callObjectMethodV c id = .ok m ∧
      JniEnv.callStaticObjectMethodV c id = .ok m ∧ m.isMatch name signature = true
  field : ∀ fields name signature,
    let id := JniEnv.getFieldIdInternal c fields name signature
    id ≠ 0 → ∃ f, JniEnv.fieldById c id = .ok f ∧ f.isMatch name signature = true
  /-- The constructor is found, but it can only be called if the class declares it. -/
  constructor : ∀ methods constructors signature,
    let id := JniEnv.getMethodIDInternal c methods constructors "<init>" signature
    id ≠ 0 → ∃ k, c.constructors id = some k ∧ k.isMatch "<init>" signature = true ∧
      JniEnv.newObjectV c id =
        if k.constructor.isSome then .ok k else .error .nullPointer

variable {c c' : JClass} {s : Mirrors} {n : ℕ}

theorem Mirrors.Made.idsDistinct (h : s.Made n) (hn : n ≤ 2 ^ 64 - 0xFF00) : IdsDistinct s := by
  rw [IdsDistinct, h.created]
  constructor
  · refine List.Nodup.map_on (fun p hp q hq heq => ?_) List.nodup_range
    rw [List.mem_range] at hp hq
    rw [objectIndex_eq_iff] at heq
    omega
  · intro hzero
    obtain ⟨p, hp, hzero⟩ := List.mem_map.1 hzero
    rw [List.mem_range] at hp
    rw [objectIndex_eq_zero_iff] at hzero
    omega

theorem fitsRegister_objectIndex (hn : n < 2 ^ 32 - 0xFF00) : FitsRegister (objectIndex n) := by
  have hbits : (objectIndex n).toUInt64 = 0xFF00 + UInt64.ofNat n := rfl
  have hlow : (0xFF00 + UInt64.ofNat n).toUInt32.toUInt64 = 0xFF00 + UInt64.ofNat n := by
    rw [← UInt64.toNat_inj]
    simp
    omega
  rw [FitsRegister, hbits, hlow]
  rfl

/-- Objects with other numbers have other indices. -/
theorem JClass.Spans.number_eq {kindAt kindAt' : ℕ → MemberKind} {a b a' b' : ℕ} {i : Int64}
    {kind kind' : MemberKind} {m m' : Member} (h : c.Spans kindAt a b)
    (h' : c'.Spans kindAt' a' b') (hb : b ≤ 2 ^ 64) (hb' : b' ≤ 2 ^ 64)
    (hm : c.find kind i = some m) (hm' : c'.find kind' i = some m') :
    ∃ p, a < p ∧ p < b ∧ a' < p ∧ p < b' ∧ kindAt p = kind ∧ kindAt' p = kind' := by
  obtain ⟨-, p, hap, hpb, hp, hkind⟩ := h.found kind i m hm
  obtain ⟨-, q, haq, hqb, hq, hkind'⟩ := h'.found kind' i m' hm'
  have heq : objectIndex p = objectIndex q := hp.symm.trans hq
  rw [objectIndex_eq_iff] at heq
  have hpq : p = q := by omega
  subst hpq
  exact ⟨p, hap, hpb, haq, hqb, hkind, hkind'⟩

theorem Mirrors.Indexed.idsIdentify (h : s.Indexed n) (hn : n ≤ 2 ^ 64) {k : Int64}
    (hk : s.classes k = some c) : IdsIdentify s k c := by
  obtain ⟨kindAt, a, b, hspans, hb⟩ := h.spans k c hk
  refine ⟨(h.index k c hk).2.1, fun kind i m hm => ?_, fun kind i m hm kind' hne => ?_,
    fun kind i m hm k' c' hne hk' kind' => ?_⟩
  · obtain ⟨hindex, p, -, hpb, hp, -⟩ := hspans.found kind i m hm
    refine ⟨hindex, ?_⟩
    rw [h.made.created, hp]
    exact List.mem_map_of_mem (List.mem_range.2 (by omega))
  · -- In the same class, one number has one kind.
    rw [Option.eq_none_iff_forall_ne_some]
    intro m' hm'
    obtain ⟨p, -, -, -, -, hkind, hkind'⟩ :=
      hspans.number_eq hspans (hb.trans hn) (hb.trans hn) hm hm'
    exact hne (hkind'.symm.trans hkind)
  · -- Different classes have their numbers in ranges that do not meet.
    rw [Option.eq_none_iff_forall_ne_some]
    intro m' hm'
    obtain ⟨kindAt₁, kindAt₂, a₁, b₁, a₂, b₂, hspans₁, hspans₂, hb₁, hb₂, hapart⟩ :=
      h.apart k k' c c' hk hk' hne.symm
    obtain ⟨p, hp₁, hp₁', hp₂, hp₂', -⟩ :=
      hspans₁.number_eq hspans₂ (hb₁.trans hn) (hb₂.trans hn) hm hm'
    omega

theorem exists_of_bind_firstMatch {β : Type} {map : Int64 → Option β} {p : β → Bool}
    {order : List Int64} {x : β} (h : (JClass.firstMatch map p order).bind map = some x) :
    ∃ i, map i = some x ∧ p x = true := by
  obtain ⟨i, hi, hx⟩ := Option.bind_eq_some_iff.1 h
  obtain ⟨y, hy, hp⟩ := firstMatch_eq_some hi
  rw [hx] at hy
  cases hy
  exact ⟨i, hx, hp⟩

theorem JConstructor.isMatch_iff {k : JConstructor} {name signature : String} :
    k.isMatch name signature = true ↔ "<init>" = name ∧ k.getSignature = signature := by
  rw [JConstructor.isMatch, Bool.and_eq_true, beq_iff_eq, beq_iff_eq]

theorem JClass.Spans.idsResolve {kindAt : ℕ → MemberKind} {a b : ℕ} (h : c.Spans kindAt a b)
    (hnamed : c.MethodsNamed) : IdsResolve c := by
  -- What is found by name is found again under its index.
  have hmethods : ∀ i m, c.methods i = some m → m.index = i := by
    intro i m hm
    have hfind : c.find .method i = some (.method m) := by rw [JClass.find, hm]; rfl
    exact (h.found .method i _ hfind).1
  have hconstructors : ∀ i k, c.constructors i = some k → k.index = i := by
    intro i k hk
    have hfind : c.find .constructor i = some (.constructor k) := by rw [JClass.find, hk]; rfl
    exact (h.found .constructor i _ hfind).1
  have hfields : ∀ i f, c.fields i = some f → f.index = i := by
    intro i f hf
    have hfind : c.find .field i = some (.field f) := by rw [JClass.find, hf]; rfl
    exact (h.found .field i _ hfind).1
  refine ⟨?_, ?_, ?_⟩
  · intro methods constructors name signature hname id hid
    rcases hfind : c.findMethod methods name signature with _ | m
    · -- No constructor has another name.
      rcases hfind' : c.findConstructor constructors name signature with _ | k
      · simp [id, JniEnv.getMethodIDInternal, hfind, hfind'] at hid
      · obtain ⟨i, -, hmatch⟩ := exists_of_bind_firstMatch hfind'
        exact absurd (JConstructor.isMatch_iff.1 hmatch).1.symm hname
    · obtain ⟨i, hi, hmatch⟩ := exists_of_bind_firstMatch hfind
      have hid' : id = i := by
        simp only [id, JniEnv.getMethodIDInternal, hfind]
        exact hmethods i m hi
      refine ⟨m, ?_, ?_, hmatch⟩
      · rw [hid', JniEnv.callObjectMethodV, JniEnv.methodById, hi]
      · rw [hid', JniEnv.callStaticObjectMethodV, JniEnv.methodById, hi]
  · intro fields name signature id hid
    rcases hfind : c.findField fields name signature with _ | f
    · simp [id, JniEnv.getFieldIdInternal, hfind] at hid
    · obtain ⟨i, hi, hmatch⟩ := exists_of_bind_firstMatch hfind
      have hid' : id = i := by
        simp only [id, JniEnv.getFieldIdInternal, hfind]
        exact hfields i f hi
      refine ⟨f, ?_, hmatch⟩
      rw [hid', JniEnv.fieldById, hi]
  · intro methods constructors signature id hid
    rcases hfind : c.findMethod methods "<init>" signature with _ | m
    · rcases hfind' : c.findConstructor constructors "<init>" signature with _ | k
      · simp [id, JniEnv.getMethodIDInternal, hfind, hfind'] at hid
      · obtain ⟨i, hi, hmatch⟩ := exists_of_bind_firstMatch hfind'
        have hid' : id = i := by
          simp only [id, JniEnv.getMethodIDInternal, hfind, hfind']
          exact hconstructors i k hi
        refine ⟨k, ?_, hmatch, ?_⟩
        · rw [hid', hi]
        · rw [hid', JniEnv.newObjectV, hi]
    · obtain ⟨i, hi, hmatch⟩ := exists_of_bind_firstMatch hfind
      exact absurd (JMethod.isMatch_iff.1 hmatch).1 (hnamed i m hi)

/-- As long as the counter has not gone around to zero, ids identify members: indices are distinct,
the index of a member is found in its class and its map only, and what native code gets for a name
and a signature leads back to such a member. Native code gets the index itself as long as there are
less than `2 ^ 32` of them. -/
theorem member_ids (ops : List MirrorOp)
    (hcount : (Mirrors.run ops).created.length ≤ 2 ^ 64 - 0xFF00) :
    IdsDistinct (Mirrors.run ops) ∧
      (∀ k c, (Mirrors.run ops).classes k = some c →
        IdsIdentify (Mirrors.run ops) k c ∧ IdsResolve c) ∧
      ((Mirrors.run ops).created.length ≤ 2 ^ 32 - 0xFF00 →
        ∀ i ∈ (Mirrors.run ops).created, FitsRegister i) := by
  obtain ⟨n, hn⟩ := Mirrors.exists_indexed_run ops
  have hlen : (Mirrors.run ops).created.length = n := by
    rw [hn.made.created, List.length_map, List.length_range]
  rw [hlen] at hcount ⊢
  refine ⟨hn.made.idsDistinct hcount, fun k c hk => ⟨hn.idsIdentify (by omega) hk, ?_⟩,
    fun hfew i hi => ?_⟩
  · obtain ⟨kindAt, a, b, hspans, -⟩ := hn.spans k c hk
    exact hspans.idsResolve (hn.index k c hk).2.2
  · rw [hn.made.created] at hi
    obtain ⟨p, hp, rfl⟩ := List.mem_map.1 hi
    rw [List.mem_range] at hp
    exact fitsRegister_objectIndex (by omega)

/-- A class with a constructor that takes an `int`, and none without parameters. -/
def intClass : Reflected where
  klass := .ofName ⟨"sample.B", by decide⟩
  declaredFields := [⟨"x", .primitive .int⟩]
  declaredConstructors := [⟨[.primitive .int]⟩]
  declaredMethods := [⟨"f", [], .primitive .void⟩]
  fields_lt := by decide
  constructors_lt := by decide
  methods_lt := by decide
  name_ne_init := List.forall_mem_singleton.2 (by decide)

theorem member_ids_small :
    (Mirrors.run [.addClass intClass, .newObject]).created.length ≤ 2 ^ 64 - 0xFF00 ∧
      IdsDistinct (Mirrors.run [.addClass intClass, .newObject]) := by
  have hcount :
      (Mirrors.run [.addClass intClass, .newObject]).created.length ≤ 2 ^ 64 - 0xFF00 := by decide
  exact ⟨hcount, (member_ids _ hcount).1⟩

/-- The mirror of the class if it is the first object. -/
def intMirror : JClass where
  index := 0xFF00
  reflected := intClass
  fields := Function.update (fun _ => none) 0xFF01 (some ⟨0xFF01, ⟨"x", .primitive .int⟩⟩)
  constructors :=
    Function.update (Function.update (fun _ => none) 0xFF02
      (some ⟨0xFF02, some ⟨[.primitive .int]⟩⟩)) 0xFF03 (some ⟨0xFF03, none⟩)
  methods :=
    Function.update (fun _ => none) 0xFF04 (some ⟨0xFF04, ⟨"f", [], .primitive .void⟩, 0⟩)

theorem made_replicate (n : ℕ) : (Mirrors.run (List.replicate n .newObject)).Made n := by
  have hfold : ∀ (n m : ℕ) (s : Mirrors), s.Made m →
      ((List.replicate n .newObject).foldl Mirrors.step s).Made (m + n) := by
    intro n
    induction n with
    | zero => exact fun m s hs => hs
    | succ n ih =>
      intro m s hs
      rw [List.replicate_succ, List.foldl_cons, Nat.add_comm n, ← Nat.add_assoc]
      exact ih (m + 1) s.made hs.succ
  have hn := hfold n 0 Mirrors.start ⟨rfl, rfl⟩
  rwa [Nat.zero_add] at hn

/-- The id of the default constructor cannot be used, as `NewObjectV` throws for it. And after
`2 ^ 64` objects the indices begin again. -/
theorem default_constructor_id :
    ((Mirrors.run [.addClass intClass]).classes 0xFF00 = some intMirror ∧
      Enumerates intMirror.methods [0xFF04] ∧
      Enumerates intMirror.constructors [0xFF02, 0xFF03] ∧
      JniEnv.getMethodIDInternal intMirror [0xFF04] [0xFF02, 0xFF03] "<init>" "()V" = 0xFF03 ∧
      JniEnv.newObjectV intMirror 0xFF03 = .error .nullPointer) ∧
    ¬IdsDistinct (Mirrors.run (List.replicate (2 ^ 64 + 1) .newObject)) := by
  refine ⟨⟨rfl, fun i => ?_, fun i => ?_, by decide, by decide⟩, ?_⟩
  · by_cases h : i = 0xFF04 <;> simp [intMirror, h]
  · by_cases h : i = 0xFF03
    · simp [intMirror, h]
    · by_cases h' : i = 0xFF02 <;> simp [intMirror, h, h']
  · rintro ⟨hnodup, -⟩
    rw [(made_replicate _).created] at hnodup
    have hzero : 0 ∈ List.range (2 ^ 64 + 1) := List.mem_range.2 (Nat.succ_pos _)
    have hlast : 2 ^ 64 ∈ List.range (2 ^ 64 + 1) := List.mem_range.2 (Nat.lt_succ_self _)
    have heq := List.inj_on_of_nodup_map hnodup hzero hlast (objectIndex_eq_iff.2 rfl)
    omega

end Tank
