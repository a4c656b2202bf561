import Tank.Jenv.Handles

/-!
# Global references

A global reference should keep its object whatever happens to the handle it was made from and to
other handles of the object. `NewGlobalRef` looks its argument up in the local table only, and
`DeleteGlobalRef` removes the first handle of the object that it meets, which may be another one.

* `denotes_step_iff`: when a call that does not delete a global handle lets it keep its object;
* `global_ref_outlives_iff`: when a new global reference outlives what it was made from;
* `global_ref_of_global` is a reference that cannot be made.
-/

namespace Tank

open ToMathlib

namespace JniEnv

variable {O : Type} [DecidableEq O]

/-- `NewGlobalRef` of the handle `r` returns the global handle `h`. It is distinct from all live
ones and resolves to the object of `r`, then and after each later call. -/
structure Outlives (env : JniEnv O) (r : ℤ) (later : List (JniOp O)) (h : ℤ) : Prop where
  returns : (newGlobalRef r).run env = .ok (some h) (env.step (.newGlobalRef r))
  isGlobal : env.globals.table.inRange h = true
  fresh : ∀ e ∈ env.globals.live, e.1 ≠ h
  resolves : ∃ object, env.getReference r = .ok (some object) ∧
    (env.step (.newGlobalRef r)).getReference h = .ok (some object) ∧
    ∀ c ∈ trace step (env.step (.newGlobalRef r)) later,
      (c.1.step c.2).getReference h = .ok (some object)

/-- No deletion of a global handle meets `h` first. -/
def MissesGlobal (h : ℤ) (env : JniEnv O) : JniOp O → Prop
  | .deleteGlobalRef order refIdx => ∀ object, env.globals.resolve refIdx = some object →
      order.find? (fun key => env.globals.table.get key = some object) ≠ some h
  | _ => True

instance (h : ℤ) (env : JniEnv O) : (op : JniOp O) → Decidable (MissesGlobal h env op)
  | .deleteGlobalRef order refIdx => decidable_of_iff
      (∀ object ∈ env.globals.resolve refIdx,
        order.find? (fun key => env.globals.table.get key = some object) ≠ some h)
      ⟨fun hall object hget => hall object hget, fun hall object hget => hall object hget⟩
  | .newReference _ | .newLocalRef _ | .newGlobalRef _ | .deleteLocalRef _ _ => .isTrue trivial

/-- The global handle is in range and its entry is the object. -/
structure Denotes (env : JniEnv O) (h : ℤ) (object : O) : Prop extends Ranged env where
  inRange : env.globals.table.inRange h = true
  get : env.globals.table.get h = some object

variable {env : JniEnv O} {h : ℤ} {object : O} {op : JniOp O} {order : List ℤ} {refIdx : ℤ}

omit [DecidableEq O] in
theorem Denotes.getReference (hden : Denotes env h object) :
    env.getReference h = .ok (some object) := by
  rw [hden.getReference_of_inRange .globals hden.inRange, refs, hden.get]

omit [DecidableEq O] in
/-- A new entry does not replace one that is there. -/
theorem get_add_of_get {refs : References O} {idx : ℤ} (hget : refs.table.get idx = some object)
    (new : O) : (refs.add new).1.table.get idx = some object := by
  rw [JReferencTable.get_eq_some_iff] at hget ⊢
  exact List.mem_cons_of_mem _ hget

/-- After a deletion the entry is the same exactly if it was not the first one of the object. -/
theorem get_delete_iff {refs : References O} (idx : ℤ) (hpos : 0 < refs.table.start)
    (horder : order.Perm refs.table.keys) (hget : refs.table.get h = some object) :
    (refs.delete order idx).table.get h = some object ↔
      ∀ o, refs.resolve idx = some o →
        order.find? (fun key => refs.table.get key = some o) ≠ some h := by
  cases hres : refs.resolve idx with
  | none =>
    rw [References.delete_of_none horder hres, hget]
    simp
  | some o =>
    obtain ⟨key, -, hremove, hfind⟩ :=
      JReferencTable.exists_remove horder ((References.resolve_eq_some_iff hpos).1 hres).2
    have htable : (refs.delete order idx).table = refs.table.erase key := by
      rw [References.delete, hres]
      exact hremove
    rw [htable, JReferencTable.get_erase, hget]
    have hiff : (∀ o', some o = some o' →
        order.find? (fun key => refs.table.get key = some o') ≠ some h) ↔ key ≠ h := by
      constructor
      · intro hall heq
        exact hall o rfl (heq ▸ hfind)
      · rintro hne _ ⟨⟩ hfind'
        exact hne (Option.some.inj (hfind.symm.trans hfind'))
    rw [hiff]
    by_cases heq : h = key
    · simp [heq]
    · simp [heq, Ne.symm heq]

theorem Ranged.apply (hranged : Ranged env) (e : RefEffect O) : Ranged (env.apply e) := by
  cases e with
  | nothing => exact hranged
  | add kind object => exact hranged.withRefs rfl rfl
  | delete kind order idx =>
    exact hranged.withRefs References.start_delete References.size_delete

omit [DecidableEq O] in
theorem Ranged.inRange_globals_iff (hranged : Ranged env) :
    env.globals.table.inRange h = true ↔ 4096 ≤ h ∧ h ≤ 516096 := by
  rw [JReferencTable.inRange_iff, hranged.globalStart, hranged.globalSize]
  omega

omit [DecidableEq O] in
theorem Ranged.denotes_iff (hranged : Ranged env) (hin : env.globals.table.inRange h = true) :
    Denotes env h object ↔ env.getReference h = .ok (some object) := by
  refine ⟨Denotes.getReference, fun hget => ⟨hranged, hin, ?_⟩⟩
  rw [hranged.getReference_of_inRange .globals hin, refs] at hget
  exact Except.ok.inj hget

/-- In range a global handle stays in range. -/
theorem Denotes.inRange_apply (hden : Denotes env h object) (e : RefEffect O) :
    (env.apply e).globals.table.inRange h = true := by
  rw [(hden.toRanged.apply e).inRange_globals_iff, ← hden.toRanged.inRange_globals_iff]
  exact hden.inRange

/-- `MissesGlobal` for the effect of a call. -/
def MissesEffect (h : ℤ) (env : JniEnv O) : RefEffect O → Prop
  | .delete .globals order idx => ∀ object, env.globals.resolve idx = some object →
      order.find? (fun key => env.globals.table.get key = some object) ≠ some h
  | _ => True

theorem denotes_apply_iff {e : RefEffect O} (hden : Denotes env h object)
    (hordered : OrderedEffect env e) :
    Denotes (env.apply e) h object ↔ MissesEffect h env e := by
  have hsame : (env.apply e).globals.table.get h = some object → Denotes (env.apply e) h object :=
    fun hget => ⟨hden.toRanged.apply e, hden.inRange_apply e, hget⟩
  cases e with
  | nothing => exact iff_of_true hden trivial
  | add kind new =>
    refine iff_of_true (hsame ?_) trivial
    cases kind with
    | locals => exact hden.get
    | globals => exact get_add_of_get hden.get new
  | delete kind order idx =>
    cases kind with
    | locals => exact iff_of_true (hsame hden.get) trivial
    | globals =>
      have hiff := get_delete_iff idx (hden.start_pos .globals) hordered hden.get
      exact Iff.trans ⟨Denotes.get, hsame⟩ hiff

theorem missesGlobal_iff (h : ℤ) (env : JniEnv O) (op : JniOp O) :
    MissesGlobal h env op ↔ MissesEffect h env (env.effect op) := by
  cases op with
  | newReference new => rfl
  | newLocalRef refIdx =>
    rw [effect]
    split <;> rfl
  | newGlobalRef refIdx =>
    rw [effect]
    split <;> rfl
  | deleteLocalRef order refIdx =>
    rw [effect]
    split <;> rfl
  | deleteGlobalRef order refIdx =>
    rw [effect]
    split
    next hzero =>
      subst hzero
      exact iff_of_true (by simp [MissesGlobal, References.resolve]) trivial
    next => rfl

/-- A handle that denotes the object still does after a call exactly if the call misses it. -/
theorem denotes_step_iff (hden : Denotes env h object) (hop : Ordered env op) :
    Denotes (env.step op) h object ↔ MissesGlobal h env op := by
  rw [step_eq_apply, missesGlobal_iff]
  exact denotes_apply_iff hden hop.effect

/-- A local handle that resolves gives a global handle of the same object. -/
theorem run_newGlobalRef (hranged : Ranged env)
    (hlocal : env.getLocalReference refIdx = some object)
    (hroom : env.globals.table.inRange env.globals.table.freeIndex = true) :
    (newGlobalRef refIdx).run env =
        .ok (some env.globals.table.freeIndex) (env.step (.newGlobalRef refIdx)) ∧
      env.getReference refIdx = .ok (some object) ∧
      Denotes (env.step (.newGlobalRef refIdx)) env.globals.table.freeIndex object := by
  obtain ⟨hin, hget⟩ := (References.resolve_eq_some_iff (hranged.start_pos .locals)).1 hlocal
  have hne : refIdx ≠ 0 := by
    rintro rfl
    exact hranged.not_inRange_zero .locals hin
  have heffect : env.effect (.newGlobalRef refIdx) = .add .globals object := by
    rw [effect, hlocal]
  have hstep : env.step (.newGlobalRef refIdx) = env.apply (.add .globals object) := by
    rw [step_eq_apply, heffect]
  have hrun : (newGlobalRef refIdx).run env =
      .ok (some env.globals.table.freeIndex) (env.apply (.add .globals object)) := by
    simp only [newGlobalRef, EStateM.run, if_neg hne, hlocal]
    rfl
  refine ⟨hstep ▸ hrun, ?_, hstep ▸ ⟨hranged.apply _, hroom, ?_⟩⟩
  · rw [hranged.getReference_of_inRange .locals hin, hget]
  · exact JReferencTable.get_eq_some_iff.2 List.mem_cons_self

omit [DecidableEq O] in
/-- Only a local handle that resolves gives a global one. -/
theorem exists_of_newGlobalRef {env' : JniEnv O}
    (hrun : (newGlobalRef refIdx).run env = .ok (some h) env') :
    h = env.globals.table.freeIndex ∧ ∃ object, env.getLocalReference refIdx = some object := by
  simp only [newGlobalRef, EStateM.run] at hrun
  split_ifs at hrun
  · cases hrun
  · split at hrun
    · cases hrun
    next object hlocal =>
      obtain ⟨hidx, -⟩ := EStateM.Result.ok.inj hrun
      exact ⟨(Option.some.inj hidx).symm, object, hlocal⟩

/-- In every reachable state and for every handle, live or not, `NewGlobalRef` makes a reference
that is fresh and keeps its object over the later calls exactly if the handle is a local one that
resolves, the next index of the global table is in range and is not live, and no deletion meets the
new handle first. The later calls are arbitrary; a deletion of another global handle of the object
may be one that meets it. -/
theorem global_ref_outlives_iff (hreach : Reachable env) (r : ℤ) (later : List (JniOp O))
    (hlater : ∀ c ∈ trace step (env.step (.newGlobalRef r)) later, Ordered c.1 c.2) :
    (∃ h, Outlives env r later h) ↔
      (env.getLocalReference r).isSome ∧
        env.globals.table.inRange env.globals.table.freeIndex = true ∧
        (∀ e ∈ env.globals.live, e.1 ≠ env.globals.table.freeIndex) ∧
        ∀ c ∈ trace step (env.step (.newGlobalRef r)) later,
          MissesGlobal env.globals.table.freeIndex c.1 c.2 := by
  have hranged := hreach.based.toRanged
  -- From the state in which the handle denotes its object the calls are compared one by one.
  have hruns : ∀ object, Denotes (env.step (.newGlobalRef r)) env.globals.table.freeIndex object →
      ((∀ c ∈ trace step (env.step (.newGlobalRef r)) later,
          (c.1.step c.2).getReference env.globals.table.freeIndex = .ok (some object)) ↔
        ∀ c ∈ trace step (env.step (.newGlobalRef r)) later,
          MissesGlobal env.globals.table.freeIndex c.1 c.2) := by
    intro object hden
    refine forall_trace_iff (I := fun env' => Denotes env' env.globals.table.freeIndex object)
      (H := Ordered) (P := fun env' op =>
        (env'.step op).getReference env.globals.table.freeIndex = .ok (some object))
      ?_ ?_ hden hlater
    · intro env' op hden hop
      rw [← denotes_step_iff hden hop, step_eq_apply]
      exact ((hden.toRanged.apply _).denotes_iff (hden.inRange_apply _)).symm
    · intro env' op hden hop hmisses
      exact (denotes_step_iff hden hop).2 hmisses
  constructor
  · rintro ⟨h, hout⟩
    obtain ⟨rfl, object', hlocal⟩ := exists_of_newGlobalRef hout.returns
    obtain ⟨-, hget, hden⟩ := run_newGlobalRef hranged hlocal hout.isGlobal
    obtain ⟨object, hobject, -, hkept⟩ := hout.resolves
    obtain rfl : object' = object := Option.some.inj (Except.ok.inj (hget.symm.trans hobject))
    exact ⟨Option.isSome_iff_exists.2 ⟨_, hlocal⟩, hout.isGlobal, hout.fresh,
      (hruns _ hden).1 hkept⟩
  · rintro ⟨hsome, hroom, hfresh, hmisses⟩
    obtain ⟨object, hlocal⟩ := Option.isSome_iff_exists.1 hsome
    obtain ⟨hrun, hget, hden⟩ := run_newGlobalRef hranged hlocal hroom
    exact ⟨_, hrun, hroom, hfresh, object, hget, hden.getReference, (hruns _ hden).2 hmisses⟩

/-- An object with a local handle. -/
def oneLocal : JniEnv ℕ := [JniOp.newReference 7].foldl step create

theorem reachable_oneLocal : Reachable oneLocal := ⟨_, by decide +kernel, rfl⟩

/-- The reference outlives the local handle and another global one. -/
theorem global_ref_outlives_small :
    ∃ h, Outlives oneLocal 1
      [.newGlobalRef 1, .deleteLocalRef [1] 1, .deleteGlobalRef [4097, 4096] 4097] h :=
  (global_ref_outlives_iff reachable_oneLocal 1 _ (by decide +kernel)).2 (by decide +kernel)

/-- An object with a local and a global handle. -/
def oneGlobal : JniEnv ℕ := [JniOp.newReference 7, .newGlobalRef 1].foldl step create

/-- A live global handle is refused, and of two global handles of an object the deletion of the
second one takes the first one away. -/
theorem global_ref_of_global :
    let later : List (JniOp ℕ) := [.newGlobalRef 1, .deleteGlobalRef [4096, 4097] 4097]
    Reachable oneGlobal ∧ (4096, 7) ∈ oneGlobal.globals.live ∧
      outcome ((newGlobalRef 4096).run oneGlobal) =
        .error (.exception "Invalid local reference obj.") ∧
      (∀ c ∈ trace step oneGlobal later, Ordered c.1 c.2) ∧
      (later.foldl step oneGlobal).getReference 4096 = .ok none :=
  ⟨⟨_, by decide +kernel, rfl⟩, by decide, rfl, by decide +kernel, rfl⟩

end JniEnv

end Tank
