import Tank.Jenv.JniEnv
import Tank.ToMathlib.Trace

/-!
# Handles of the JNI environment over runs

A handle that was given out and not deleted since should resolve to its object. This fails in two
ways: handles are given out beyond the range in which they resolve, and the deletion of one of
several handles of an object may remove another one of them.

## Main results

* `handles_resolve_iff`: all live handles of a run resolve to their objects exactly if every new
  handle is in range and every deleted one is the first of its object.
* `delete_reference_iff`: in every reachable state, a deletion deletes its handle and nothing else
  exactly if the handle is the first of its object.
* `local_handle_out_of_range`, `deletes_other_handle` are runs in which this fails.
-/

namespace Tank

open ToMathlib

namespace JniEnv

variable {O : Type}

/-! ## Live handles resolve -/

/-- Every live handle resolves to its object, and no handle is both local and global. -/
structure Sound (env : JniEnv O) : Prop where
  locals : ∀ e ∈ env.locals.live, env.getReference e.1 = .ok (some e.2)
  globals : ∀ e ∈ env.globals.live, env.getReference e.1 = .ok (some e.2)
  disjoint : ∀ e ∈ env.locals.live, ∀ e' ∈ env.globals.live, e.1 ≠ e'.1

variable {env : JniEnv O} {kind : RefKind} {refs' : References O}

theorem Sound.getReference (h : Sound env) {e : ℤ × O} (he : e ∈ (env.refs kind).live) :
    env.getReference e.1 = .ok (some e.2) := by
  cases kind with
  | locals => exact h.locals e he
  | globals => exact h.globals e he

/-- Both tables hold exactly the live handles. -/
structure Consistent (env : JniEnv O) : Prop extends Ranged env where
  locals : env.locals.Synced
  globals : env.globals.Synced

theorem consistent_create : Consistent (create : JniEnv O) where
  localStart := rfl
  localSize := rfl
  globalStart := rfl
  globalSize := rfl
  locals := References.synced_create (by decide)
  globals := References.synced_create (by decide)

theorem Consistent.synced (h : Consistent env) (kind : RefKind) : (env.refs kind).Synced := by
  cases kind with
  | locals => exact h.locals
  | globals => exact h.globals

theorem Consistent.withRefs (h : Consistent env) (hsynced : refs'.Synced)
    (hstart : refs'.table.start = (env.refs kind).table.start)
    (hsize : refs'.table.size = (env.refs kind).table.size) :
    Consistent (env.withRefs kind refs') := by
  have hranged := h.toRanged.withRefs hstart hsize
  cases kind with
  | locals => exact ⟨hranged, hsynced, h.globals⟩
  | globals => exact ⟨hranged, h.locals, hsynced⟩

theorem Consistent.getReference (h : Consistent env) (kind : RefKind) {e : ℤ × O}
    (he : e ∈ (env.refs kind).live) : env.getReference e.1 = .ok (some e.2) := by
  obtain ⟨hin, hget⟩ := (h.synced kind).get_of_mem he
  rw [h.getReference_of_inRange kind hin, hget]

theorem Consistent.sound (h : Consistent env) : Sound env where
  locals _ he := h.getReference .locals he
  globals _ he := h.getReference .globals he
  disjoint := by
    -- The ranges of the tables do not meet.
    intro e he e' he'
    have hlocal := JReferencTable.inRange_iff.1 (h.locals.get_of_mem he).1
    have hglobal := JReferencTable.inRange_iff.1 (h.globals.get_of_mem he').1
    rw [h.localStart, h.localSize] at hlocal
    rw [h.globalStart] at hglobal
    omega

variable [DecidableEq O] {order : List ℤ} {refIdx : ℤ} {op : JniOp O} {e : RefEffect O}

/-- The order of a deletion visits every index once. -/
def Ordered (env : JniEnv O) : JniOp O → Prop
  | .deleteLocalRef order _ => order.Perm env.locals.table.keys
  | .deleteGlobalRef order _ => order.Perm env.globals.table.keys
  | _ => True

/-- A new handle is in the range of its table, and a deleted one is the first of its object that
the iteration meets. -/
def Regular (env : JniEnv O) : JniOp O → Prop
  | .newReference _ => env.locals.table.inRange env.locals.table.freeIndex = true
  | .newLocalRef refIdx => env.Resolves refIdx →
      env.locals.table.inRange env.locals.table.freeIndex = true
  | .newGlobalRef refIdx => (env.getLocalReference refIdx).isSome →
      env.globals.table.inRange env.globals.table.freeIndex = true
  | .deleteLocalRef order refIdx => env.locals.table.inRange refIdx = true →
      env.locals.table.IsFirst order refIdx
  | .deleteGlobalRef order refIdx => env.globals.table.inRange refIdx = true →
      env.globals.table.IsFirst order refIdx

instance (env : JniEnv O) : (op : JniOp O) → Decidable (Ordered env op)
  | .newReference _ | .newLocalRef _ | .newGlobalRef _ => .isTrue trivial
  | .deleteLocalRef _ _ | .deleteGlobalRef _ _ => inferInstanceAs (Decidable (List.Perm _ _))

instance (env : JniEnv O) : (op : JniOp O) → Decidable (Regular env op)
  | .newReference _ => inferInstanceAs (Decidable (_ = true))
  | .newLocalRef _ | .newGlobalRef _ => inferInstanceAs (Decidable (_ → _ = true))
  | .deleteLocalRef _ _ | .deleteGlobalRef _ _ =>
    inferInstanceAs (Decidable (_ = true → JReferencTable.IsFirst _ _ _))

/-- `Ordered` for the effect of a call. -/
def OrderedEffect (env : JniEnv O) : RefEffect O → Prop
  | .nothing => True
  | .add _ _ => True
  | .delete kind order _ => order.Perm (env.refs kind).table.keys

/-- `Regular` for the effect of a call. -/
def RegularEffect (env : JniEnv O) : RefEffect O → Prop
  | .nothing => True
  | .add kind _ => (env.refs kind).table.inRange (env.refs kind).table.freeIndex = true
  | .delete kind order idx => (env.refs kind).table.inRange idx = true →
      (env.refs kind).table.IsFirst order idx

omit [DecidableEq O] in
theorem Ordered.effect (hop : Ordered env op) : OrderedEffect env (env.effect op) := by
  cases op with
  | newReference object => trivial
  | newLocalRef refIdx =>
    rw [JniEnv.effect]
    split <;> trivial
  | newGlobalRef refIdx =>
    rw [JniEnv.effect]
    split <;> trivial
  | deleteLocalRef order refIdx =>
    rw [JniEnv.effect]
    split
    · trivial
    · exact hop
  | deleteGlobalRef order refIdx =>
    rw [JniEnv.effect]
    split
    · trivial
    · exact hop

theorem Ranged.regular_iff (h : Ranged env) (op : JniOp O) :
    Regular env op ↔ RegularEffect env (env.effect op) := by
  cases op with
  | newReference object => rfl
  | newLocalRef refIdx =>
    rw [Regular, effect]
    split
    next object hget => exact forall_prop_of_true ⟨object, hget⟩
    next hnot =>
      refine iff_of_true ?_ trivial
      rintro ⟨object, hget⟩
      exact absurd hget (hnot object)
  | newGlobalRef refIdx =>
    rw [Regular, effect]
    split
    next object hget => exact forall_prop_of_true (Option.isSome_iff_exists.2 ⟨object, hget⟩)
    next hget =>
      rw [hget]
      exact iff_of_true (fun hsome => absurd hsome Bool.false_ne_true) trivial
  | deleteLocalRef order refIdx =>
    rw [Regular, effect]
    split
    next hzero =>
      subst hzero
      exact iff_of_true (fun hin => absurd hin (h.not_inRange_zero .locals)) trivial
    next => rfl
  | deleteGlobalRef order refIdx =>
    rw [Regular, effect]
    split
    next hzero =>
      subst hzero
      exact iff_of_true (fun hin => absurd hin (h.not_inRange_zero .globals)) trivial
    next => rfl

theorem Consistent.apply (h : Consistent env) (hordered : OrderedEffect env e)
    (hregular : RegularEffect env e) : Consistent (env.apply e) := by
  cases e with
  | nothing => exact h
  | add kind object => exact h.withRefs ((h.synced kind).add hregular object) rfl rfl
  | delete kind order idx =>
    exact h.withRefs ((h.synced kind).delete hordered hregular) References.start_delete
      References.size_delete

/-- The handle after the last one of a table is given out but does not resolve. -/
theorem Consistent.not_sound_add (h : Consistent env)
    (hfull : ¬(env.refs kind).table.inRange (env.refs kind).table.freeIndex = true) (object : O) :
    ¬Sound (env.apply (.add kind object)) := by
  intro hsound
  have hsize : 0 ≤ (env.refs kind).table.size := by
    cases kind with
    | locals => rw [refs, h.localSize]; decide
    | globals => rw [refs, h.globalSize]; decide
  -- All indices in range are used, so the new one is right behind them.
  have hidx := (h.synced kind).freeIndex_of_full hfull hsize
  have hlive : ((env.refs kind).table.freeIndex, object) ∈
      ((env.apply (.add kind object)).refs kind).live := by
    rw [JniEnv.apply, refs_withRefs]
    exact List.mem_cons_self
  have hranged : Ranged (env.apply (.add kind object)) := h.toRanged.withRefs rfl rfl
  have hafter := hranged.not_resolves_after kind
  rw [JniEnv.apply, refs_withRefs] at hafter
  refine hafter ⟨object, ?_⟩
  have hget := hsound.getReference hlive
  rw [hidx] at hget
  exact hget

/-- The handle that was removed instead is still live. -/
theorem Consistent.not_sound_delete (h : Consistent env)
    (horder : order.Perm (env.refs kind).table.keys)
    (hin : (env.refs kind).table.inRange refIdx = true)
    (hfirst : ¬(env.refs kind).table.IsFirst order refIdx) :
    ¬Sound (env.apply (.delete kind order refIdx)) := by
  intro hsound
  -- `key` is another live handle of the object, and its entry is gone.
  obtain ⟨key, object, hlive, hkey, hget⟩ := (h.synced kind).exists_lost horder hin hfirst
  have hranged : Ranged (env.apply (.delete kind order refIdx)) :=
    h.toRanged.withRefs References.start_delete References.size_delete
  have hrefs : (env.apply (.delete kind order refIdx)).refs kind =
      (env.refs kind).delete order refIdx := refs_withRefs
  have hres := hsound.getReference (e := (key, object)) (hrefs ▸ hlive)
  rw [hranged.getReference_of_inRange kind, hrefs, hget] at hres
  · cases hres
  · rw [hrefs, References.inRange_delete]
    exact hkey

theorem Consistent.regular_of_sound (h : Consistent env) (hordered : OrderedEffect env e)
    (hsound : Sound (env.apply e)) : RegularEffect env e := by
  cases e with
  | nothing => trivial
  | add kind object =>
    by_contra hfull
    exact h.not_sound_add hfull object hsound
  | delete kind order idx =>
    intro hin
    by_contra hfirst
    exact h.not_sound_delete hordered hin hfirst hsound

theorem Consistent.step (h : Consistent env) (hop : Ordered env op) (hregular : Regular env op) :
    Consistent (env.step op) := by
  rw [step_eq_apply]
  exact h.apply hop.effect ((h.regular_iff op).1 hregular)

/-- After every call of a run all live handles resolve to their objects exactly if the calls are
regular. -/
theorem handles_resolve_iff (ops : List (JniOp O))
    (hops : ∀ c ∈ trace step create ops, Ordered c.1 c.2) :
    (∀ c ∈ trace step create ops, Sound (c.1.step c.2)) ↔
      ∀ c ∈ trace step create ops, Regular c.1 c.2 := by
  refine forall_trace_iff (I := Consistent) (H := Ordered) (P := fun env op => Sound (env.step op))
    ?_ ?_ consistent_create hops
  · intro env op h hop
    refine ⟨fun hsound => ?_, fun hregular => (h.step hop hregular).sound⟩
    rw [step_eq_apply] at hsound
    exact (h.regular_iff op).2 (h.regular_of_sound hop.effect hsound)
  · intro env op h hop hregular
    exact h.step hop hregular

theorem handles_resolve_small :
    let ops : List (JniOp ℕ) := [.newReference 7, .newLocalRef 1, .newGlobalRef 2,
      .deleteLocalRef [1, 2] 1, .deleteGlobalRef [4096] 4096, .newReference 8]
    ∀ c ∈ trace step create ops, Sound (c.1.step c.2) :=
  (handles_resolve_iff _ (by decide +kernel)).2 (by decide +kernel)

/-- The environment after so many new objects. -/
def afterNew (object : O) (n : ℕ) : JniEnv O :=
  (List.replicate n (JniOp.newReference object)).foldl step create

theorem afterNew_succ (object : O) (n : ℕ) :
    afterNew object (n + 1) = ((afterNew object n).addLocalReference object).1 := by
  rw [afterNew, List.replicate_succ', List.foldl_append]
  rfl

theorem ranged_afterNew (object : O) (n : ℕ) : Ranged (afterNew object n) := by
  induction n with
  | zero => exact consistent_create.toRanged
  | succ n ih =>
    rw [afterNew_succ]
    exact ⟨ih.localStart, ih.localSize, ih.globalStart, ih.globalSize⟩

/-- The handles are given out one after the other. -/
theorem freeIndex_afterNew (object : O) (n : ℕ) :
    (afterNew object n).locals.table.freeIndex = 1 + n := by
  have hstart := (ranged_afterNew object n).localStart
  rw [← hstart]
  apply JReferencTable.freeIndex_of_keys
  rw [hstart]
  induction n with
  | zero =>
    refine fun k => ⟨fun hk => absurd hk List.not_mem_nil, fun hk => ?_⟩
    push_cast at hk
    omega
  | succ n ih =>
    have hstart' := (ranged_afterNew object n).localStart
    have hfree := JReferencTable.freeIndex_of_keys (hstart' ▸ ih hstart')
    intro k
    rw [afterNew_succ]
    show k ∈ (afterNew object n).locals.table.freeIndex :: (afterNew object n).locals.table.keys ↔ _
    rw [List.mem_cons, ih hstart', hfree, hstart']
    push_cast
    omega

/-- The 2050th object gets a handle that `getReference` throws at. -/
theorem local_handle_out_of_range :
    (2050, ()) ∈ (afterNew () 2050).locals.live ∧
      (afterNew () 2050).getReference 2050 =
        .error (.exception "Invalid reference(2050)") := by
  have hmessage : "Invalid reference(" ++ toString (2050 : ℤ) ++ ")" = "Invalid reference(2050)" :=
    by decide +kernel
  rw [← hmessage]
  refine ⟨?_, (ranged_afterNew () _).getReference_outside (by decide) (.inl (by decide))⟩
  rw [afterNew_succ, live_addLocalReference, freeIndex_afterNew]
  exact List.mem_cons_self

/-! ## Deletions -/

section

variable {O : Type} {env env' : JniEnv O} {refIdx : ℤ}

/-- The deletion of a handle deletes that handle and no other live one. -/
structure DeletesOnly (env env' : JniEnv O) (ref : ℤ) : Prop where
  deleted : ¬env'.Resolves ref
  others : ∀ e ∈ env.locals.live ++ env.globals.live, e.1 ≠ ref →
    env'.getReference e.1 = env.getReference e.1

/-- A deletion that does not change what handles resolve to. -/
theorem deletesOnly_of_getReference_eq
    (hsame : ∀ idx, env'.getReference idx = env.getReference idx) :
    DeletesOnly env env' refIdx ↔ ¬env.Resolves refIdx := by
  have hres : env'.Resolves refIdx ↔ env.Resolves refIdx := by rw [Resolves, hsame, Resolves]
  exact ⟨fun h => hres.not.1 h.deleted, fun h => ⟨hres.not.2 h, fun e _ _ => hsame e.1⟩⟩

end

/-- The states of runs. -/
def Reachable (env : JniEnv O) : Prop :=
  ∃ ops : List (JniOp O), (∀ c ∈ trace step create ops, Ordered c.1 c.2) ∧
    ops.foldl step create = env

/-- What every call keeps. -/
structure Based (env : JniEnv O) : Prop extends Ranged env where
  locals : env.locals.LiveFromStart
  globals : env.globals.LiveFromStart

omit [DecidableEq O] in
theorem Based.withRefs (h : Based env) (hlive : refs'.LiveFromStart)
    (hstart : refs'.table.start = (env.refs kind).table.start)
    (hsize : refs'.table.size = (env.refs kind).table.size) : Based (env.withRefs kind refs') := by
  have hranged := h.toRanged.withRefs hstart hsize
  cases kind with
  | locals => exact ⟨hranged, hlive, h.globals⟩
  | globals => exact ⟨hranged, h.locals, hlive⟩

omit [DecidableEq O] in
theorem Based.liveFromStart (h : Based env) (kind : RefKind) : (env.refs kind).LiveFromStart := by
  cases kind with
  | locals => exact h.locals
  | globals => exact h.globals

theorem Based.step (h : Based env) (op : JniOp O) : Based (env.step op) := by
  rw [step_eq_apply]
  cases env.effect op with
  | nothing => exact h
  | add kind object => exact h.withRefs ((h.liveFromStart kind).add object) rfl rfl
  | delete kind order idx =>
    exact h.withRefs (h.liveFromStart kind).delete References.start_delete References.size_delete

theorem Reachable.based (h : Reachable env) : Based env := by
  obtain ⟨ops, hops, rfl⟩ := h
  refine foldl_invariant (I := Based) (H := Ordered) (fun env op h _ => h.step op) ?_ hops
  exact ⟨consistent_create.toRanged, References.liveFromStart_create,
    References.liveFromStart_create⟩

/-- The deletion of a handle in range deletes the first handle of its object. -/
theorem Ranged.deletesOnly_iff (h : Ranged env) (kind : RefKind)
    (horder : order.Perm (env.refs kind).table.keys)
    (hin : (env.refs kind).table.inRange refIdx = true) :
    DeletesOnly env (env.apply (.delete kind order refIdx)) refIdx ↔
      (env.refs kind).table.IsFirst order refIdx := by
  have hpos := h.start_pos kind
  have hranged : Ranged (env.apply (.delete kind order refIdx)) :=
    h.withRefs References.start_delete References.size_delete
  have hrefs : (env.apply (.delete kind order refIdx)).refs kind =
      (env.refs kind).delete order refIdx := refs_withRefs
  -- What the handle itself is afterwards.
  have hself : (env.apply (.delete kind order refIdx)).getReference refIdx =
      .ok (((env.refs kind).delete order refIdx).table.get refIdx) := by
    rw [hranged.getReference_of_inRange kind, hrefs]
    rw [hrefs, References.inRange_delete]
    exact hin
  by_cases hfirst : (env.refs kind).table.IsFirst order refIdx
  · have hget : ∀ key, ((env.refs kind).delete order refIdx).table.get key =
        if key = refIdx then none else (env.refs kind).table.get key := fun key =>
      References.get_delete_of_isFirst hpos horder hin hfirst
    refine iff_of_true ⟨?_, fun e _ hne => ?_⟩ hfirst
    · rintro ⟨object, hobject⟩
      rw [hself, hget, if_pos rfl] at hobject
      cases hobject
    · exact getReference_withRefs References.inRange_delete (by rw [hget, if_neg hne])
  · refine iff_of_false (fun hdel => ?_) hfirst
    -- Another index is removed, so the handle still resolves.
    obtain ⟨key, object, hne, -, hget, htable⟩ :=
      References.delete_of_not_isFirst hpos horder hin hfirst
    refine hdel.deleted ⟨object, ?_⟩
    rw [hself, htable, JReferencTable.get_erase, if_neg hne.symm, hget]

/-- The deletion of a handle out of range deletes nothing. -/
theorem deletesOnly_iff_of_not_inRange (kind : RefKind)
    (horder : order.Perm (env.refs kind).table.keys)
    (hout : ¬(env.refs kind).table.inRange refIdx = true) :
    DeletesOnly env (env.apply (.delete kind order refIdx)) refIdx ↔ ¬env.Resolves refIdx := by
  refine deletesOnly_of_getReference_eq fun idx => ?_
  -- The handle has no object, and no entry of the table is `null`.
  have hnone : (env.refs kind).resolve refIdx = none := by simp [References.resolve, hout]
  exact getReference_withRefs References.inRange_delete
    (by rw [References.delete_of_none horder hnone])

/-- In every reachable state the deletion of a live handle deletes that handle and no other one
exactly if it is the first handle of its object that the iteration meets. A handle beyond the range
of its table is not deleted at all, so it must not resolve before. -/
theorem delete_reference_iff (h : Reachable env) :
    (∀ e ∈ env.locals.live, ∀ order : List ℤ, order.Perm env.locals.table.keys →
      (DeletesOnly env (env.step (.deleteLocalRef order e.1)) e.1 ↔
        if env.locals.table.inRange e.1 then env.locals.table.IsFirst order e.1
        else ¬env.Resolves e.1)) ∧
    (∀ e ∈ env.globals.live, ∀ order : List ℤ, order.Perm env.globals.table.keys →
      (DeletesOnly env (env.step (.deleteGlobalRef order e.1)) e.1 ↔
        (env.globals.table.inRange e.1 = true → env.globals.table.IsFirst order e.1))) := by
  have hbased := h.based
  refine ⟨fun e he order horder => ?_, fun e he order horder => ?_⟩
  · have hle := hbased.locals e he
    rw [hbased.localStart] at hle
    rw [step_eq_apply, effect, if_neg (by omega)]
    split_ifs with hin
    · exact hbased.deletesOnly_iff .locals horder hin
    · exact deletesOnly_iff_of_not_inRange .locals horder hin
  · have hle := hbased.globals e he
    have hpos := hbased.start_pos .globals
    rw [refs] at hpos
    rw [step_eq_apply, effect, if_neg (by omega)]
    by_cases hin : env.globals.table.inRange e.1 = true
    · rw [forall_prop_of_true hin]
      exact hbased.deletesOnly_iff .globals horder hin
    · rw [deletesOnly_iff_of_not_inRange .globals horder hin]
      exact iff_of_true (hbased.not_resolves_above hle hin) fun hin' => absurd hin' hin

/-- One object with two local handles. -/
def twoHandles : JniEnv ℕ :=
  [JniOp.newReference 7, .newLocalRef 1].foldl step create

theorem reachable_twoHandles : Reachable twoHandles := ⟨_, by decide +kernel, rfl⟩

theorem delete_first_handle :
    DeletesOnly twoHandles (twoHandles.step (.deleteLocalRef [1, 2] 1)) 1 :=
  ((delete_reference_iff reachable_twoHandles).1 (1, 7) (by decide) [1, 2] (by decide)).2
    (by decide)

/-- Deleting the second handle of the object removes the first one, and the second one still
resolves. -/
theorem deletes_other_handle :
    let env' := twoHandles.step (.deleteLocalRef [1, 2] 2)
    Reachable twoHandles ∧ twoHandles.locals.live = [(2, 7), (1, 7)] ∧
      twoHandles.locals.table.keys = [2, 1] ∧ env'.getReference 1 = .ok none ∧
      env'.getReference 2 = .ok (some 7) ∧ ¬DeletesOnly twoHandles env' 2 := by
  refine ⟨reachable_twoHandles, rfl, rfl, rfl, rfl, fun h => h.deleted ⟨7, rfl⟩⟩

end JniEnv

end Tank
