import Tank.Jenv.JReferencTable

/-!
# References in use

A reference table together with the handles of it that native code holds. A deletion goes from the
handle to its object and removes the first index of that object, in the order of the map.

* `Synced` is the state of a table that holds exactly the live handles; `Synced.add` and
  `Synced.delete` say when it stays so.
* `Synced.freeIndex_of_full`, `Synced.exists_lost`: what happens otherwise.
-/

namespace Tank

open ToMathlib

variable {O : Type}

/-- A table of references, with the handles it gave out for native code. -/
structure References (O : Type) where
  table : JReferencTable ℤ O
  /-- The handles that were returned and not deleted since, with the objects they were made for.
  A history that nothing reads. -/
  live : List (ℤ × O)

namespace References

def create (start maxEntries : ℤ) : References O := ⟨.create start maxEntries, []⟩

/-- What `getLocalReference` and `getGlobalReference` do; `none` is `null`. -/
def resolve (refs : References O) (idx : ℤ) : Option O :=
  if idx = 0 then none
  else if refs.table.inRange idx then refs.table.get idx
  else none

/-- What `addLocalReference` and `addGlobalReference` do. -/
def add (refs : References O) (ref : O) : References O × ℤ :=
  let (table, idx) := refs.table.addFree ref
  (⟨table, (idx, ref) :: refs.live⟩, idx)

/-- What `deleteLocalRef` and `deleteGlobalRef` do with a handle other than zero: it is the object
of the handle that is looked for in the table. -/
def delete [DecidableEq O] (refs : References O) (order : List ℤ) (idx : ℤ) : References O :=
  ⟨(refs.table.remove order (refs.resolve idx)).1, refs.live.filter fun e => e.1 ≠ idx⟩

/-- The table holds exactly the live handles, and all of them are in range. -/
structure Synced (refs : References O) : Prop where
  pos : 0 < refs.table.start
  live : refs.live = refs.table.tables
  inRange : ∀ e ∈ refs.table.tables, refs.table.inRange e.1 = true

variable {refs : References O} {idx key : ℤ} {object : O} {order : List ℤ}

theorem resolve_eq_some_iff (hpos : 0 < refs.table.start) :
    refs.resolve idx = some object ↔
      refs.table.inRange idx = true ∧ refs.table.get idx = some object := by
  rw [resolve]
  split_ifs with hzero hin
  · have hout : ¬refs.table.inRange idx = true := by
      rw [JReferencTable.inRange_iff]
      omega
    simp [hout]
  · simp [hin]
  · simp [hin]

theorem synced_create {start maxEntries : ℤ} (hpos : 0 < start) :
    Synced (create start maxEntries : References O) :=
  ⟨hpos, rfl, fun _ he => absurd he List.not_mem_nil⟩

theorem Synced.get_of_mem (h : Synced refs) {e : ℤ × O} (he : e ∈ refs.live) :
    refs.table.inRange e.1 = true ∧ refs.table.get e.1 = some e.2 := by
  rw [h.live] at he
  exact ⟨h.inRange e he, JReferencTable.get_eq_some_iff.2 he⟩

theorem Synced.add (h : Synced refs) (hroom : refs.table.inRange refs.table.freeIndex = true)
    (object : O) : Synced (refs.add object).1 where
  pos := h.pos
  live := congrArg ((refs.table.freeIndex, object) :: ·) h.live
  inRange := by
    intro e he
    rcases List.mem_cons.1 he with rfl | hmem
    · exact hroom
    · exact h.inRange e hmem

/-- The indices in range are used up before one outside is found. -/
theorem Synced.freeIndex_of_full (h : Synced refs)
    (hfull : ¬refs.table.inRange refs.table.freeIndex = true) (hsize : 0 ≤ refs.table.size) :
    refs.table.freeIndex = refs.table.start + refs.table.size + 1 := by
  have hle : refs.table.start ≤ refs.table.freeIndex := le_firstFree _ _
  rw [JReferencTable.inRange_iff] at hfull
  -- Otherwise the index after the range would be in use, and the entries are all in range.
  by_contra hne
  have hlt : refs.table.start + refs.table.size + 1 < refs.table.freeIndex := by omega
  obtain ⟨object, hget⟩ := JReferencTable.mem_keys_iff.1
    (mem_of_lt_firstFree (by omega : refs.table.start ≤ _) hlt)
  have hin := h.inRange _ (JReferencTable.get_eq_some_iff.1 hget)
  rw [JReferencTable.inRange_iff] at hin
  omega

/-- No handle is below the first index of the table. -/
def LiveFromStart (refs : References O) : Prop := ∀ e ∈ refs.live, refs.table.start ≤ e.1

theorem liveFromStart_create {start maxEntries : ℤ} :
    LiveFromStart (create start maxEntries : References O) :=
  fun _ he => absurd he List.not_mem_nil

theorem LiveFromStart.add (h : LiveFromStart refs) (object : O) :
    LiveFromStart (refs.add object).1 := by
  intro e he
  rcases List.mem_cons.1 he with rfl | hmem
  · exact le_firstFree _ _
  · exact h e hmem

variable [DecidableEq O]

@[simp]
theorem start_delete : (refs.delete order idx).table.start = refs.table.start :=
  JReferencTable.start_remove _

@[simp]
theorem size_delete : (refs.delete order idx).table.size = refs.table.size :=
  JReferencTable.size_remove _

theorem LiveFromStart.delete (h : LiveFromStart refs) : LiveFromStart (refs.delete order idx) := by
  intro e he
  rw [start_delete]
  exact h e (List.mem_of_mem_filter he)

/-- A deletion makes no new entry. -/
theorem get_of_get_delete (h : (refs.delete order idx).table.get key = some object) :
    refs.table.get key = some object := by
  rw [delete, JReferencTable.remove] at h
  split at h
  · rw [JReferencTable.get_erase] at h
    split_ifs at h
    exact h
  · exact h

theorem inRange_delete : (refs.delete order idx).table.inRange key = refs.table.inRange key := by
  rw [JReferencTable.inRange, start_delete, size_delete, JReferencTable.inRange]

/-- A deletion of the first handle of an object removes that handle. -/
theorem delete_of_isFirst (hpos : 0 < refs.table.start) (hget : refs.resolve idx = some object)
    (hfirst : refs.table.IsFirst order idx) :
    (refs.delete order idx).table = refs.table.erase idx := by
  have hfind := hfirst object ((resolve_eq_some_iff hpos).1 hget).2
  simp only [delete, JReferencTable.remove, hget, hfind]

/-- A deletion of any other handle removes the first one instead. -/
theorem delete_of_not_isFirst (hpos : 0 < refs.table.start) (horder : order.Perm refs.table.keys)
    (hin : refs.table.inRange idx = true) (hfirst : ¬refs.table.IsFirst order idx) :
    ∃ key object, key ≠ idx ∧ refs.table.get key = some object ∧
      refs.table.get idx = some object ∧ (refs.delete order idx).table = refs.table.erase key := by
  rw [JReferencTable.IsFirst] at hfirst
  push Not at hfirst
  obtain ⟨object, hget, hne⟩ := hfirst
  obtain ⟨key, hkey, hremove, hfind⟩ := JReferencTable.exists_remove horder hget
  refine ⟨key, object, ?_, hkey, hget, ?_⟩
  · rintro rfl
    exact hne hfind
  · rw [delete, (resolve_eq_some_iff hpos).2 ⟨hin, hget⟩]
    exact hremove

theorem delete_of_none (horder : order.Perm refs.table.keys) (hget : refs.resolve idx = none) :
    (refs.delete order idx).table = refs.table := by
  rw [delete, hget]
  exact JReferencTable.remove_none horder

/-- Deleting the first handle of an object, or a handle that is free, changes nothing else. -/
theorem get_delete_of_isFirst (hpos : 0 < refs.table.start) (horder : order.Perm refs.table.keys)
    (hin : refs.table.inRange idx = true) (hfirst : refs.table.IsFirst order idx) :
    (refs.delete order idx).table.get key = if key = idx then none else refs.table.get key := by
  rcases hget : refs.resolve idx with _ | object
  · have hfree : refs.table.get idx = none := by
      have hne : idx ≠ 0 := by
        rw [JReferencTable.inRange_iff] at hin
        omega
      rwa [resolve, if_neg hne, if_pos hin] at hget
    rw [delete_of_none horder hget]
    split_ifs with heq
    · rw [heq, hfree]
    · rfl
  · rw [delete_of_isFirst hpos hget hfirst, JReferencTable.get_erase]

theorem Synced.delete (h : Synced refs) (horder : order.Perm refs.table.keys)
    (hfirst : refs.table.inRange idx = true → refs.table.IsFirst order idx) :
    Synced (refs.delete order idx) := by
  rcases hget : refs.resolve idx with _ | object
  · -- A handle that does not resolve is not live.
    have htable := delete_of_none horder hget
    have hlive : (refs.delete order idx).live = refs.live := by
      refine List.filter_eq_self.2 fun e he => decide_eq_true ?_
      rintro rfl
      rw [(resolve_eq_some_iff h.pos).2 (h.get_of_mem he)] at hget
      cases hget
    exact ⟨htable ▸ h.pos, by rw [hlive, htable, h.live], htable ▸ h.inRange⟩
  · -- The table and the history lose the same handle.
    have hin := ((resolve_eq_some_iff h.pos).1 hget).1
    have htable := delete_of_isFirst h.pos hget (hfirst hin)
    refine ⟨htable ▸ h.pos, ?_, ?_⟩
    · rw [htable]
      exact congrArg (List.filter fun e => e.1 ≠ idx) h.live
    · intro e he
      rw [htable] at he ⊢
      exact h.inRange e (List.mem_of_mem_filter he)

/-- After a deletion of any other handle the first one is live and no longer there. -/
theorem Synced.exists_lost (h : Synced refs) (horder : order.Perm refs.table.keys)
    (hin : refs.table.inRange idx = true) (hfirst : ¬refs.table.IsFirst order idx) :
    ∃ key object, (key, object) ∈ (refs.delete order idx).live ∧
      refs.table.inRange key = true ∧ (refs.delete order idx).table.get key = none := by
  obtain ⟨key, object, hne, hkey, -, htable⟩ := delete_of_not_isFirst h.pos horder hin hfirst
  have hmem := JReferencTable.get_eq_some_iff.1 hkey
  refine ⟨key, object, List.mem_filter.2 ⟨?_, decide_eq_true hne⟩, h.inRange _ hmem, ?_⟩
  · rw [h.live]
    exact hmem
  · rw [htable, JReferencTable.get_erase, if_pos rfl]

end References

end Tank
