import Mathlib.Data.List.Nodup

/-!
# Association lists

`List.lookup` as membership: what is found is in the list, and if no key occurs twice every entry is
found. `lookup_filter_ne` looks up a key after another one was taken out, `lookup_cons_filter_ne`
after another one was given a value.
-/

namespace ToMathlib

variable {α β : Type} [BEq α] [LawfulBEq α] {l : List (α × β)} {k : α} {b : β}

theorem mem_of_lookup (h : l.lookup k = some b) : (k, b) ∈ l := by
  obtain ⟨before, after, rfl, -⟩ := List.lookup_eq_some_iff.1 h
  exact List.mem_append_right _ List.mem_cons_self

theorem lookup_of_mem (hnodup : (l.map Prod.fst).Nodup) (h : (k, b) ∈ l) :
    l.lookup k = some b := by
  obtain ⟨before, after, rfl⟩ := List.append_of_mem h
  refine List.lookup_eq_some_iff.2 ⟨before, after, rfl, fun e he => ?_⟩
  rw [List.map_append, List.map_cons, List.nodup_append] at hnodup
  have hne := hnodup.2.2 e.1 (List.mem_map_of_mem he) k List.mem_cons_self
  exact bne_iff_ne.2 hne.symm

theorem lookup_eq_some_iff_mem (hnodup : (l.map Prod.fst).Nodup) :
    l.lookup k = some b ↔ (k, b) ∈ l :=
  ⟨mem_of_lookup, lookup_of_mem hnodup⟩

omit [BEq α] [LawfulBEq α] in
theorem nodup_filter_fst (hnodup : (l.map Prod.fst).Nodup) (p : α × β → Bool) :
    ((l.filter p).map Prod.fst).Nodup :=
  (List.filter_sublist.map Prod.fst).nodup hnodup

theorem lookup_filter_ne [DecidableEq α] (l : List (α × β)) (key k : α) :
    (l.filter fun e => e.1 ≠ key).lookup k = if k = key then none else l.lookup k := by
  induction l with
  | nil => simp
  | cons e l ih =>
    obtain ⟨k', b⟩ := e
    by_cases hk : k = k'
    · subst hk
      by_cases hkey : k = key
      · rw [List.filter_cons_of_neg (by simp [hkey]), ih, if_pos hkey, if_pos hkey]
      · rw [List.filter_cons_of_pos (by simp [hkey]), List.lookup_cons_self, if_neg hkey,
          List.lookup_cons_self]
    · have hbeq : (k == k') = false := beq_eq_false_iff_ne.2 hk
      rw [List.filter_cons]
      split <;> simp only [List.lookup_cons, hbeq, ih]

/-! ## One entry for a key -/

omit [BEq α] [LawfulBEq α] in
theorem nodup_cons_filter_ne [DecidableEq α] (hnodup : (l.map Prod.fst).Nodup) (k : α) (b : β) :
    (((k, b) :: l.filter fun e => e.1 ≠ k).map Prod.fst).Nodup := by
  rw [List.map_cons, List.nodup_cons]
  refine ⟨fun hmem => ?_, nodup_filter_fst hnodup _⟩
  obtain ⟨e, he, heq⟩ := List.mem_map.1 hmem
  exact of_decide_eq_true (List.mem_filter.1 he).2 heq

theorem lookup_cons_filter_ne [DecidableEq α] (l : List (α × β)) (key k : α) (b : β) :
    ((key, b) :: l.filter fun e => e.1 ≠ key).lookup k =
      if k = key then some b else l.lookup k := by
  by_cases hk : k = key
  · rw [hk, List.lookup_cons_self, if_pos rfl]
  · have hbeq : (k == key) = false := beq_eq_false_iff_ne.2 hk
    simp only [List.lookup_cons, hbeq, lookup_filter_ne, if_neg hk]

omit [BEq α] [LawfulBEq α] in
theorem filter_ne_eq_self [DecidableEq α] (h : k ∉ l.map Prod.fst) :
    (l.filter fun e => e.1 ≠ k) = l := by
  refine List.filter_eq_self.2 fun e he => decide_eq_true ?_
  rintro rfl
  exact h (List.mem_map_of_mem he)

end ToMathlib
