import Mathlib.Data.List.Basic
import Tank.ToMathlib.EState

/-!
# Code that reads a list

Code with a position in a list as its state. What such a run returns is said by what the list
spells at the position: `Spells l pos bs` holds if `l` goes on with `bs` there.

* `spells_append`, `spells_flatten_cons`: a spelling is taken apart at the pieces it consists of;
* `bind_eq_ok_iff_of_reads`: a sequence whose first part returns what is spelled at the position;
* `throwIf`: a check in between, which moves nothing.
-/

namespace ToMathlib

variable {ε α β γ : Type}

/-- From the position on, `l` goes on with `bs`. -/
def Spells (l : List β) (pos : ℕ) (bs : List β) : Prop := bs <+: l.drop pos

variable {l bs cs : List β} {pos : ℕ}

theorem spells_append :
    Spells l pos (bs ++ cs) ↔ Spells l pos bs ∧ Spells l (pos + bs.length) cs := by
  have hdrop : l.drop (pos + bs.length) = (l.drop pos).drop bs.length := by
    rw [List.drop_drop]
  simp only [Spells, hdrop]
  constructor
  · rintro ⟨rest, hrest⟩
    rw [← hrest]
    refine ⟨⟨cs ++ rest, (List.append_assoc ..).symm⟩, ?_⟩
    rw [List.append_assoc, List.drop_left]
    exact List.prefix_append cs rest
  · rintro ⟨⟨rest, hrest⟩, hcs⟩
    rw [← hrest, List.drop_left] at hcs
    rw [← hrest]
    exact (List.prefix_append_right_inj bs).2 hcs

theorem spells_cons {b : β} :
    Spells l pos (b :: bs) ↔ Spells l pos [b] ∧ Spells l (pos + 1) bs := by
  rw [← List.singleton_append, spells_append, List.length_singleton]

theorem spells_singleton {b : β} : Spells l pos [b] ↔ l[pos]? = some b := by
  rw [Spells, ← List.head?_drop]
  cases l.drop pos with
  | nil => simp
  | cons c rest => simp [List.cons_prefix_cons, eq_comm]

/-- What a list spells at a position it spells in only one way of a given length. -/
theorem Spells.eq_of_length (h : Spells l pos bs) (h' : Spells l pos cs)
    (hlen : bs.length = cs.length) : bs = cs :=
  (List.prefix_of_prefix_length_le h h' (Nat.le_of_eq hlen)).eq_of_length hlen

theorem Spells.length_le (h : Spells l pos bs) (hne : bs ≠ []) : pos + bs.length ≤ l.length := by
  have hle := List.IsPrefix.length_le h
  have hpos := List.length_pos_of_ne_nil hne
  rw [List.length_drop] at hle
  omega

/-- Where enough of the list is left, it spells something of the length. -/
theorem exists_spells {n : ℕ} (h : pos + n ≤ l.length) : ∃ bs, bs.length = n ∧ Spells l pos bs := by
  refine ⟨(l.drop pos).take n, ?_, List.take_prefix n _⟩
  rw [List.length_take, List.length_drop]
  omega

variable {m : EStateM ε ℕ α} {f : α → EStateM ε ℕ γ} {n : ℕ}

/-- A sequence whose first part takes `n` elements and returns what `P` says of them. -/
theorem bind_eq_ok_iff_of_reads {P : ℕ → α → Prop}
    (hm : ∀ pos a pos', m.run pos = .ok a pos' ↔ P pos a ∧ pos' = pos + n) {c : γ} {pos' : ℕ} :
    (m >>= f).run pos = .ok c pos' ↔ ∃ a, P pos a ∧ (f a).run (pos + n) = .ok c pos' := by
  rw [bind_eq_ok_iff]
  constructor
  · rintro ⟨a, pos₁, hrun, hf⟩
    obtain ⟨hP, rfl⟩ := (hm pos a pos₁).1 hrun
    exact ⟨a, hP, hf⟩
  · rintro ⟨a, hP, hf⟩
    exact ⟨a, pos + n, (hm pos a _).2 ⟨hP, rfl⟩, hf⟩

theorem outcome_eq_ok_iff {σ : Type} {r : EStateM.Result ε σ α} {a : α} :
    outcome r = .ok a ↔ ∃ s, r = .ok a s := by
  cases r with
  | ok b s => simp [outcome]
  | error e s => simp [outcome]

theorem error_eq_ok_iff {e : ε} {a : α} {p : Prop} (h : ¬p) :
    (.error e : Except ε α) = .ok a ↔ p := by
  refine iff_of_false ?_ h
  rintro ⟨⟩

/-- A pure sequence succeeds only if its first part does. -/
theorem except_bind_eq_ok_iff {x : Except ε α} {f : α → Except ε γ} {c : γ} :
    (x >>= f) = .ok c ↔ ∃ a, x = .ok a ∧ f a = .ok c := by
  cases x with
  | error e => exact error_eq_ok_iff fun h => by obtain ⟨a, ha, -⟩ := h; cases ha
  | ok a =>
    constructor
    · intro h
      exact ⟨a, rfl, h⟩
    · rintro ⟨a', ha', h⟩
      cases ha'
      exact h

/-- Throw under a condition. -/
def throwIf {σ : Type} (cond : Prop) [Decidable cond] (e : ε) : EStateM ε σ Unit :=
  if cond then throw e else pure ()

theorem throwIf_bind_iff {cond : Prop} [Decidable cond] {e : ε} {f : Unit → EStateM ε ℕ γ} {c : γ}
    {pos' : ℕ} :
    (throwIf cond e >>= f).run pos = .ok c pos' ↔ ¬cond ∧ (f ()).run pos = .ok c pos' := by
  unfold throwIf
  by_cases hcond : cond
  · rw [if_pos hcond]
    exact iff_of_false nofun fun h => h.1 hcond
  · rw [if_neg hcond]
    exact (and_iff_right hcond).symm

end ToMathlib
