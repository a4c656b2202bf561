import Mathlib.Data.List.Basic

/-!
# Prefix codes

A code assigns a word to every letter. In a prefix code no word is the beginning of another, so
that a letter can be split off a sequence in one way only.

* `PrefixCode.append_inj`: the letter and the rest after it;
* `PrefixCode.flatMap_inj`: a sequence of letters in front of a mark that begins no word;
* `append_mark_inj`: a word in front of a mark that does not occur in it.
-/

namespace ToMathlib

variable {α β : Type}

/-- If two sequences are equal, then so are the letters they begin with. -/
def PrefixCode (code : α → List β) : Prop :=
  ∀ a b s t, code a ++ s = code b ++ t → a = b

variable {code : α → List β} {a b : α} {as bs : List α} {x y s t : List β} {mark : β}

theorem PrefixCode.append_inj (h : PrefixCode code) (heq : code a ++ s = code b ++ t) :
    a = b ∧ s = t := by
  obtain rfl := h a b s t heq
  exact ⟨rfl, List.append_cancel_left heq⟩

/-- No word begins with the mark, and no word is empty. -/
def Avoids (code : α → List β) (mark : β) : Prop :=
  ∀ a, ∃ x xs, code a = x :: xs ∧ x ≠ mark

theorem Avoids.append_ne (h : Avoids code mark) : code a ++ s ≠ mark :: t := by
  obtain ⟨x, xs, hcode, hx⟩ := h a
  rw [hcode]
  intro heq
  exact hx (List.cons.inj heq).1

/-- Letters in front of a mark can be read off one by one. -/
theorem PrefixCode.flatMap_inj (h : PrefixCode code) (hmark : Avoids code mark)
    (heq : as.flatMap code ++ mark :: s = bs.flatMap code ++ mark :: t) : as = bs ∧ s = t := by
  induction as generalizing bs with
  | nil =>
    rcases bs with _ | ⟨b, bs⟩
    · exact ⟨rfl, (List.cons.inj heq).2⟩
    · rw [List.flatMap_cons, List.append_assoc] at heq
      exact absurd heq.symm hmark.append_ne
  | cons a as ih =>
    rcases bs with _ | ⟨b, bs⟩
    · rw [List.flatMap_cons, List.append_assoc] at heq
      exact absurd heq hmark.append_ne
    · rw [List.flatMap_cons, List.flatMap_cons, List.append_assoc, List.append_assoc] at heq
      obtain ⟨rfl, hrest⟩ := h.append_inj heq
      obtain ⟨rfl, hst⟩ := ih hrest
      exact ⟨rfl, hst⟩

theorem append_mark_inj (hx : mark ∉ x) (hy : mark ∉ y)
    (heq : x ++ mark :: s = y ++ mark :: t) : x = y ∧ s = t := by
  induction x generalizing y with
  | nil =>
    rcases y with _ | ⟨c, y⟩
    · exact ⟨rfl, (List.cons.inj heq).2⟩
    · exact absurd ((List.cons.inj heq).1 ▸ List.mem_cons_self) hy
  | cons c x ih =>
    rcases y with _ | ⟨d, y⟩
    · exact absurd ((List.cons.inj heq).1 ▸ List.mem_cons_self) hx
    · obtain ⟨rfl, hrest⟩ := List.cons.inj heq
      obtain ⟨rfl, hst⟩ := ih (fun h => hx (List.mem_cons_of_mem _ h))
        (fun h => hy (List.mem_cons_of_mem _ h)) hrest
      exact ⟨rfl, hst⟩

end ToMathlib
