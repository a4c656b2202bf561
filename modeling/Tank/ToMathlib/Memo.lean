import Mathlib.Logic.Function.Basic
import Tank.ToMathlib.Zoom

/-!
# Memoised values

Code that computes values on demand and keeps them in cells. The cells are part of the state, next
to a state that the computations themselves use, for example a position that all of them share. A
computation may ask for other cells, and one that throws leaves its cell empty.

`Denotes den m r`: started with cells that hold what `den` says, `m` has the outcome `r` and leaves
the cells so. The outcome then depends neither on which cells are filled nor on the state that the
computations share. The rules follow the code: `Denotes.pure`, `Denotes.throw`, `Denotes.bind`,
`Denotes.getValue` for a cell and `Denotes.onBase` for code whose outcome is the same in every
shared state. `results_eq` is about a whole session of calls.
-/

namespace ToMathlib

variable {ε σ κ α β : Type} {V : κ → Type}

/-- A state with cells. -/
structure Memo (σ κ : Type) (V : κ → Type) where
  base : σ
  cells : (k : κ) → Option (V k)

namespace Memo

/-- No cell is filled. -/
def fresh (s : σ) : Memo σ κ V := ⟨s, fun _ => none⟩

/-- The value of a cell, which is computed if the cell is empty. -/
def getValue [DecidableEq κ] (k : κ) (compute : EStateM ε (Memo σ κ V) (V k)) :
    EStateM ε (Memo σ κ V) (V k) := fun s =>
  match s.cells k with
  | some v => .ok v s
  | none =>
    match compute.run s with
    | .ok v s' => .ok v { s' with cells := Function.update s'.cells k (some v) }
    | .error e s' => .error e s'

/-- Code that uses only the shared state. -/
def onBase (m : EStateM ε σ α) : EStateM ε (Memo σ κ V) α :=
  zoom Memo.base (fun base s => { s with base }) m

section GetValue

variable [DecidableEq κ] {k : κ} {compute : EStateM ε (Memo σ κ V) (V k)} {v : V k}
  {s s' : Memo σ κ V} {e : ε}

theorem getValue_of_some (h : s.cells k = some v) : (getValue k compute).run s = .ok v s := by
  simp only [EStateM.run, getValue, h]

theorem getValue_of_ok (h : s.cells k = none) (hrun : compute.run s = .ok v s') :
    (getValue k compute).run s =
      .ok v { s' with cells := Function.update s'.cells k (some v) } := by
  simp only [EStateM.run] at hrun
  simp only [EStateM.run, getValue, h, hrun]

theorem getValue_of_error (h : s.cells k = none) (hrun : compute.run s = .error e s') :
    (getValue k compute).run s = .error e s' := by
  simp only [EStateM.run] at hrun
  simp only [EStateM.run, getValue, h, hrun]

end GetValue

/-- Every filled cell holds what `den` says. -/
def Sound (den : (k : κ) → Except ε (V k)) (s : Memo σ κ V) : Prop :=
  ∀ k v, s.cells k = some v → den k = .ok v

variable {den : (k : κ) → Except ε (V k)} {m : EStateM ε (Memo σ κ V) α}
  {f : α → EStateM ε (Memo σ κ V) β} {r : Except ε α} {g : α → Except ε β}

theorem sound_fresh (s : σ) : Sound den (fresh s : Memo σ κ V) := fun _ _ h => by cases h

theorem sound_of_cells {s s' : Memo σ κ V} (hs : Sound den s) (h : s'.cells = s.cells) :
    Sound den s' := by
  intro k v hv
  rw [h] at hv
  exact hs k v hv

/-- Whatever is in the cells, as long as it is right, `m` has the outcome `r`, and what it puts into
the cells is right. -/
def Denotes (den : (k : κ) → Except ε (V k)) (m : EStateM ε (Memo σ κ V) α) (r : Except ε α) :
    Prop :=
  ∀ s, Sound den s → outcome (m.run s) = r ∧ Sound den (finalState (m.run s))

namespace Denotes

theorem pure (a : α) : Denotes den (Pure.pure a : EStateM ε (Memo σ κ V) α) (.ok a) :=
  fun _ hs => ⟨rfl, hs⟩

theorem throw (e : ε) : Denotes den (MonadExcept.throw e : EStateM ε (Memo σ κ V) α) (.error e) :=
  fun _ hs => ⟨rfl, hs⟩

/-- The rest of a sequence is only asked about for the value that its first part gives. -/
theorem bind (hm : Denotes den m r) (hf : ∀ a, r = .ok a → Denotes den (f a) (g a)) :
    Denotes den (m >>= f) (r >>= g) := by
  intro s hs
  obtain ⟨hr, hs'⟩ := hm s hs
  cases hrun : m.run s with
  | ok a s' =>
    rw [hrun] at hr hs'
    rw [bind_of_ok hrun, ← hr]
    exact hf a hr.symm s' hs'
  | error e s' =>
    rw [hrun] at hr hs'
    rw [bind_of_error hrun, ← hr]
    exact ⟨rfl, hs'⟩

theorem getValue [DecidableEq κ] {k : κ} {compute : EStateM ε (Memo σ κ V) (V k)}
    (h : Denotes den compute (den k)) : Denotes den (Memo.getValue k compute) (den k) := by
  intro s hs
  cases hcell : s.cells k with
  | some v =>
    rw [getValue_of_some hcell]
    exact ⟨(hs k v hcell).symm, hs⟩
  | none =>
    obtain ⟨hr, hs'⟩ := h s hs
    cases hrun : compute.run s with
    | ok v s' =>
      rw [hrun] at hr hs'
      rw [getValue_of_ok hcell hrun]
      refine ⟨hr, fun k' v' hv' => ?_⟩
      -- The only new value is the one that was computed for the cell.
      by_cases hk : k' = k
      · subst hk
        have hv : v' = v := by simpa [finalState] using hv'.symm
        rw [hv, ← hr]
        rfl
      · exact hs' k' v' (by simpa [finalState, hk] using hv')
    | error e s' =>
      rw [hrun] at hr hs'
      rw [getValue_of_error hcell hrun]
      exact ⟨hr, hs'⟩

/-- Code over the shared state whose outcome does not depend on where it starts. -/
theorem onBase {m : EStateM ε σ α} (h : ∀ s, outcome (m.run s) = r) :
    Denotes den (Memo.onBase m : EStateM ε (Memo σ κ V) α) r := by
  intro s hs
  rw [Memo.onBase, outcome_zoom, finalState_zoom]
  exact ⟨h s.base, sound_of_cells hs rfl⟩

end Denotes

/-! ## Sessions -/

variable {ι : Type} {R : ι → Type}

/-- The outcomes of calls that are made one after the other, also after one that throws. -/
def results (code : (i : ι) → EStateM ε (Memo σ κ V) (R i)) :
    List ι → Memo σ κ V → List ((i : ι) × Except ε (R i))
  | [], _ => []
  | i :: calls, s =>
    ⟨i, outcome ((code i).run s)⟩ :: results code calls (finalState ((code i).run s))

/-- In every session each call has the outcome it denotes. -/
theorem results_eq {code : (i : ι) → EStateM ε (Memo σ κ V) (R i)} {r : (i : ι) → Except ε (R i)}
    (h : ∀ i, Denotes den (code i) (r i)) (calls : List ι) {s : Memo σ κ V} (hs : Sound den s) :
    results code calls s = calls.map fun i => ⟨i, r i⟩ := by
  induction calls generalizing s with
  | nil => rfl
  | cons i calls ih =>
    obtain ⟨hr, hs'⟩ := h i s hs
    rw [results, hr, ih hs', List.map_cons]

end Memo

end ToMathlib
