import Mathlib.Data.List.Basic

/-!
# Traces of a state machine

`trace step s as` lists the inputs of a run with the states they meet. A property of every step of a
run is one of all members of its trace.

* `forall_trace`: an invariant holds at every step;
* `forall_trace_iff`: two properties of steps that are equivalent under an invariant, which the
  second one keeps, hold along the same runs;
* `foldl_invariant`: an invariant holds at the end.
-/

namespace ToMathlib

variable {σ α : Type}

/-- The inputs of a run, each with the state it meets. -/
def trace (step : σ → α → σ) : σ → List α → List (σ × α)
  | _, [] => []
  | s, a :: as => (s, a) :: trace step (step s a) as

variable {step : σ → α → σ} {I : σ → Prop} {H P Q : σ → α → Prop} {s : σ} {a : α} {as : List α}

theorem forall_trace_cons : (∀ c ∈ trace step s (a :: as), P c.1 c.2) ↔
    P s a ∧ ∀ c ∈ trace step (step s a) as, P c.1 c.2 := by
  rw [trace, List.forall_mem_cons]

theorem mem_of_mem_trace {c : σ × α} (hc : c ∈ trace step s as) : c.2 ∈ as := by
  induction as generalizing s with
  | nil => simp [trace] at hc
  | cons a as ih =>
    rcases List.mem_cons.1 hc with rfl | hc'
    · exact List.mem_cons_self
    · exact List.mem_cons_of_mem _ (ih hc')

theorem forall_trace (hinv : ∀ s a, I s → H s a → I (step s a)) (hs : I s)
    (hH : ∀ c ∈ trace step s as, H c.1 c.2) : ∀ c ∈ trace step s as, I c.1 := by
  induction as generalizing s with
  | nil => simp [trace]
  | cons a as ih =>
    obtain ⟨hhead, htail⟩ := forall_trace_cons.1 hH
    exact forall_trace_cons (P := fun s _ => I s) |>.2 ⟨hs, ih (hinv s a hs hhead) htail⟩

theorem forall_trace_iff (hstep : ∀ s a, I s → H s a → (P s a ↔ Q s a))
    (hinv : ∀ s a, I s → H s a → Q s a → I (step s a)) (hs : I s)
    (hH : ∀ c ∈ trace step s as, H c.1 c.2) :
    (∀ c ∈ trace step s as, P c.1 c.2) ↔ ∀ c ∈ trace step s as, Q c.1 c.2 := by
  induction as generalizing s with
  | nil => simp [trace]
  | cons a as ih =>
    obtain ⟨hhead, htail⟩ := forall_trace_cons.1 hH
    rw [forall_trace_cons, forall_trace_cons, hstep s a hs hhead]
    exact and_congr_right fun hQ => ih (hinv s a hs hhead hQ) htail

theorem foldl_invariant (hinv : ∀ s a, I s → H s a → I (step s a)) (hs : I s)
    (hH : ∀ c ∈ trace step s as, H c.1 c.2) : I (as.foldl step s) := by
  induction as generalizing s with
  | nil => exact hs
  | cons a as ih =>
    obtain ⟨hhead, htail⟩ := forall_trace_cons.1 hH
    exact ih (hinv s a hs hhead) htail

end ToMathlib
