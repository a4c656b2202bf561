import Tank.ToMathlib.Trace

/-!
# Runs seen by a part of a machine

A machine has a part that is a machine of its own, and `observe` says which inputs of a run go to
the part. If the other inputs leave the part alone, the part runs as if it were alone: it goes
through the observed inputs, in the same order and from the same states.

* `project_foldl`: the part at the end of a run;
* `project_trace`: the part at every step of a run.
-/

namespace ToMathlib

variable {σ τ ρ α β : Type}

/-- The inputs of a run that go to the part. -/
def observed (step : σ → α → σ) (observe : σ × α → Option β) (s : σ) (as : List α) : List β :=
  (trace step s as).filterMap observe

/-- An observed input does to the part `p` of the machine what it does to `q` of the machine alone,
and no other input changes it. -/
structure Projects (step : σ → α → σ) (observe : σ × α → Option β) (p : σ → ρ)
    (step' : τ → β → τ) (q : τ → ρ) : Prop where
  observed : ∀ s a b t, observe (s, a) = some b → p s = q t → p (step s a) = q (step' t b)
  hidden : ∀ s a, observe (s, a) = none → p (step s a) = p s

variable {step : σ → α → σ} {observe : σ × α → Option β} {p : σ → ρ} {step' : τ → β → τ} {q : τ → ρ}
  {s : σ} {t : τ}

theorem observed_cons_some {a : α} {b : β} (h : observe (s, a) = some b) (as : List α) :
    observed step observe s (a :: as) = b :: observed step observe (step s a) as :=
  List.filterMap_cons_some h

theorem observed_cons_none {a : α} (h : observe (s, a) = none) (as : List α) :
    observed step observe s (a :: as) = observed step observe (step s a) as :=
  List.filterMap_cons_none h

theorem project_foldl (h : Projects step observe p step' q) (hst : p s = q t) (as : List α) :
    p (as.foldl step s) = q ((observed step observe s as).foldl step' t) := by
  induction as generalizing s t with
  | nil => exact hst
  | cons a as ih =>
    cases hobs : observe (s, a) with
    | some b =>
      rw [observed_cons_some hobs]
      exact ih (h.observed s a b t hobs hst)
    | none =>
      rw [observed_cons_none hobs]
      exact ih ((h.hidden s a hobs).trans hst)

theorem project_trace (h : Projects step observe p step' q) (hst : p s = q t) (as : List α) :
    (trace step s as).filterMap (fun c => (observe c).map fun b => (p c.1, b)) =
      (trace step' t (observed step observe s as)).map fun c => (q c.1, c.2) := by
  induction as generalizing s t with
  | nil => rfl
  | cons a as ih =>
    cases hobs : observe (s, a) with
    | some b =>
      rw [observed_cons_some hobs, trace, trace, List.map_cons,
        List.filterMap_cons_some (b := (p s, b)) (by rw [hobs]; rfl), hst,
        ih (h.observed s a b t hobs hst)]
    | none =>
      rw [observed_cons_none hobs, trace, List.filterMap_cons_none (by rw [hobs]; rfl),
        ih ((h.hidden s a hobs).trans hst)]

end ToMathlib
