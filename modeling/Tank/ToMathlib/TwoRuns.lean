import Tank.ToMathlib.EState

/-!
# Two runs of stateful code

A property of two runs that start in related states: both return, with related results, or both
throw the same exception, and the states in which they end are related as well. The two runs may be
of different code over different states.

* `SameEnd V R` relates the ends of two runs, `V` the states and `R` the results;
* `Alike V R m m'`: the runs of `m` and `m'` from states related by `V` have the same end. The rules
  `Alike.pure`, `Alike.throw` and `Alike.bind` follow the code.
-/

namespace ToMathlib

variable {ε σ τ α β γ δ : Type}

/-- The two runs end alike. -/
inductive SameEnd (V : σ → τ → Prop) (R : α → β → Prop) :
    EStateM.Result ε σ α → EStateM.Result ε τ β → Prop where
  | ok {a : α} {b : β} {s : σ} {t : τ} (hresult : R a b) (hstate : V s t) :
    SameEnd V R (.ok a s) (.ok b t)
  | error {e : ε} {s : σ} {t : τ} (hstate : V s t) : SameEnd V R (.error e s) (.error e t)

/-- Runs from related states end alike. -/
def Alike (V : σ → τ → Prop) (R : α → β → Prop) (m : EStateM ε σ α) (m' : EStateM ε τ β) : Prop :=
  ∀ s t, V s t → SameEnd V R (m.run s) (m'.run t)

variable {V : σ → τ → Prop} {R : α → β → Prop} {S : γ → δ → Prop}

/-- A run whose states are the image of those of another one ends in the image of its last state. -/
theorem SameEnd.eq_ok {f : σ → τ} {a : α} {s : σ} {r : EStateM.Result ε τ α}
    (h : SameEnd (fun s t => f s = t) Eq (.ok a s) r) : r = .ok a (f s) := by
  cases h with
  | ok hresult hstate => rw [hresult, hstate]

theorem SameEnd.eq_error {f : σ → τ} {e : ε} {s : σ} {r : EStateM.Result ε τ α}
    (h : SameEnd (fun s t => f s = t) Eq (.error e s) r) : r = .error e (f s) := by
  cases h with
  | error hstate => rw [hstate]

theorem SameEnd.finalState {r : EStateM.Result ε σ α} {r' : EStateM.Result ε τ β}
    (h : SameEnd V R r r') : V (ToMathlib.finalState r) (ToMathlib.finalState r') := by
  cases h with
  | ok _ hstate => exact hstate
  | error hstate => exact hstate

theorem Alike.pure {a : α} {b : β} (h : R a b) :
    Alike V R (Pure.pure a : EStateM ε σ α) (Pure.pure b : EStateM ε τ β) :=
  fun _ _ hV => .ok h hV

theorem Alike.throw (e : ε) :
    Alike V R (MonadExcept.throw e : EStateM ε σ α) (MonadExcept.throw e : EStateM ε τ β) :=
  fun _ _ hV => .error hV

variable {m : EStateM ε σ α} {m' : EStateM ε τ β} {f : α → EStateM ε σ γ} {f' : β → EStateM ε τ δ}

/-- A rule for states that are related in another way from the second part on. -/
theorem SameEnd.bind_of_imp {W : σ → τ → Prop} {s : σ} {t : τ}
    (hm : SameEnd V R (m.run s) (m'.run t)) (hW : ∀ s t, V s t → W s t)
    (hf : ∀ a b s t, R a b → V s t → SameEnd W S ((f a).run s) ((f' b).run t)) :
    SameEnd W S ((m >>= f).run s) ((m' >>= f').run t) := by
  generalize hrun : m.run s = r at hm
  generalize hrun' : m'.run t = r' at hm
  cases hm with
  | ok hR hV =>
    rw [bind_of_ok hrun, bind_of_ok hrun']
    exact hf _ _ _ _ hR hV
  | error hV =>
    rw [bind_of_error hrun, bind_of_error hrun']
    exact .error (hW _ _ hV)

/-- The rule for states that stay related in the same way. -/
theorem SameEnd.bind {s : σ} {t : τ} (hm : SameEnd V R (m.run s) (m'.run t))
    (hf : ∀ a b, R a b → Alike V S (f a) (f' b)) :
    SameEnd V S ((m >>= f).run s) ((m' >>= f').run t) :=
  hm.bind_of_imp (fun _ _ h => h) fun a b s t hR hV => hf a b hR s t hV

theorem Alike.bind (hm : Alike V R m m') (hf : ∀ a b, R a b → Alike V S (f a) (f' b)) :
    Alike V S (m >>= f) (m' >>= f') :=
  fun s t hV => (hm s t hV).bind hf

end ToMathlib
