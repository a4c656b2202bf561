import Tank.ToMathlib.EState

/-!
# What a run that returns has done

`IfReturns V m Q`: from a state with `V`, a run of `m` that returns ends in a state with `V` and
returns a value with `Q`; nothing is said about runs that throw. `Q` need not be about the value: it
may be a fact that the run could only return under. The rules follow the code.
-/

namespace ToMathlib

variable {ε σ α β : Type}

/-- Runs that return keep `V`, and what they return has `Q`. -/
def IfReturns (V : σ → Prop) (m : EStateM ε σ α) (Q : α → Prop) : Prop :=
  ∀ s, V s → ∀ a s', m.run s = .ok a s' → V s' ∧ Q a

namespace IfReturns

variable {V : σ → Prop} {m : EStateM ε σ α} {f : α → EStateM ε σ β} {Q : α → Prop} {Q' : β → Prop}

theorem pure {a : α} (h : Q a) : IfReturns V (Pure.pure a : EStateM ε σ α) Q := by
  intro s hs b s' hrun
  obtain ⟨rfl, rfl⟩ := pure_eq_ok_iff.1 hrun
  exact ⟨hs, h⟩

theorem get : IfReturns V (MonadState.get : EStateM ε σ σ) fun _ => True := by
  intro s hs a s' hrun
  cases hrun
  exact ⟨hs, trivial⟩

theorem getOrThrow (x : Except ε α) :
    IfReturns V (ToMathlib.getOrThrow x : EStateM ε σ α) fun a => x = .ok a := by
  intro s hs a s' hrun
  obtain ⟨hx, rfl⟩ := getOrThrow_eq_ok.1 hrun
  exact ⟨hs, hx⟩

theorem bind (hm : IfReturns V m Q) (hf : ∀ a, Q a → IfReturns V (f a) Q') :
    IfReturns V (m >>= f) Q' := by
  intro s hs b s'' hrun
  obtain ⟨a, s', hm', hf'⟩ := bind_eq_ok hrun
  obtain ⟨hs', ha⟩ := hm s hs a s' hm'
  exact hf a ha s' hs' b s'' hf'

theorem imp (hm : IfReturns V m Q) {R : α → Prop} (h : ∀ a, Q a → R a) : IfReturns V m R := by
  intro s hs a s' hrun
  obtain ⟨hs', ha⟩ := hm s hs a s' hrun
  exact ⟨hs', h a ha⟩

/-- A fact that does not depend on the value. -/
theorem const {p : Prop} (hm : IfReturns V m Q) (hp : p) : IfReturns V m fun _ => p :=
  hm.imp fun _ _ => hp

/-- A loop over a list: its first step, and the others. -/
theorem cons {γ : Type} {P : γ → Prop} {c : γ} {cs : List γ} (hm : IfReturns V m fun _ => P c)
    (hf : ∀ a, IfReturns V (f a) fun _ => ∀ c' ∈ cs, P c') :
    IfReturns V (m >>= f) fun _ => ∀ c' ∈ c :: cs, P c' :=
  hm.bind fun a hhead => (hf a).imp fun _ htail => List.forall_mem_cons.2 ⟨hhead, htail⟩

end IfReturns

end ToMathlib
