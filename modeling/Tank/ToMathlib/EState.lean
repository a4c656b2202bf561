import Mathlib.Order.Defs.Unbundled

/-!
# Stateful code with exceptions

`EStateM ε σ α` is code over a state `σ` that returns an `α` or throws an `ε`, and whose effects
up to an exception stay. `finalState` and `outcome` are the two halves of a run.

* `bind_of_ok`, `bind_of_error`: a sequence runs step by step;
* `pure_eq_ok_iff`, `bind_eq_ok_iff`, `bind_eq_ok_iff_of_ok_iff`, `discard_eq_ok`,
  `getOrThrow_eq_ok`: what a run that returned must have done;
* `forall_ok_iff`, `forall_ok_of_error`: statements about every result of a run;
* `Keeps R m`: every run of `m`, also one that throws, takes the state along `R`, a preorder. Its
  instances `isPreorder_same` and `isPreorder_imp` are for a part of the state that stays as it is
  and for an invariant.
-/

namespace ToMathlib

variable {ε σ α β : Type}

/-- The state a run ends in. -/
def finalState : EStateM.Result ε σ α → σ
  | .ok _ s => s
  | .error _ s => s

/-- What a run returns or throws. -/
def outcome : EStateM.Result ε σ α → Except ε α
  | .ok a _ => .ok a
  | .error e _ => .error e

/-- Throw the error of a pure computation. -/
def getOrThrow (x : Except ε α) : EStateM ε σ α := fun s =>
  match x with
  | .ok a => .ok a s
  | .error e => .error e s

variable {m : EStateM ε σ α} {f : α → EStateM ε σ β} {s s' : σ} {a : α} {e : ε}

theorem bind_of_ok (h : m.run s = .ok a s') : (m >>= f).run s = (f a).run s' := by
  simp only [EStateM.run] at h ⊢
  simp only [bind, EStateM.bind, h]

theorem bind_of_error (h : m.run s = .error e s') : (m >>= f).run s = .error e s' := by
  simp only [EStateM.run] at h ⊢
  simp only [bind, EStateM.bind, h]

theorem pure_eq_ok_iff {b : α} :
    (Pure.pure a : EStateM ε σ α).run s = .ok b s' ↔ b = a ∧ s' = s := by
  have hrun : (Pure.pure a : EStateM ε σ α).run s = .ok a s := rfl
  rw [hrun]
  simp [eq_comm]

theorem get_bind {f : σ → EStateM ε σ β} : (get >>= f).run s = (f s).run s := rfl

theorem set_bind {f : PUnit → EStateM ε σ β} : (set s' >>= f).run s = (f ⟨⟩).run s' := rfl

/-- A sequence returns only if its first part does. -/
theorem bind_eq_ok {b : β} {s'' : σ} (h : (m >>= f).run s = .ok b s'') :
    ∃ a s', m.run s = .ok a s' ∧ (f a).run s' = .ok b s'' := by
  cases hrun : m.run s with
  | ok a s' =>
    rw [bind_of_ok hrun] at h
    exact ⟨a, s', rfl, h⟩
  | error e s' =>
    rw [bind_of_error hrun] at h
    cases h

theorem bind_eq_ok_iff {b : β} {s'' : σ} :
    (m >>= f).run s = .ok b s'' ↔ ∃ a s', m.run s = .ok a s' ∧ (f a).run s' = .ok b s'' := by
  refine ⟨bind_eq_ok, ?_⟩
  rintro ⟨a, s', hm, hf⟩
  rw [bind_of_ok hm, hf]

/-- A sequence whose first part can only return `a`, under a condition. -/
theorem bind_eq_ok_iff_of_ok_iff {p : Prop} {b : β} {s'' : σ}
    (h : ∀ a' t, m.run s = .ok a' t ↔ p ∧ a' = a ∧ t = s') :
    (m >>= f).run s = .ok b s'' ↔ p ∧ (f a).run s' = .ok b s'' := by
  rw [bind_eq_ok_iff]
  constructor
  · rintro ⟨a', t, hm, hf⟩
    obtain ⟨hp, rfl, rfl⟩ := (h a' t).1 hm
    exact ⟨hp, hf⟩
  · rintro ⟨hp, hf⟩
    exact ⟨a, s', (h a s').2 ⟨hp, rfl, rfl⟩, hf⟩

theorem discard_eq_ok {u : PUnit} (h : (discard m : EStateM ε σ PUnit).run s = .ok u s') :
    ∃ a, m.run s = .ok a s' := by
  have hdiscard : (discard m : EStateM ε σ PUnit) = m >>= fun _ => Pure.pure PUnit.unit := rfl
  rw [hdiscard] at h
  obtain ⟨a, s₁, hrun, hpure⟩ := bind_eq_ok h
  obtain ⟨-, rfl⟩ := EStateM.Result.ok.inj hpure
  exact ⟨a, hrun⟩

/-- What holds of every result of a run that returns is what holds of its result. -/
theorem forall_ok_iff {B : α → σ → Prop} (h : m.run s = .ok a s') :
    (∀ b t, m.run s = .ok b t → B b t) ↔ B a s' := by
  constructor
  · intro hall
    exact hall a s' h
  · intro hB b t hrun
    rw [h] at hrun
    cases hrun
    exact hB

theorem forall_ok_of_error {B : α → σ → Prop} (h : m.run s = .error e s') :
    ∀ b t, m.run s = .ok b t → B b t := by
  intro b t hrun
  rw [h] at hrun
  cases hrun

theorem getOrThrow_eq_ok {x : Except ε α} :
    (getOrThrow x : EStateM ε σ α).run s = .ok a s' ↔ x = .ok a ∧ s' = s := by
  cases x with
  | ok b =>
    have hrun : (getOrThrow (.ok b) : EStateM ε σ α).run s = .ok b s := rfl
    rw [hrun]
    simp [eq_comm]
  | error e =>
    have hrun : (getOrThrow (.error e) : EStateM ε σ α).run s = .error e s := rfl
    rw [hrun]
    simp

theorem finalState_bind_pure (g : α → β) :
    finalState ((m >>= fun a => (Pure.pure (g a) : EStateM ε σ β)).run s) =
      finalState (m.run s) := by
  cases hrun : m.run s with
  | ok a s' =>
    rw [bind_of_ok hrun]
    rfl
  | error e s' =>
    rw [bind_of_error hrun]
    rfl

/-- What holds of the state if the first part of a sequence throws, and of the end of the rest if it
returns, holds at the end. -/
theorem finalState_bind_cases {P : σ → Prop} (herror : ∀ e s', m.run s = .error e s' → P s')
    (hok : ∀ a s', m.run s = .ok a s' → P (finalState ((f a).run s'))) :
    P (finalState ((m >>= f).run s)) := by
  cases hrun : m.run s with
  | ok a s' =>
    rw [bind_of_ok hrun]
    exact hok a s' hrun
  | error e s' =>
    rw [bind_of_error hrun]
    exact herror e s' hrun

/-- Every run of `m` takes the state along `R`. -/
def Keeps (R : σ → σ → Prop) (m : EStateM ε σ α) : Prop := ∀ s, R s (finalState (m.run s))

variable {R : σ → σ → Prop}

/-- A part of the state is the same. -/
instance isPreorder_same {τ : Type} (part : σ → τ) :
    IsPreorder σ fun s s' => part s' = part s where
  refl _ := rfl
  trans _ _ _ h h' := h'.trans h

/-- A relation between parts of the states. -/
instance refl_invImage {τ : Type} {r : τ → τ → Prop} [Std.Refl r] {part : σ → τ} :
    Std.Refl (InvImage r part) where
  refl s := Std.Refl.refl (part s)

/-- What held still holds. -/
instance isPreorder_imp (P : σ → Prop) : IsPreorder σ fun s s' => P s → P s' where
  refl _ h := h
  trans _ _ _ h h' := h' ∘ h

/-- Code that does nothing takes the state nowhere. -/
theorem Keeps.pure [Std.Refl R] (a : α) : Keeps R (Pure.pure a : EStateM ε σ α) :=
  fun s => Std.Refl.refl s

/-- Nor does code that throws at once. -/
theorem Keeps.throw [Std.Refl R] (e : ε) : Keeps R (MonadExcept.throw e : EStateM ε σ α) :=
  fun s => Std.Refl.refl s

/-- Throwing or returning what was computed keeps the state. -/
theorem Keeps.getOrThrow [Std.Refl R] (x : Except ε α) :
    Keeps R (ToMathlib.getOrThrow x : EStateM ε σ α) := by
  intro s
  cases x <;> exact Std.Refl.refl s

/-- The part of a sequence after its first step may be reached from any state. -/
theorem rel_finalState_bind [IsTrans σ R] (hm : R s (finalState (m.run s)))
    (hf : ∀ a, Keeps R (f a)) : R s (finalState ((m >>= f).run s)) := by
  cases hrun : m.run s with
  | ok a s' =>
    rw [hrun] at hm
    rw [bind_of_ok hrun]
    exact IsTrans.trans _ _ _ hm (hf a s')
  | error e s' =>
    rw [hrun] at hm
    rw [bind_of_error hrun]
    exact hm

/-- The rest of a sequence takes the state on from where its first part has left it. -/
theorem rel_finalState_rest [Std.Refl R] (hf : ∀ a, Keeps R (f a)) (s : σ) :
    R (finalState (m.run s)) (finalState ((m >>= f).run s)) := by
  cases hrun : m.run s with
  | ok a s' =>
    rw [bind_of_ok hrun]
    exact hf a s'
  | error e s' =>
    rw [bind_of_error hrun]
    exact Std.Refl.refl s'

/-- A sequence takes the state along `R` if its parts do. -/
theorem Keeps.bind [IsTrans σ R] (hm : Keeps R m) (hf : ∀ a, Keeps R (f a)) : Keeps R (m >>= f) :=
  fun s => rel_finalState_bind (hm s) hf

/-- Reading the state first changes nothing. -/
theorem Keeps.get_bind {f : σ → EStateM ε σ β} (hf : ∀ s, Keeps R (f s)) : Keeps R (get >>= f) :=
  fun s => hf s s

end ToMathlib
