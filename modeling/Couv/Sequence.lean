import Mathlib.Init

/-! Programs that may fail, one after the other. -/
namespace Couv

section
variable {ε α β : Type} {x : Except ε α} {f : α → Except ε β}

/-- A check that passes is followed by the next. -/
theorem bind_eq_ok {b : β} (h : (x >>= f) = .ok b) : ∃ a, x = .ok a ∧ f a = .ok b := by
  cases x with
  | error e => cases h
  | ok a => exact ⟨a, rfl, h⟩

end

section
variable {ε σ α β : Type} {x : EStateM ε σ α} {f : α → EStateM ε σ β} {s s' : σ}

theorem run_bind_ok {a : α} (h : x s = .ok a s') : (x >>= f) s = f a s' := by
  change EStateM.bind x f s = f a s'
  rw [EStateM.bind, h]

theorem run_bind_error {e : ε} (h : x s = .error e s') : (x >>= f) s = .error e s' := by
  change EStateM.bind x f s = .error e s'
  rw [EStateM.bind, h]

theorem run_bind_eq_ok {b : β} (h : (x >>= f) s = .ok b s') :
    ∃ a t, x s = .ok a t ∧ f a t = .ok b s' := by
  cases hx : x s with
  | ok a t => exact ⟨a, t, rfl, (run_bind_ok hx).symm.trans h⟩
  | error e t => cases (run_bind_error hx).symm.trans h

theorem run_bind_eq_error {e : ε} (h : (x >>= f) s = .error e s') :
    x s = .error e s' ∨ ∃ a t, x s = .ok a t ∧ f a t = .error e s' := by
  cases hx : x s with
  | ok a t => exact .inr ⟨a, t, rfl, (run_bind_ok hx).symm.trans h⟩
  | error e' t =>
    have herror : (.error e' t : EStateM.Result ε σ β) = .error e s' :=
      (run_bind_error hx).symm.trans h
    obtain ⟨rfl, rfl⟩ := EStateM.Result.error.inj herror
    exact .inl rfl

end

end Couv
