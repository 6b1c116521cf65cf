import Mathlib

/-! Computations that fail: what a successful one says about its parts. -/
namespace PiDeck

variable {ε ε' α β : Type}

theorem Except.bind_ok {x : Except ε α} {f : α → Except ε β} {b : β} :
    (x >>= f) = .ok b ↔ ∃ a, x = .ok a ∧ f a = .ok b := by
  cases x with
  | error e => simp [bind, Except.bind]
  | ok a => simp [bind, Except.bind]

theorem Except.mapError_ok {x : Except ε α} {f : ε → ε'} {a : α} :
    x.mapError f = .ok a ↔ x = .ok a := by
  cases x with
  | error e => simp [Except.mapError]
  | ok a => simp [Except.mapError]

theorem Except.toOption_eq_some {x : Except ε α} {a : α} : x.toOption = some a ↔ x = .ok a := by
  cases x <;> simp [Except.toOption]

/-- A part that may be given is what its check makes of it, or stays. -/
theorem Except.elim_ok {o : Option α} {current result : β} {check : α → Except ε β}
    (h : o.elim (.ok current) check = .ok result) :
    result = (o.bind fun a => (check a).toOption).getD current := by
  cases o with
  | none => exact (Except.ok.inj h).symm
  | some a => simp [Except.toOption_eq_some.mpr (show check a = .ok result from h)]

theorem or_some {α : Type} (o : Option α) (a : α) : o.or (some a) = some (o.getD a) := by
  cases o <;> rfl

end PiDeck
