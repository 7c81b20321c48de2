import Mathlib.Tactic.TypeStar

/-!
# Computations that may fail

`Holds E Q x`: if `x` has a result then `Q` is true of it, and if `x` fails then `E` is
true of the failure.
-/
namespace Dkftpbench.Faults
universe u v

variable {ε : Type v} {α β : Type u} {E : ε → Prop} {Q Q' : α → Prop} {x : Except ε α}

def Holds (E : ε → Prop) (Q : α → Prop) : Except ε α → Prop
  | .ok a => Q a
  | .error e => E e

theorem Holds.mono (h : Holds E Q x) (hQ : ∀ a, Q a → Q' a) : Holds E Q' x := by
  cases x with
  | ok a => exact hQ a h
  | error e => exact h

/-- One computation after another. -/
theorem Holds.bind {R : β → Prop} {f : α → Except ε β} (h : Holds E Q x) (hf : ∀ a, Q a → Holds E R (f a)) :
    Holds E R (x >>= f) := by
  cases x with
  | ok a => exact hf a h
  | error e => exact h

theorem ok_bind (a : α) (f : α → Except ε β) : (.ok a >>= f) = f a := rfl

theorem Holds.map {R : β → Prop} {f : α → β} (h : Holds E Q x) (hf : ∀ a, Q a → R (f a)) :
    Holds E R (x.map f) := by
  cases x with
  | ok a => exact hf a h
  | error e => exact h

theorem Holds.of_ok {a : α} (hx : x = .ok a) (h : Q a) : Holds E Q x := by
  rw [hx]
  exact h

/-- The failures that one of them says are left out. -/
theorem Holds.and {E' : ε → Prop} (h : Holds E Q x) (h' : Holds E' Q' x) : Holds E (fun a => Q a ∧ Q' a) x := by
  cases x with
  | ok a => exact ⟨h, h'⟩
  | error e => exact h

theorem Holds.result {a : α} (h : Holds E Q x) (hx : x = .ok a) : Q a := by
  rw [hx] at h
  exact h

theorem Holds.failure {e : ε} (h : Holds E Q x) (hx : x = .error e) : E e := by
  rw [hx] at h
  exact h

theorem eq_ok_of_toOption {a : α} (h : x.toOption = some a) : x = .ok a := by
  cases x with
  | ok b => exact congrArg Except.ok (Option.some.inj h)
  | error e => cases h

end Dkftpbench.Faults
