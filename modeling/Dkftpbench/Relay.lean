import Mathlib.Data.Prod.Lex
import Mathlib.Order.WellFounded
import Mathlib.Tactic.Common

/-!
# Requests relayed through places

A request enters at the last of a row of places, moves on from place to place in the
order of arrival, and leaves from the first. The row lists the places from the first on,
so that the concatenation lists what is pending from the oldest request on.

`Settles`: whatever steps are taken, they come to an end, and at the end something holds.
-/
namespace Dkftpbench.Relay
variable {α σ β : Type*}

/-- The oldest request of one place goes to the place in front of it. -/
inductive Moved : List (List α) → List (List α) → Prop
  | here (x : α) (near far : List α) (rest : List (List α)) :
      Moved (near :: (x :: far) :: rest) ((near ++ [x]) :: far :: rest)
  | there {ps qs : List (List α)} (p : List α) : Moved ps qs → Moved (p :: ps) (p :: qs)

/-- How many moves lie between the pending requests and the first place. -/
def distance : List (List α) → ℕ
  | [] => 0
  | _ :: ps => ps.flatten.length+distance ps

section
variable {p : List α} {ps qs : List (List α)}

/-- Nothing is lost, added or overtaken on the way. -/
theorem Moved.flatten_eq (h : Moved ps qs) : qs.flatten = ps.flatten := by
  induction h with
  | here x near far rest => simp
  | there p _ ih => rw [List.flatten_cons, List.flatten_cons, ih]

end

/-- Every path of steps ends, in a state in which `P` holds. -/
inductive Settles (step : σ → σ → Prop) (P : σ → Prop) : σ → Prop
  | ended {s : σ} : (∀ s', ¬ step s s') → P s → Settles step P s
  | goes {s : σ} : (∃ s', step s s') → (∀ s', step s s' → Settles step P s') → Settles step P s

section
variable {step : σ → σ → Prop} {P I : σ → Prop} {s : σ}

end
end Dkftpbench.Relay
