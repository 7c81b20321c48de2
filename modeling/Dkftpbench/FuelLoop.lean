import Mathlib.Data.Nat.Notation
import Mathlib.Tactic.TypeStar

/-!
# Loops with fuel

A loop is a function of its fuel and its state. Where each iteration ends the loop or
makes a measure smaller, all fuel beyond the measure gives one result.
-/
namespace Dkftpbench.FuelLoop
variable {σ ρ : Type*}

/-- An iteration ends the loop with this result. -/
def Stops (f : ℕ → σ → ρ) (s : σ) (r : ρ) : Prop := ∀ fuel, f (fuel+1) s = r

/-- An iteration leads to this state. -/
def Goes (f : ℕ → σ → ρ) (s t : σ) : Prop := ∀ fuel, f (fuel+1) s = f fuel t

/-- Each iteration ends the loop with a result that is meant, or goes on with less to do. -/
def Progresses (f : ℕ → σ → ρ) (μ : σ → ℕ) (I : σ → Prop) (good : ρ → Prop) : Prop :=
  ∀ s, I s → (∃ r, good r ∧ Stops f s r) ∨ ∃ t, I t ∧ μ t < μ s ∧ Goes f s t

variable {f : ℕ → σ → ρ} {μ : σ → ℕ} {I : σ → Prop} {good : ρ → Prop}

theorem Progresses.ends (hstep : Progresses f μ I good) {s : σ} (hs : I s) :
    ∃ r, good r ∧ ∀ fuel, μ s < fuel → f fuel s = r := by
  generalize hn : μ s = n
  induction n using Nat.strongRecOn generalizing s with
  | ind n ih =>
      subst hn
      rcases hstep s hs with ⟨r, hr, hstop⟩ | ⟨t, ht, hlt, hgo⟩
      · refine ⟨r, hr, ?_⟩
        intro fuel hfuel
        obtain ⟨fuel, rfl⟩ := Nat.exists_eq_add_one_of_ne_zero (Nat.ne_zero_of_lt hfuel)
        exact hstop fuel
      · obtain ⟨r, hr, hall⟩ := ih (μ t) hlt ht rfl
        refine ⟨r, hr, ?_⟩
        intro fuel hfuel
        obtain ⟨fuel, rfl⟩ := Nat.exists_eq_add_one_of_ne_zero (Nat.ne_zero_of_lt hfuel)
        rw [hgo fuel]
        exact hall fuel (Nat.lt_of_lt_of_le hlt (Nat.le_of_lt_succ hfuel))

end Dkftpbench.FuelLoop
