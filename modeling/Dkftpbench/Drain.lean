import Dkftpbench.FuelLoop
import Dkftpbench.Round

/-!
# Taking until nothing is due

A loop takes one thing after another of what is due, and does something with each before it takes
the next. If nothing else is taken on the way, the loop ends, and what it took is what was
due, each once.
-/
namespace Dkftpbench.Drain
open FuelLoop Round
variable {σ ι ε : Type*}

/-- An iteration takes this and leads to that state. -/
def Takes (loop : ℕ → σ → Option (List ε × σ)) (s : σ) (x : ε) (t : σ) : Prop :=
  ∀ fuel, loop (fuel+1) s = (loop fuel t).map fun r => (x :: r.1, r.2)

/-- An iteration finds nothing due and ends the loop, or takes something that is due. `I` knows
what was taken so far, and what is due, and `J` what was taken in all. -/
def Drains (loop : ℕ → σ → Option (List ε × σ)) (item : ι → ε) (I : List ι → Set ι → σ → Prop)
    (J : List ι → σ → Prop) : Prop :=
  ∀ l D s, I l D s → (D = ∅ ∧ ∃ t, J l t ∧ Stops loop s (some ([], t))) ∨
    ∃ i ∈ D, ∃ t, I (l ++ [i]) (D \ {i}) t ∧ Takes loop s (item i) t

variable {loop : ℕ → σ → Option (List ε × σ)} {item : ι → ε} {I : List ι → Set ι → σ → Prop} {J : List ι → σ → Prop}
variable {l : List ι} {D : Set ι} {s t : σ} {n : ℕ}

/-- The loop took what was due, with so much fuel or more. -/
def Emptied (loop : ℕ → σ → Option (List ε × σ)) (item : ι → ε) (J : List ι → σ → Prop) (l : List ι)
    (D : Set ι) (s : σ) (n : ℕ) : Prop :=
  ∃ is t, (∀ fuel, n < fuel → loop fuel s = some (is.map item, t)) ∧ is.Nodup ∧ (∀ i, i ∈ is ↔ i ∈ D) ∧ J (l ++ is) t

theorem emptied_of_stops (ht : J l t) (hstop : Stops loop s (some ([], t))) : Emptied loop item J l ∅ s n := by
  refine ⟨[], t, ?_, .nil, fun i => iff_of_false List.not_mem_nil (Set.notMem_empty i), by rwa [List.append_nil]⟩
  intro fuel hfuel
  obtain ⟨fuel, rfl⟩ := Nat.exists_eq_add_one_of_ne_zero (Nat.ne_zero_of_lt hfuel)
  exact hstop fuel

theorem Drains.emptied [DecidableEq ι] (h : Drains loop item I J) (hs : I l D s) (hn : AtMost D n) :
    Emptied loop item J l D s n := by
  induction n generalizing l D s with
  | zero =>
      obtain rfl := hn.eq_empty (by decide)
      rcases h l ∅ s hs with ⟨-, t, ht, hstop⟩ | ⟨i, hi, -⟩
      · exact emptied_of_stops ht hstop
      · exact hi.elim
  | succ n ih =>
      rcases h l D s hs with ⟨rfl, t, ht, hstop⟩ | ⟨i, hi, t, ht, htake⟩
      · exact emptied_of_stops ht hstop
      · have hrest : AtMost (D \ {i}) (n : ℕ) := by
          have hdiff := hn.diff hi
          have hpred : ((n+1 : ℕ) : ℤ)-1 = n := by omega
          rwa [hpred] at hdiff
        obtain ⟨is, u, hloop, hnodup, hmem, hu⟩ := ih ht hrest
        refine ⟨i :: is, u, ?_, ?_, ?_, ?_⟩
        · intro fuel hfuel
          obtain ⟨fuel, rfl⟩ := Nat.exists_eq_add_one_of_ne_zero (Nat.ne_zero_of_lt hfuel)
          rw [htake fuel, hloop fuel (Nat.lt_of_succ_lt_succ hfuel)]
          rfl
        · refine List.nodup_cons.2 ⟨fun hin => ?_, hnodup⟩
          exact ((hmem i).1 hin).2 rfl
        · intro j
          rw [List.mem_cons, hmem j, Set.mem_sdiff, Set.mem_singleton_iff]
          constructor
          · rintro (rfl | hj)
            · exact hi
            · exact hj.1
          · intro hj
            by_cases heq : j = i
            · exact .inl heq
            · exact .inr ⟨hj, heq⟩
        · rwa [List.append_assoc] at hu

/-- What comes of some fuel comes of more. -/
theorem Drains.eq_of_le (h0 : ∀ s, loop 0 s = none) (h : Drains loop item I J) (hs : I l D s) {fuel fuel' : ℕ}
    {r : List ε × σ} (hr : loop fuel s = some r) (hle : fuel ≤ fuel') : loop fuel' s = some r := by
  induction fuel generalizing l D s fuel' r with
  | zero => cases (h0 s).symm.trans hr
  | succ fuel ih =>
      obtain ⟨fuel', rfl⟩ := Nat.exists_eq_add_one_of_ne_zero (Nat.ne_zero_of_lt hle)
      rcases h l D s hs with ⟨-, t, -, hstop⟩ | ⟨i, -, t, ht, htake⟩
      · rw [hstop fuel] at hr
        rw [hstop fuel', hr]
      · rw [htake fuel] at hr
        obtain ⟨r', hr', rfl⟩ := Option.map_eq_some_iff.1 hr
        rw [htake fuel', ih ht hr' (Nat.le_of_succ_le_succ hle)]
        rfl

end Dkftpbench.Drain
