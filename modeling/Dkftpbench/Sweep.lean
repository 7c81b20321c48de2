import Mathlib.Algebra.Order.BigOperators.Group.Finset
import Mathlib.Algebra.Order.Ring.Int

/-!
# Asking many, one after another

A reader asks `n` parties in turn, and then all of them again. They go on changing in the
meantime, along a preorder, so that the answers of one round need not have been true at one time.
Every answer lies between what held when the round began and what holds now, and the
rounds follow each other. So does the total of whatever only grows.
-/
namespace Dkftpbench.Sweep
variable {σ : Type*}

/-- The total for the first `n` parties. -/
def total (f : σ → ℤ) (n : ℕ) (s : ℕ → σ) : ℤ := (Finset.range n).sum fun j => f (s j)

/-- The reader has asked `i` of the `n` parties: what it saw in the round before, where this round
began, what it has seen in it, and how things stand. -/
structure Asking (r : σ → σ → Prop) (n i : ℕ) (last first seen now : ℕ → σ) : Prop where
  le : i ≤ n
  before : ∀ j < n, r (last j) (first j)
  moved : ∀ j < n, r (first j) (now j)
  asked : ∀ j < i, r (first j) (seen j) ∧ r (seen j) (now j)

section
variable {r : σ → σ → Prop} {f : σ → ℤ} {n i k : ℕ} {s t last first seen now : ℕ → σ} {x : σ}

theorem total_succ : total f (n+1) s = total f n s+f (s n) := Finset.sum_range_succ _ _

theorem total_eq_total {g : σ → ℤ} (h : ∀ j < n, f (s j) = g (t j)) : total f n s = total g n t :=
  Finset.sum_congr rfl fun j hj => h j (Finset.mem_range.1 hj)

/-- Only the parties that are counted matter. -/
theorem total_congr (h : ∀ j < n, s j = t j) : total f n s = total f n t :=
  total_eq_total fun j hj => congrArg f (h j hj)

/-- One more answer. -/
theorem total_answer : total f (i+1) (Function.update s i x) = total f i s+f x := by
  rw [total_succ, Function.update_self, total_congr fun j hj => Function.update_of_ne hj.ne x s]

theorem total_add (g : σ → ℤ) : total (fun x => f x+g x) n s = total f n s+total g n s := Finset.sum_add_distrib

/-- What holds of every party holds of the total. -/
theorem total_le_total (h : ∀ j < n, f (s j) ≤ f (t j)) : total f n s ≤ total f n t :=
  Finset.sum_le_sum fun j hj => h j (Finset.mem_range.1 hj)

theorem total_le_mul {c : ℤ} (h : ∀ j < n, f (s j) ≤ c) : total f n s ≤ n*c := by
  have hle := Finset.sum_le_card_nsmul (Finset.range n) (fun j => f (s j)) c fun j hj => h j (Finset.mem_range.1 hj)
  rw [Finset.card_range, nsmul_eq_mul] at hle
  exact hle

/-- Where nobody has less than nothing, all together have nothing only if each of them has nothing. -/
theorem eq_zero_of_total (h : ∀ j < n, 0 ≤ f (s j)) (h0 : total f n s = 0) : ∀ j < n, f (s j) = 0 := fun j hj =>
  (Finset.sum_eq_zero_iff_of_nonneg fun j hj => h j (Finset.mem_range.1 hj)).1 h0 j (Finset.mem_range.2 hj)

theorem total_nonneg (h : ∀ j < n, 0 ≤ f (s j)) : 0 ≤ total f n s :=
  Finset.sum_nonneg fun j hj => h j (Finset.mem_range.1 hj)

/-- Someone has part of what there is. -/
theorem exists_pos_of_total (h : 0 < total f n s) : ∃ j < n, 0 < f (s j) := by
  by_contra hno
  rw [not_exists] at hno
  have hle : total f n s ≤ n*0 := total_le_mul fun j hj => not_lt.1 fun hpos => hno j ⟨hj, hpos⟩
  rw [mul_zero] at hle
  exact absurd h hle.not_gt

/-- Nobody has been asked, and nothing has changed. -/
theorem Asking.refl (hr : ∀ x, r x x) : Asking r n n s s s s :=
  ⟨le_rfl, fun j _ => hr (s j), fun j _ => hr (s j), fun j _ => ⟨hr (s j), hr (s j)⟩⟩

/-- The next round begins. -/
theorem Asking.begins (hr : ∀ x, r x x) (h : Asking r n n last first seen now) : Asking r n 0 seen now seen now :=
  ⟨n.zero_le, fun j hj => (h.asked j hj).2, fun j _ => hr (now j), fun j hj => absurd hj j.not_lt_zero⟩

/-- What only grows was read between the beginning of the round and now. -/
theorem Asking.between (h : Asking r n n last first seen now) (hf : ∀ x y, r x y → f x ≤ f y) :
    total f n first ≤ total f n seen ∧ total f n seen ≤ total f n now :=
  ⟨total_le_total fun j hj => hf _ _ (h.asked j hj).1, total_le_total fun j hj => hf _ _ (h.asked j hj).2⟩

variable (htrans : ∀ x y z, r x y → r y z → r x z)
include htrans

/-- One of the parties changes. -/
theorem Asking.moves (h : Asking r n i last first seen now) (hx : r (now k) x) :
    Asking r n i last first seen (Function.update now k x) := by
  have hmoved : ∀ j y, r y (now j) → r y (Function.update now k x j) := by
    intro j y hy
    by_cases hj : j = k
    · subst hj
      rw [Function.update_self]
      exact htrans y (now j) x hy hx
    · rw [Function.update_of_ne hj]
      exact hy
  exact ⟨h.le, h.before, fun j hj => hmoved j _ (h.moved j hj), fun j hj => ⟨(h.asked j hj).1, hmoved j _ (h.asked j hj).2⟩⟩

/-- The next party is asked, which may change it. -/
theorem Asking.asks (hr : ∀ x, r x x) (h : Asking r n i last first seen now) (hi : i < n) (hx : r (now i) x) :
    Asking r n (i+1) last first (Function.update seen i x) (Function.update now i x) := by
  have hnext := h.moves htrans hx
  refine ⟨hi, hnext.before, hnext.moved, ?_⟩
  intro j hj
  by_cases hji : j = i
  · subst hji
    rw [Function.update_self, Function.update_self]
    exact ⟨htrans (first j) (now j) x (h.moved j hi) hx, hr x⟩
  · rw [Function.update_of_ne hji]
    exact hnext.asked j (lt_of_le_of_ne (Nat.lt_succ_iff.1 hj) hji)

/-- A round follows the one before it. -/
theorem Asking.follows (h : Asking r n n last first seen now) : ∀ j < n, r (last j) (seen j) := fun j hj =>
  htrans (last j) (first j) (seen j) (h.before j hj) (h.asked j hj).1

end
end Dkftpbench.Sweep
