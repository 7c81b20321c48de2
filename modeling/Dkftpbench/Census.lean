import Mathlib.Algebra.GroupWithZero.Nat
import Mathlib.Data.Finset.Card
import Mathlib.Algebra.BigOperators.Group.Finset.Basic
import Mathlib.Algebra.BigOperators.Group.List.Basic
import Mathlib.Algebra.Ring.Int.Defs

/-!
# A census

Places are empty or hold something of some kind; the tally of a kind is the number of
places that hold it. Whoever keeps such numbers up to date as one place changes at a
time has to subtract one for what was there and to add one for what is there now.
-/
namespace Dkftpbench.Census
variable {ι κ : Type*} [DecidableEq κ] {places : Finset ι} {roll roll' : ι → Option κ} {i : ι} {x : Option κ} {k : κ}

def tally (places : Finset ι) (roll : ι → Option κ) (k : κ) : ℕ := (places.filter (roll · = some k)).card

@[simp] theorem tally_empty : tally places (fun _ => none) k = 0 := by simp [tally]

/-- Places are emptied. -/
theorem tally_mono (h : ∀ i, roll i = some k → roll' i = some k) : tally places roll k ≤ tally places roll' k := by
  apply Finset.card_le_card
  intro i hi
  rw [Finset.mem_filter] at hi ⊢
  exact ⟨hi.1, h i hi.2⟩

/-- What is counted moves from one kind to another. -/
theorem sum_moved {n n' : κ → ℤ} {ks : List κ} {a b : κ}
    (h : ∀ k ∈ ks, n' k+(if a = k then 1 else 0) = n k+if b = k then 1 else 0) :
    (ks.map n').sum+ks.count a = (ks.map n).sum+ks.count b := by
  induction ks with
  | nil => rfl
  | cons k ks ih =>
      have hhead := h k List.mem_cons_self
      have htail := ih fun k hk => h k (.tail _ hk)
      rw [List.map_cons, List.map_cons, List.sum_cons, List.sum_cons, List.count_cons, List.count_cons]
      simp only [beq_iff_eq, eq_comm (a := k)]
      split_ifs at hhead ⊢ <;> omega

variable [DecidableEq ι]

theorem tally_erase (hi : i ∈ places) :
    tally places roll k = tally (places.erase i) roll k+if roll i = some k then 1 else 0 := by
  unfold tally
  have hmem : i ∉ (places.erase i).filter (roll · = some k) := by simp
  conv_lhs => rw [← Finset.insert_erase hi, Finset.filter_insert]
  split
  · rw [Finset.card_insert_of_notMem hmem]
  · rfl

/-- One place changes. -/
theorem tally_update (hi : i ∈ places) (x : Option κ) (k : κ) :
    tally places (Function.update roll i x) k+(if roll i = some k then 1 else 0) =
      tally places roll k+if x = some k then 1 else 0 := by
  have hrest : tally (places.erase i) (Function.update roll i x) k = tally (places.erase i) roll k := by
    unfold tally
    congr 1
    apply Finset.filter_congr
    intro j hj
    rw [Function.update_of_ne (Finset.ne_of_mem_erase hj)]
  have hbefore := @tally_erase _ _ _ places roll i k _ hi
  rw [tally_erase hi, hbefore, hrest, Function.update_self]
  omega

/-- The tallies of different kinds add up. -/
theorem sum_tally {ks : List κ} (hks : ks.Nodup) :
    (ks.map (tally places roll)).sum = (places.filter fun i => ∃ k ∈ ks, roll i = some k).card := by
  induction ks with
  | nil => simp
  | cons k ks ih =>
      obtain ⟨hk, hks⟩ := List.nodup_cons.1 hks
      rw [List.map_cons, List.sum_cons, ih hks, tally, ← Finset.card_union_of_disjoint, ← Finset.filter_or]
      · simp only [List.exists_mem_cons_iff]
      · apply Finset.disjoint_filter.2
        rintro i _ hi ⟨k', hk', hi'⟩
        rw [hi, Option.some.injEq] at hi'
        exact hk (hi' ▸ hk')

end Dkftpbench.Census
