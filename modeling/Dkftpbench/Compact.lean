import Mathlib.Data.Set.Insert
import Mathlib.Order.Interval.Set.Basic

/-!
# A compact array with an index

The items of a set fill the first slots of an array, in any order and without gaps, and
an index tells the slot of each. An item is put in at the end; one is taken out by moving
the last one into its slot. What other arrays hold at an item's slot moves along.
-/
namespace Dkftpbench
variable {ι α : Type*} {item item' : ℤ → ι} {index index' : ι → ℤ} {used : ℤ} {mem : Set ι} {x y : ι}

structure Compact (item : ℤ → ι) (index : ι → ℤ) (used : ℤ) (mem : Set ι) : Prop where
  nonneg : 0 ≤ used
  slot : ∀ x ∈ mem, 0 ≤ index x ∧ index x < used ∧ item (index x) = x
  own : ∀ i, 0 ≤ i → i < used → item i ∈ mem ∧ index (item i) = i

namespace Compact

theorem empty : Compact item index 0 ∅ where
  nonneg := le_rfl
  slot _ hx := hx.elim
  own _ h0 hi := absurd h0 (not_le.2 hi)

/-- Only the slots in use and the items of the set count. -/
theorem congr (h : Compact item index used mem) (hitem : ∀ i, 0 ≤ i → i < used → item' i = item i)
    (hindex : ∀ x ∈ mem, index' x = index x) : Compact item' index' used mem where
  nonneg := h.nonneg
  slot x hx := by
    obtain ⟨h0, hlt, heq⟩ := h.slot x hx
    rw [hindex x hx, hitem _ h0 hlt]
    exact ⟨h0, hlt, heq⟩
  own i h0 hi := by
    obtain ⟨hm, heq⟩ := h.own i h0 hi
    rw [hitem i h0 hi, hindex _ hm]
    exact ⟨hm, heq⟩

/-- The slot of an item is the only one that holds it. -/
theorem eq_index (h : Compact item index used mem) {i : ℤ} (h0 : 0 ≤ i) (hi : i < used) (heq : item i = x) :
    i = index x := by
  rw [← heq]
  exact ((h.own i h0 hi).2).symm

theorem mem_iff (h : Compact item index used mem) : x ∈ mem ↔ ∃! i, (0 ≤ i ∧ i < used) ∧ item i = x := by
  constructor
  · intro hx
    obtain ⟨h0, hlt, heq⟩ := h.slot x hx
    exact ⟨index x, ⟨⟨h0, hlt⟩, heq⟩, fun i hi => h.eq_index hi.1.1 hi.1.2 hi.2⟩
  · intro ⟨i, ⟨⟨h0, hi⟩, heq⟩, _⟩
    rw [← heq]
    exact (h.own i h0 hi).1

theorem index_ne (h : Compact item index used mem) (hx : x ∈ mem) (hy : y ∈ mem) (hne : y ≠ x) :
    index y ≠ index x := by
  intro heq
  apply hne
  rw [← (h.slot y hy).2.2, heq, (h.slot x hx).2.2]

section
variable [DecidableEq ι]

theorem insert (h : Compact item index used mem) (hx : x ∉ mem) :
    Compact (Function.update item used x) (Function.update index x used) (used+1) (insert x mem) where
  nonneg := Int.add_nonneg h.nonneg (by decide)
  slot y hy := by
    rcases Set.mem_insert_iff.1 hy with rfl | hy
    · rw [Function.update_self, Function.update_self]
      exact ⟨h.nonneg, by omega, rfl⟩
    · obtain ⟨h0, hlt, heq⟩ := h.slot y hy
      have hne : y ≠ x := fun heq => hx (heq ▸ hy)
      rw [Function.update_of_ne hne, Function.update_of_ne hlt.ne]
      exact ⟨h0, by omega, heq⟩
  own i h0 hi := by
    by_cases hlast : i = used
    · rw [hlast, Function.update_self, Function.update_self]
      exact ⟨Set.mem_insert x mem, rfl⟩
    · obtain ⟨hm, heq⟩ := h.own i h0 (by omega)
      have hne : item i ≠ x := fun heq => hx (heq ▸ hm)
      rw [Function.update_of_ne hlast, Function.update_of_ne hne]
      exact ⟨Set.mem_insert_of_mem x hm, heq⟩

/-- What the others have at their slots stays when an item is put in. -/
theorem insert_data (h : Compact item index used mem) (hx : x ∉ mem) (hy : y ∈ mem) (data : ℤ → α) (d : α) :
    Function.update data used d (Function.update index x used y) = data (index y) := by
  have hne : y ≠ x := fun heq => hx (heq ▸ hy)
  rw [Function.update_of_ne hne, Function.update_of_ne (h.slot y hy).2.1.ne]

/-- The last item takes the slot of one that is taken out. -/
theorem remove (h : Compact item index used mem) (hx : x ∈ mem) :
    Compact (Function.update item (index x) (item (used-1)))
      (Function.update index (item (used-1)) (index x)) (used-1) (mem \ {x}) := by
  obtain ⟨hx0, hxlt, hxeq⟩ := h.slot x hx
  obtain ⟨hlast, hlasteq⟩ := h.own (used-1) (by omega) (by omega)
  constructor
  · omega
  · intro y hy
    obtain ⟨hy, hne⟩ := hy
    obtain ⟨hy0, hylt, hyeq⟩ := h.slot y hy
    by_cases hyl : y = item (used-1)
    · have hxl : index x ≠ used-1 := by
        intro heq
        apply hne
        rw [hyl, ← heq]
        exact hxeq
      rw [hyl, Function.update_self, Function.update_self]
      exact ⟨hx0, by omega, rfl⟩
    · have hyx : index y ≠ index x := h.index_ne hx hy hne
      have hyu : index y ≠ used-1 := by
        intro heq
        rw [heq] at hyeq
        exact hyl hyeq.symm
      rw [Function.update_of_ne hyl, Function.update_of_ne hyx]
      exact ⟨hy0, by omega, hyeq⟩
  · intro i h0 hi
    by_cases hix : i = index x
    · have hnex : item (used-1) ≠ x := by
        intro heq
        rw [heq] at hlasteq
        omega
      rw [hix, Function.update_self, Function.update_self]
      exact ⟨⟨hlast, hnex⟩, rfl⟩
    · obtain ⟨hm, heq⟩ := h.own i h0 (by omega)
      have hnex : item i ≠ x := fun he => hix (h.eq_index h0 (by omega) he)
      have hnel : item i ≠ item (used-1) := by
        intro he
        rw [he, hlasteq] at heq
        omega
      rw [Function.update_of_ne hix, Function.update_of_ne hnel]
      exact ⟨⟨hm, hnex⟩, heq⟩

/-- What the others have at their slots moves along when an item is taken out. -/
theorem remove_data (h : Compact item index used mem) (hx : x ∈ mem) (hy : y ∈ mem) (hne : y ≠ x)
    (data : ℤ → α) :
    Function.update data (index x) (data (used-1)) (Function.update index (item (used-1)) (index x) y) =
      data (index y) := by
  obtain ⟨hy0, hylt, hyeq⟩ := h.slot y hy
  by_cases hyl : y = item (used-1)
  · have hlast : index y = used-1 := by
      rw [hyl]
      exact (h.own (used-1) (by omega) (by omega)).2
    rw [hlast, hyl, Function.update_self, Function.update_self]
  · rw [Function.update_of_ne hyl, Function.update_of_ne (h.index_ne hx hy hne)]

end
end Compact
end Dkftpbench
