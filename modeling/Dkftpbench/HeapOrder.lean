import Mathlib.Order.Lattice
import Mathlib.Logic.Equiv.Basic
import Mathlib.Tactic.Common

/-!
# Heap order on one-based arrays

The tree is implicit: the parent of slot `i` is slot `i/2`, the root is slot 1 and
slot 0 is unused. An array of keys is a function; only its slots `1, ..., n` are
read. Two arrays that differ by an exchange are related by `Equiv.swap`.

A sift moves one slot, the hole, along a path. Its order invariant has three
strengths: `Hole` says nothing of the key in the hole, `UpAt` bounds it by its
children and `DownAt` by its parent. Exchanging the hole with its parent keeps
`Hole` without any comparison, which is what a removal from the middle needs.
-/
namespace Dkftpbench.HeapOrder
variable {κ : Type*} {k : ℕ → κ} {n h c : ℕ}

section Invariants
variable [LinearOrder κ]

/-- Every slot in use is at or after its parent. -/
def IsHeap (k : ℕ → κ) (n : ℕ) : Prop := ∀ i, 2 ≤ i → i ≤ n → k (i/2) ≤ k i

/-- The pairs that do not touch slot `h` are in order, and the children of `h`
are at or after the parent of `h`. -/
structure Hole (k : ℕ → κ) (n h : ℕ) : Prop where
  off : ∀ i, 2 ≤ i → i ≤ n → i ≠ h → i/2 ≠ h → k (i/2) ≤ k i
  across : ∀ i, i ≤ n → i/2 = h → 2 ≤ h → k (h/2) ≤ k i

/-- The invariant of sifting up: only the pair of `h` and its parent may be wrong. -/
structure UpAt (k : ℕ → κ) (n h : ℕ) : Prop extends Hole k n h where
  below : ∀ i, i ≤ n → i/2 = h → k h ≤ k i

/-- The invariant of sifting down: only the pairs of `h` and its children may be wrong. -/
structure DownAt (k : ℕ → κ) (n h : ℕ) : Prop extends Hole k n h where
  above : 2 ≤ h → k (h/2) ≤ k h

theorem IsHeap.root_le (hk : IsHeap k n) {i : ℕ} (hi : 1 ≤ i) (hn : i ≤ n) : k 1 ≤ k i := by
  induction i using Nat.strongRecOn with
  | ind i ih =>
      rcases Nat.lt_or_ge i 2 with h2 | h2
      · rw [show i = 1 by omega]
      · exact (ih (i/2) (by omega) (by omega) (by omega)).trans (hk i h2 hn)

theorem IsHeap.hole (hk : IsHeap k n) (h : ℕ) : Hole k n h where
  off i h2 hi _ _ := hk i h2 hi
  across i hi hp hh := by
    have hc := hk i (by omega) hi
    rw [hp] at hc
    exact (hk h hh (by omega)).trans hc

theorem Hole.mono (hk : Hole k n h) {m : ℕ} (hm : m ≤ n) : Hole k m h where
  off i h2 hi := hk.off i h2 (Nat.le_trans hi hm)
  across i hi := hk.across i (Nat.le_trans hi hm)

/-- Overwriting the root of a heap whose root is a hole. -/
theorem Hole.downAt_root (hk : Hole k n 1) (x : κ) :
    DownAt (Function.update k 1 x) n 1 where
  off i h2 hi hne hp := by
    rw [Function.update_of_ne hp, Function.update_of_ne hne]
    exact hk.off i h2 hi hne hp
  across i _ _ hh := by omega
  above hh := by omega

theorem UpAt.isHeap (hu : UpAt k n h) (hp : 2 ≤ h → k (h/2) ≤ k h) : IsHeap k n := by
  intro i h2 hi
  by_cases hih : i = h
  · subst hih
    exact hp h2
  · by_cases hph : i/2 = h
    · rw [hph]
      exact hu.below i hi hph
    · exact hu.off i h2 hi hih hph

theorem DownAt.isHeap (hd : DownAt k n h) (hc : ∀ i, i ≤ n → i/2 = h → k h ≤ k i) :
    IsHeap k n := by
  intro i h2 hi
  by_cases hih : i = h
  · subst hih
    exact hd.above h2
  · by_cases hph : i/2 = h
    · rw [hph]
      exact hc i hi hph
    · exact hd.off i h2 hi hih hph

end Invariants

section Exchange

theorem swap_apply_off {i j l : ℕ} (hi : l ≠ i) (hj : l ≠ j) :
    (k ∘ Equiv.swap i j) l = k l := by
  simp [Equiv.swap_apply_of_ne_of_ne hi hj]

@[simp] theorem swap_apply_fst (k : ℕ → κ) (i j : ℕ) : (k ∘ Equiv.swap i j) i = k j := by simp

@[simp] theorem swap_apply_snd (k : ℕ → κ) (i j : ℕ) : (k ∘ Equiv.swap i j) j = k i := by simp

variable [LinearOrder κ]

/-- Raising the hole by one level compares nothing. -/
theorem Hole.raise (hk : Hole k n h) (h2 : 2 ≤ h) (hn : h ≤ n) :
    Hole (k ∘ Equiv.swap h (h/2)) n (h/2) where
  off i hi2 hi hne hp := by
    by_cases hih : i = h
    · exact (hp (by rw [hih])).elim
    · rw [swap_apply_off hih hne]
      by_cases hph : i/2 = h
      · rw [hph, swap_apply_fst]
        exact hk.across i hi hph h2
      · rw [swap_apply_off hph hp]
        exact hk.off i hi2 hi hih hph
  across i hi hp hh := by
    have hg := hk.off (h/2) hh (by omega) (by omega) (by omega)
    rw [swap_apply_off (l := h/2/2) (by omega) (by omega)]
    by_cases hih : i = h
    · rw [hih, swap_apply_fst]
      exact hg
    · rw [swap_apply_off hih (by omega)]
      have hs := hk.off i (by omega) hi hih (by omega)
      rw [hp] at hs
      exact hg.trans hs

/-- One iteration of sifting up: the hole held a key before its parent's. -/
theorem UpAt.raise (hu : UpAt k n h) (h2 : 2 ≤ h) (hn : h ≤ n) (hle : k h ≤ k (h/2)) :
    UpAt (k ∘ Equiv.swap h (h/2)) n (h/2) where
  toHole := hu.toHole.raise h2 hn
  below i hi hp := by
    rw [swap_apply_snd]
    by_cases hih : i = h
    · rw [hih, swap_apply_fst]
      exact hle
    · rw [swap_apply_off hih (by omega)]
      have hs := hu.off i (by omega) hi hih (by omega)
      rw [hp] at hs
      exact hle.trans hs

/-- One iteration of sifting down, exchanging the hole with its least child. -/
theorem DownAt.lower (hd : DownAt k n h) (h1 : 1 ≤ h) (hc : c/2 = h) (hn : c ≤ n)
    (hle : k c ≤ k h) (hmin : ∀ i, i ≤ n → i/2 = h → k c ≤ k i) :
    DownAt (k ∘ Equiv.swap c h) n c where
  off i hi2 hi hne hp := by
    by_cases hih : i = h
    · subst hih
      rw [swap_apply_snd, swap_apply_off (l := i/2) hp (by omega)]
      exact hd.across c hn hc hi2
    · rw [swap_apply_off hne hih]
      by_cases hph : i/2 = h
      · rw [hph, swap_apply_snd]
        exact hmin i hi hph
      · rw [swap_apply_off hp hph]
        exact hd.off i hi2 hi hih hph
  across i hi hp _ := by
    rw [hc, swap_apply_snd, swap_apply_off (l := i) (by omega) (by omega)]
    have hs := hd.off i (by omega) hi (by omega) (by omega)
    rw [hp] at hs
    exact hs
  above _ := by
    rw [hc, swap_apply_snd, swap_apply_fst]
    exact hle

end Exchange
end Dkftpbench.HeapOrder
