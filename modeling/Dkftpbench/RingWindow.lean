import Mathlib.Data.List.Basic
import Mathlib.Data.Int.Basic
import Mathlib.Tactic.Common
import Mathlib.Tactic.Linarith
import Mathlib.Tactic.Ring

/-!
# Windows of a ring

A ring of `N` cells is a function on integers read at remainders modulo `N`. Its
window from `g` of length `u` is the list of the cells `g, g+1, ..., g+u-1`. Writing
a contiguous block just after a window, without reaching its start again, appends
the block to the window.

A queue of bounded capacity is given by its runs: a list is put in at the end where
there is room, and a prefix of what is held is taken out.
-/
namespace Dkftpbench.RingWindow
variable {α : Type*} {N g h : ℤ} {f : ℤ → α} {u v : ℕ}

def window (N : ℤ) (f : ℤ → α) (g : ℤ) (u : ℕ) : List α :=
  (List.range u).map fun k : ℕ => f ((g+k) % N)

@[simp] theorem window_length : (window N f g u).length = u := by simp [window]

theorem window_mod (hm : g % N = h % N) : window N f g u = window N f h u := by
  apply List.map_congr_left
  intro k _
  rw [Int.add_emod, hm, ← Int.add_emod]

theorem window_add : window N f g (u+v) = window N f g u ++ window N f (g+u) v := by
  unfold window
  rw [List.range_add, List.map_append, List.map_map]
  congr 1
  apply List.map_congr_left
  intro k _
  simp only [Function.comp, Nat.cast_add, add_assoc]

/-- The window at the end of which a block of cells starts at `p`. -/
def upTo (N : ℤ) (f : ℤ → α) (g p : ℤ) : List α := window N f g ((p-g) % N).toNat

/-- Write a block of consecutive cells. -/
def overwrite (f : ℤ → α) (p : ℤ) (bs : List α) : ℤ → α := fun i =>
  if h : p ≤ i ∧ i < p+bs.length then bs.get ⟨(i-p).toNat, by omega⟩ else f i

theorem window_overwrite_self {p : ℤ} {bs : List α} (hp : 0 ≤ p) (hN : p+bs.length ≤ N) :
    window N (overwrite f p bs) p bs.length = bs := by
  apply List.ext_getElem
  · simp
  · intro k hk hkb
    have hkl : (k : ℤ) < bs.length := by exact_mod_cast hkb
    have hmod : (p+k) % N = p+k := Int.emod_eq_of_lt (by omega) (by omega)
    simp only [window, List.getElem_map, List.getElem_range, hmod]
    rw [overwrite, dif_pos ⟨by omega, by omega⟩, List.get_eq_getElem]
    congr 1
    dsimp only
    omega

/-- Position `k` of the window is not the position `j` places past its end. -/
theorem emod_ne_of_lt {p j k : ℤ} (hk : 0 ≤ k) (hku : k < (p-g) % N) (hj : 0 ≤ j)
    (hfit : (p-g) % N+j < N) : (g+k) % N ≠ p+j := by
  intro he
  have h1 := Int.mul_ediv_add_emod (g+k) N
  have h2 := Int.mul_ediv_add_emod (p-g) N
  rw [he] at h1
  have hz : N*((g+k)/N+(p-g)/N) = k-(p-g) % N-j := by linarith
  rcases Int.lt_or_le ((g+k)/N+(p-g)/N) 0 with hn | hn
  · have : N*((g+k)/N+(p-g)/N) ≤ N*(-1) := by
      apply mul_le_mul_of_nonneg_left <;> omega
    omega
  · have : 0 ≤ N*((g+k)/N+(p-g)/N) := mul_nonneg (by omega) hn
    omega

theorem upTo_overwrite {p : ℤ} {bs : List α} (hN : 0 < N) (hp : 0 ≤ p)
    (hend : p+bs.length ≤ N) (hfit : (p-g) % N+bs.length < N) :
    upTo N (overwrite f p bs) g (p+bs.length) = upTo N f g p ++ bs := by
  have hnn := Int.emod_nonneg (p-g) hN.ne'
  have hlen : ((p+bs.length-g) % N).toNat = ((p-g) % N).toNat+bs.length := by
    have : (p+bs.length-g) % N = (p-g) % N+bs.length := by
      rw [show p+bs.length-g = (p-g)+bs.length by ring, Int.add_emod,
        Int.emod_eq_of_lt (a := (bs.length : ℤ)) (by omega) (by omega)]
      exact Int.emod_eq_of_lt (by omega) hfit
    omega
  rw [upTo, hlen, window_add]
  congr 1
  · apply List.map_congr_left
    intro k hk
    rw [List.mem_range] at hk
    rw [overwrite, dif_neg]
    intro hx
    obtain ⟨h1, h2⟩ := hx
    exact emod_ne_of_lt (N := N) (g := g) (p := p) (k := k) (j := (g+k) % N-p) (by omega)
      (by omega) (by omega) (by omega) (by omega)
  · rw [window_mod (h := p), window_overwrite_self hp hend]
    rw [Int.toNat_of_nonneg hnn, Int.add_emod, Int.emod_emod_of_dvd _ dvd_rfl, ← Int.add_emod]
    congr 1
    ring

theorem upTo_length (hN : 0 < N) {p : ℤ} : ((upTo N f g p).length : ℤ) = (p-g) % N := by
  rw [upTo, window_length]
  exact Int.toNat_of_nonneg (Int.emod_nonneg _ hN.ne')

theorem upTo_mod {p q : ℤ} (h : p % N = q % N) : upTo N f g p = upTo N f g q := by
  rw [upTo, upTo, Int.sub_emod, h, ← Int.sub_emod]

/-- Dropping the first `n` cells of a window. -/
theorem upTo_add {p : ℤ} {n : ℕ} (hN : 0 < N) (hn : n ≤ (p-g) % N) :
    upTo N f g p = window N f g n ++ upTo N f (g+n) p := by
  have hnn := Int.emod_nonneg (p-g) hN.ne'
  have hlt := Int.emod_lt_of_pos (p-g) hN
  have hlen : ((p-(g+n)) % N).toNat+n = ((p-g) % N).toNat := by
    have : (p-(g+n)) % N = (p-g) % N-n := by
      rw [show p-(g+n) = (p-g)-n by ring, Int.sub_emod,
        Int.emod_eq_of_lt (a := (n : ℤ)) (by omega) (by omega)]
      exact Int.emod_eq_of_lt (by omega) (by omega)
    omega
  rw [upTo, ← hlen, Nat.add_comm, window_add, upTo]

theorem upTo_start_mod {p : ℤ} (hm : g % N = h % N) : upTo N f g p = upTo N f h p := by
  rw [upTo, upTo, Int.sub_emod, hm, ← Int.sub_emod]
  exact window_mod hm

/-- The runs of a queue: what it holds, what was put in and what was taken out. -/
inductive QueueRun (cap : ℕ) : List α → List α → List α → Prop
  | start : QueueRun cap [] [] []
  | put {held inp out : List α} (bs : List α) : QueueRun cap held inp out →
      held.length+bs.length ≤ cap → QueueRun cap (held ++ bs) (inp ++ bs) out
  | take {held inp out : List α} (bs : List α) : QueueRun cap (bs ++ held) inp out →
      QueueRun cap held inp (out ++ bs)

theorem QueueRun.conserved {cap : ℕ} {held inp out : List α} (h : QueueRun cap held inp out) :
    inp = out ++ held := by
  induction h with
  | start => rfl
  | put bs _ _ ih => rw [ih, List.append_assoc]
  | take bs _ ih => rw [ih, List.append_assoc]

end Dkftpbench.RingWindow
