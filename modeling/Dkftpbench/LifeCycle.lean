import Mathlib.Tactic.TypeStar

/-!
# Life cycles in a log

Resources are known by keys, which may be used again. A discipline says which phase an
operation leads to, if it is allowed; some entries of a log, newest first, are
operations on a key. The life of a key is its phase after the log, or nothing once an
operation on it was not allowed.
-/
namespace Dkftpbench.LifeCycle
variable {κ α φ ε : Type*} [DecidableEq κ]

structure Discipline (κ α φ ε : Type*) where
  unused : φ
  next : φ → α → Option φ
  entry : ε → Option (α × κ)

def Discipline.life (D : Discipline κ α φ ε) (k : κ) : List ε → Option φ
  | [] => some D.unused
  | x :: log =>
    match D.entry x with
    | none => D.life k log
    | some (a, k') => if k' = k then (D.life k log).bind (D.next · a) else D.life k log

variable {D : Discipline κ α φ ε} {k k' : κ} {a : α} {p q : φ} {x : ε} {log : List ε}

/-- An entry that is no operation. -/
theorem life_skip (hx : D.entry x = none) : D.life k (x :: log) = D.life k log := by
  rw [Discipline.life, hx]

/-- An operation on another key. -/
theorem life_other (hx : D.entry x = some (a, k')) (hk : k ≠ k') : D.life k (x :: log) = D.life k log := by
  rw [Discipline.life, hx]
  exact if_neg hk.symm

theorem life_same (hx : D.entry x = some (a, k)) (hp : D.life k log = some p) (hq : D.next p a = some q) :
    D.life k (x :: log) = some q := by
  rw [Discipline.life, hx, hp]
  exact (if_pos rfl).trans hq

/-- Where every operation is allowed, every key has a phase. -/
theorem life_of_total (h : ∀ p a, ∃ q, D.next p a = some q) : ∃ p, D.life k log = some p := by
  induction log with
  | nil => exact ⟨D.unused, rfl⟩
  | cons x log ih =>
      obtain ⟨p, hp⟩ := ih
      cases hx : D.entry x with
      | none => exact ⟨p, (life_skip hx).trans hp⟩
      | some y =>
          obtain ⟨a, k'⟩ := y
          by_cases hk : k = k'
          · subst hk
            obtain ⟨q, hq⟩ := h p a
            exact ⟨q, life_same hx hp hq⟩
          · exact ⟨p, (life_other hx hk).trans hp⟩

end Dkftpbench.LifeCycle
