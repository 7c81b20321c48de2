import Mathlib.Data.List.Basic

/-!
# A place for one item

Items are put in a place that holds one, and taken from it. The history lists both. What
was put in and what was taken agree, up to the item still there, unless an item was put
over another one; from then on there are too few.
-/
namespace Dkftpbench.Slot
variable {α : Type*}

/-- What was put in, what was taken, and whether an item was put over another one. -/
structure History (α : Type*) where
  queued : List α
  taken : List α
  overwritten : Bool

def History.empty : History α := ⟨[], [], false⟩

def History.put (h : History α) (place : Option α) (x : α) : History α :=
  ⟨h.queued ++ [x], h.taken, h.overwritten || place.isSome⟩

def History.take (h : History α) (place : Option α) : History α :=
  ⟨h.queued, h.taken ++ place.toList, h.overwritten⟩

/-- The history fits what the place holds. -/
structure Accounts (place : Option α) (h : History α) : Prop where
  kept : h.overwritten = false → h.queued = h.taken ++ place.toList
  lost : h.overwritten = true → (h.taken ++ place.toList).length < h.queued.length

variable {place : Option α} {h : History α}

theorem accounts_empty : Accounts none (History.empty : History α) := ⟨fun _ => rfl, nofun⟩

theorem Accounts.length_le (ha : Accounts place h) : (h.taken ++ place.toList).length ≤ h.queued.length := by
  cases ho : h.overwritten with
  | false => exact Nat.le_of_eq (congrArg List.length (ha.kept ho).symm)
  | true => exact Nat.le_of_lt (ha.lost ho)

theorem Accounts.put (ha : Accounts place h) (x : α) : Accounts (some x) (h.put place x) := by
  have hle := ha.length_le
  cases place with
  | none =>
      constructor
      · intro ho
        have hkept := ha.kept (by simpa [History.put] using ho)
        simpa [History.put] using hkept
      · intro ho
        have hlost := ha.lost (by simpa [History.put] using ho)
        simpa [History.put] using hlost
  | some y =>
      refine ⟨fun ho => by simp [History.put] at ho, fun _ => ?_⟩
      simp only [History.put, Option.toList_some, List.length_append, List.length_singleton] at hle ⊢
      omega

theorem Accounts.take (ha : Accounts place h) : Accounts none (h.take place) := by
  constructor
  · intro ho
    simpa [History.take] using ha.kept ho
  · intro ho
    simpa [History.take] using ha.lost ho

/-- Nothing is lost exactly where nothing was put over another item. -/
theorem Accounts.kept_iff (ha : Accounts place h) : h.queued = h.taken ++ place.toList ↔ h.overwritten = false := by
  constructor
  · intro heq
    by_contra ho
    have hlt := ha.lost (by simpa using ho)
    rw [← heq] at hlt
    exact Nat.lt_irrefl _ hlt
  · exact ha.kept

end Dkftpbench.Slot
