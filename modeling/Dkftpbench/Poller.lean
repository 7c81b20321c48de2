import Dkftpbench.CLib
import Mathlib.Data.BitVec

/-!
# What the pollers share, Poller.h
-/
namespace Dkftpbench

/-- `short`, as in `struct pollfd`. -/
abbrev Revents := BitVec 16

def POLLIN : Revents := 0x1
def POLLPRI : Revents := 0x2
def POLLOUT : Revents := 0x4
def POLLERR : Revents := 0x8
def POLLHUP : Revents := 0x10
def POLLNVAL : Revents := 0x20

/-- Some bit of the mask is set. -/
def Revents.has (revents mask : Revents) : Bool := revents &&& mask != 0

/-- The mask is one bit. -/
def Revents.Single (mask : Revents) : Prop := ∃ i < 16, mask = BitVec.twoPow 16 i

namespace Revents
variable {a b m : Revents}

theorem single_in : Single POLLIN := ⟨0, by decide, rfl⟩

theorem single_out : Single POLLOUT := ⟨2, by decide, rfl⟩

theorem has_twoPow {i : ℕ} (hi : i < 16) (a : Revents) : a.has (BitVec.twoPow 16 i) = a.getLsbD i := by
  unfold has
  rw [BitVec.and_twoPow]
  cases h : a.getLsbD i with
  | true =>
    rw [if_pos rfl, bne_iff_ne]
    intro heq
    have hbit := congrArg (fun x => BitVec.getLsbD x i) heq
    simp [hi] at hbit
  | false => rfl

theorem Single.has_or (hm : Single m) : (a ||| b).has m = (a.has m || b.has m) := by
  obtain ⟨i, hi, rfl⟩ := hm
  rw [has_twoPow hi, has_twoPow hi, has_twoPow hi, BitVec.getLsbD_or]

theorem Single.has_and (hm : Single m) : (a &&& b).has m = (a.has m && b.has m) := by
  obtain ⟨i, hi, rfl⟩ := hm
  rw [has_twoPow hi, has_twoPow hi, has_twoPow hi, BitVec.getLsbD_and]

theorem Single.has_not (hm : Single m) : (~~~a).has m = !a.has m := by
  obtain ⟨i, hi, rfl⟩ := hm
  rw [has_twoPow hi, has_twoPow hi, BitVec.getLsbD_not, decide_eq_true hi, Bool.true_and]

theorem Single.has_zero (hm : Single m) : (0 : Revents).has m = false := by
  obtain ⟨i, hi, rfl⟩ := hm
  rw [has_twoPow hi]
  exact BitVec.getLsbD_zero

end Revents

/-- The loop that clears the new elements of an array, each in this way. -/
def clearNew {α : Type*} (f : α → α) (cells : ℤ → α) (alloc n : ℤ) : ℤ → α :=
  fun i => if alloc ≤ i ∧ i < n then f (cells i) else cells i

section
variable {α : Type*} {f : α → α} {cells : ℤ → α} {alloc n i : ℤ}

theorem clearNew_of_lt (h : i < alloc) : clearNew f cells alloc n i = cells i := if_neg fun hge => absurd h (not_lt.2 hge.1)

theorem clearNew_of_ge (h : alloc ≤ i) (hn : i < n) : clearNew f cells alloc n i = f (cells i) := if_pos ⟨h, hn⟩

end

/-- `Poller::PollEvent`; a null pointer is `none`. -/
structure PollEvent (Client : Type*) where
  fd : ℤ
  revents : Revents
  client : Option Client
deriving DecidableEq

end Dkftpbench
