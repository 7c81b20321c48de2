import Mathlib.Data.BitVec
import Mathlib.Tactic.Common

/-!
# The event clock

`clock_t` and `long` have the same width `w`; a clock value is a `BitVec w` and the
comparisons of eclock.h subtract modulo `2^w` and read the difference as signed.
Times are totally ordered by these comparisons only inside a window shorter than
half the range of `long`; there they agree with the offsets from its start.
-/
namespace Dkftpbench.EventClock
variable {w : ℕ}

/-- eclock.h: `a` is after `b`. -/
def eclockAfter (a b : BitVec w) : Bool := 0 < (a-b).toInt

/-- eclock.h: ticks per second. -/
def eclockHertz : ℕ := 10000

/-- Ticks from the start of a window to `t`. -/
def offset (base t : BitVec w) : ℕ := (t-base).toNat

/-- The window of times less than half the range of `long` from `base`. -/
def InWindow (base t : BitVec w) : Prop := offset base t < 2^(w-1)

instance (base t : BitVec w) : Decidable (InWindow base t) :=
  inferInstanceAs (Decidable (_ < _))

theorem toInt_sub_of_window {base a b : BitVec w} (ha : InWindow base a)
    (hb : InWindow base b) : (a-b).toInt = (offset base a : ℤ) - offset base b := by
  rcases Nat.eq_zero_or_pos w with rfl | hw
  · rw [BitVec.of_length_zero (x := a - b)]
    simp only [offset, BitVec.of_length_zero (x := a - base), BitVec.of_length_zero (x := b - base)]
    rfl
  have hp : 2^w = 2*2^(w-1) := by
    obtain ⟨v,rfl⟩ := Nat.exists_eq_succ_of_ne_zero hw.ne'
    rw [Nat.succ_sub_one, pow_succ']
  have he : a - b = (a - base) - (b - base) := by
    rw [BitVec.sub_sub, BitVec.add_comm, BitVec.sub_add_cancel]
  rw [he, BitVec.toInt_sub, BitVec.toInt_eq_toNat_of_lt, BitVec.toInt_eq_toNat_of_lt]
  · unfold InWindow offset at *
    rw [Int.bmod_eq_of_le] <;> omega
  · unfold InWindow offset at hb
    omega
  · unfold InWindow offset at ha
    omega

theorem eclockAfter_iff {base a b : BitVec w} (ha : InWindow base a)
    (hb : InWindow base b) : eclockAfter a b = true ↔ offset base b < offset base a := by
  simp only [eclockAfter, decide_eq_true_eq, toInt_sub_of_window ha hb]
  omega

theorem eclockAfter_eq_false_iff {base a b : BitVec w} (ha : InWindow base a)
    (hb : InWindow base b) : eclockAfter a b = false ↔ offset base a ≤ offset base b := by
  rw [← Bool.not_eq_true, eclockAfter_iff ha hb, not_lt]

@[simp] theorem eclockAfter_self (a : BitVec w) : eclockAfter a a = false := by
  simp [eclockAfter]

theorem add_offset (base now : BitVec w) : base+BitVec.ofInt w (offset base now) = now := by
  rw [offset, BitVec.ofInt_natCast, BitVec.ofNat_toNat, BitVec.setWidth_eq, BitVec.add_comm,
    BitVec.sub_add_cancel]

/-- A time given by its distance from the start of the window, which need not be in it. -/
theorem eclockAfter_add (base now : BitVec w) (wake : ℤ) (hw : 0 < w)
    (hlo : -2^(w-1) ≤ wake-offset base now) (hhi : wake-offset base now < 2^(w-1)) :
    eclockAfter (base+BitVec.ofInt w wake) now = true ↔ (offset base now : ℤ) < wake := by
  have hsub : base+BitVec.ofInt w wake-now = BitVec.ofInt w (wake-offset base now) := by
    have hsplit : BitVec.ofInt w wake =
        BitVec.ofInt w (wake-offset base now)+BitVec.ofInt w (offset base now) := by
      rw [← BitVec.ofInt_add, Int.sub_add_cancel]
    rw [hsplit, BitVec.add_comm (BitVec.ofInt w _), ← BitVec.add_assoc, add_offset, BitVec.add_comm,
      BitVec.add_sub_cancel]
  rw [eclockAfter, hsub, BitVec.toInt_ofInt_eq_self hw hlo hhi, decide_eq_true_eq]
  omega

end Dkftpbench.EventClock
