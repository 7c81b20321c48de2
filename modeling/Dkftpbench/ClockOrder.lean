import Dkftpbench.EventClock

/-!
# The order of clock values, eclock.h

`clock_t` has `c` bits and `long` has `l`, and `int` has 32. The ticks of the day are
counted as `long` and narrowed to `int`, widened to `clock_t`, and a difference of two
clock values is compared as `long`. Where both are wider than `int` the difference no
longer wraps as the ticks do.
-/
namespace Dkftpbench.WallClock
open EventClock

/-- What `gettimeofday` tells. -/
structure Timeval where
  tvSec : ℤ
  tvUsec : ℤ

def eclockTicksperusec : ℤ := 100

/-- The ticks, as they are before any narrowing. -/
def Timeval.ticks (t : Timeval) : ℤ := t.tvSec*eclockHertz+t.tvUsec.tdiv eclockTicksperusec

/-- `eclock()`, whose type is `int`. -/
def eclock (l : ℕ) (t : Timeval) : BitVec 32 :=
  (BitVec.ofInt l t.tvSec*BitVec.ofInt l eclockHertz+BitVec.ofInt l (t.tvUsec.tdiv eclockTicksperusec)).setWidth 32

/-- The clock value at an instant. -/
def clock (c l : ℕ) (t : Timeval) : BitVec c := (eclock l t).signExtend c

/-- The difference that the comparisons look at. -/
def diff {c : ℕ} (l : ℕ) (a b : BitVec c) : ℤ := ((a-b).signExtend l).toInt

def eclockAfter {c : ℕ} (l : ℕ) (a b : BitVec c) : Bool := diff l a b > 0

def eclockBefore {c : ℕ} (l : ℕ) (a b : BitVec c) : Bool := diff l a b < 0

/-- The deadline of `connect`, where two values of type `int` are added. -/
def connectDeadline (c l : ℕ) (t : Timeval) (d : ℤ) : BitVec c := (eclock l t+BitVec.ofInt 32 d).signExtend c

/-- The deadline of `get`, where the clock value was stored before. -/
def getDeadline (c l : ℕ) (t : Timeval) (d : ℤ) : BitVec c := clock c l t+BitVec.ofInt c d

/-- The comparisons tell which instant is the later one. -/
structure Ordered (c l : ℕ) (b a : Timeval) : Prop where
  after : eclockAfter l (clock c l a) (clock c l b) = true
  before : eclockBefore l (clock c l b) (clock c l a) = true
  not_after : eclockAfter l (clock c l b) (clock c l a) = false
  not_before : eclockBefore l (clock c l a) (clock c l b) = false

/-- `runAll` leaves both deadlines alone as long as less than `d` ticks have passed. -/
def Waits (c l : ℕ) (b : Timeval) (d : ℤ) : Prop :=
  ∀ now : Timeval, b.ticks ≤ now.ticks → now.ticks < b.ticks+d →
    eclockAfter l (connectDeadline c l b d) (clock c l now) = true ∧
      eclockAfter l (getDeadline c l b d) (clock c l now) = true

/-- How often an `int` has wrapped that counts so many ticks. -/
def turn (t : ℤ) : ℤ := (t+2^31)/2^32

section
variable {c l : ℕ} {x y d s t : ℤ} {a b : Timeval}

/-- With `long` as wide as `clock_t`. -/
theorem eclockAfter_eq {w : ℕ} (a b : BitVec w) : eclockAfter w a b = EventClock.eclockAfter a b := by
  rw [eclockAfter, diff, BitVec.signExtend_eq, EventClock.eclockAfter]

theorem setWidth_ofInt (hl : 32 ≤ l) : (BitVec.ofInt l x).setWidth 32 = BitVec.ofInt 32 x := by
  rw [← BitVec.signExtend_eq_setWidth_of_le _ hl]
  apply BitVec.eq_of_toInt_eq
  rw [BitVec.toInt_signExtend_eq_toInt_bmod_of_le _ hl, BitVec.toInt_ofInt, BitVec.toInt_ofInt,
    Int.bmod_bmod_of_dvd (Nat.pow_dvd_pow 2 hl)]

theorem eclock_eq (hl : 32 ≤ l) (t : Timeval) : eclock l t = BitVec.ofInt 32 t.ticks := by
  rw [eclock, BitVec.setWidth_add _ _ hl, BitVec.setWidth_mul _ _ hl, setWidth_ofInt hl, setWidth_ofInt hl,
    setWidth_ofInt hl, ← BitVec.ofInt_mul, ← BitVec.ofInt_add, Timeval.ticks]

theorem bmod_eq (t : ℤ) : t.bmod (2^32) = t-2^32*turn t := by
  rw [Int.bmod_eq_iff (by decide)]
  unfold turn
  omega

theorem clock_eq (hl : 32 ≤ l) (t : Timeval) : clock c l t = BitVec.ofInt c (t.ticks-2^32*turn t.ticks) := by
  rw [clock, eclock_eq hl, BitVec.signExtend, BitVec.toInt_ofInt, bmod_eq]

theorem connectDeadline_eq (hl : 32 ≤ l) (t : Timeval) :
    connectDeadline c l t d = BitVec.ofInt c (t.ticks+d-2^32*turn (t.ticks+d)) := by
  rw [connectDeadline, eclock_eq hl, ← BitVec.ofInt_add, BitVec.signExtend, BitVec.toInt_ofInt, bmod_eq]

theorem getDeadline_eq (hl : 32 ≤ l) (t : Timeval) :
    getDeadline c l t d = BitVec.ofInt c (t.ticks-2^32*turn t.ticks+d) := by
  rw [getDeadline, clock_eq hl, ← BitVec.ofInt_add]

theorem ofInt_sub (x y : ℤ) : BitVec.ofInt c x-BitVec.ofInt c y = BitVec.ofInt c (x-y) := by
  have hsum : BitVec.ofInt c x = BitVec.ofInt c (x-y)+BitVec.ofInt c y := by
    rw [← BitVec.ofInt_add, Int.sub_add_cancel]
  rw [hsum, BitVec.add_sub_cancel]

/-- The smaller width counts. -/
theorem diff_ofInt : diff l (BitVec.ofInt c x) (BitVec.ofInt c y) = (x-y).bmod (2^min l c) := by
  rw [diff, BitVec.toInt_signExtend, ofInt_sub, BitVec.toInt_ofInt,
    Int.bmod_bmod_of_dvd (Nat.pow_dvd_pow 2 (Nat.min_le_right l c))]

/-- Where a width is that of `int`, the difference wraps as the ticks do. -/
theorem diff_narrow (hmin : min l c = 32) (hdvd : 2^32 ∣ d-(x-y)) (hlo : -2^31 ≤ d) (hhi : d < 2^31) :
    diff l (BitVec.ofInt c x) (BitVec.ofInt c y) = d := by
  rw [diff_ofInt, hmin, Int.bmod_eq_iff (by decide)]
  omega

/-- Otherwise it does not wrap. -/
theorem diff_wide (hmin : 32 < min l c) (hlo : -2^32 ≤ x-y) (hhi : x-y < 2^32) :
    diff l (BitVec.ofInt c x) (BitVec.ofInt c y) = x-y := by
  have hpow : 2^33 ≤ 2^min l c := Nat.pow_le_pow_right (by decide) hmin
  rw [diff_ofInt]
  apply Int.bmod_eq_of_le_mul_two
  · omega
  · omega

theorem turn_mono (h : s ≤ t) : turn s ≤ turn t := by
  unfold turn
  omega

/-- An `int` wraps at most once in a time that can be compared. -/
theorem turn_add (h0 : 0 < d) (hd : d < 2^31) : turn (t+d) = turn t ∨ turn (t+d) = turn t+1 := by
  unfold turn
  omega

theorem int_range (t : ℤ) : -2^31 ≤ t-2^32*turn t ∧ t-2^32*turn t < 2^31 := by
  unfold turn
  omega

/-- The difference of two clock values, where the width of `int` plays no part. -/
theorem diff_clock_wide (hmin : 32 < min l c) (a b : Timeval) :
    diff l (clock c l a) (clock c l b) = a.ticks-b.ticks-2^32*(turn a.ticks-turn b.ticks) := by
  have hl : 32 ≤ l := by omega
  have ha := int_range a.ticks
  have hb := int_range b.ticks
  rw [clock_eq hl, clock_eq hl, diff_wide hmin]
  · omega
  · omega
  · omega

theorem diff_clock_narrow (hmin : min l c = 32) (hlo : -2^31 ≤ a.ticks-b.ticks) (hhi : a.ticks-b.ticks < 2^31) :
    diff l (clock c l a) (clock c l b) = a.ticks-b.ticks := by
  have hl : 32 ≤ l := by omega
  rw [clock_eq hl, clock_eq hl]
  apply diff_narrow hmin _ hlo hhi
  omega

theorem ordered_of_diff (hab : 0 < diff l (clock c l a) (clock c l b)) (hba : diff l (clock c l b) (clock c l a) < 0) :
    Ordered c l b a := by
  refine ⟨?_, ?_, ?_, ?_⟩
  · exact decide_eq_true hab
  · exact decide_eq_true hba
  · exact decide_eq_false (by omega)
  · exact decide_eq_false (by omega)

theorem ordered_iff (hc : 32 ≤ c) (hl : 32 ≤ l) (h0 : 0 < d) (hd : d < 2^31) (ha : a.ticks = b.ticks+d) :
    Ordered c l b a ↔ c = 32 ∨ l = 32 ∨ turn b.ticks = turn a.ticks := by
  by_cases hmin : min l c = 32
  · refine iff_of_true ?_ (by omega)
    apply ordered_of_diff
    · rw [diff_clock_narrow hmin (by omega) (by omega)]
      omega
    · rw [diff_clock_narrow hmin (by omega) (by omega)]
      omega
  · have hwide : 32 < min l c := by omega
    have hab := diff_clock_wide hwide a b
    have hba := diff_clock_wide hwide b a
    rw [ha] at hab hba ⊢
    constructor
    · intro hordered
      have hafter : 0 < diff l (clock c l a) (clock c l b) := of_decide_eq_true hordered.after
      have hturn := turn_add (t := b.ticks) h0 hd
      omega
    · intro hcond
      apply ordered_of_diff
      · omega
      · omega

/-- Both deadlines are compared right while the `int` does not wrap, or wraps with the difference. -/
theorem waits_of (hc : 32 ≤ c) (hl : 32 ≤ l) (hd : d < 2^31)
    (hcond : c = 32 ∨ l = 32 ∨ turn b.ticks = turn (b.ticks+d)) : Waits c l b d := by
  intro now hfrom hto
  rw [connectDeadline_eq hl, getDeadline_eq hl, clock_eq hl, eclockAfter, eclockAfter]
  rw [decide_eq_true_iff, decide_eq_true_iff]
  by_cases hmin : min l c = 32
  · have hpos : b.ticks+d-now.ticks > 0 := by omega
    rw [diff_narrow hmin (d := b.ticks+d-now.ticks) (by omega) (by omega) (by omega),
      diff_narrow hmin (d := b.ticks+d-now.ticks) (by omega) (by omega) (by omega)]
    exact ⟨hpos, hpos⟩
  · have hwide : 32 < min l c := by omega
    have hlow := turn_mono hfrom
    have hhigh := turn_mono hto.le
    rw [diff_wide hwide (by omega) (by omega), diff_wide hwide (by omega) (by omega)]
    omega

/-- Two instants less than half the range of `int` apart are compared right, and a deadline
is waited for, if and only if a width is that of `int` or the `int` does not wrap between
the two. -/
theorem clock_order_iff (hc : 32 ≤ c) (hl : 32 ≤ l) (h0 : 0 < d) (hd : d < 2^31) (ha : a.ticks = b.ticks+d) :
    Ordered c l b a ∧ Waits c l b d ↔ c = 32 ∨ l = 32 ∨ turn b.ticks = turn a.ticks := by
  rw [ordered_iff hc hl h0 hd ha, and_iff_left_iff_imp, ha]
  exact waits_of hc hl hd

end

/-- Hours before the `int` wraps. -/
theorem clock_order_fine : Ordered 64 64 ⟨200000, 0⟩ ⟨200005, 0⟩ ∧ Waits 64 64 ⟨200000, 0⟩ 50000 :=
  (clock_order_iff (by decide) (by decide) (by decide) (by decide) (by decide)).2 (.inr (.inr (by decide)))

/-- The `int` wraps between two instants that are one tick apart. -/
theorem clock_order_wrapped : ¬ ∀ (c l : ℕ) (b a : Timeval) (d : ℤ), (c = 32 ∨ c = 64) → (l = 32 ∨ l = 64) →
    0 < d → d < 2^31 → a.ticks = b.ticks+d → Ordered c l b a ∧ Waits c l b d := by
  intro hall
  have hordered := (hall 64 64 ⟨214748, 364700⟩ ⟨214748, 364800⟩ 1 (by decide) (by decide) (by decide) (by decide)
    (by decide)).1
  have hwrong : eclockAfter 64 (clock 64 64 ⟨214748, 364800⟩) (clock 64 64 ⟨214748, 364700⟩) = false := by
    decide +kernel
  rw [hordered.after] at hwrong
  cases hwrong

end Dkftpbench.WallClock
