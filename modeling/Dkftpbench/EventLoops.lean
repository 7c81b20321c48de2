import Dkftpbench.Sked

/-!
# How long the event loops sleep, bench.cc and CorbaPlatoon_impl.cc

Both loops turn the ticks until the next event into the milliseconds that they pass to
`waitForEvents`. The division rounds toward zero, so an event that is overdue by a
fraction of a millisecond still gives one, and one that is overdue by two a negative
number. Only `main` has a look at the sign.

`clock_t` has `w` bits, and `int` has 32.
-/
namespace Dkftpbench.EventLoops
open EventClock

section
variable {Client : Type} {w : ℕ}

/-- `tixUntilNextEvent`. -/
def tixUntilNextEvent (sked : Sked Client w) (now tixPerSecond : BitVec w) : BitVec w :=
  sked.nextTime (now+tixPerSecond)-now

/-- `msUntilNextEvent` as it is first, narrowed to `int`. -/
def msUntilNextEvent (sked : Sked Client w) (now tixPerSecond : BitVec w) : BitVec 32 :=
  ((tixUntilNextEvent sked now tixPerSecond*BitVec.ofInt w 1000).sdiv tixPerSecond+BitVec.ofInt w 1).signExtend 32

/-- What `main` passes to `waitForEvents`. -/
def mainTimeout (sked : Sked Client w) (now : BitVec w) : BitVec 32 :=
  let ms := msUntilNextEvent sked now (BitVec.ofInt w eclockHertz)
  if ms.toInt < 0 then 0 else ms

/-- What `perform_work` passes to it, where `m_tix_per_second` is an `int`. -/
def performWorkTimeout (sked : Sked Client w) (now : BitVec w) : BitVec 32 :=
  msUntilNextEvent sked now ((BitVec.ofInt 32 eclockHertz).signExtend w)

/-- The ticks until the next event, negative if it is overdue. One second if there is none. -/
def ticksLeft (sked : Sked Client w) (now : BitVec w) : ℤ :=
  match sked.top with
  | none => eclockHertz
  | some r => r.when.toInt-now.toInt

/-- The product fits in a `clock_t`, and so does the difference. -/
structure Fits (sked : Sked Client w) (now : BitVec w) : Prop where
  low : -2^(w-1) ≤ ticksLeft sked now*1000
  high : ticksLeft sked now*1000 < 2^(w-1)

/-- A timeout that is no wait for ever, and at most one millisecond longer than the time left. -/
structure Timely (left : ℤ) (timeout : BitVec 32) : Prop where
  nonneg : 0 ≤ timeout.toInt
  short : (timeout.toInt-1)*eclockHertz ≤ max 0 left*1000

structure SleepAlike (sked : Sked Client w) (now : BitVec w) : Prop where
  same : performWorkTimeout sked now = mainTimeout sked now
  timely : Timely (ticksLeft sked now) (performWorkTimeout sked now)

/-- The milliseconds, rounded toward zero. -/
def msLeft (left : ℤ) : ℤ := (left*1000).tdiv eclockHertz

/-- Fewer than two milliseconds overdue, and not as far ahead as an `int` cannot tell. An
`int` counts milliseconds modulo `2^32`. -/
def Near (left : ℤ) : Prop :=
  (0 ≤ left → (left/10+1)%2^32 < 2^31) ∧ (left < 0 → -left/10%2^32 ≤ 1)

instance (left : ℤ) : Decidable (Near left) := inferInstanceAs (Decidable (_ ∧ _))
end

section
variable {Client : Type} {w : ℕ} {sked : Sked Client w} {now : BitVec w} {left x : ℤ}

theorem msLeft_of_nonneg (h : 0 ≤ left) : msLeft left = left/10 := by
  have hprod : 0 ≤ left*1000 := by omega
  rw [msLeft, Int.tdiv_eq_ediv_of_nonneg hprod]
  change left*1000/10000 = left/10
  omega

theorem msLeft_of_neg (h : left < 0) : msLeft left = -(-left/10) := by
  have hprod : 0 ≤ -left*1000 := by omega
  have hneg : left*1000 = -(-left*1000) := by omega
  rw [msLeft, hneg, Int.neg_tdiv, Int.tdiv_eq_ediv_of_nonneg hprod]
  change -(-left*1000/10000) = -(-left/10)
  omega

theorem pow_pred_le (hw : 32 ≤ w) : (2:ℤ)^31 ≤ 2^(w-1) := by
  have hle : 31 ≤ w-1 := by omega
  exact_mod_cast Nat.pow_le_pow_right (show 0 < 2 by decide) hle

/-- A constant of the code is read as it is written. -/
theorem toInt_ofInt (hw : 32 ≤ w) (hlo : -2^31 ≤ x) (hhi : x < 2^31) : (BitVec.ofInt w x).toInt = x := by
  have hpow := pow_pred_le hw
  apply BitVec.toInt_ofInt_eq_self
  · omega
  · omega
  · omega

/-- An operation whose result fits gives the result. -/
theorem bmod_fits (hw : 32 ≤ w) (hlo : -2^(w-1) ≤ x) (hhi : x < 2^(w-1)) : x.bmod (2^w) = x := by
  rw [← BitVec.toInt_ofInt]
  apply BitVec.toInt_ofInt_eq_self
  · omega
  · exact hlo
  · exact hhi

theorem tixPerSecond_eq (hw : 32 ≤ w) :
    (BitVec.ofInt 32 eclockHertz).signExtend w = BitVec.ofInt w eclockHertz := by
  apply BitVec.eq_of_toInt_eq
  rw [BitVec.toInt_signExtend_of_le hw, toInt_ofInt hw (by decide) (by decide)]
  decide

theorem toInt_tixUntilNextEvent (hw : 32 ≤ w) (hf : Fits sked now) :
    (tixUntilNextEvent sked now (BitVec.ofInt w eclockHertz)).toInt = ticksLeft sked now := by
  obtain ⟨hlow, hhigh⟩ := hf
  unfold ticksLeft at hlow hhigh ⊢
  unfold tixUntilNextEvent Sked.nextTime
  cases htop : sked.top with
  | none =>
      dsimp only
      rw [BitVec.add_comm, BitVec.add_sub_cancel]
      exact toInt_ofInt hw (by decide) (by decide)
  | some r =>
      rw [htop] at hlow hhigh
      dsimp only at hlow hhigh ⊢
      rw [BitVec.toInt_sub]
      apply bmod_fits hw
      · omega
      · omega

theorem toInt_msUntilNextEvent (hw : 32 ≤ w) (hf : Fits sked now) :
    (msUntilNextEvent sked now (BitVec.ofInt w eclockHertz)).toInt =
      (msLeft (ticksLeft sked now)+1).bmod (2^32) := by
  have hpow := pow_pred_le hw
  have htix := toInt_tixUntilNextEvent hw hf
  have hmul : (tixUntilNextEvent sked now (BitVec.ofInt w eclockHertz)*BitVec.ofInt w 1000).toInt =
      ticksLeft sked now*1000 := by
    rw [BitVec.toInt_mul, htix, toInt_ofInt hw (by decide) (by decide)]
    exact bmod_fits hw hf.low hf.high
  obtain ⟨hlow, hhigh⟩ := hf
  generalize ticksLeft sked now = left at *
  have hms : -2^(w-1) ≤ msLeft left ∧ msLeft left+1 < 2^(w-1) := by
    rcases lt_or_ge left 0 with hneg | hnonneg
    · rw [msLeft_of_neg hneg]
      omega
    · rw [msLeft_of_nonneg hnonneg]
      omega
  rw [msUntilNextEvent, BitVec.toInt_signExtend_eq_toInt_bmod_of_le _ hw, BitVec.toInt_add,
    BitVec.toInt_sdiv, hmul, toInt_ofInt hw (by decide) (by decide), toInt_ofInt hw (by decide) (by decide)]
  change (((msLeft left).bmod (2^w)+1).bmod (2^w)).bmod (2^32) = _
  rw [bmod_fits hw hms.1 (by omega), bmod_fits hw (by omega) hms.2]

theorem toInt_performWorkTimeout (hw : 32 ≤ w) (hf : Fits sked now) :
    (performWorkTimeout sked now).toInt = (msLeft (ticksLeft sked now)+1).bmod (2^32) := by
  rw [performWorkTimeout, tixPerSecond_eq hw]
  exact toInt_msUntilNextEvent hw hf

theorem mainTimeout_eq (hw : 32 ≤ w) : mainTimeout sked now =
    if (performWorkTimeout sked now).toInt < 0 then 0 else performWorkTimeout sked now := by
  rw [mainTimeout, performWorkTimeout, tixPerSecond_eq hw]

theorem near_iff {v : ℤ} (hv : v = (msLeft left+1).bmod (2^32)) :
    Near left ↔ 0 ≤ v ∧ (v-1)*eclockHertz ≤ max 0 left*1000 := by
  have hhertz : (eclockHertz : ℤ) = 10000 := rfl
  rw [Int.bmod_def] at hv
  rw [hhertz]
  unfold Near
  rcases lt_or_ge left 0 with hneg | hnonneg
  · rw [msLeft_of_neg hneg] at hv
    omega
  · rw [msLeft_of_nonneg hnonneg] at hv
    omega

/-- `main` never waits for ever. -/
theorem mainTimeout_nonneg (hw : 32 ≤ w) : 0 ≤ (mainTimeout sked now).toInt := by
  rw [mainTimeout_eq hw]
  split
  · decide
  · next h => exact not_lt.1 h

/-- As long as an `int` can count the milliseconds, `main` is as early as it should be. -/
theorem mainTimeout_timely (hw : 32 ≤ w) (hf : Fits sked now) (hlo : -10*(2^31) ≤ ticksLeft sked now)
    (hhi : ticksLeft sked now < 10*(2^31-1)) : Timely (ticksLeft sked now) (mainTimeout sked now) := by
  refine ⟨mainTimeout_nonneg hw, ?_⟩
  have hv := toInt_performWorkTimeout hw hf
  have hhertz : (eclockHertz : ℤ) = 10000 := rfl
  rw [mainTimeout_eq hw, hhertz]
  generalize performWorkTimeout sked now = v at *
  generalize ticksLeft sked now = left at *
  split
  · change (0-1)*10000 ≤ max 0 left*1000
    omega
  · rw [hv, Int.bmod_def]
    rcases lt_or_ge left 0 with hneg | hnonneg
    · rw [msLeft_of_neg hneg] at hv ⊢
      omega
    · rw [msLeft_of_nonneg hnonneg]
      omega

/-- For a difference that an `int` can tell: fewer than twenty ticks overdue. -/
theorem near_of_small (hlo : -10*(2^31) ≤ left) (hhi : left < 10*(2^31-1)) : Near left ↔ -20 < left := by
  unfold Near
  omega

/-- The two loops sleep alike, and not too long, if the next event is not overdue by two
milliseconds. -/
theorem sleep_alike_iff (hw : 32 ≤ w) (hf : Fits sked now) :
    SleepAlike sked now ↔ Near (ticksLeft sked now) := by
  rw [near_iff (toInt_performWorkTimeout hw hf)]
  constructor
  · intro h
    exact ⟨h.timely.nonneg, h.timely.short⟩
  · rintro ⟨hnonneg, hshort⟩
    refine ⟨?_, hnonneg, hshort⟩
    rw [mainTimeout_eq hw, if_neg (not_lt.2 hnonneg)]

end

/-- One event, queued for the tick `t`. -/
def queuedFor (t : ℤ) : Sked Unit 64 :=
  { Sked.fresh fun _ => ⟨(), BitVec.ofInt 64 t⟩ with allocated := 256, used := 1, skedIndex := fun _ => 1 }

theorem sleep_alike_iff_soon : SleepAlike (queuedFor 100) 95 ↔ Near 5 :=
  sleep_alike_iff (by decide) ⟨by decide, by decide⟩

/-- Two milliseconds late, `perform_work` waits for ever, and `main` does not wait. -/
theorem sleep_alike_overdue : ¬ ∀ (sked : Sked Unit 64) (now : BitVec 64), Fits sked now →
    SleepAlike sked now := by
  intro hall
  have h := hall (queuedFor 100) 120 ⟨by decide, by decide⟩
  have hvalue : (performWorkTimeout (queuedFor 100) 120).toInt = -1 := by decide
  have hnonneg := h.timely.nonneg
  rw [hvalue] at hnonneg
  exact absurd hnonneg (by decide)

end Dkftpbench.EventLoops
