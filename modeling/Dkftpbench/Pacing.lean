import Mathlib.Algebra.BigOperators.Group.List.Basic
import Mathlib.Tactic.Linarith
import Mathlib.Tactic.Ring

/-!
# Pacing

Amounts are taken one after the other at a rate of `B` for `H` ticks: each is paid for
by a sleep, and the next is not taken before the sleep is over. A sleep is a whole number
of ticks; what it does not pay for is carried over to the next payment. In two ways of
rounding the carried amount stays below what `B+H` pays for, and so does the error of
the whole account.
-/
namespace Dkftpbench.Pacing
variable {B H N T n sleep carry carry' wake wake' now : ℤ} {taken : List (ℤ × ℤ)}

/-- A payment for `N`, and what it carries over. -/
structure Pays (B H N sleep carry : ℤ) : Prop where
  sleep_nonneg : 0 ≤ sleep
  carry_nonneg : 0 ≤ carry
  le : carry ≤ N
  small : H*carry < B+H
  paid : H*(N-carry) ≤ B*sleep

/-- Round the sleep down to ticks, and what it pays for down to whole units. -/
theorem pays_fine (hB : 0 < B) (hH : 0 < H) (hN : 0 ≤ N) :
    Pays B H N (N*H/B) (N-N*H/B*B/H) := by
  have hsleep : 0 ≤ N*H/B := Int.ediv_nonneg (mul_nonneg hN hH.le) hB.le
  have hle : N*H/B*B ≤ N*H := Int.ediv_mul_le _ hB.ne'
  have hlt : N*H < N*H/B*B+B := Int.lt_ediv_add_one_mul_self _ hB |>.trans_eq (by ring)
  have hle' : N*H/B*B/H*H ≤ N*H/B*B := Int.ediv_mul_le _ hH.ne'
  have hlt' : N*H/B*B < N*H/B*B/H*H+H := Int.lt_ediv_add_one_mul_self _ hH |>.trans_eq (by ring)
  have hunits : 0 ≤ N*H/B*B/H := Int.ediv_nonneg (mul_nonneg hsleep hB.le) hH.le
  constructor
  · exact hsleep
  · have h : N*H/B*B/H ≤ N := le_of_mul_le_mul_right (hle'.trans hle) hH
    linarith
  · linarith
  · linarith
  · linarith

/-- Count the sleep in ticks of `T` units. -/
theorem pays_coarse (hT : 0 < T) (hH : 0 < H) (hB : H*T ≤ B) (hN : 0 ≤ N) :
    Pays B H N (N/T) (N%T) := by
  have hsleep : 0 ≤ N/T := Int.ediv_nonneg hN hT.le
  have hlt : N%T < T := Int.emod_lt_of_pos N hT
  have heq : T*(N/T)+N%T = N := Int.mul_ediv_add_emod N T
  constructor
  · exact hsleep
  · exact Int.emod_nonneg N hT.ne'
  · linarith [mul_nonneg hT.le hsleep]
  · have h : H*(N%T) < H*T := mul_lt_mul_of_pos_left hlt hH
    linarith
  · have h : H*T*(N/T) ≤ B*(N/T) := mul_le_mul_of_nonneg_right hB hsleep
    have hpaid : N-N%T = T*(N/T) := by linarith
    calc H*(N-N%T) = H*T*(N/T) := by rw [hpaid, mul_assoc]
      _ ≤ B*(N/T) := h

def total (taken : List (ℤ × ℤ)) : ℤ := (taken.map Prod.fst).sum

/-- The time of the first amount; the newest stands first. -/
def start (taken : List (ℤ × ℤ)) : Option ℤ := taken.getLast?.map Prod.snd

/-- Before each amount no more was taken than the time since the first one pays for,
but for a constant. -/
def Law (B H : ℤ) (taken : List (ℤ × ℤ)) : Prop :=
  ∀ n t l t₁, (n, t) :: l <:+ taken → start taken = some t₁ → H*total l ≤ B*(t-t₁)+B+H

/-- All that was taken is paid for until `wake`, up to `carry`. -/
structure Account (B H : ℤ) (taken : List (ℤ × ℤ)) (carry wake : ℤ) : Prop where
  carry_nonneg : 0 ≤ carry
  small : H*carry < B+H
  empty : taken = [] → carry = 0
  owed : ∀ t₁, start taken = some t₁ → H*total taken ≤ B*(wake-t₁)+H*carry
  law : Law B H taken

theorem Account.opened (hB : 0 < B) (hH : 0 < H) : Account B H [] 0 wake where
  carry_nonneg := le_rfl
  small := by linarith
  empty _ := rfl
  owed := nofun
  law n t l t₁ hl := by cases List.suffix_nil.1 hl

theorem Account.later (h : Account B H taken carry wake) (hB : 0 < B) (hle : wake ≤ wake') :
    Account B H taken carry wake' where
  carry_nonneg := h.carry_nonneg
  small := h.small
  empty := h.empty
  owed t₁ ht := by
    have hmul : B*(wake-t₁) ≤ B*(wake'-t₁) := mul_le_mul_of_nonneg_left (by linarith) hB.le
    linarith [h.owed t₁ ht]
  law := h.law

/-- What was carried over is paid for, as far as it goes. -/
theorem Account.rest (h : Account B H taken carry now) (hp : Pays B H carry sleep carry') :
    Account B H taken carry' (now+sleep) where
  carry_nonneg := hp.carry_nonneg
  small := hp.small
  empty he := le_antisymm (hp.le.trans (h.empty he).le) hp.carry_nonneg
  owed t₁ ht := by linarith [h.owed t₁ ht, hp.paid]
  law := h.law

theorem start_cons (x y : ℤ × ℤ) (taken : List (ℤ × ℤ)) : start (x :: y :: taken) = start (y :: taken) := by
  rw [start, List.getLast?_cons_cons, start]

/-- An amount is taken when the last sleep is over. -/
theorem Account.take (h : Account B H taken carry now) (hH : 0 < H)
    (hp : Pays B H (n+carry) sleep carry') : Account B H ((n, now) :: taken) carry' (now+sleep) := by
  have htotal : total ((n, now) :: taken) = n+total taken := by
    rw [total, List.map_cons, List.sum_cons, total]
  have hpaid := hp.paid
  constructor
  · exact hp.carry_nonneg
  · exact hp.small
  · nofun
  · intro t₁ ht
    rw [htotal]
    cases taken with
    | nil =>
        have ht₁ : now = t₁ := Option.some.inj ht
        have hzero : total [] = 0 := rfl
        rw [h.empty rfl] at hpaid
        rw [hzero, ← ht₁]
        linarith
    | cons y l =>
        rw [start_cons] at ht
        linarith [h.owed t₁ ht]
  · intro m t l t₁ hl ht
    cases taken with
    | nil =>
        have ht₁ : now = t₁ := Option.some.inj ht
        rcases List.suffix_cons_iff.1 hl with heq | hnil
        · cases heq
          have hzero : total [] = 0 := rfl
          rw [hzero, ht₁]
          linarith [h.small, mul_nonneg hH.le h.carry_nonneg]
        · cases List.suffix_nil.1 hnil
    | cons y l' =>
        rw [start_cons] at ht
        rcases List.suffix_cons_iff.1 hl with heq | hl
        · cases heq
          linarith [h.owed t₁ ht, h.small]
        · exact h.law m t l t₁ hl ht

end Dkftpbench.Pacing
