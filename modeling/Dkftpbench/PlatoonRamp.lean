import Dkftpbench.PlatoonMoves
import Dkftpbench.PlatoonRuns
import Mathlib.Algebra.Order.BigOperators.Group.List

/-!
# How a platoon ramps up

With targets that are set before the first start, no sum of counts gets above its target:
`skedCallback` starts a user only below both, and a callback of a robouser moves no user
into the states that are summed. The counts may be wrong by then, but they cover the
robousers that are there, so `startUser` begins its search inside of the array.
-/
namespace Dkftpbench.Platoon
open CLib Census Faults RobouserState Watch

/-- The targets are in range, and stay as they are from the first start on. -/
def Constant (p : Platoon) : Act → Prop
  | .setNuserTarget utarget _ => (p.next = 0 ∨ utarget = p.nuserTarget) ∧ 0 ≤ utarget ∧ utarget ≤ maxUsers
  | .setNconnectingTarget ctarget _ => (p.next = 0 ∨ ctarget = p.nconnectingTarget) ∧ 0 ≤ ctarget ∧ ctarget ≤ maxUsers
  | .setLastConnectingState s _ => (p.next = 0 ∨ s = p.lastConnectingState) ∧ (s = .connect ∨ s = .connecting)
  | _ => True

/-- Users are only added, in slots that were free. -/
structure Extends (p t : Platoon) : Prop where
  kept : ∀ i id, p.users i = some id → t.users i = some id ∧ t.robousers id = p.robousers id
  added : ∀ i id, t.users i = some id → p.users i = some id ∨ p.users i = none ∧ p.next ≤ id

/-- The sums keep below their targets, and starting users is safe and ends. -/
structure RampsUp (p : Platoon) : Prop where
  alive : p.sumInState .connect .getting ≤ p.nuserTarget
  connecting : p.sumInState .connect p.lastConnectingState ≤ p.nconnectingTarget
  search : ∀ i ≤ maxUsers, (∃ j < maxUsers, p.users j = none) →
    ∃ j < maxUsers, freeSlot p.users maxUsers i = some j ∧ p.users j = none
  start : ∀ a, (∃ j < maxUsers, p.users j = none) →
    ∃ j < maxUsers, p.users j = none ∧ p.startUser a = .ok (0, p.enlisted j a)
  ends : ∀ as : List Start, maxUsers ≤ as.length → ∃ t, { p with queued := none }.skedCallback as = .ok t
  keeps : ∀ as t, { p with queued := none }.skedCallback as = .ok t → Extends p t

/-- The states of the robousers in memory. -/
def states (p : Platoon) (id : ℕ) : Option RobouserState := (p.robousers id).map Robouser.state

/-- What carries this from step to step. -/
structure Ramped (p : Platoon) : Prop where
  fresh : ∀ id, p.next ≤ id → p.robousers id = none
  known : ∀ i id, p.users i = some id → id < p.next
  started : ∀ id r, p.robousers id = some r → r.state ≠ .uninit
  covers : ∀ n s, p.next ≤ n → (tally (Finset.range n) p.states s : ℤ) ≤ p.nInState s
  idle : p.next = 0 → ∀ s, p.nInState s = 0
  nuserTarget : 0 ≤ p.nuserTarget ∧ p.nuserTarget ≤ maxUsers
  nconnectingTarget : 0 ≤ p.nconnectingTarget
  lastConnectingState : p.lastConnectingState = .connect ∨ p.lastConnectingState = .connecting
  alive : p.sumInState .connect .getting ≤ p.nuserTarget
  connecting : p.sumInState .connect p.lastConnectingState ≤ p.nconnectingTarget

section
variable {p t : Platoon} {id : ℕ} {r q : Robouser} {s s' last : RobouserState} {k : Act} {w : World} {a : Start} {i j n : ℕ}

/-! ## The sums -/

theorem sumInState_upTo (p : Platoon) (last : RobouserState) : p.sumInState .connect last = ((upTo last).map p.nInState).sum :=
  rfl

theorem upTo_nodup (last : RobouserState) : (upTo last).Nodup := List.Nodup.filter _ (by decide)

theorem sumInState_moved (h : ∀ x, t.nInState x+(if s = x then 1 else 0) = p.nInState x+if s' = x then 1 else 0)
    (hmem : s' ∈ upTo last → s ∈ upTo last) : t.sumInState .connect last ≤ p.sumInState .connect last := by
  have hsum : ((upTo last).map t.nInState).sum+(upTo last).count s = ((upTo last).map p.nInState).sum+(upTo last).count s' :=
    sum_moved fun x _ => h x
  rw [← sumInState_upTo, ← sumInState_upTo, (upTo_nodup last).count, (upTo_nodup last).count] at hsum
  split_ifs at hsum <;> first | omega | exact absurd (hmem ‹_›) ‹_›

/-- No callback moves a user into the states that are summed. -/
theorem turns_upTo (h : Turns s s') (hs : s ≠ .uninit)
    (hlast : last = .connect ∨ last = .connecting ∨ last = .getting) (hs' : s' ∈ upTo last) : s ∈ upTo last := by
  rw [mem_upTo] at hs' ⊢
  refine ⟨hs, ?_⟩
  rcases h with rfl | rfl | rfl | ⟨hne, hconnect, hconnecting⟩
  · rcases hlast with rfl | rfl | rfl <;> decide
  · exact hs'.2
  · rcases hlast with rfl | rfl | rfl <;> exact absurd hs'.2 (by decide)
  · obtain ⟨hs', hle⟩ := hs'
    rcases hlast with rfl | rfl | rfl
    · cases s' with
      | uninit => exact absurd rfl hs'
      | connect => exact absurd rfl hconnect
      | connecting | startType | finishType | get | getting | stopped => exact absurd hle (by decide)
    · cases s' with
      | uninit => exact absurd rfl hs'
      | connect => exact absurd rfl hconnect
      | connecting => exact absurd rfl hconnecting
      | startType | finishType | get | getting | stopped => exact absurd hle (by decide)
    · exact ((s.isAlive_or hs).resolve_right hne).2

/-! ## The steps -/

theorem Ramped.sum_nonneg (h : Ramped p) (last : RobouserState) : 0 ≤ p.sumInState .connect last := by
  rw [sumInState_upTo]
  apply List.sum_nonneg
  intro x hx
  obtain ⟨s, _, hs⟩ := List.mem_map.1 hx
  have hcovers := h.covers p.next s le_rfl
  omega

/-- The sums do not depend on the rest. -/
theorem Ramped.congr (h : Ramped p) (hnext : t.next = p.next) (hn : t.nInState = p.nInState)
    (husers : ∀ i id, t.users i = some id → p.users i = some id)
    (hrob : ∀ id q, t.robousers id = some q → p.robousers id = some q) (hnuser : t.nuserTarget = p.nuserTarget)
    (hnconn : t.nconnectingTarget = p.nconnectingTarget) (hlast : t.lastConnectingState = p.lastConnectingState) :
    Ramped t := by
  have hsum : ∀ last, t.sumInState .connect last = p.sumInState .connect last := by
    intro last
    rw [sumInState_upTo, sumInState_upTo, hn]
  constructor
  · intro id hid
    rw [hnext] at hid
    by_contra hne
    obtain ⟨q, hq⟩ := Option.ne_none_iff_exists'.1 hne
    have hnone := h.fresh id hid
    rw [hrob id q hq] at hnone
    cases hnone
  · intro i id hi
    rw [hnext]
    exact h.known i id (husers i id hi)
  · exact fun id q hq => h.started id q (hrob id q hq)
  · intro n s hle
    rw [hnext] at hle
    rw [hn]
    have hmono : tally (Finset.range n) t.states s ≤ tally (Finset.range n) p.states s := by
      apply tally_mono
      intro id hid
      obtain ⟨q, hq, hs⟩ := Option.map_eq_some_iff.1 hid
      rw [states, hrob id q hq, Option.map_some, hs]
    have hcovers := h.covers n s hle
    omega
  · intro h0 s
    rw [hn]
    exact h.idle (hnext ▸ h0) s
  · rw [hnuser]
    exact h.nuserTarget
  · rw [hnconn]
    exact h.nconnectingTarget
  · rw [hlast]
    exact h.lastConnectingState
  · rw [hsum, hnuser]
    exact h.alive
  · rw [hsum, hnconn, hlast]
    exact h.connecting

/-- A robouser that moves is taken from one state and put in another. -/
theorem Acts.tally_le (ha : Acts id p t) (hr : p.robousers id = some r) (hq : t.robousers id = some q)
    (hid : id < n) (s : RobouserState) : tally (Finset.range n) t.states s+(if r.state = s then 1 else 0) ≤
      tally (Finset.range n) p.states s+if q.state = s then 1 else 0 := by
  have hmono : tally (Finset.range n) t.states s ≤
      tally (Finset.range n) (Function.update p.states id (some q.state)) s := by
    apply tally_mono
    intro j hj
    obtain ⟨u, hu, hus⟩ := Option.map_eq_some_iff.1 hj
    by_cases hjid : j = id
    · rw [hjid, hq, Option.some.injEq] at hu
      rw [hjid, Function.update_self, hu, hus]
    · rw [Function.update_of_ne hjid, states, ha.others j u hjid hu, Option.map_some, hus]
  have hupdate := @tally_update _ _ _ _ p.states id _ (Finset.mem_range.2 hid) (some q.state) s
  have hat : p.states id = some r.state := by rw [states, hr, Option.map_some]
  rw [hat] at hupdate
  simp only [Option.some.injEq] at hupdate
  omega

/-- What a callback of a robouser preserves. -/
theorem Ramped.acts (h : Ramped p) (hr : p.robousers id = some r) (ha : Acts id p t) (ht : Turned id r.state t) :
    Ramped t := by
  obtain ⟨q', hq', hs', hturn⟩ := ht
  obtain ⟨q, hq, hs, hmoved⟩ := ha.moved r hr (h.started id r hr)
  rw [hq, Option.some.injEq] at hq'
  rw [← hq'] at hs' hturn
  have hlt : id < p.next := by
    by_contra hle
    rw [h.fresh id (not_lt.1 hle)] at hr
    cases hr
  have hback : ∀ last, last = .connect ∨ last = .connecting ∨ last = .getting → q.state ∈ upTo last → r.state ∈ upTo last :=
    fun last hlast => turns_upTo hturn (h.started id r hr) hlast
  constructor
  · intro j hj
    rw [ha.next] at hj
    by_contra hne
    obtain ⟨u, hu⟩ := Option.ne_none_iff_exists'.1 hne
    have hnone := h.fresh j hj
    rw [ha.others j u (by omega) hu] at hnone
    cases hnone
  · intro i j hj
    rw [ha.next]
    exact h.known i j (ha.users i j hj)
  · intro j u hu
    by_cases hj : j = id
    · rw [hj, hq, Option.some.injEq] at hu
      exact hu ▸ hs
    · exact h.started j u (ha.others j u hj hu)
  · intro n s hle
    rw [ha.next] at hle
    have htally := ha.tally_le hr hq (hlt.trans_le hle) s
    have hcovers := h.covers n s hle
    have hcount := hmoved s
    split_ifs at htally hcount <;> omega
  · intro h0
    rw [ha.next] at h0
    omega
  · rw [ha.nuserTarget]
    exact h.nuserTarget
  · rw [ha.nconnectingTarget]
    exact h.nconnectingTarget
  · rw [ha.lastConnectingState]
    exact h.lastConnectingState
  · rw [ha.nuserTarget]
    exact (sumInState_moved hmoved (hback .getting (.inr (.inr rfl)))).trans h.alive
  · rw [ha.nconnectingTarget, ha.lastConnectingState]
    refine (sumInState_moved hmoved (hback _ ?_)).trans h.connecting
    exact h.lastConnectingState.imp_right .inl

theorem sumInState_enlisted (p : Platoon) (i : ℕ) (a : Start) (hlast : .connect ∈ upTo last) :
    (p.enlisted i a).sumInState .connect last = p.sumInState .connect last+1 := by
  have hsum := @sum_moved _ _ p.nInState (p.enlisted i a).nInState (upTo last) .uninit .connect fun s hs => by
    rw [if_neg (mem_upTo.1 hs).1.symm, add_zero]
    exact counted_uninit p.nInState .connect s
  have hno : RobouserState.uninit ∉ upTo last := fun hmem => (mem_upTo.1 hmem).1 rfl
  rw [← sumInState_upTo, ← sumInState_upTo, (upTo_nodup last).count, (upTo_nodup last).count, if_neg hno,
    if_pos hlast, Nat.cast_zero, add_zero, Nat.cast_one] at hsum
  exact hsum

theorem connect_mem_upTo (h : last = .connect ∨ last = .connecting ∨ last = .getting) : .connect ∈ upTo last := by
  rw [mem_upTo]
  refine ⟨by decide, ?_⟩
  rcases h with rfl | rfl | rfl <;> decide

theorem wantsUser_iff : p.wantsUser = true ↔ p.sumInState .stopped .stopped = 0 ∧
    p.sumInState .connect .getting < p.nuserTarget ∧
      p.sumInState .connect p.lastConnectingState < p.nconnectingTarget := decide_eq_true_iff

theorem states_enlisted (p : Platoon) (i : ℕ) (a : Start) :
    (p.enlisted i a).states = Function.update p.states p.next (some .connect) := by
  funext id
  by_cases hid : id = p.next
  · rw [hid, states, enlisted_recruit, Function.update_self]
    rfl
  · rw [Function.update_of_ne hid, states, states]
    exact congrArg _ (Function.update_of_ne hid ..)

/-- What a start preserves. -/
theorem Ramped.enlisted (h : Ramped p) (hwants : p.wantsUser = true) : Ramped (p.enlisted i a) := by
  obtain ⟨_, halive, hconnecting⟩ := wantsUser_iff.1 hwants
  constructor
  · intro id hid
    have hle : p.next+1 ≤ id := hid
    exact (Function.update_of_ne (by omega) ..).trans (h.fresh id (by omega))
  · intro j id hj
    by_cases hji : j = i
    · rw [hji, enlisted_slot, Option.some.injEq] at hj
      rw [← hj]
      exact p.next.lt_succ_self
    · have hj' : p.users j = some id := (Function.update_of_ne hji ..).symm.trans hj
      exact (h.known j id hj').trans p.next.lt_succ_self
  · intro id q hq
    rcases enlisted_cases hq with ⟨_, hrecruit⟩ | ⟨_, hq⟩
    · rw [hrecruit]
      exact RobouserState.noConfusion
    · exact h.started id q hq
  · intro n s hle
    have hlt : p.next < n := hle
    have hupdate := @tally_update _ _ _ _ p.states p.next _ (Finset.mem_range.2 hlt) (some .connect) s
    have hnone : p.states p.next = none := by rw [states, h.fresh _ le_rfl, Option.map_none]
    have hcovers := h.covers n s hlt.le
    have hcount : (p.enlisted i a).nInState s = p.nInState s+if RobouserState.connect = s then 1 else 0 :=
      counted_uninit p.nInState .connect s
    rw [hnone] at hupdate
    rw [states_enlisted]
    simp only [Option.some.injEq, reduceCtorEq, if_false] at hupdate
    split_ifs at hupdate hcount <;> omega
  · exact fun h0 => absurd h0 p.next.succ_ne_zero
  · exact h.nuserTarget
  · exact h.nconnectingTarget
  · exact h.lastConnectingState
  · rw [sumInState_enlisted p i a (connect_mem_upTo (.inr (.inr rfl)))]
    exact halive
  · have hmem := connect_mem_upTo (h.lastConnectingState.imp_right .inl)
    have hsum : (p.enlisted i a).sumInState .connect p.lastConnectingState ≤ p.nconnectingTarget := by
      rw [sumInState_enlisted p i a hmem]
      exact hconnecting
    exact hsum

/-- The number of users alive is a place in the array, or its length. -/
theorem Ramped.sum_range (h : Ramped p) :
    0 ≤ p.sumInState .connect .getting ∧ p.sumInState .connect .getting ≤ maxUsers :=
  ⟨h.sum_nonneg .getting, h.alive.trans h.nuserTarget.2⟩

theorem freeSlot_total (p : Platoon) (hi : i ≤ maxUsers) (h : ∃ j < maxUsers, p.users j = none) :
    ∃ j < maxUsers, freeSlot p.users maxUsers i = some j ∧ p.users j = none := by
  obtain ⟨j, hj, hfree⟩ := h
  obtain ⟨m, hm⟩ := freeSlot_found hi hj hfree (n := maxUsers) (by split <;> omega)
  obtain ⟨hfree', hlt⟩ := freeSlot_spec hi hm
  exact ⟨m, hlt, hm, hfree'⟩

theorem Ramped.start (h : Ramped p) (a : Start) (hfree : ∃ j < maxUsers, p.users j = none) :
    ∃ j < maxUsers, p.users j = none ∧ p.startUser a = .ok (0, p.enlisted j a) := by
  obtain ⟨h0, hle⟩ := h.sum_range
  obtain ⟨j, hj, hslot, hfree⟩ := freeSlot_total p (i := (p.sumInState .connect .getting).toNat) (by omega) hfree
  exact ⟨j, hj, hfree, startUser_found h0 hle hslot⟩

theorem Ramped.startUser_cases (h : Ramped p) (a : Start) : p.startUser a = .ok (EALREADY, p) ∨
    ∃ i, p.users i = none ∧ i < maxUsers ∧ p.startUser a = .ok (0, p.enlisted i a) := by
  obtain ⟨h0, hle⟩ := h.sum_range
  by_cases hfree : ∃ j < maxUsers, p.users j = none
  · obtain ⟨j, hj, hslot, hstart⟩ := h.start a hfree
    exact .inr ⟨j, hslot, hj, hstart⟩
  · refine .inl (startUser_full h0 hle ?_)
    by_contra hne
    obtain ⟨j, hj⟩ := Option.ne_none_iff_exists'.1 hne
    obtain ⟨hslot, hlt⟩ := freeSlot_spec (by omega) hj
    exact hfree ⟨j, hlt, hslot⟩

/-- Each round of the loop brings the number of users alive nearer to the target. -/
theorem Ramped.ends (h : Ramped p) {as : List Start}
    (hlen : p.nuserTarget-p.sumInState .connect .getting ≤ as.length) : ∃ t, p.skedCallback as = .ok t := by
  induction as generalizing p with
  | nil =>
      have hno : ¬p.wantsUser = true := by
        intro hwants
        have halive := (wantsUser_iff.1 hwants).2.1
        rw [List.length_nil] at hlen
        omega
      rw [Platoon.skedCallback, if_neg hno]
      exact ⟨p, rfl⟩
  | cons a as ih =>
      rw [Platoon.skedCallback]
      split
      · next hwants =>
        rcases h.startUser_cases a with hs | ⟨i, hfree, _, hs⟩
        · rw [hs]
          exact ⟨p, rfl⟩
        · rw [hs]
          have hmem : RobouserState.connect ∈ upTo .getting := connect_mem_upTo (.inr (.inr rfl))
          have hsum := sumInState_enlisted p i a hmem
          apply ih (h.enlisted hwants)
          rw [hsum]
          rw [List.length_cons] at hlen
          have htarget : (p.enlisted i a).nuserTarget = p.nuserTarget := rfl
          omega
      · exact ⟨p, rfl⟩

theorem Extends.refl (p : Platoon) : Extends p p := ⟨fun _ _ h => ⟨h, rfl⟩, fun _ _ h => .inl h⟩

theorem Ramped.extends_enlisted (h : Ramped p) (hfree : p.users i = none) (ht : Extends (p.enlisted i a) t) : Extends p t where
  kept j id hj := by
    have hji : j ≠ i := by
      intro heq
      rw [heq, hfree] at hj
      cases hj
    have hid : id ≠ p.next := (h.known j id hj).ne
    obtain ⟨hu, hr⟩ := ht.kept j id ((Function.update_of_ne hji ..).trans hj)
    exact ⟨hu, hr.trans (Function.update_of_ne hid ..)⟩
  added j id hj := by
    rcases ht.added j id hj with hu | ⟨hu, hid⟩
    · by_cases hji : j = i
      · rw [hji, enlisted_slot, Option.some.injEq] at hu
        rw [hji]
        exact .inr ⟨hfree, hu.le⟩
      · exact .inl ((Function.update_of_ne hji ..).symm.trans hu)
    · have hji : j ≠ i := by
        intro heq
        rw [heq, enlisted_slot] at hu
        cases hu
      exact .inr ⟨(Function.update_of_ne hji ..).symm.trans hu, (Nat.le_succ _).trans hid⟩

/-- What the loop preserves. -/
theorem Ramped.skedCallback (h : Ramped p) {as : List Start} :
    Holds Any (fun t => Ramped t ∧ Extends p t) (p.skedCallback as) := by
  induction as generalizing p with
  | nil =>
      rw [Platoon.skedCallback]
      split
      · trivial
      · exact ⟨h, .refl p⟩
  | cons a as ih =>
      rw [Platoon.skedCallback]
      split
      · next hwants =>
        rcases h.startUser_cases a with hs | ⟨i, hfree, _, hs⟩
        · rw [hs]
          exact ⟨h, .refl p⟩
        · rw [hs]
          apply (ih (h.enlisted hwants)).mono
          intro t ht
          obtain ⟨ht, hext⟩ := ht
          exact ⟨ht, h.extends_enlisted hfree hext⟩
      · exact ⟨h, .refl p⟩

/-- Before the first start nobody is counted. -/
theorem Ramped.sum_idle (h : Ramped p) (h0 : p.next = 0) (last : RobouserState) : p.sumInState .connect last = 0 := by
  rw [sumInState_upTo]
  apply List.sum_eq_zero
  intro x hx
  obtain ⟨s, _, hs⟩ := List.mem_map.1 hx
  rw [← hs, h.idle h0 s]

/-- A robouser is called, and may do anything that its code lets it do. -/
theorem Ramped.callUser (h : Ramped p) {f : Platoon → Except Fault Platoon} (hr : p.robousers id = some r)
    (hf : Leads id r.state (p.during id) (f (p.during id))) : Holds Any Ramped (p.callUser id f) := by
  have hduring : Ramped (p.during id) := h.congr rfl rfl (fun _ _ h => h) (fun _ _ h => h) rfl rfl rfl
  apply Holds.bind hf
  intro t ⟨hacts, hturned⟩
  exact (hduring.acts hr hacts hturned).congr rfl rfl (fun _ _ h => h) (fun _ _ h => h) rfl rfl rfl

theorem Ramped.reap (h : Ramped p) : Holds Any Ramped (p.reap w) := by
  apply (reap_reaped p w).mono
  intro t ht
  obtain ⟨users, robousers, deleted, heq⟩ := ht.rest
  apply h.congr _ _ ht.users ht.robousers
  · rw [heq]
  · rw [heq]
  · rw [heq]
  · rw [heq]
  · rw [heq]

theorem Ramped.getStatus (h : Ramped p) : Holds Any (fun x => Ramped x.2) (p.getStatus w) := h.reap.bind fun _ ht => ht

/-- The scheduler has taken the platoon out of its queue. -/
theorem Ramped.dequeued (h : Ramped p) : Ramped { p with queued := none } :=
  h.congr rfl rfl (fun _ _ h => h) (fun _ _ h => h) rfl rfl rfl

/-- What one step preserves. -/
theorem step_ramped (h : Ramped p) (hk : Constant p k) : Holds Any Ramped (p.step k) := by
  cases k with
  | platoonTimer now as =>
      rw [step]
      split
      · exact h.dequeued.skedCallback.mono fun _ ht => ht.1
      · trivial
  | userTimer id now as =>
      rw [step]
      split
      · trivial
      · next r hr =>
        split
        · have hset : Ramped (p.setUser id { r with queued := none }) :=
            h.acts hr (acts_setUser hr rfl) ⟨_, setUser_self, h.started id r hr, .refl r.state⟩
          exact hset.callUser setUser_self (ftpCmdDone_leads setUser_self (h.started id r hr))
        · trivial
  | pipe id c w io as =>
      rw [step]
      split
      · trivial
      · next r hr => exact h.callUser hr (callPipe_leads hr (h.started id r hr) rfl)
  | setNuserTarget utarget k =>
      obtain ⟨hconstant, hrange⟩ := hk
      refine ⟨h.fresh, h.known, h.started, h.covers, h.idle, hrange, h.nconnectingTarget, h.lastConnectingState, ?_,
        h.connecting⟩
      rcases hconstant with h0 | hsame
      · exact (h.sum_idle h0 .getting).le.trans hrange.1
      · exact h.alive.trans hsame.ge
  | setNconnectingTarget ctarget k =>
      obtain ⟨hconstant, hrange⟩ := hk
      refine ⟨h.fresh, h.known, h.started, h.covers, h.idle, h.nuserTarget, hrange.1, h.lastConnectingState, h.alive, ?_⟩
      rcases hconstant with h0 | hsame
      · exact (h.sum_idle h0 _).le.trans hrange.1
      · exact h.connecting.trans hsame.ge
  | setLastConnectingState s k =>
      obtain ⟨hconstant, hlast⟩ := hk
      refine ⟨h.fresh, h.known, h.started, h.covers, h.idle, h.nuserTarget, h.nconnectingTarget, hlast, h.alive, ?_⟩
      rcases hconstant with h0 | hsame
      · exact (h.sum_idle h0 s).le.trans h.nconnectingTarget
      · have hsum := h.connecting
        rw [← hsame] at hsum
        exact hsum
  | reap w => exact h.reap
  | getStatus w => exact h.getStatus.map fun _ hx => hx

theorem init_ramped (settings : Settings) : Ramped (init settings) := by
  constructor
  · exact fun _ _ => rfl
  · intro i id hi
    cases hi
  · exact fun id r hr => (init_robousers settings hr).elim
  · intro n s _
    have hstates : (init settings).states = fun _ => none := rfl
    rw [hstates, tally_empty]
    rfl
  · exact fun _ _ => rfl
  · exact ⟨le_rfl, Int.natCast_nonneg _⟩
  · exact zero_le_one
  · exact .inr rfl
  · exact le_rfl
  · exact zero_le_one

/-- What a whole run preserves. -/
theorem run_ramped {g : Unit} (h : Run platoons (fun p _ k => Constant p k) p g) : Ramped p := by
  apply h.invariant (I := fun p _ => Ramped p)
  · intro p g ⟨settings, hp⟩
    rw [hp]
    exact init_ramped settings
  · intro p g k t hp hk hs
    exact (step_ramped hp hk).result hs

/-- In every run whose targets stay as they are from the first start on, no sum gets above
its target, and `skedCallback` ends and fills slots that are free. -/
theorem ramp_up_safe {g : Unit} (h : Run platoons (fun p _ k => Constant p k) p g) : p.RampsUp := by
  have hp := run_ramped h
  constructor
  · exact hp.alive
  · exact hp.connecting
  · exact fun i hi hfree => freeSlot_total p hi hfree
  · exact fun a hfree => hp.start a hfree
  · intro as hlen
    have hrange := hp.dequeued.sum_range
    have htarget := hp.dequeued.nuserTarget
    exact hp.dequeued.ends (by omega)
  · intro as t ht
    obtain ⟨hkept, hadded⟩ := (hp.dequeued.skedCallback.result ht).2
    exact ⟨hkept, hadded⟩

end

instance (p : Platoon) : (k : Act) → Decidable (Constant p k)
  | .setNuserTarget utarget _ => inferInstanceAs
    (Decidable ((p.next = 0 ∨ utarget = p.nuserTarget) ∧ 0 ≤ utarget ∧ utarget ≤ maxUsers))
  | .setNconnectingTarget ctarget _ => inferInstanceAs
    (Decidable ((p.next = 0 ∨ ctarget = p.nconnectingTarget) ∧ 0 ≤ ctarget ∧ ctarget ≤ maxUsers))
  | .setLastConnectingState s _ => inferInstanceAs
    (Decidable ((p.next = 0 ∨ s = p.lastConnectingState) ∧ (s = .connect ∨ s = .connecting)))
  | .platoonTimer _ _ | .userTimer _ _ _ | .pipe _ _ _ _ _ | .reap _ | .getStatus _ => inferInstanceAs (Decidable True)

/-- Two users are wanted, one connecting at a time, and the first is dead but counted as
connecting. -/
theorem ramp_up_safe_refused : ∃ p g, Run platoons (fun p _ k => Constant p k) p g ∧ p.everDead = [0] ∧
    p.nInState .connecting = 1 ∧ p.RampsUp := by
  have hfollow : (follow (guarded (fun p _ k => Constant p k) fun p k => (p.step k).toOption) platoons.note
      (init modest) () [.setNuserTarget 2 prompt, .platoonTimer 0 [⟨Session.blank, 0, true, prompt⟩],
        .userTimer 0 0 [rough, rough], .reap (Session.calm 0 [])]).map
          (fun r => (r.1.everDead, r.1.nInState .connecting)) = some ([0], 1) := by
    decide +kernel
  obtain ⟨⟨p, g⟩, hr, heq⟩ := Option.map_eq_some_iff.1 hfollow
  obtain ⟨hdead, hconnecting⟩ := Prod.mk.inj heq
  have hrun : Run platoons (fun p _ k => Constant p k) p g :=
    Run.follow_guarded (fun _ _ _ => eq_ok_of_toOption) (.start ⟨modest, rfl⟩) hr
  exact ⟨p, g, hrun, hdead, hconnecting, ramp_up_safe hrun⟩

end Dkftpbench.Platoon
