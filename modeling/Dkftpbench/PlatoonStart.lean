import Dkftpbench.PlatoonCount

/-!
# How a platoon takes on users

`startUser` fills a free slot with a new robouser, which is alive at once and counted.
So `skedCallback` may start as many as it likes.
-/
namespace Dkftpbench.Platoon
open CLib Census Faults Robouser

/-- A robouser that was just started in a slot. -/
def recruit (p : Platoon) (i : ℕ) (a : Start) : Robouser :=
  { newRobouser a.memory with
    user := i, state := .connect, fcp := (newRobouser a.memory).fcp.init p.maxBytesPerSec
    queued := if a.enqueue then some a.now else none }

/-- The state after a robouser was started in a slot. -/
def enlisted (p : Platoon) (i : ℕ) (a : Start) : Platoon :=
  { p with
    users := Function.update p.users i (some p.next), next := p.next+1
    robousers := Function.update p.robousers p.next (some (p.recruit i a))
    nInState := counted p.nInState .uninit .connect
    queued := if a.wake.enqueue then some a.wake.now else none }

section
variable {once : Prop} {p : Platoon} {i j n : ℕ} {a : Start}

theorem freeSlot_spec {users : ℕ → Option ℕ} (hi : i ≤ maxUsers) (h : freeSlot users n i = some j) :
    users j = none ∧ j < maxUsers := by
  induction n generalizing i with
  | zero => cases h
  | succ n ih =>
      have hlt : (if i = maxUsers then 0 else i) < maxUsers := by
        split
        · decide
        · next hne => exact lt_of_le_of_ne hi hne
      rw [freeSlot] at h
      generalize (if i = maxUsers then 0 else i) = m at h hlt
      split at h
      · next hfree =>
        cases h
        exact ⟨hfree, hlt⟩
      · exact ih hlt h

/-- The search goes round, and finds what it has steps enough to reach. -/
theorem freeSlot_found {users : ℕ → Option ℕ} (hi : i ≤ maxUsers) (hj : j < maxUsers) (hfree : users j = none)
    (hn : (if i ≤ j then j else maxUsers+j) < i+n) : ∃ m, freeSlot users n i = some m := by
  induction n generalizing i with
  | zero =>
      split at hn
      · omega
      · omega
  | succ n ih =>
      have hlt : (if i = maxUsers then 0 else i) < maxUsers := by
        split
        · decide
        · omega
      have hfrom : (if (if i = maxUsers then 0 else i) ≤ j then j else maxUsers+j) < (if i = maxUsers then 0 else i)+(n+1) := by
        split_ifs at hn ⊢ <;> omega
      rw [freeSlot]
      generalize (if i = maxUsers then 0 else i) = m at hlt hfrom ⊢
      split
      · exact ⟨m, rfl⟩
      · next hused =>
        have hne : m ≠ j := fun heq => hused (heq ▸ hfree)
        apply ih hlt
        split_ifs at hfrom ⊢ <;> omega

/-- What `start` makes of a robouser. -/
def readied (p : Platoon) (i : ℕ) (a : Start) (r : Robouser) : Robouser :=
  { r with
    user := i, fcp := r.fcp.init p.maxBytesPerSec, startedAt := 0, bytesFetched := 0, reads := 0
    queued := if a.enqueue then some a.now else none }

theorem start_ok {id : ℕ} {r : Robouser} (hr : p.robousers id = some r) :
    p.start id i a = .ok (0, (p.setUser id (p.readied i a r)).went id (p.readied i a r) .connect a.wake) := by
  rw [start, user_eq hr]
  change ((p.setUser id (p.readied i a r)).gotoState id .connect a.wake >>= _) = _
  rw [gotoState_ok setUser_self (by decide)]
  rfl

theorem startUser_found (h0 : 0 ≤ p.sumInState .connect .getting) (hle : p.sumInState .connect .getting ≤ maxUsers)
    (hi : freeSlot p.users maxUsers (p.sumInState .connect .getting).toNat = some i) :
    p.startUser a = .ok (0, p.enlisted i a) := by
  unfold startUser
  dsimp only
  rw [if_neg (by omega), hi]
  dsimp only
  rw [start_ok (r := newRobouser a.memory) (Function.update_self ..)]
  simp [enlisted, went, setUser, wakeUp, recruit, readied, newRobouser]

theorem startUser_full (h0 : 0 ≤ p.sumInState .connect .getting) (hle : p.sumInState .connect .getting ≤ maxUsers)
    (hnone : freeSlot p.users maxUsers (p.sumInState .connect .getting).toNat = none) :
    p.startUser a = .ok (EALREADY, p) := by
  unfold startUser
  dsimp only
  rw [if_neg (by omega), hnone]

/-- The number of users alive is outside of the array, all slots are taken, or a free
slot is filled. -/
theorem startUser_cases : p.startUser a = .error .bounds ∨ p.startUser a = .ok (EALREADY, p) ∨
    ∃ i, p.users i = none ∧ i < maxUsers ∧ p.startUser a = .ok (0, p.enlisted i a) := by
  by_cases hbounds : p.sumInState .connect .getting < 0 ∨ maxUsers < p.sumInState .connect .getting
  · exact .inl (if_pos hbounds)
  · rw [not_or, not_lt, not_lt] at hbounds
    obtain ⟨h0, hle⟩ := hbounds
    cases hi : freeSlot p.users maxUsers (p.sumInState .connect .getting).toNat with
    | none => exact .inr (.inl (startUser_full h0 hle hi))
    | some i =>
        obtain ⟨hfree, hlt⟩ := freeSlot_spec (by omega) hi
        exact .inr (.inr ⟨i, hfree, hlt, startUser_found h0 hle hi⟩)

theorem counted_uninit (n : RobouserState → ℤ) (newstate s : RobouserState) :
    counted n .uninit newstate s = n s+if newstate = s then 1 else 0 := by
  rw [counted, if_neg (not_not.2 rfl)]
  simp only [Function.update_apply]
  grind

theorem recruit_resting (i : ℕ) (a : Start) : (p.recruit i a).Resting where
  inside := ⟨rfl, rfl⟩
  queued := fun _ => rfl
  unconnected := fun _ => ⟨rfl, rfl, rfl⟩

theorem Linked.users_ne (h : Linked p) {i id : ℕ} (hi : p.users i = some id) : id ≠ p.next := by
  rintro rfl
  obtain ⟨_, q, hq, _⟩ := h.slot i _ hi
  rw [h.fresh _ le_rfl] at hq
  cases hq

theorem enlisted_slot : (p.enlisted i a).users i = some p.next := Function.update_self ..

theorem enlisted_recruit : (p.enlisted i a).robousers p.next = some (p.recruit i a) := Function.update_self ..

theorem enlisted_cases {id : ℕ} {q : Robouser} (hq : (p.enlisted i a).robousers id = some q) :
    id = p.next ∧ q = p.recruit i a ∨ id ≠ p.next ∧ p.robousers id = some q := by
  by_cases hid : id = p.next
  · subst hid
    rw [enlisted_recruit] at hq
    exact .inl ⟨rfl, (Option.some.inj hq).symm⟩
  · exact .inr ⟨hid, (Function.update_of_ne hid ..).symm.trans hq⟩

theorem Linked.enlisted (h : Linked p) (hfree : p.users i = none) (hlt : i < maxUsers) :
    Linked (p.enlisted i a) where
  slot := by
    intro j id hj
    by_cases hji : j = i
    · subst hji
      rw [enlisted_slot] at hj
      exact ⟨hlt, p.recruit j a, Option.some.inj hj ▸ enlisted_recruit, rfl⟩
    · have hj' : p.users j = some id := (Function.update_of_ne hji ..).symm.trans hj
      obtain ⟨hlt, q, hq, hqj⟩ := h.slot j id hj'
      exact ⟨hlt, q, (Function.update_of_ne (h.users_ne hj') ..).trans hq, hqj⟩
  held := by
    intro id q hq
    rcases enlisted_cases hq with ⟨rfl, rfl⟩ | ⟨_, hq⟩
    · exact enlisted_slot
    · have hu := h.held id q hq
      have hne : q.user ≠ i := by
        rintro rfl
        rw [hfree] at hu
        cases hu
      exact (Function.update_of_ne hne ..).trans hu
  fresh := by
    intro id hid
    have hle : p.next+1 ≤ id := hid
    exact (Function.update_of_ne (by omega) ..).trans (h.fresh id (by omega))
  deleted := by
    intro x hx
    obtain ⟨hlt, hnone⟩ := h.deleted x hx
    exact ⟨Nat.lt_succ_of_lt hlt, (Function.update_of_ne hlt.ne ..).trans hnone⟩
  nodup := h.nodup

theorem Sound.enlisted (h : Sound once none p) (hfree : p.users i = none) (hlt : i < maxUsers) :
    Sound once none (p.enlisted i a) := by
  have hnew : p.next ∉ p.everDead := fun hm => absurd (h.everDead _ hm) (lt_irrefl _)
  have hroll : (p.enlisted i a).roll = Function.update p.roll i (some .connect) := by
    funext j
    by_cases hji : j = i
    · subst hji
      rw [Function.update_self, roll, enlisted_slot]
      dsimp only
      rw [if_neg (show p.next ∉ (p.enlisted j a).deadlist from fun hm => hnew (h.dead _ hm)),
        enlisted_recruit]
      rfl
    · have hj : (p.enlisted i a).users j = p.users j := Function.update_of_ne hji ..
      rw [Function.update_of_ne hji, roll, roll, hj]
      cases hu : p.users j with
      | none => rfl
      | some id =>
          have hid : (p.enlisted i a).robousers id = p.robousers id :=
            Function.update_of_ne (h.users_ne hu) ..
          dsimp only
          rw [hid]
          rfl
  constructor
  · exact h.toLinked.enlisted hfree hlt
  · exact h.executing
  · intro id q hq hid
    rcases enlisted_cases hq with ⟨rfl, rfl⟩ | ⟨_, hq⟩
    · exact recruit_resting i a
    · exact h.resting id q hq hid
  · intro id q hq
    rcases enlisted_cases hq with ⟨rfl, rfl⟩ | ⟨_, hq⟩
    · intro hstate
      cases hstate
    · exact h.started id q hq
  · intro id hid
    exact Nat.lt_succ_of_lt (h.everDead id hid)
  · intro id q hq
    rcases enlisted_cases hq with ⟨rfl, rfl⟩ | ⟨_, hq⟩
    · exact iff_of_false (fun hstate => RobouserState.noConfusion hstate) hnew
    · exact h.stopped id q hq
  · intro id q hq hid
    rcases enlisted_cases hq with ⟨rfl, rfl⟩ | ⟨_, hq⟩
    · exact absurd hid hnew
    · exact h.listed id q hq hid
  · exact h.dead
  · intro s hs
    have hcount := @tally_update _ _ _ _ p.roll i _ (Finset.mem_range.2 hlt) (some .connect) s
    have hempty : p.roll i = none := by rw [roll, hfree]
    have hc := h.counts s hs
    rw [← hroll, hempty, if_neg (Option.some_ne_none _).symm] at hcount
    change counted p.nInState .uninit .connect s = ((tally _ _ s : ℕ) : ℤ)
    change p.nInState s = ((tally _ _ s : ℕ) : ℤ) at hc
    rw [counted_uninit]
    simp only [Option.some.injEq] at hcount
    split_ifs at hcount ⊢ <;> omega
  · exact (counted_uninit p.nInState .connect .stopped).trans ((add_zero _).trans h.ndead)
  · intro ho
    obtain ⟨hnodup, hthere⟩ := h.once ho
    refine ⟨hnodup, fun id hid => ?_⟩
    obtain ⟨q, hq⟩ := hthere id hid
    have hne : id ≠ p.next := by
      rintro rfl
      exact hnew (h.dead _ hid)
    exact ⟨q, (Function.update_of_ne hne ..).trans hq⟩

theorem Sound.skedCallback {as : List Start} (h : Sound once none p) :
    Holds (Tolerated once) (Sound once none) (skedCallback as p) := by
  induction as generalizing p with
  | nil =>
      rw [Platoon.skedCallback]
      split
      · exact fun _ => ⟨nofun, nofun⟩
      · exact h
  | cons a as ih =>
      rw [Platoon.skedCallback]
      split
      · rcases startUser_cases (p := p) (a := a) with hs | hs | ⟨i, hfree, hlt, hs⟩
        · rw [hs]
          exact fun _ => ⟨nofun, nofun⟩
        · rw [hs]
          exact h
        · rw [hs]
          exact ih (h.enlisted hfree hlt)
      · exact h

end
end Dkftpbench.Platoon
