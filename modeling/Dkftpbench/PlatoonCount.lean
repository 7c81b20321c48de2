import Dkftpbench.Platoon
import Dkftpbench.Census
import Dkftpbench.Faults

/-!
# The head count of a platoon

`Linked` says that `m_users` and the robousers in memory belong together, and `Sound`
that what the platoon counts is what is there, between the callbacks of all robousers
but the busy one. Each change that the code makes to a robouser's state keeps them. With
`once`, no robouser is put on the dead list twice, and then nothing that was deleted is
used, and nothing is deleted that is busy and not on the list.
-/
namespace Dkftpbench
open CLib

namespace RobouserState

theorem isAlive_or (s : RobouserState) (hs : s ≠ .uninit) : s.IsAlive ∨ s = .stopped := by
  cases s with
  | uninit => exact absurd rfl hs
  | stopped => exact .inr rfl
  | connect | connecting | startType | finishType | get | getting => exact .inl (by decide)

theorem IsAlive.ne_stopped {s : RobouserState} (h : s.IsAlive) : s ≠ .stopped := by
  rintro rfl
  exact absurd h (by decide)

theorem IsAlive.ne_uninit {s : RobouserState} (h : s.IsAlive) : s ≠ .uninit := by
  rintro rfl
  exact absurd h (by decide)

end RobouserState

namespace Robouser

/-- A robouser between its callbacks. -/
structure Resting (r : Robouser) : Prop where
  inside : r.fcp.callbacks = 0 ∧ r.fcp.inFtpCmdDone = 0
  queued : r.queued ≠ none → r.state = .connect
  unconnected : r.state = .connect → r.fcp.cfd = -1 ∧ r.fcp.dfd = -1 ∧ r.fcp.queued = none

end Robouser

namespace Platoon
open Census Faults Robouser

/-- The state of the user in a slot, unless it is on the dead list. -/
def roll (p : Platoon) (i : ℕ) : Option RobouserState :=
  match p.users i with
  | none => none
  | some id => if id ∈ p.deadlist then none else (p.robousers id).map Robouser.state

/-- The number of robousers in `m_users` in a state that are not on the dead list. -/
def headcount (p : Platoon) (s : RobouserState) : ℕ := tally (Finset.range maxUsers) p.roll s

structure Linked (p : Platoon) : Prop where
  slot : ∀ i id, p.users i = some id → i < maxUsers ∧ ∃ r, p.robousers id = some r ∧ r.user = i
  held : ∀ id r, p.robousers id = some r → p.users r.user = some id
  fresh : ∀ id, p.next ≤ id → p.robousers id = none
  deleted : ∀ x ∈ p.deleted, x.1 < p.next ∧ p.robousers x.1 = none
  nodup : (p.deleted.map Prod.fst).Nodup

structure Sound (once : Prop) (busy : Option ℕ) (p : Platoon) : Prop extends Linked p where
  executing : p.executing = busy
  resting : ∀ id r, p.robousers id = some r → busy ≠ some id → r.Resting
  started : ∀ id r, p.robousers id = some r → r.state ≠ .uninit
  everDead : ∀ id ∈ p.everDead, id < p.next
  stopped : ∀ id r, p.robousers id = some r → (r.state = .stopped ↔ id ∈ p.everDead)
  listed : ∀ id r, p.robousers id = some r → id ∈ p.everDead → id ∈ p.deadlist
  dead : ∀ id ∈ p.deadlist, id ∈ p.everDead
  counts : ∀ s, s.IsAlive → p.nInState s = p.headcount s
  ndead : p.nInState .stopped = p.everDead.toFinset.card
  once : once → p.deadlist.Nodup ∧ ∀ id ∈ p.deadlist, ∃ r, p.robousers id = some r

/-- The faults that are out of the question if every robouser is to die once. -/
def Tolerated (once : Prop) (f : Fault) : Prop := once → f ≠ .freed ∧ f ≠ .executing

/-- What `countStateChange` does to the counts. -/
def counted (n : RobouserState → ℤ) (oldstate newstate : RobouserState) : RobouserState → ℤ :=
  let n := if oldstate ≠ .uninit then Function.update n oldstate (n oldstate-1) else n
  Function.update n newstate (n newstate+1)

section
variable {once : Prop} {busy : Option ℕ} {p t : Platoon} {id : ℕ} {r u : Robouser}
  {newstate : RobouserState} {k : Wake} {w : World}

theorem counted_add (n : RobouserState → ℤ) {oldstate : RobouserState} (hold : oldstate ≠ .uninit)
    (newstate s : RobouserState) : counted n oldstate newstate s+(if oldstate = s then 1 else 0) =
      n s+if newstate = s then 1 else 0 := by
  unfold counted
  rw [if_pos hold]
  simp only [Function.update_apply]
  grind

theorem user_eq (hr : p.robousers id = some r) : p.user id = .ok r := by rw [user, hr]

theorem gotoState_eq (hr : p.robousers id = some r) (hnew : newstate ≠ .uninit) :
    p.gotoState id newstate k = .ok (({ p with nInState := counted p.nInState r.state newstate }.wakeUp k).setUser id
      { r with state := newstate }) := by
  rw [gotoState, user_eq hr]
  change (p.countStateChange r.state newstate k >>= _) = _
  rw [countStateChange, if_neg hnew]
  rfl

@[simp] theorem setUser_self : (p.setUser id u).robousers id = some u := Function.update_self ..

/-- What holds of one robouser as it is now and of the others as before. -/
theorem forall_setUser {P : ℕ → Robouser → Prop} (hself : P id u)
    (hother : ∀ j q, j ≠ id → p.robousers j = some q → P j q) (j : ℕ) (q : Robouser)
    (hq : (p.setUser id u).robousers j = some q) : P j q := by
  by_cases hj : j = id
  · rw [hj, setUser_self, Option.some.injEq] at hq
    rw [hj, ← hq]
    exact hself
  · exact hother j q hj ((Function.update_of_ne hj ..).symm.trans hq)

theorem setUser_there {j : ℕ} (h : ∃ q, p.robousers j = some q) : ∃ q, (p.setUser id u).robousers j = some q := by
  by_cases hj : j = id
  · exact ⟨u, hj ▸ setUser_self⟩
  · obtain ⟨q, hq⟩ := h
    exact ⟨q, (Function.update_of_ne hj ..).trans hq⟩

theorem Linked.lt_next (h : Linked p) (hr : p.robousers id = some r) : id < p.next := by
  by_contra hle
  exact absurd (h.fresh id (not_lt.1 hle)) (by simp [hr])

/-- Who holds another slot is another robouser. -/
theorem Linked.ne_of_slot (h : Linked p) (hr : p.robousers id = some r) {i j : ℕ} (hi : p.users i = some j)
    (hne : i ≠ r.user) : j ≠ id := by
  rintro rfl
  obtain ⟨_, q, hq, hqi⟩ := h.slot i j hi
  rw [hr, Option.some.injEq] at hq
  exact hne (hq ▸ hqi.symm)

theorem Linked.setUser (h : Linked p) (hr : p.robousers id = some r) (hu : u.user = r.user) :
    Linked (p.setUser id u) where
  slot := by
    intro i j hi
    obtain ⟨hlt, q, hq, hqi⟩ := h.slot i j hi
    refine ⟨hlt, ?_⟩
    by_cases hj : j = id
    · subst hj
      rw [hr, Option.some.injEq] at hq
      exact ⟨u, Function.update_self .., by rw [hu, hq, hqi]⟩
    · exact ⟨q, (Function.update_of_ne hj ..).trans hq, hqi⟩
  held := by
    apply forall_setUser
    · exact hu ▸ h.held id r hr
    · exact fun j q _ => h.held j q
  fresh := by
    intro j hj
    have hne : j ≠ id := by
      rintro rfl
      exact absurd (h.fresh j hj) (by simp [hr])
    exact (Function.update_of_ne hne ..).trans (h.fresh j hj)
  deleted := by
    intro x hx
    obtain ⟨hlt, hnone⟩ := h.deleted x hx
    have hne : x.1 ≠ id := by
      rintro heq
      exact absurd (heq ▸ hnone) (by simp [hr])
    exact ⟨hlt, (Function.update_of_ne hne ..).trans hnone⟩
  nodup := h.nodup

/-- One robouser changes, or its membership in the dead list. -/
theorem roll_change (h : Linked p) (hr : p.robousers id = some r) (husers : t.users = p.users)
    (hrob : t.robousers = Function.update p.robousers id (some u))
    (hdead : ∀ j, j ≠ id → (j ∈ t.deadlist ↔ j ∈ p.deadlist)) :
    t.roll = Function.update p.roll r.user (if id ∈ t.deadlist then none else some u.state) := by
  funext i
  by_cases hi : i = r.user
  · subst hi
    rw [Function.update_self, roll, husers, h.held id r hr, hrob]
    dsimp only
    rw [Function.update_self]
    rfl
  · rw [Function.update_of_ne hi, roll, roll, husers]
    cases hj : p.users i with
    | none => rfl
    | some j =>
        have hne : j ≠ id := h.ne_of_slot hr hj hi
        dsimp only
        rw [hrob, Function.update_of_ne hne]
        simp only [hdead j hne]

theorem roll_user (h : Linked p) (hr : p.robousers id = some r) :
    p.roll r.user = if id ∈ p.deadlist then none else some r.state := by
  rw [roll, h.held id r hr]
  dsimp only
  rw [hr]
  rfl

theorem user_lt (h : Linked p) (hr : p.robousers id = some r) : r.user ∈ Finset.range maxUsers :=
  Finset.mem_range.2 (h.slot _ _ (h.held id r hr)).1

theorem Sound.mem_deadlist (h : Sound once busy p) (hr : p.robousers id = some r) :
    id ∈ p.deadlist ↔ r.state = .stopped :=
  ⟨fun hm => (h.stopped id r hr).2 (h.dead id hm), fun hs => h.listed id r hr ((h.stopped id r hr).1 hs)⟩

/-- A robouser changes in what is not counted. -/
theorem Sound.setUser (h : Sound once busy p) (hr : p.robousers id = some r) (hu : u.user = r.user)
    (hs : u.state = r.state) (hrest : busy ≠ some id → u.Resting) : Sound once busy (p.setUser id u) := by
  have hroll : (p.setUser id u).roll = p.roll := by
    rw [roll_change h.toLinked hr (t := p.setUser id u) (u := u) rfl rfl (fun _ _ => Iff.rfl)]
    refine (congrArg (Function.update _ _) ?_).trans (Function.update_eq_self ..)
    rw [roll_user h.toLinked hr, hs]
    rfl
  constructor
  · exact h.toLinked.setUser hr hu
  · exact h.executing
  · apply forall_setUser
    · exact hrest
    · exact fun j q _ hq => h.resting j q hq
  · apply forall_setUser
    · exact hs ▸ h.started id r hr
    · exact fun j q _ => h.started j q
  · exact h.everDead
  · apply forall_setUser
    · exact hs ▸ h.stopped id r hr
    · exact fun j q _ => h.stopped j q
  · apply forall_setUser
    · exact h.listed id r hr
    · exact fun j q _ => h.listed j q
  · exact h.dead
  · intro s hs
    rw [headcount, hroll]
    exact h.counts s hs
  · exact h.ndead
  · intro ho
    exact ⟨(h.once ho).1, fun j hj => setUser_there ((h.once ho).2 j hj)⟩

/-- What is not counted does not matter. -/
theorem Sound.others (h : Sound once busy p) (last : RobouserState) (nconnecting nuser nreads : ℤ)
    (bytes : BitVec 64) (queued : Option Clock) : Sound once busy { p with
      lastConnectingState := last, nconnectingTarget := nconnecting, nuserTarget := nuser
      nreads := nreads, bytesFetched := bytes, queued := queued } :=
  ⟨⟨h.slot, h.held, h.fresh, h.deleted, h.nodup⟩, h.executing, h.resting, h.started, h.everDead, h.stopped,
    h.listed, h.dead, h.counts, h.ndead, h.once⟩

theorem headcount_update (h : Linked p) (hr : p.robousers id = some r) {x : Option RobouserState}
    (hroll : t.roll = Function.update p.roll r.user x) (s : RobouserState) :
    t.headcount s+(if p.roll r.user = some s then 1 else 0) = p.headcount s+if x = some s then 1 else 0 := by
  rw [headcount, hroll]
  exact tally_update (user_lt h hr) x s

/-- The state after `gotoState`. -/
def went (p : Platoon) (id : ℕ) (r : Robouser) (newstate : RobouserState) (k : Wake) : Platoon :=
  ({ p with nInState := counted p.nInState r.state newstate }.wakeUp k).setUser id { r with state := newstate }

theorem gotoState_ok (hr : p.robousers id = some r) (hnew : newstate ≠ .uninit) :
    p.gotoState id newstate k = .ok (p.went id r newstate k) := gotoState_eq hr hnew

theorem stop_ok (hr : p.robousers id = some r) :
    p.stop id k = .ok ((p.went id r .stopped k).addToDeadlist id) := by
  rw [stop, gotoState_ok hr (show RobouserState.stopped ≠ .uninit by decide)]
  rfl

/-- A user that is alive goes on to another state. -/
theorem Sound.went (h : Sound once busy p) (hr : p.robousers id = some r) (hold : r.state.IsAlive)
    (hnew : newstate.IsAlive) (hrest : busy ≠ some id → { r with state := newstate }.Resting) :
    Sound once busy (p.went id r newstate k) := by
  have hlive : id ∉ p.deadlist := fun hm => hold.ne_stopped ((h.mem_deadlist hr).1 hm)
  have hnot : id ∉ p.everDead := fun hm => hold.ne_stopped ((h.stopped id r hr).2 hm)
  have hroll := roll_change h.toLinked hr (t := p.went id r newstate k) rfl rfl (fun _ _ => Iff.rfl)
  rw [if_neg (show id ∉ (p.went id r newstate k).deadlist from hlive)] at hroll
  constructor
  · have hl := h.toLinked.setUser (u := { r with state := newstate }) hr rfl
    exact ⟨hl.slot, hl.held, hl.fresh, hl.deleted, hl.nodup⟩
  · exact h.executing
  · apply forall_setUser
    · exact hrest
    · exact fun j q _ hq => h.resting j q hq
  · apply forall_setUser
    · exact hnew.ne_uninit
    · exact fun j q _ => h.started j q
  · exact h.everDead
  · apply forall_setUser
    · exact iff_of_false hnew.ne_stopped hnot
    · exact fun j q _ => h.stopped j q
  · apply forall_setUser
    · exact fun hj => absurd hj hnot
    · exact fun j q _ => h.listed j q
  · exact h.dead
  · intro s hs
    have hcount := headcount_update h.toLinked hr hroll s
    rw [roll_user h.toLinked hr, if_neg hlive] at hcount
    have hadd := counted_add p.nInState hold.ne_uninit newstate s
    have hc := h.counts s hs
    change counted p.nInState r.state newstate s = _
    simp only [Option.some.injEq] at hcount
    split_ifs at hcount hadd <;> omega
  · have hadd := counted_add p.nInState hold.ne_uninit newstate .stopped
    rw [if_neg hold.ne_stopped, if_neg hnew.ne_stopped] at hadd
    exact (by omega : counted p.nInState r.state newstate .stopped = p.nInState .stopped).trans h.ndead
  · intro ho
    exact ⟨(h.once ho).1, fun j hj => setUser_there ((h.once ho).2 j hj)⟩

/-- A user stops, for the first time or again. -/
theorem Sound.died (h : Sound once busy p) (hr : p.robousers id = some r) (hx : once → r.state ≠ .stopped)
    (hrest : busy ≠ some id → { r with state := .stopped }.Resting) :
    Sound once busy ((p.went id r .stopped k).addToDeadlist id) := by
  have hmem := h.mem_deadlist hr
  have hroll := roll_change h.toLinked hr (t := (p.went id r .stopped k).addToDeadlist id) rfl rfl
    (fun j hj => by simp [addToDeadlist, Platoon.went, Platoon.setUser, Platoon.wakeUp, hj])
  rw [if_pos (by simp [addToDeadlist])] at hroll
  constructor
  · have hl := h.toLinked.setUser (u := { r with state := .stopped }) hr rfl
    exact ⟨hl.slot, hl.held, hl.fresh, hl.deleted, hl.nodup⟩
  · exact h.executing
  · apply forall_setUser
    · exact hrest
    · exact fun j q _ hq => h.resting j q hq
  · apply forall_setUser
    · exact RobouserState.noConfusion
    · exact fun j q _ => h.started j q
  · intro j hj
    rcases List.mem_cons.1 hj with rfl | hj
    · exact h.lt_next hr
    · exact h.everDead j hj
  · apply forall_setUser
    · exact iff_of_true rfl List.mem_cons_self
    · exact fun j q hne hq => (h.stopped j q hq).trans (List.mem_cons.trans (or_iff_right hne)).symm
  · apply forall_setUser
    · exact fun _ => List.mem_append_right _ List.mem_cons_self
    · intro j q hne hq hj
      exact List.mem_append_left _ (h.listed j q hq ((List.mem_cons.1 hj).resolve_left hne))
  · intro j hj
    rcases List.mem_append.1 hj with hj | hj
    · exact .tail _ (h.dead j hj)
    · exact List.mem_singleton.1 hj ▸ .head _
  · intro s hs
    have hcount := headcount_update h.toLinked hr hroll s
    rw [roll_user h.toLinked hr] at hcount
    have hadd := counted_add p.nInState (h.started id r hr) .stopped s
    have hc := h.counts s hs
    have hne := hs.ne_stopped
    change counted p.nInState r.state .stopped s = _
    rw [if_neg hne.symm] at hadd
    by_cases hdead : r.state = .stopped
    · rw [if_pos (hmem.2 hdead)] at hcount
      rw [hdead, if_neg hne.symm] at hadd
      simp only [reduceCtorEq, if_false] at hcount
      rw [hdead]
      omega
    · rw [if_neg (fun hm => hdead (hmem.1 hm))] at hcount
      simp only [Option.some.injEq, reduceCtorEq, if_false] at hcount
      split_ifs at hcount hadd <;> omega
  · have hadd := counted_add p.nInState (h.started id r hr) .stopped .stopped
    have hn := h.ndead
    change counted p.nInState r.state .stopped .stopped = ((id :: p.everDead).toFinset.card : ℤ)
    rw [if_pos rfl] at hadd
    rw [List.toFinset_cons]
    by_cases hdead : r.state = .stopped
    · rw [Finset.insert_eq_of_mem (List.mem_toFinset.2 ((h.stopped id r hr).1 hdead))]
      rw [if_pos hdead] at hadd
      omega
    · rw [Finset.card_insert_of_notMem fun hm => hdead ((h.stopped id r hr).2 (List.mem_toFinset.1 hm))]
      rw [if_neg hdead] at hadd
      omega
  · intro ho
    obtain ⟨hnodup, hthere⟩ := h.once ho
    constructor
    · apply List.Nodup.append hnodup (List.nodup_singleton id)
      apply List.disjoint_singleton.2
      exact fun hm => hx ho (hmem.1 hm)
    · intro j hj
      apply setUser_there
      rcases List.mem_append.1 hj with hj | hj
      · exact hthere j hj
      · exact ⟨r, List.mem_singleton.1 hj ▸ hr⟩

/-- The state after a robouser was deleted. -/
def buried (p : Platoon) (id : ℕ) (r : Robouser) (w : World) : Platoon :=
  { p with
    users := Function.update p.users r.user none, robousers := Function.update p.robousers id none
    deleted := (id, { r with queued := none, fcp := (r.fcp.shutdown w).2 }) :: p.deleted }

theorem bury_ok (hr : p.robousers id = some r) (hbusy : p.executing ≠ some id) :
    p.bury id w = .ok (p.buried id r w) := by
  rw [bury, user_eq hr]
  exact if_neg hbusy

theorem bury_freed (hr : p.robousers id = none) : p.bury id w = .error .freed := by
  rw [bury, user, hr]
  rfl

theorem bury_executing (hr : p.robousers id = some r) (hbusy : p.executing = some id) :
    p.bury id w = .error .executing := by
  rw [bury, user_eq hr]
  exact if_pos hbusy

theorem buried_get {j : ℕ} {q : Robouser} (hq : (p.buried id r w).robousers j = some q) :
    j ≠ id ∧ p.robousers j = some q := by
  have hne : j ≠ id := by
    rintro rfl
    simp [buried] at hq
  exact ⟨hne, (Function.update_of_ne hne ..).symm.trans hq⟩

theorem buried_of_ne {j : ℕ} (hne : j ≠ id) : (p.buried id r w).robousers j = p.robousers j :=
  Function.update_of_ne hne ..

theorem buried_self : (p.buried id r w).robousers id = none := Function.update_self ..

theorem buried_slot {i j : ℕ} (hi : (p.buried id r w).users i = some j) : i ≠ r.user ∧ p.users i = some j := by
  have hne : i ≠ r.user := by
    rintro rfl
    simp [buried] at hi
  exact ⟨hne, (Function.update_of_ne hne ..).symm.trans hi⟩

theorem Linked.slot_ne (h : Linked p) (hr : p.robousers id = some r) {i j : ℕ} (hi : p.users i = some j)
    (hne : j ≠ id) : i ≠ r.user := by
  rintro rfl
  rw [h.held id r hr, Option.some.injEq] at hi
  exact hne hi.symm

theorem Linked.bury (h : Linked p) (hr : p.robousers id = some r) : Linked (p.buried id r w) where
  slot := by
    intro i j hi
    obtain ⟨hiu, hi'⟩ := buried_slot hi
    obtain ⟨hlt, q, hq, hqi⟩ := h.slot i j hi'
    exact ⟨hlt, q, (buried_of_ne (h.ne_of_slot hr hi' hiu)).trans hq, hqi⟩
  held := by
    intro j q hq
    obtain ⟨hne, hq⟩ := buried_get hq
    have hj := h.held j q hq
    exact (Function.update_of_ne (h.slot_ne hr hj hne) ..).trans hj
  fresh := by
    intro j hj
    by_cases hne : j = id
    · exact hne ▸ Function.update_self ..
    · exact (buried_of_ne hne).trans (h.fresh j hj)
  deleted := by
    intro x hx
    rcases List.mem_cons.1 hx with rfl | hx
    · exact ⟨h.lt_next hr, Function.update_self ..⟩
    · obtain ⟨hlt, hnone⟩ := h.deleted x hx
      refine ⟨hlt, ?_⟩
      by_cases hne : x.1 = id
      · exact hne ▸ Function.update_self ..
      · exact (buried_of_ne hne).trans hnone
  nodup := by
    apply List.nodup_cons.2 ⟨_, h.nodup⟩
    intro hm
    obtain ⟨x, hx, hxid⟩ := List.mem_map.1 hm
    have hnone := (h.deleted x hx).2
    rw [hxid, hr] at hnone
    cases hnone

/-- The first of the dead is deleted. -/
theorem Sound.bury {ids : List ℕ} (h : Sound once busy p) (hids : p.deadlist = id :: ids)
    (hr : p.robousers id = some r) : Sound once busy ({ p with deadlist := ids }.buried id r w) := by
  have husers : ({ p with deadlist := ids }.buried id r w).users = Function.update p.users r.user none := rfl
  have hroll : ({ p with deadlist := ids }.buried id r w).roll = p.roll := by
    funext i
    by_cases hi : i = r.user
    · subst hi
      rw [roll_user h.toLinked hr, if_pos (hids ▸ List.mem_cons_self), roll, husers, Function.update_self]
    · rw [roll, roll, husers, Function.update_of_ne hi]
      cases hj : p.users i with
      | none => rfl
      | some j =>
          have hne : j ≠ id := h.ne_of_slot hr hj hi
          dsimp only
          rw [buried_of_ne hne, hids]
          exact if_congr (List.mem_cons.trans (or_iff_right hne)).symm rfl rfl
  constructor
  · have hl := h.toLinked.bury (w := w) hr
    exact ⟨hl.slot, hl.held, hl.fresh, hl.deleted, hl.nodup⟩
  · exact h.executing
  · intro j q hq
    exact h.resting j q (buried_get hq).2
  · intro j q hq
    exact h.started j q (buried_get hq).2
  · exact h.everDead
  · intro j q hq
    exact h.stopped j q (buried_get hq).2
  · intro j q hq hj
    obtain ⟨hne, hq⟩ := buried_get hq
    have hm := h.listed j q hq hj
    rw [hids] at hm
    exact (List.mem_cons.1 hm).resolve_left hne
  · intro j hj
    exact h.dead j (hids ▸ .tail _ hj)
  · intro s hs
    rw [headcount, hroll]
    exact h.counts s hs
  · exact h.ndead
  · intro ho
    obtain ⟨hnodup, hthere⟩ := h.once ho
    rw [hids] at hnodup hthere
    obtain ⟨hid, hnodup⟩ := List.nodup_cons.1 hnodup
    refine ⟨hnodup, fun j hj => ?_⟩
    obtain ⟨q, hq⟩ := hthere j (.tail _ hj)
    have hne : j ≠ id := fun heq => hid (heq ▸ hj)
    exact ⟨q, (buried_of_ne hne).trans hq⟩

/-- What deleting the first of the dead preserves, `reap` preserves. -/
theorem reap_invariant {E : Fault → Prop} {I : Platoon → Prop}
    (hfreed : ∀ p id ids, I p → p.deadlist = id :: ids → p.robousers id = none → E .freed)
    (hexec : ∀ p id ids, I p → p.deadlist = id :: ids → p.executing = some id → E .executing)
    (hbury : ∀ p id ids r, I p → p.deadlist = id :: ids → p.robousers id = some r → p.executing ≠ some id →
      I ({ p with deadlist := ids }.buried id r w)) (h : I p) :
    Holds E (fun t => I t ∧ t.deadlist = []) (p.reap w) := by
  unfold Platoon.reap
  generalize hids : p.deadlist = ids
  induction ids generalizing p with
  | nil => exact ⟨h, hids⟩
  | cons id ids ih =>
      rw [reapLoop]
      cases hr : p.robousers id with
      | none =>
          rw [bury_freed (p := { p with deadlist := ids }) hr]
          exact hfreed p id ids h hids hr
      | some r =>
          by_cases hex : p.executing = some id
          · rw [bury_executing (p := { p with deadlist := ids }) hr hex]
            exact hexec p id ids h hids hex
          · rw [bury_ok (p := { p with deadlist := ids }) hr hex]
            exact ih (hbury p id ids r h hids hr hex) rfl

/-- What deleting a robouser preserves, the loop of `reset` preserves, and it empties the
slots that it goes over. -/
theorem resetLoop_invariant {I : Platoon → Prop} (is : List ℕ)
    (hbury : ∀ p id r, I p → p.robousers id = some r → p.executing ≠ some id → I (p.buried id r w))
    (hlinked : Linked p) (hidle : p.executing = none) (h : I p) : ∃ t, resetLoop w is p = .ok t ∧ I t ∧ Linked t ∧
      t.deadlist = p.deadlist ∧ (∀ i j, t.users i = some j → p.users i = some j) ∧ ∀ i ∈ is, t.users i = none := by
  induction is generalizing p with
  | nil => exact ⟨p, rfl, h, hlinked, rfl, fun _ _ hj => hj, fun i hi => absurd hi List.not_mem_nil⟩
  | cons i is ih =>
      cases hid : p.users i with
      | none =>
          have hloop : resetLoop w (i :: is) p = resetLoop w is p := by rw [resetLoop, hid]
          rw [hloop]
          obtain ⟨t, ht, hI, hl, hdead, husers, hclear⟩ := ih hlinked hidle h
          refine ⟨t, ht, hI, hl, hdead, husers, ?_⟩
          intro j hj
          rcases List.mem_cons.1 hj with rfl | hj
          · rw [Option.eq_none_iff_forall_ne_some]
            intro id hu
            cases hid.symm.trans (husers j id hu)
          · exact hclear j hj
      | some id =>
          obtain ⟨_, r, hr, hslot⟩ := hlinked.slot i id hid
          have hbusy : p.executing ≠ some id := hidle.trans_ne (Option.some_ne_none id).symm
          have hloop : resetLoop w (i :: is) p = resetLoop w is (p.buried id r w) := by
            rw [resetLoop, hid]
            dsimp only
            rw [bury_ok hr hbusy]
            rfl
          rw [hloop]
          obtain ⟨t, ht, hI, hl, hdead, husers, hclear⟩ := ih (hlinked.bury hr) hidle (hbury p id r h hr hbusy)
          refine ⟨t, ht, hI, hl, hdead, fun j k hk => (buried_slot (husers j k hk)).2, ?_⟩
          intro j hj
          rcases List.mem_cons.1 hj with rfl | hj
          · rw [Option.eq_none_iff_forall_ne_some]
            intro id hu
            exact (buried_slot (husers j id hu)).1 hslot.symm
          · exact hclear j hj

/-- Any fault may end a step. -/
def Any : Fault → Prop := fun _ => True

/-- What is on the dead list is deleted, but for the robouser that is executing. -/
structure Reaped (p t : Platoon) : Prop where
  users : ∀ i j, t.users i = some j → p.users i = some j
  robousers : ∀ j q, t.robousers j = some q → p.robousers j = some q
  busy : ∀ j, p.executing = some j → t.robousers j = p.robousers j
  rest : ∃ users robousers deleted, t = { p with
    users := users, robousers := robousers, deadlist := [], deleted := deleted }

theorem reap_reaped (p : Platoon) (w : World) : Holds Any (Reaped p) (p.reap w) := by
  have hloop : Holds Any _ (p.reap w) := reap_invariant (I := fun t =>
    (∀ i j, t.users i = some j → p.users i = some j) ∧ (∀ j q, t.robousers j = some q → p.robousers j = some q) ∧
    (∀ j, p.executing = some j → t.robousers j = p.robousers j) ∧ ∃ users robousers ids deleted, t = { p with
      users := users, robousers := robousers, deadlist := ids, deleted := deleted })
    (fun _ _ _ _ _ _ => trivial) (fun _ _ _ _ _ _ => trivial) ?_
    ⟨fun _ _ h => h, fun _ _ h => h, fun _ _ => rfl, _, _, _, _, rfl⟩
  · apply hloop.mono
    rintro t ⟨⟨husers, hrob, hbusy, users, robousers, ids, deleted, rfl⟩, hdead⟩
    exact ⟨husers, hrob, hbusy, users, robousers, deleted, congrArg (fun ids => { p with
      users := users, robousers := robousers, deadlist := ids, deleted := deleted }) hdead⟩
  · rintro _ id ids r ⟨husers, hrob, hbusy, users, robousers, ids', deleted, rfl⟩ _ _ hex
    refine ⟨?_, ?_, ?_, _, _, _, _, rfl⟩
    · exact fun i j hj => husers i j (buried_slot hj).2
    · exact fun j q hq => hrob j q (buried_get hq).2
    · intro j hj
      have hne : j ≠ id := by
        rintro rfl
        exact hex hj
      exact (buried_of_ne hne).trans (hbusy j hj)

/-- All the dead are deleted, and nothing else is touched. -/
theorem Sound.reap (h : Sound once busy p) (hbusy : once → ∀ id, busy = some id → id ∉ p.deadlist) :
    Holds (Tolerated once) (fun t => Sound once busy t ∧
      (∀ id, busy = some id → t.robousers id = p.robousers id) ∧
      ∃ users robousers deleted, t = { p with
        users := users, robousers := robousers, deadlist := [], deleted := deleted }) (p.reap w) := by
  have hloop : Holds (Tolerated once) _ (p.reap w) := reap_invariant
    (I := fun t => Sound once busy t ∧ (once → ∀ id, busy = some id → id ∉ t.deadlist)) ?_ ?_ ?_ ⟨h, hbusy⟩
  · apply (hloop.and (reap_reaped p w)).mono
    rintro t ⟨⟨⟨ht, _⟩, _⟩, hreaped⟩
    exact ⟨ht, fun id hid => hreaped.busy id (h.executing.trans hid), hreaped.rest⟩
  · rintro t id ids ⟨ht, _⟩ hids hr ho
    obtain ⟨q, hq⟩ := (ht.once ho).2 id (hids ▸ List.mem_cons_self)
    rw [hr] at hq
    cases hq
  · rintro t id ids ⟨ht, hbusy⟩ hids hex ho
    exact absurd (hids ▸ List.mem_cons_self) (hbusy ho id (ht.executing ▸ hex))
  · rintro t id ids r ⟨ht, hbusy⟩ hids hr _
    refine ⟨ht.bury hids hr, ?_⟩
    intro ho j hj hm
    exact hbusy ho j hj (hids ▸ .tail _ hm)

end
end Platoon
end Dkftpbench
