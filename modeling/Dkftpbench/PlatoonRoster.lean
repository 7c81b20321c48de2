import Dkftpbench.PlatoonRamp

/-!
# Who was ever started

Every user that was started is counted in one state, alive or dead, for as long as the
platoon is there, whatever its pipe and the kernel do. And the count of the dead does not go down,
so that nobody is started once somebody has died.
-/
namespace Dkftpbench.Platoon
open CLib Faults RobouserState Watch

/-- The counts add up to the number of users that were started. -/
structure Rostered (p : Platoon) : Prop where
  started : ∀ id r, p.robousers id = some r → r.state ≠ .uninit
  total : p.sumInState .connect .stopped = p.next

/-- How a platoon changes whose targets stay as they are. -/
structure Ages (p t : Platoon) : Prop where
  nuserTarget : t.nuserTarget = p.nuserTarget
  lastConnectingState : t.lastConnectingState = p.lastConnectingState
  next : p.next ≤ t.next
  stopped : p.nInState .stopped ≤ t.nInState .stopped
  filled : t.next = p.next ∨ p.nInState .stopped ≤ 0 ∧ (t.next : ℤ) ≤ p.nuserTarget

/-- The step sets one of the targets. -/
def isSetting : Act → Bool
  | .setNuserTarget _ _ => true
  | .setNconnectingTarget _ _ => true
  | .setLastConnectingState _ _ => true
  | _ => false

section
variable {p t u : Platoon} {id : ℕ} {r : Robouser} {k : Act} {w : World} {a : Start} {i : ℕ}

theorem Ages.refl (p : Platoon) : Ages p p := ⟨rfl, rfl, le_rfl, le_rfl, .inl rfl⟩

theorem Ages.trans (h : Ages p t) (h' : Ages t u) : Ages p u where
  nuserTarget := h'.nuserTarget.trans h.nuserTarget
  lastConnectingState := h'.lastConnectingState.trans h.lastConnectingState
  next := h.next.trans h'.next
  stopped := h.stopped.trans h'.stopped
  filled := by
    rcases h'.filled with heq | ⟨h0, hle⟩
    · rw [heq]
      exact h.filled
    · exact .inr ⟨h.stopped.trans h0, h.nuserTarget ▸ hle⟩

/-- Nothing that is counted changes. -/
theorem Ages.of_eq (hnext : t.next = p.next) (hn : t.nInState = p.nInState) (htarget : t.nuserTarget = p.nuserTarget)
    (hlast : t.lastConnectingState = p.lastConnectingState) : Ages p t :=
  ⟨htarget, hlast, hnext.ge, by rw [hn], .inl hnext⟩

theorem Rostered.of_eq (h : Rostered p) (hnext : t.next = p.next) (hn : t.nInState = p.nInState)
    (hrob : ∀ j q, t.robousers j = some q → p.robousers j = some q) : Rostered t where
  started j q hq := h.started j q (hrob j q hq)
  total := by
    rw [sumInState_upTo, hn, hnext]
    exact h.total

theorem init_rostered (settings : Settings) : Rostered (init settings) :=
  ⟨fun _ _ hr => (init_robousers settings hr).elim, rfl⟩

theorem mem_upTo_stopped {s : RobouserState} (hs : s ≠ .uninit) : s ∈ upTo .stopped := by
  rw [mem_upTo]
  cases s with
  | uninit => exact absurd rfl hs
  | connect | connecting | startType | finishType | get | getting | stopped => exact ⟨hs, by decide⟩

/-- A user that moves is counted where it is now. -/
theorem sumInState_stopped_moved {s s' : RobouserState} (hs : s ≠ .uninit) (hs' : s' ≠ .uninit)
    (h : ∀ x, t.nInState x+(if s = x then 1 else 0) = p.nInState x+if s' = x then 1 else 0) :
    t.sumInState .connect .stopped = p.sumInState .connect .stopped :=
  le_antisymm (sumInState_moved h fun _ => mem_upTo_stopped hs)
    (sumInState_moved (fun x => (h x).symm) fun _ => mem_upTo_stopped hs')

/-- What a callback of a robouser preserves. -/
theorem Rostered.acts (h : Rostered p) (hr : p.robousers id = some r) (ha : Acts id p t) (ht : Turned id r.state t) :
    Rostered t ∧ Ages p t := by
  have hs := h.started id r hr
  obtain ⟨q, hq, hs', hcount⟩ := ha.moved r hr hs
  obtain ⟨q', hq', -, hturn⟩ := ht
  cases hq.symm.trans hq'
  refine ⟨⟨?_, ?_⟩, ha.nuserTarget, ha.lastConnectingState, ha.next.ge, ?_, .inl ha.next⟩
  · intro j u hu
    by_cases hj : j = id
    · rw [hj, hq, Option.some.injEq] at hu
      exact hu ▸ hs'
    · exact h.started j u (ha.others j u hj hu)
  · rw [sumInState_stopped_moved hs hs' hcount, h.total, ha.next]
  · have hstopped := hcount .stopped
    -- the dead stay dead
    have hdead : r.state = .stopped → q.state = .stopped := by
      intro heq
      rw [heq] at hturn
      rcases hturn with hx | hx | hx | ⟨hx, -⟩
      · cases hx
      · exact hx
      · exact hx
      · exact absurd rfl hx
    split_ifs at hstopped with h1 h2
    · omega
    · exact absurd (hdead h1) h2
    · omega
    · omega

theorem sumInState_dead (p : Platoon) : p.sumInState .stopped .stopped = p.nInState .stopped := add_zero _

/-- The users alive and the dead. -/
theorem sumInState_total (p : Platoon) :
    p.sumInState .connect .stopped = p.sumInState .connect .getting+p.nInState .stopped := by
  have hall : upTo .stopped = upTo .getting ++ [.stopped] := rfl
  rw [sumInState_upTo, sumInState_upTo, hall, List.map_append, List.sum_append]
  simp

theorem Rostered.counts (h : Rostered p) : p.sumInState .connect .getting+p.nInState .stopped = p.next := by
  rw [← sumInState_total, h.total]

theorem Rostered.enlisted (h : Rostered p) (hwants : p.wantsUser = true) :
    Rostered (p.enlisted i a) ∧ Ages p (p.enlisted i a) := by
  obtain ⟨hdead, halive, -⟩ := wantsUser_iff.1 hwants
  have hdead' : p.nInState .stopped = 0 := by rw [← sumInState_dead, hdead]
  have hcount : ∀ s, (p.enlisted i a).nInState s = p.nInState s+if RobouserState.connect = s then 1 else 0 :=
    counted_uninit p.nInState .connect
  have htotal := sumInState_total p
  refine ⟨⟨?_, ?_⟩, rfl, rfl, p.next.le_succ, ?_, .inr ⟨hdead'.le, ?_⟩⟩
  · intro id q hq
    rcases enlisted_cases hq with ⟨_, hrecruit⟩ | ⟨_, hq⟩
    · rw [hrecruit]
      exact RobouserState.noConfusion
    · exact h.started id q hq
  · rw [sumInState_enlisted p i a (mem_upTo_stopped (by decide)), h.total]
    rfl
  · rw [hcount .stopped, if_neg (by decide), add_zero]
  · have hnext : (p.enlisted i a).next = p.next+1 := rfl
    have hsum := h.total
    rw [hnext]
    omega

/-- What the loop preserves. -/
theorem Rostered.skedCallback (h : Rostered p) {as : List Start} :
    Holds Any (fun t => Rostered t ∧ Ages p t) (p.skedCallback as) := by
  induction as generalizing p with
  | nil =>
      rw [Platoon.skedCallback]
      split
      · trivial
      · exact ⟨h, .refl p⟩
  | cons a as ih =>
      rw [Platoon.skedCallback]
      split
      · next hwants =>
        rcases startUser_cases (p := p) (a := a) with hs | hs | ⟨i, hfree, _, hs⟩
        · rw [hs]
          trivial
        · rw [hs]
          exact ⟨h, .refl p⟩
        · rw [hs]
          obtain ⟨hi, hages⟩ := h.enlisted (i := i) (a := a) hwants
          apply (ih hi).mono
          intro t ht
          exact ⟨ht.1, hages.trans ht.2⟩
      · exact ⟨h, .refl p⟩

/-- A robouser is called, and may do anything that its code lets it do. -/
theorem Rostered.callUser (h : Rostered p) {f : Platoon → Except Fault Platoon} (hr : p.robousers id = some r)
    (hf : Leads id r.state (p.during id) (f (p.during id))) : Holds Any (fun t => Rostered t ∧ Ages p t) (p.callUser id f) := by
  have hduring : Rostered (p.during id) := h.of_eq rfl rfl fun _ _ h => h
  have hages : Ages p (p.during id) := .of_eq rfl rfl rfl rfl
  apply Holds.bind hf
  intro t ⟨hacts, hturned⟩
  obtain ⟨ht, hages'⟩ := hduring.acts hr hacts hturned
  exact ⟨ht.of_eq rfl rfl fun _ _ h => h, (hages.trans hages').trans (.of_eq rfl rfl rfl rfl)⟩

theorem Rostered.reap (h : Rostered p) : Holds Any (fun t => Rostered t ∧ Ages p t) (p.reap w) := by
  apply (reap_reaped p w).mono
  intro t ht
  obtain ⟨users, robousers, deleted, heq⟩ := ht.rest
  refine ⟨h.of_eq ?_ ?_ ht.robousers, .of_eq ?_ ?_ ?_ ?_⟩
  all_goals rw [heq]

/-- What one step preserves. -/
theorem step_rostered (h : Rostered p) (hk : isSetting k = false) : Holds Any (fun t => Rostered t ∧ Ages p t) (p.step k) := by
  cases k with
  | platoonTimer now as =>
      rw [step]
      split
      · have hdequeued : Rostered { p with queued := none } := h.of_eq rfl rfl fun _ _ h => h
        have hages : Ages p { p with queued := none } := .of_eq rfl rfl rfl rfl
        apply hdequeued.skedCallback.mono
        intro t ht
        exact ⟨ht.1, hages.trans ht.2⟩
      · trivial
  | userTimer id now as =>
      rw [step]
      split
      · trivial
      · next r hr =>
        split
        · obtain ⟨hset, hages⟩ := h.acts hr (acts_setUser (q := { r with queued := none }) hr rfl)
            ⟨_, setUser_self, h.started id r hr, .refl r.state⟩
          have hleads : Leads id r.state ((p.setUser id { r with queued := none }).during id)
            (ftpCmdDone as ((p.setUser id { r with queued := none }).during id) id 0 (-1)) :=
              ftpCmdDone_leads (r := { r with queued := none }) setUser_self (h.started id r hr)
          apply (hset.callUser (f := fun p => ftpCmdDone as p id 0 (-1)) setUser_self hleads).mono
          intro t ht
          exact ⟨ht.1, hages.trans ht.2⟩
        · trivial
  | pipe id c w io as =>
      rw [step]
      split
      · trivial
      · next r hr => exact h.callUser hr (callPipe_leads hr (h.started id r hr) rfl)
  | setNuserTarget | setNconnectingTarget | setLastConnectingState => cases hk
  | reap w => exact h.reap
  | getStatus w =>
      apply Holds.map (Q := fun x => Rostered x.2 ∧ Ages p x.2) _ fun _ hx => hx
      exact h.reap.bind fun _ ht => ht

/-- What a status says. -/
theorem getStatus_eq {st : Status} (h : p.getStatus w = .ok (st, t)) : p.reap w = .ok t ∧
    st = ⟨t.sumInState .connect t.lastConnectingState, t.sumInState .connect .getting, t.nInState .stopped,
      t.bytesFetched⟩ := by
  unfold getStatus at h
  cases hr : p.reap w with
  | error f =>
      rw [hr] at h
      cases h
  | ok u =>
      rw [hr] at h
      cases h
      exact ⟨rfl, by rw [sumInState_dead]⟩

/-- A status, and the platoon after it. -/
structure Replied (p : Platoon) (st : Status) (t : Platoon) : Prop where
  sound : Sound False none t
  rostered : Rostered t
  ages : Ages p t
  deadlist : t.deadlist = []
  nalive : st.nalive = t.sumInState .connect .getting
  ndead : st.ndead = t.nInState .stopped
  slots : st.nalive = ((Finset.range maxUsers).filter fun i => (t.users i).isSome).card
  connecting : t.lastConnectingState ≠ .stopped → st.nconnecting =
    ((Finset.range maxUsers).filter fun i => ∃ s, t.roll i = some s ∧ s.code ≤ t.lastConnectingState.code).card

theorem getStatus_answers {st : Status} (hsound : Sound False none p) (hrostered : Rostered p)
    (h : p.getStatus w = .ok (st, t)) : Replied p st t := by
  obtain ⟨halive, -, hconnecting⟩ := hsound.counted.status w st t h
  obtain ⟨hreap, heq⟩ := getStatus_eq h
  obtain ⟨hsound', -, users, robousers, deleted, ht⟩ := (hsound.reap (w := w) fun _ _ => nofun).result hreap
  obtain ⟨hrostered', hages⟩ := (hrostered.reap (w := w)).result hreap
  have hdead : t.deadlist = [] := by rw [ht]
  exact ⟨hsound', hrostered', hages, hdead, by rw [heq], by rw [heq], halive, hconnecting⟩

/-- All slots are free where nobody is alive. -/
theorem Replied.users_eq {st : Status} (h : Replied p st t) (h0 : st.nalive = 0) (i : ℕ) : t.users i = none := by
  have hslots := h.slots
  rw [h0] at hslots
  have hempty := Finset.card_eq_zero.1 (Int.natCast_eq_zero.1 hslots.symm)
  cases hi : t.users i with
  | none => rfl
  | some id =>
      have hlt := (h.sound.slot i id hi).1
      have hmem : i ∈ (Finset.range maxUsers).filter fun i => (t.users i).isSome :=
        Finset.mem_filter.2 ⟨Finset.mem_range.2 hlt, by rw [hi]; rfl⟩
      rw [hempty] at hmem
      cases hmem

theorem Replied.nconnecting_eq {st : Status} (h : Replied p st t) (hlast : t.lastConnectingState ≠ .stopped)
    (h0 : st.nalive = 0) : st.nconnecting = 0 := by
  rw [h.connecting hlast, Int.natCast_eq_zero, Finset.card_eq_zero, Finset.filter_eq_empty_iff]
  rintro i - ⟨s, hroll, -⟩
  obtain ⟨id, r, hid, -⟩ := roll_eq_some hroll
  cases (h.users_eq h0 i).symm.trans hid

end
end Dkftpbench.Platoon
