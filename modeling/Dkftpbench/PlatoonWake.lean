import Dkftpbench.PlatoonRoster

/-!
# The ramp-up does not stall

A platoon that is not in the scheduler's queue starts nobody until something puts it there. A count that
changes does so, and so does a new target. So it sleeps only where nobody is wanted: as many users are
alive as are wanted, or as many are connecting as may be, or somebody is dead.
-/
namespace Dkftpbench.Platoon
open CLib Faults RobouserState Watch

/-- The scheduler finds memory whenever the platoon is to be put in the queue. -/
def Remembers : Act → Prop
  | .platoonTimer _ as => ∀ a ∈ as, a.wake.enqueue = true
  | .userTimer _ _ as => ∀ a ∈ as, a.wake.enqueue = true
  | .pipe _ _ _ io as => io.wake.enqueue = true ∧ ∀ a ∈ as, a.wake.enqueue = true
  | .setNuserTarget _ k => k.enqueue = true
  | .setNconnectingTarget _ k => k.enqueue = true
  | .setLastConnectingState _ k => k.enqueue = true
  | .reap _ => True
  | .getStatus _ => True

/-- It is in the queue where another user is wanted. -/
def Scheduled (p : Platoon) : Prop := p.wantsUser = true → p.queued ≠ none

/-- It was put in the queue, or no count has changed. -/
def Stirs (p t : Platoon) : Prop := t.queued ≠ none ∨ t.queued = p.queued ∧ t.nInState = p.nInState

section
variable {p t u : Platoon} {id : ℕ} {r : Robouser} {s : RobouserState} {k : Wake} {w : World} {xerr status : ℤ}
variable {x : Except Fault Platoon}

theorem Stirs.refl (p : Platoon) : Stirs p p := .inr ⟨rfl, rfl⟩

theorem Stirs.trans (h : Stirs p t) (h' : Stirs t u) : Stirs p u := by
  rcases h' with hq | ⟨hq, hn⟩
  · exact .inl hq
  · rcases h with hq' | ⟨hq', hn'⟩
    · exact .inl (hq ▸ hq')
    · exact .inr ⟨hq.trans hq', hn.trans hn'⟩

theorem wakeUp_queued (hk : k.enqueue = true) : (p.wakeUp k).queued ≠ none := by
  rw [wakeUp, if_pos hk]
  exact Option.some_ne_none _

theorem holds_lookup {β : Type} {E : Fault → Prop} {Q : β → Prop} {f : Robouser → Except Fault β} (hE : E .freed)
    (h : ∀ r, p.robousers id = some r → Holds E Q (f r)) : Holds E Q (p.user id >>= f) := by
  cases hr : p.robousers id with
  | none =>
      rw [user, hr]
      exact hE
  | some r => exact holds_user hr (h r hr)

theorem gotoState_stirs (hs : s ≠ .uninit) (hk : k.enqueue = true) : Holds Any (Stirs p) (p.gotoState id s k) := by
  cases hr : p.robousers id with
  | none =>
      rw [gotoState, user, hr]
      trivial
  | some r =>
      rw [gotoState_ok hr hs]
      exact .inl (wakeUp_queued (p := { p with nInState := counted p.nInState r.state s }) hk)

theorem stop_stirs (hk : k.enqueue = true) : Holds Any (Stirs p) (p.stop id k) := by
  apply (gotoState_stirs (by decide) hk).bind
  exact fun t ht => ht

/-- One part of a callback after another. -/
theorem stirs_bind {α : Type} {x : Except Fault α} {f : α → Platoon} {g : α → Except Fault Platoon}
    (hx : Holds Any (fun a => Stirs p (f a)) x) (hg : ∀ a, Holds Any (Stirs (f a)) (g a)) :
    Holds Any (Stirs p) (x >>= g) := by
  apply hx.bind
  intro a ha
  exact (hg a).mono fun _ ht => ha.trans ht

theorem stirs_or_stops {c : Prop} [Decidable c] (hk : k.enqueue = true) (h : Holds Any (Stirs p) x) :
    Holds Any (Stirs p) (if c then p.stop id k else x) := by
  split
  · exact stop_stirs hk
  · exact h

theorem cmdDoneReturns_stirs : Holds Any (Stirs p) (p.cmdDoneReturns id) := by
  apply holds_lookup trivial
  intro r _
  split
  · trivial
  · exact .inr ⟨rfl, rfl⟩

theorem beginFetch_stirs {now : Clock} : Holds Any (Stirs p) (p.beginFetch id now) :=
  holds_lookup trivial fun _ _ => .inr ⟨rfl, rfl⟩

theorem runPipe_stirs {f : Session → Outcome} {callback : Platoon → ℤ → ℤ → Except Fault Platoon}
    (hcallback : ∀ p xerr status, Holds Any (Stirs p) (callback p xerr status)) :
    Holds Any (fun x => Stirs p x.2) (p.runPipe id f callback) := by
  cases hr : p.robousers id with
  | none =>
      rw [runPipe, user, hr]
      trivial
  | some r =>
      apply runPipe_holds (fun _ => trivial) hr
      · exact fun _ _ _ _ => .inr ⟨rfl, rfl⟩
      · intro e fcp xerr status _ _
        apply (hcallback (p.setUser id { r with fcp := fcp }) xerr status).mono
        intro t ht
        apply cmdDoneReturns_stirs.mono
        exact fun u hu => ht.trans hu

theorem ftpCmdDone_stirs {as : List LoopAnswers} (has : ∀ a ∈ as, a.wake.enqueue = true) :
    Holds Any (Stirs p) (ftpCmdDone as p id xerr status) := by
  induction as generalizing p xerr status with
  | nil => trivial
  | cons a as ih =>
      have hk : a.wake.enqueue = true := has a List.mem_cons_self
      have hback : ∀ (p : Platoon) (xerr status : ℤ), Holds Any (Stirs p) (ftpCmdDone as p id xerr status) :=
        fun p xerr status => ih fun b hb => has b (.tail _ hb)
      -- a state that is left at once for another one
      have hround : ∀ s, s ≠ .uninit → Holds Any (Stirs p)
          (p.gotoState id s a.wake >>= fun t => ftpCmdDone as t id 0 status) :=
        fun s hs => stirs_bind (f := fun t => t) (gotoState_stirs hs hk) fun t => hback t 0 status
      rw [ftpCmdDone]
      apply stirs_or_stops hk
      apply holds_lookup trivial
      intro r _
      split
      · apply stirs_bind (f := Prod.snd) (runPipe_stirs hback)
        intro x
        apply stirs_or_stops hk
        apply stirs_bind (f := Prod.snd) (runPipe_stirs hback)
        intro x
        exact stirs_or_stops hk (gotoState_stirs (by decide) hk)
      · exact stirs_or_stops hk (hround .startType (by decide))
      · apply stirs_bind (f := Prod.snd) (runPipe_stirs hback)
        intro x
        exact stirs_or_stops hk (gotoState_stirs (by decide) hk)
      · exact stirs_or_stops hk (hround .get (by decide))
      · apply stirs_bind (f := Prod.snd) (runPipe_stirs hback)
        intro x
        apply stirs_or_stops hk
        apply stirs_bind (f := fun t => t) beginFetch_stirs
        exact fun t => gotoState_stirs (by decide) hk
      · apply stirs_or_stops hk
        exact stirs_or_stops hk (hround .get (by decide))
      · exact .refl p
      · exact .refl p

theorem reap_stirs : Holds Any (Stirs p) (p.reap w) := by
  apply (reap_reaped p w).mono
  intro t ht
  obtain ⟨users, robousers, deleted, heq⟩ := ht.rest
  rw [heq]
  exact .inr ⟨rfl, rfl⟩

theorem afterRead_stirs {c : Prop} [Decidable c] {nread : ℤ} (hk : k.enqueue = true) :
    Holds Any (fun x => Stirs p x.2) (if c then do
        let p ← p.stop id k
        return (0, p)
      else do
        let p ← p.reap w
        return (nread, p)) := by
  split
  · exact (stop_stirs hk).bind fun _ ht => ht
  · exact reap_stirs.bind fun _ ht => ht

theorem handleDataIo_stirs {io : DataIo} (hk : io.wake.enqueue = true) :
    Holds Any (fun x => Stirs p x.2) (p.handleDataIo id io) := by
  unfold handleDataIo
  split
  · trivial
  · apply holds_lookup trivial
    intro r _
    dsimp only
    split
    · exact .inr ⟨rfl, rfl⟩
    · split
      · exact .inr ⟨rfl, rfl⟩
      · exact (afterRead_stirs (p := { p.setUser id _ with bytesFetched := _, nreads := _ }) hk).mono fun _ hx => hx

theorem callPipe_stirs {c : Cause} {io : DataIo} {as : List LoopAnswers} (hk : io.wake.enqueue = true)
    (has : ∀ a ∈ as, a.wake.enqueue = true) : Holds Any (Stirs p) (p.callPipe id c w io as) := by
  apply holds_lookup trivial
  intro r _
  apply stirs_bind (f := fun t => t)
  · unfold serveData
    split
    · exact (handleDataIo_stirs hk).map fun _ hx => hx
    · exact .refl p
  · intro t
    apply stirs_bind (f := Prod.snd) (runPipe_stirs fun p xerr status => ftpCmdDone_stirs has)
    exact fun x => .refl x.2

/-- Where nobody is dead and a user is wanted there is a free slot. -/
theorem Sound.startUser {a : Start} (h : Sound False none p) (hwants : p.wantsUser = true)
    (htarget : p.nuserTarget ≤ maxUsers) : ∃ i, p.users i = none ∧ i < maxUsers ∧ p.startUser a = .ok (0, p.enlisted i a) := by
  obtain ⟨hdead, halive, -⟩ := wantsUser_iff.1 hwants
  have hnobody : p.deadlist = [] := by
    rw [List.eq_nil_iff_forall_not_mem]
    intro id hid
    have hmem := List.mem_toFinset.2 (h.dead id hid)
    have hcount := h.ndead
    rw [← sumInState_dead, hdead, eq_comm, Int.natCast_eq_zero, Finset.card_eq_zero] at hcount
    rw [hcount] at hmem
    cases hmem
  have hsum := sumInState_eq h (show RobouserState.getting ≠ .stopped by decide)
  simp only [slots_alive h hnobody] at hsum
  have hfree : ∃ j < maxUsers, p.users j = none := by
    by_contra hno
    have hall : (Finset.range maxUsers).filter (fun i => (p.users i).isSome) = Finset.range maxUsers := by
      apply Finset.filter_true_of_mem
      intro i hi
      by_contra hnone
      exact hno ⟨i, Finset.mem_range.1 hi, Option.not_isSome_iff_eq_none.1 hnone⟩
    rw [hall, Finset.card_range] at hsum
    omega
  have hle : p.sumInState .connect .getting ≤ maxUsers := by omega
  have h0 : 0 ≤ p.sumInState .connect .getting := by
    rw [hsum]
    exact Int.natCast_nonneg _
  obtain ⟨j, hj, hslot, hnone⟩ := freeSlot_total p (i := (p.sumInState .connect .getting).toNat) (by omega) hfree
  exact ⟨j, hnone, hj, startUser_found h0 hle hslot⟩

/-- What the loop comes to. -/
theorem Sound.satisfied {as : List Start} (h : Sound False none p) (htarget : p.nuserTarget ≤ maxUsers) :
    Holds Any (fun t => t.wantsUser = false) (p.skedCallback as) := by
  induction as generalizing p with
  | nil =>
      rw [Platoon.skedCallback]
      split
      · trivial
      · next hno => exact Bool.eq_false_iff.2 hno
  | cons a as ih =>
      rw [Platoon.skedCallback]
      split
      · next hwants =>
        obtain ⟨i, hfree, hlt, hstart⟩ := h.startUser (a := a) hwants htarget
        rw [hstart]
        exact ih (h.enlisted hfree hlt) htarget
      · next hno => exact Bool.eq_false_iff.2 hno

theorem Scheduled.of_stirs (h : Scheduled p) (hs : Stirs p t) (hnuser : t.nuserTarget = p.nuserTarget)
    (hnconnecting : t.nconnectingTarget = p.nconnectingTarget) (hlast : t.lastConnectingState = p.lastConnectingState) :
    Scheduled t := by
  rcases hs with hq | ⟨hq, hn⟩
  · exact fun _ => hq
  · intro hwants
    rw [hq]
    apply h
    rw [wantsUser_iff] at hwants ⊢
    simp only [sumInState, hn, hnuser, hnconnecting, hlast] at hwants ⊢
    exact hwants

/-- A robouser is called, and may do anything that its code lets it do. -/
theorem Scheduled.callUser (h : Scheduled p) {f : Platoon → Except Fault Platoon} {s : RobouserState}
    (hf : Leads id s (p.during id) (f (p.during id))) (hs : Holds Any (Stirs (p.during id)) (f (p.during id))) :
    Holds Any Scheduled (p.callUser id f) := by
  apply (Holds.and hf hs).bind
  rintro t ⟨⟨hacts, -⟩, hstirs⟩
  have ht : Scheduled t := Scheduled.of_stirs h (hstirs.imp_right fun h => h) hacts.nuserTarget hacts.nconnectingTarget
    hacts.lastConnectingState
  exact ht

theorem Scheduled.reap (h : Scheduled p) : Holds Any Scheduled (p.reap w) := by
  apply (reap_reaped p w).mono
  intro t ht
  obtain ⟨users, robousers, deleted, heq⟩ := ht.rest
  rw [heq]
  exact h

/-- What one step preserves. -/
theorem step_scheduled {k : Act} (hsound : Sound False none p) (h : Scheduled p) (htarget : p.nuserTarget ≤ maxUsers)
    (hk : Remembers k) : Holds Any Scheduled (p.step k) := by
  cases k with
  | platoonTimer now as =>
      rw [step]
      split
      · have hdequeued : Sound False none { p with queued := none } := hsound.others ..
        apply (hdequeued.satisfied htarget).mono
        intro t ht hwants
        rw [ht] at hwants
        cases hwants
      · trivial
  | userTimer id now as =>
      rw [step]
      split
      · trivial
      · next r hr =>
        split
        · have hset : Scheduled (p.setUser id { r with queued := none }) := h
          exact hset.callUser (ftpCmdDone_leads (r := { r with queued := none }) setUser_self (hsound.started id r hr))
            (ftpCmdDone_stirs hk)
        · trivial
  | pipe id c w io as =>
      rw [step]
      split
      · trivial
      · next r hr => exact h.callUser (callPipe_leads hr (hsound.started id r hr) rfl) (callPipe_stirs hk.1 hk.2)
  | setNuserTarget utarget k => exact fun _ => wakeUp_queued (p := { p with nuserTarget := utarget }) hk
  | setNconnectingTarget ctarget k => exact fun _ => wakeUp_queued (p := { p with nconnectingTarget := ctarget }) hk
  | setLastConnectingState s k => exact fun _ => wakeUp_queued (p := { p with lastConnectingState := s }) hk
  | reap w => exact h.reap
  | getStatus w =>
      apply Holds.map (Q := fun x : Status × Platoon => Scheduled x.2) _ fun _ hx => hx
      exact h.reap.bind fun _ ht => ht

/-- Where the platoon is not in the queue, somebody is dead, or all users wanted are alive, or as
many are connecting as may be. And a call from the scheduler leaves nobody wanted. -/
theorem ramp_up_complete {g : Unit}
    (h : Run platoons (fun p _ k => Constant p k ∧ LoginsKept p k ∧ Remembers k) p g) :
    (p.queued = none → 0 < p.nInState .stopped ∨ p.sumInState .connect .getting = p.nuserTarget ∨
      p.sumInState .connect p.lastConnectingState = p.nconnectingTarget) ∧
    ∀ now as t, p.step (.platoonTimer now as) = .ok t → t.wantsUser = false := by
  have hall : Sound False none p ∧ Ramped p ∧ Scheduled p := by
    apply h.invariant (I := fun p _ => Sound False none p ∧ Ramped p ∧ Scheduled p)
    · rintro _ _ ⟨settings, rfl⟩
      exact ⟨init_sound settings, init_ramped settings, fun hwants =>
        absurd (wantsUser_iff.1 hwants).2.1 (lt_irrefl (0 : ℤ))⟩
    · intro p g k t ⟨hsound, hramped, hsched⟩ ⟨hconstant, hlogin, hk⟩ hs
      exact ⟨(step_holds hsound hlogin False.elim).result hs, (step_ramped hramped hconstant).result hs,
        (step_scheduled hsound hsched hramped.nuserTarget.2 hk).result hs⟩
  obtain ⟨hsound, hramped, hsched⟩ := hall
  constructor
  · intro hq
    have hno : ¬ p.wantsUser = true := fun hwants => hsched hwants hq
    rw [wantsUser_iff, sumInState_dead] at hno
    have hdead := hsound.ndead
    have halive := hramped.alive
    have hconnecting := hramped.connecting
    omega
  · intro now as t ht
    rw [step] at ht
    split at ht
    · have hdequeued : Sound False none { p with queued := none } := hsound.others ..
      exact (hdequeued.satisfied hramped.nuserTarget.2).result ht
    · cases ht

end

/-- One user is wanted and alive, and the platoon sleeps. -/
theorem ramp_up_complete_one : ∃ p g, Run platoons (fun p _ k => Constant p k ∧ LoginsKept p k ∧ Remembers k) p g ∧
    p.queued = none ∧ p.nuserTarget = 1 ∧ (0 < p.nInState .stopped ∨ p.sumInState .connect .getting = p.nuserTarget ∨
      p.sumInState .connect p.lastConnectingState = p.nconnectingTarget) := by
  have h0 : Run platoons (fun p _ k => Constant p k ∧ LoginsKept p k ∧ Remembers k) (init modest) () :=
    .start ⟨modest, rfl⟩
  have h1 := h0.next (k := Act.setNuserTarget 1 prompt) ⟨⟨.inl rfl, by decide, by decide⟩, trivial, rfl⟩ rfl
  have h2 := h1.next (k := Act.platoonTimer 0 [⟨Session.blank, 0, true, prompt⟩])
    ⟨trivial, trivial, fun a ha => by rw [List.mem_singleton.1 ha]; rfl⟩ rfl
  have h3 := h2.next (k := Act.platoonTimer 0 []) ⟨trivial, trivial, fun a ha => absurd ha List.not_mem_nil⟩ rfl
  exact ⟨_, _, h3, rfl, rfl, (ramp_up_complete h3).1 rfl⟩

end Dkftpbench.Platoon
