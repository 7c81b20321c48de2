import Dkftpbench.PlatoonCalls

/-!
# What a robouser does to the platoon, whatever happens

A callback of a robouser moves that robouser alone from one state to another, through any
states in between, and the counts move with it. Nothing here is asked of the kernel or of
the pipes, so a robouser may die twice, or connect after it died. But only one that was
connecting when its callback began can be found connecting when it ends.
-/
namespace Dkftpbench
open CLib Faults

namespace RobouserState

/-- How a state may change while one callback executes. -/
def Turns (s s' : RobouserState) : Prop :=
  s = .connect ∨ s' = s ∨ s' = .stopped ∨ s ≠ .stopped ∧ s' ≠ .connect ∧ s' ≠ .connecting

section
variable {s s' s'' : RobouserState}

theorem Turns.refl (s : RobouserState) : Turns s s := .inr (.inl rfl)

/-- A user that is alive goes on. -/
theorem turns_on (hs : s ≠ .stopped) (hconnect : s' ≠ .connect) (hconnecting : s' ≠ .connecting) : Turns s s' :=
  .inr (.inr (.inr ⟨hs, hconnect, hconnecting⟩))

theorem turns_stopped (s : RobouserState) : Turns s .stopped := .inr (.inr (.inl rfl))

theorem Turns.trans (h : Turns s s') (h' : Turns s' s'') : Turns s s'' := by
  rcases h with hs | hs | hs | ⟨hs, hconnect, hconnecting⟩
  · exact .inl hs
  · rwa [hs] at h'
  · rcases h' with hs' | hs' | hs' | ⟨hs', _⟩
    · rw [hs] at hs'
      cases hs'
    · exact .inr (.inr (.inl (hs'.trans hs)))
    · exact .inr (.inr (.inl hs'))
    · exact absurd hs hs'
  · rcases h' with hs' | hs' | hs' | ⟨_, hs'⟩
    · exact absurd hs' hconnect
    · rw [hs']
      exact .inr (.inr (.inr ⟨hs, hconnect, hconnecting⟩))
    · exact .inr (.inr (.inl hs'))
    · exact .inr (.inr (.inr ⟨hs, hs'⟩))

end
end RobouserState

namespace Platoon
open RobouserState

/-- One robouser moves, and the counts with it. Others may be deleted. -/
structure Acts (id : ℕ) (p t : Platoon) : Prop where
  nuserTarget : t.nuserTarget = p.nuserTarget
  nconnectingTarget : t.nconnectingTarget = p.nconnectingTarget
  lastConnectingState : t.lastConnectingState = p.lastConnectingState
  next : t.next = p.next
  executing : t.executing = p.executing
  users : ∀ i j, t.users i = some j → p.users i = some j
  others : ∀ j q, j ≠ id → t.robousers j = some q → p.robousers j = some q
  moved : ∀ r, p.robousers id = some r → r.state ≠ .uninit → ∃ q, t.robousers id = some q ∧ q.state ≠ .uninit ∧
    ∀ s, t.nInState s+(if r.state = s then 1 else 0) = p.nInState s+if q.state = s then 1 else 0

/-- The robouser is there, in a state that the first may have led to. -/
def Turned (id : ℕ) (s : RobouserState) (t : Platoon) : Prop := ∃ q, t.robousers id = some q ∧ q.state ≠ .uninit ∧ Turns s q.state

/-- A part of a callback: it may fail, or the robouser has moved from such a state. -/
def Leads (id : ℕ) (s : RobouserState) (p : Platoon) (x : Except Fault Platoon) : Prop :=
  Holds Any (fun t => Acts id p t ∧ Turned id s t) x

section
variable {p t u : Platoon} {id : ℕ} {r q : Robouser} {s newstate : RobouserState} {k : Wake} {w : World}
variable {xerr status : ℤ} {x : Except Fault Platoon}

theorem Acts.refl (id : ℕ) (p : Platoon) : Acts id p p :=
  ⟨rfl, rfl, rfl, rfl, rfl, fun _ _ h => h, fun _ _ _ h => h, fun r hr hs => ⟨r, hr, hs, fun _ => rfl⟩⟩

theorem Acts.trans (h : Acts id p t) (h' : Acts id t u) : Acts id p u where
  nuserTarget := h'.nuserTarget.trans h.nuserTarget
  nconnectingTarget := h'.nconnectingTarget.trans h.nconnectingTarget
  lastConnectingState := h'.lastConnectingState.trans h.lastConnectingState
  next := h'.next.trans h.next
  executing := h'.executing.trans h.executing
  users i j hj := h.users i j (h'.users i j hj)
  others j q hj hq := h.others j q hj (h'.others j q hj hq)
  moved := by
    intro r hr hs
    obtain ⟨q, hq, hs', hcount⟩ := h.moved r hr hs
    obtain ⟨q', hq', hs'', hcount'⟩ := h'.moved q hq hs'
    refine ⟨q', hq', hs'', ?_⟩
    intro s
    have hfirst := hcount s
    have hsecond := hcount' s
    omega

/-- The robouser changes in something else. -/
theorem acts_setUser (hr : p.robousers id = some r) (hs : q.state = r.state) : Acts id p (p.setUser id q) where
  nuserTarget := rfl
  nconnectingTarget := rfl
  lastConnectingState := rfl
  next := rfl
  executing := rfl
  users _ _ h := h
  others j _ hj h := (Function.update_of_ne hj ..).symm.trans h
  moved := by
    intro r' hr' hs'
    have heq : r' = r := Option.some.inj (hr'.symm.trans hr)
    rw [heq] at hs' ⊢
    refine ⟨q, setUser_self, hs ▸ hs', ?_⟩
    intro s
    rw [hs]
    rfl

theorem acts_went (hr : p.robousers id = some r) (hnew : newstate ≠ .uninit) :
    Acts id p (p.went id r newstate k) where
  nuserTarget := rfl
  nconnectingTarget := rfl
  lastConnectingState := rfl
  next := rfl
  executing := rfl
  users _ _ h := h
  others j _ hj h := (Function.update_of_ne hj ..).symm.trans h
  moved := by
    intro r' hr' hs'
    have heq : r' = r := Option.some.inj (hr'.symm.trans hr)
    rw [heq] at hs' ⊢
    exact ⟨{ r with state := newstate }, setUser_self, hnew, fun s => counted_add p.nInState hs' newstate s⟩

theorem gotoState_leads (hr : p.robousers id = some r) (hnew : newstate ≠ .uninit) (hturn : Turns s newstate) :
    Leads id s p (p.gotoState id newstate k) := by
  rw [gotoState_ok hr hnew]
  exact ⟨acts_went hr hnew, _, setUser_self, hnew, hturn⟩

theorem stop_leads (hr : p.robousers id = some r) (s : RobouserState) : Leads id s p (p.stop id k) := by
  have hnew : RobouserState.stopped ≠ .uninit := by decide
  rw [stop_ok hr]
  obtain ⟨h₁, h₂, h₃, h₄, h₅, h₆, h₇, h₈⟩ := acts_went (k := k) hr hnew
  exact ⟨⟨h₁, h₂, h₃, h₄, h₅, h₆, h₇, h₈⟩, _, setUser_self, hnew, turns_stopped s⟩

/-- One part of a callback after another. -/
theorem leads_bind {α : Type} {x : Except Fault α} {f : α → Platoon} {g : α → Except Fault Platoon}
    (hx : Holds Any (fun a => Acts id p (f a) ∧ Turned id s (f a)) x)
    (hg : ∀ a q, (f a).robousers id = some q → q.state ≠ .uninit → Turns s q.state → Leads id s (f a) (g a)) :
    Leads id s p (x >>= g) := by
  apply hx.bind
  intro a ⟨hacts, q, hq, hs, hturn⟩
  apply (hg a q hq hs hturn).mono
  intro t ⟨ht, hturned⟩
  exact ⟨hacts.trans ht, hturned⟩

theorem Leads.mono (h : Leads id newstate p x) (hturn : Turns s newstate) : Leads id s p x := by
  apply Holds.mono h
  intro t ⟨ht, q, hq, hs, hq'⟩
  exact ⟨ht, q, hq, hs, hturn.trans hq'⟩

theorem leads_self (hr : p.robousers id = some r) (hs : r.state ≠ .uninit) : Leads id r.state p (.ok p) :=
  ⟨.refl id p, r, hr, hs, .refl r.state⟩

/-- The user dies, or goes on. -/
theorem leads_or_stops {c : Prop} [Decidable c] (hr : p.robousers id = some r) (h : Leads id s p x) :
    Leads id s p (if c then p.stop id k else x) := by
  split
  · exact stop_leads hr s
  · exact h

theorem cmdDoneReturns_leads (hr : p.robousers id = some r) (hs : r.state ≠ .uninit) (hturn : Turns s r.state) :
    Leads id s p (p.cmdDoneReturns id) := by
  unfold cmdDoneReturns
  apply holds_user hr
  split
  · trivial
  · exact ⟨acts_setUser hr rfl, _, setUser_self, hs, hturn⟩

theorem beginFetch_leads {now : Clock} (hr : p.robousers id = some r) (hs : r.state ≠ .uninit) (hturn : Turns s r.state) :
    Leads id s p (p.beginFetch id now) := by
  unfold beginFetch
  apply holds_user hr
  exact ⟨acts_setUser hr rfl, _, setUser_self, hs, hturn⟩

/-- A function of the pipe runs, and what it calls back may move the robouser. -/
theorem runPipe_leads {f : Session → Outcome} {callback : Platoon → ℤ → ℤ → Except Fault Platoon}
    (hr : p.robousers id = some r) (hs : r.state ≠ .uninit) (hturn : Turns s r.state)
    (hcallback : ∀ p q xerr status, p.robousers id = some q → q.state ≠ .uninit →
      Leads id q.state p (callback p xerr status)) :
    Holds Any (fun x => Acts id p x.2 ∧ Turned id s x.2) (p.runPipe id f callback) := by
  have hset : ∀ fcp, Acts id p (p.setUser id { r with fcp := fcp }) := fun _ => acts_setUser hr rfl
  apply runPipe_holds (fun _ => trivial) hr
  · exact fun err fcp _ _ => ⟨hset fcp, _, setUser_self, hs, hturn⟩
  · intro err fcp xerr status _ _
    apply Holds.mono (hcallback (p.setUser id { r with fcp := fcp }) _ xerr status setUser_self hs)
    rintro t ⟨ht, q, hq, hqs, hq'⟩
    apply Holds.mono (cmdDoneReturns_leads hq hqs (hturn.trans hq'))
    exact fun u hu => ⟨((hset fcp).trans ht).trans hu.1, hu.2⟩

theorem ftpCmdDone_leads {as : List LoopAnswers} (hr : p.robousers id = some r) (hs : r.state ≠ .uninit) :
    Leads id r.state p (ftpCmdDone as p id xerr status) := by
  induction as generalizing p r xerr status with
  | nil => trivial
  | cons a as ih =>
      have hback : ∀ (p : Platoon) (q : Robouser) (xerr status : ℤ), p.robousers id = some q → q.state ≠ .uninit →
          Leads id q.state p (ftpCmdDone as p id xerr status) := fun p q xerr status hq hqs => ih hq hqs
      -- a state that is left at once for another one
      have hround : ∀ newstate, newstate ≠ .uninit → Turns r.state newstate →
          Leads id r.state p (p.gotoState id newstate a.wake >>= fun t => ftpCmdDone as t id 0 status) := by
        intro newstate hnew hturn
        apply leads_bind (f := fun t => t) (gotoState_leads hr hnew hturn)
        intro t q hq hqs hq'
        exact (ih hq hqs).mono hq'
      rw [ftpCmdDone]
      apply leads_or_stops hr
      apply holds_user hr
      split
      · next hst =>
        apply leads_bind (f := Prod.snd) (runPipe_leads hr hs (.refl r.state) hback)
        intro x q hq hqs hturn
        apply leads_or_stops hq
        apply leads_bind (f := Prod.snd) (runPipe_leads hq hqs hturn hback)
        intro x q' hq' _ _
        exact leads_or_stops hq' (gotoState_leads hq' (by decide) (.inl hst))
      · next hst =>
        have hlive : r.state ≠ .stopped := by rw [hst]; decide
        exact leads_or_stops hr (hround .startType (by decide) (turns_on hlive (by decide) (by decide)))
      · next hst =>
        have hlive : r.state ≠ .stopped := by rw [hst]; decide
        apply leads_bind (f := Prod.snd) (runPipe_leads hr hs (.refl r.state) hback)
        intro x q hq _ _
        exact leads_or_stops hq (gotoState_leads hq (by decide) (turns_on hlive (by decide) (by decide)))
      · next hst =>
        have hlive : r.state ≠ .stopped := by rw [hst]; decide
        exact leads_or_stops hr (hround .get (by decide) (turns_on hlive (by decide) (by decide)))
      · next hst =>
        have hlive : r.state ≠ .stopped := by rw [hst]; decide
        apply leads_bind (f := Prod.snd) (runPipe_leads hr hs (.refl r.state) hback)
        intro x q hq hqs hturn
        apply leads_or_stops hq
        apply leads_bind (f := fun t => t) (beginFetch_leads hq hqs hturn)
        intro t q' hq' _ _
        exact gotoState_leads hq' (by decide) (turns_on hlive (by decide) (by decide))
      · next hst =>
        have hlive : r.state ≠ .stopped := by rw [hst]; decide
        apply leads_or_stops hr
        exact leads_or_stops hr (hround .get (by decide) (turns_on hlive (by decide) (by decide)))
      · exact leads_self hr hs
      · exact leads_self hr hs

theorem Reaped.acts (h : Reaped p t) (hbusy : p.executing = some id) : Acts id p t := by
  obtain ⟨users, robousers, deleted, heq⟩ := h.rest
  refine ⟨?_, ?_, ?_, ?_, ?_, h.users, fun j q _ => h.robousers j q, ?_⟩
  · rw [heq]
  · rw [heq]
  · rw [heq]
  · rw [heq]
  · rw [heq]
  · intro r hr hs
    refine ⟨r, (h.busy id hbusy).trans hr, hs, ?_⟩
    intro s
    rw [heq]

/-- The bytes are counted. -/
theorem Acts.read (h : Acts id p t) (bytes : BitVec 64) (nreads : ℤ) :
    Acts id p { t with bytesFetched := bytes, nreads := nreads } :=
  ⟨h.nuserTarget, h.nconnectingTarget, h.lastConnectingState, h.next, h.executing, h.users, h.others, h.moved⟩

theorem afterRead_leads {c : Prop} [Decidable c] {nread : ℤ} (hr : p.robousers id = some r) (hs : r.state ≠ .uninit)
    (hbusy : p.executing = some id) :
    Holds Any (fun x => Acts id p x.2 ∧ Turned id r.state x.2) (if c then do
        let p ← p.stop id k
        return (0, p)
      else do
        let p ← p.reap w
        return (nread, p)) := by
  split
  · apply Holds.bind (stop_leads hr r.state)
    exact fun t ht => ht
  · apply (reap_reaped p w).bind
    intro t ht
    exact ⟨ht.acts hbusy, r, (ht.busy id hbusy).trans hr, hs, .refl r.state⟩

theorem handleDataIo_leads {io : DataIo} (hr : p.robousers id = some r) (hs : r.state ≠ .uninit)
    (hbusy : p.executing = some id) :
    Holds Any (fun x => Acts id p x.2 ∧ Turned id r.state x.2) (p.handleDataIo id io) := by
  unfold handleDataIo
  split
  · trivial
  · apply holds_user hr
    dsimp only
    split
    · exact ⟨acts_setUser hr rfl, _, setUser_self, hs, .refl r.state⟩
    · next n hn =>
      split
      · exact ⟨acts_setUser hr rfl, _, setUser_self, hs, .refl r.state⟩
      · have hset := (acts_setUser (q := fed r n io.now) hr rfl).read (p.bytesFetched+BitVec.ofNat 64 n) (p.nreads+1)
        have hget : ({ p.setUser id (fed r n io.now) with
            bytesFetched := p.bytesFetched+BitVec.ofNat 64 n, nreads := p.nreads+1 } : Platoon).robousers id =
            some (fed r n io.now) := setUser_self
        apply (afterRead_leads hget hs hbusy).mono
        intro x ⟨hx, hturned⟩
        exact ⟨hset.trans hx, hturned⟩

theorem serveData_leads {c : Cause} {io : DataIo} (hr : p.robousers id = some r) (hs : r.state ≠ .uninit)
    (hbusy : p.executing = some id) : Leads id r.state p (p.serveData id r.fcp c w io) := by
  unfold serveData
  split
  · exact (handleDataIo_leads hr hs hbusy).map fun _ hx => hx
  · exact leads_self hr hs

/-- Whatever comes to a pipe from outside. -/
theorem callPipe_leads {c : Cause} {io : DataIo} {as : List LoopAnswers} (hr : p.robousers id = some r)
    (hs : r.state ≠ .uninit) (hbusy : p.executing = some id) : Leads id r.state p (p.callPipe id c w io as) := by
  unfold callPipe
  apply holds_user hr
  apply leads_bind (f := fun t => t) (serveData_leads hr hs hbusy)
  intro t q hq hqs hturn
  apply leads_bind (f := Prod.snd) (runPipe_leads hq hqs hturn fun _ _ _ _ hr hs => ftpCmdDone_leads hr hs)
  intro ⟨err, u⟩ q' hq' hqs' hturn'
  exact ⟨.refl id u, q', hq', hqs', hturn'⟩

end
end Platoon
end Dkftpbench
