import Dkftpbench.PipeInHand
import Dkftpbench.PlatoonMoves
import Dkftpbench.PlatoonRuns

/-!
# What reset leaves behind

Three kinds of object are queued in the scheduler: the platoon, its robousers until they
connect, and their pipes while these are connected. So shutting down every robouser that
is in `m_users` or was, and taking the platoon itself out, empties the scheduler, in
whatever way the users died. The poller is another matter: it has forgotten all of the
pipes' descriptors if every `get` found memory for its entry in the scheduler. And a
robouser that is on the dead list twice is deleted twice.
-/
namespace Dkftpbench
open CLib Faults Session Watch

namespace Robouser

/-- A robouser that the scheduler has no entry for. -/
structure Awake (mem : Prop) (r : Robouser) : Prop where
  inHand : r.fcp.InHand mem
  queued : r.queued = none

/-- A robouser in a call of `ftpCmdDone` that its pipe made. -/
structure Hearing (mem : Prop) (r : Robouser) : Prop extends Awake mem r where
  inside : r.fcp.inFtpCmdDone ≠ 0
  connected : r.state ≠ .connect

/-- A robouser between its callbacks. -/
structure Steady (mem : Prop) (r : Robouser) : Prop where
  inHand : r.fcp.InHand mem
  queued : r.queued ≠ none → r.state = .connect
  unconnected : r.state = .connect → r.fcp.cfd = -1

/-- A robouser that was deleted. -/
structure Gone (mem : Prop) (r : Robouser) : Prop where
  queued : r.queued = none
  fcp : r.fcp.Released mem

variable {mem : Prop} {r : Robouser}

theorem Awake.steady (h : r.Awake mem) (hs : r.state ≠ .connect) : r.Steady mem :=
  ⟨h.inHand, fun hq => absurd h.queued hq, fun hc => absurd hc hs⟩

theorem Awake.withState (h : r.Awake mem) {s : RobouserState} (hs : s ≠ .connect) : { r with state := s }.Steady mem :=
  Awake.steady ⟨h.inHand, h.queued⟩ hs

theorem Hearing.withState (h : r.Hearing mem) {s : RobouserState} (hs : s ≠ .connect) :
    { r with state := s }.Hearing mem := ⟨⟨h.inHand, h.queued⟩, h.inside, hs⟩

/-- The call of `ftpCmdDone` returns. -/
theorem Awake.returned (h : r.Awake mem) (inFtpCmdDone : ℤ) (callbacks : ℕ) :
    { r with fcp := { r.fcp with inFtpCmdDone := inFtpCmdDone, callbacks := callbacks } }.Awake mem :=
  ⟨h.inHand.inside inFtpCmdDone callbacks, h.queued⟩

theorem Steady.returned (h : r.Steady mem) (inFtpCmdDone : ℤ) (callbacks : ℕ) :
    { r with fcp := { r.fcp with inFtpCmdDone := inFtpCmdDone, callbacks := callbacks } }.Steady mem :=
  ⟨h.inHand.inside inFtpCmdDone callbacks, h.queued, h.unconnected⟩

end Robouser

namespace Platoon
open Robouser

/-- What is answered to the `get` that a robouser in this state may come to in the next rounds. -/
def getAnswers : RobouserState → List LoopAnswers → Option LoopAnswers
  | .get, as => as.head?
  | .finishType, as => as.tail.head?
  | .getting, as => as.tail.head?
  | _, _ => none

/-- If it does, there is memory. -/
def FindsMemory (s : RobouserState) (as : List LoopAnswers) : Prop :=
  (getAnswers s as).all (fun a => a.command.enqueue) = true

/-- A `get` finds memory for its entry in the scheduler. -/
def GetsQueued (p : Platoon) : Act → Prop
  | .pipe id _ _ _ as => ∀ r, p.robousers id = some r → FindsMemory r.state as
  | _ => True

/-- `Poller::add` succeeds. -/
def PollerAdds : Act → Prop
  | .userTimer _ _ as => ∀ a ∈ as, a.connect.add = 0 ∧ a.command.add = 0
  | .pipe _ _ w _ as => w.add = 0 ∧ ∀ a ∈ as, a.connect.add = 0 ∧ a.command.add = 0
  | _ => True

/-- How many entries the scheduler has. -/
def entries (p : Platoon) : ℕ :=
  p.queued.toList.length+((List.range p.next).map fun id =>
    match p.robousers id with
    | none => 0
    | some r => r.queued.toList.length+r.fcp.queued.toList.length).sum

/-- Memory is missing only for the entry of a pipe that is given a command, and only when the scheduler
has 255 entries: its array has 256 elements at first and grows when that many are in use. -/
def Roomy (p : Platoon) (as : List LoopAnswers) : Prop :=
  ∀ a ∈ as, a.wake.enqueue = true ∧ (a.command.enqueue = false → p.entries = 255)

/-- What is answered of memory fits the array of the scheduler. -/
def FindsRoom (p : Platoon) : Act → Prop
  | .platoonTimer _ as => ∀ a ∈ as, a.enqueue = true ∧ a.wake.enqueue = true
  | .userTimer _ _ as => p.Roomy as
  | .pipe _ _ w io as => w.enqueue = true ∧ io.wake.enqueue = true ∧ p.Roomy as
  | .setNuserTarget _ k | .setNconnectingTarget _ k | .setLastConnectingState _ k => k.enqueue = true
  | .reap _ | .getStatus _ => True

/-- Neither the platoon nor a robouser nor a pipe is queued, deleted or not. -/
structure SkedEmpty (p : Platoon) : Prop where
  platoon : p.queued = none
  robousers : ∀ id r, p.robousers id = some r → r.queued = none ∧ r.fcp.queued = none
  deleted : ∀ x ∈ p.deleted, x.2.queued = none ∧ x.2.fcp.queued = none

/-- No activity is left. -/
structure Stopped (p : Platoon) : Prop where
  sked : p.SkedEmpty
  users : ∀ i, p.users i = none
  deadlist : p.deadlist = []
  robousers : ∀ id, p.robousers id = none
  deleted : ∀ id < p.next, ∃ r, (id, r) ∈ p.deleted

/-- And the poller knows no descriptor of any of the pipes. -/
structure LeavesNothing (p : Platoon) : Prop extends Stopped p where
  registered : ∀ x ∈ p.deleted, ∀ fd, ¬ Registered fd x.2.fcp.log

/-- The platoon between the callbacks of all robousers but the busy one. -/
structure Orderly (mem : Prop) (busy : Option ℕ) (p : Platoon) : Prop extends Linked p where
  executing : p.executing = busy
  steady : ∀ id r, p.robousers id = some r → busy ≠ some id → r.Steady mem
  gone : ∀ x ∈ p.deleted, x.2.Gone mem
  known : ∀ id < p.next, p.robousers id = none → ∃ r, (id, r) ∈ p.deleted

/-- Who is on the dead list was not deleted. -/
def Listed (p : Platoon) : Prop := ∀ id ∈ p.deadlist, ∃ r, p.robousers id = some r

/-- The platoon is in order but for this robouser, which is of a kind. -/
def Holding (mem : Prop) (id : ℕ) (K : Robouser → Prop) (p : Platoon) : Prop :=
  Orderly mem (some id) p ∧ Listed p ∧ ∃ r, p.robousers id = some r ∧ K r

section
variable {mem : Prop} {busy : Option ℕ} {p t : Platoon} {id : ℕ} {r u : Robouser} {K K' : Robouser → Prop}
  {newstate : RobouserState} {k : Wake} {w : World} {xerr status : ℤ} {ids : List ℕ}

/-- The two states that lead to GET. -/
theorem FindsMemory.next {s : RobouserState} {a : LoopAnswers} {as : List LoopAnswers}
    (hs : s = .finishType ∨ s = .getting) (h : FindsMemory s (a :: as)) : FindsMemory .get as := by
  rcases hs with rfl | rfl
  · exact h
  · exact h

theorem Holding.mono (h : Holding mem id K p) (hK : ∀ r, K r → K' r) : Holding mem id K' p := by
  obtain ⟨h, hl, r, hr, hk⟩ := h
  exact ⟨h, hl, r, hr, hK r hk⟩

/-- What is not about the robousers does not matter. -/
theorem Orderly.others (h : Orderly mem busy p) (hnext : t.next = p.next) (husers : t.users = p.users)
    (hrob : t.robousers = p.robousers) (hdel : t.deleted = p.deleted) (hex : t.executing = p.executing) :
    Orderly mem busy t := by
  refine ⟨⟨?_, ?_, ?_, ?_, ?_⟩, ?_, ?_, ?_, ?_⟩
  · rw [husers, hrob]
    exact h.slot
  · rw [husers, hrob]
    exact h.held
  · rw [hnext, hrob]
    exact h.fresh
  · rw [hdel, hnext, hrob]
    exact h.deleted
  · rw [hdel]
    exact h.nodup
  · rw [hex]
    exact h.executing
  · rw [hrob]
    exact h.steady
  · rw [hdel]
    exact h.gone
  · rw [hnext, hrob, hdel]
    exact h.known

/-- One robouser changes. -/
theorem Orderly.setUser (h : Orderly mem busy p) (hr : p.robousers id = some r) (hu : u.user = r.user)
    (hsteady : busy ≠ some id → u.Steady mem) : Orderly mem busy (p.setUser id u) where
  toLinked := h.toLinked.setUser hr hu
  executing := h.executing
  steady := by
    apply forall_setUser
    · exact hsteady
    · exact fun j q _ hq => h.steady j q hq
  gone := h.gone
  known := by
    intro j hj hnone
    by_cases hid : j = id
    · rw [hid, setUser_self] at hnone
      cases hnone
    · exact h.known j hj ((Function.update_of_ne hid ..).symm.trans hnone)

theorem Listed.setUser (h : Listed p) : Listed (p.setUser id u) := fun j hj => setUser_there (h j hj)

theorem holding_set (h : Orderly mem (some id) p) (hl : Listed p) (hr : p.robousers id = some r)
    (hu : u.user = r.user) (hK : K u) : Holding mem id K (p.setUser id u) :=
  ⟨h.setUser hr hu (absurd rfl), hl.setUser, u, setUser_self, hK⟩

theorem gotoState_holding (h : Orderly mem (some id) p) (hl : Listed p) (hr : p.robousers id = some r)
    (hnew : newstate ≠ .uninit) (hK : K { r with state := newstate }) :
    Holds Any (Holding mem id K) (p.gotoState id newstate k) := by
  rw [gotoState_ok hr hnew]
  have hbase : Orderly mem (some id) ({ p with nInState := counted p.nInState r.state newstate }.wakeUp k) :=
    h.others rfl rfl rfl rfl rfl
  exact holding_set hbase hl hr rfl hK

/-- A user dies, whether it was alive or not. -/
theorem stop_holding (h : Orderly mem (some id) p) (hl : Listed p) (hr : p.robousers id = some r)
    (hK : K { r with state := .stopped }) : Holds Any (Holding mem id K) (p.stop id k) := by
  have hnew : RobouserState.stopped ≠ .uninit := by decide
  have hgo := gotoState_holding (k := k) h hl hr hnew hK
  unfold Platoon.stop
  rw [gotoState_ok hr hnew] at hgo ⊢
  obtain ⟨hwent, hlwent, q, hq, hKq⟩ := hgo
  refine ⟨hwent.others rfl rfl rfl rfl rfl, ?_, q, hq, hKq⟩
  intro j hj
  rcases List.mem_append.1 hj with hj | hj
  · exact hlwent j hj
  · rw [List.mem_singleton.1 hj]
    exact ⟨q, hq⟩

/-- The user dies, or goes on. -/
theorem holding_or_stops {c : Prop} [Decidable c] {x : Except Fault Platoon} (h : Orderly mem (some id) p)
    (hl : Listed p) (hr : p.robousers id = some r) (hK : K { r with state := .stopped })
    (hx : Holds Any (Holding mem id K) x) : Holds Any (Holding mem id K) (if c then p.stop id k else x) := by
  split
  · exact stop_holding h hl hr hK
  · exact hx

/-! ## The callbacks of a robouser -/

/-- A command from inside of `ftpCmdDone`. -/
theorem runPipe_hearing {f : Session → Outcome} {callback : Platoon → ℤ → ℤ → Except Fault Platoon}
    (h : Orderly mem (some id) p) (hl : Listed p) (hr : p.robousers id = some r) (ha : r.Hearing mem)
    (hcalls : ∀ e s, f r.fcp = .ok (e, s) → Calls r.fcp s)
    (hkeeps : ∀ e s, f r.fcp = .ok (e, s) → s.InHand mem) :
    Holds Any (fun x => Orderly mem (some id) x.2 ∧ Listed x.2 ∧ ∃ q, x.2.robousers id = some q ∧ q.Hearing mem)
      (p.runPipe id f callback) := by
  apply runPipe_quiet (fun _ => trivial) hr fun e s hf => ((hcalls e s hf).inside ha.inside).1
  intro e s hf
  have hinside : s.inFtpCmdDone ≠ 0 := by
    rw [((hcalls e s hf).inside ha.inside).2.2]
    exact ha.inside
  exact holding_set h hl hr rfl ⟨⟨hkeeps e s hf, ha.queued⟩, hinside, ha.connected⟩

/-- What `ftpCmdDone` does when the pipe calls it. A `get` is issued only where nothing
failed, so that no data connection is open. -/
theorem ftpCmdDone_hearing {as : List LoopAnswers} (h : Orderly mem (some id) p) (hl : Listed p)
    (hr : p.robousers id = some r) (ha : r.Hearing mem) (hdone : xerr = 0 → r.fcp.dfd = -1)
    (hmem : mem → FindsMemory r.state as) :
    Holds Any (Holding mem id (Hearing mem)) (ftpCmdDone as p id xerr status) := by
  induction as generalizing p r xerr status with
  | nil => trivial
  | cons a as ih =>
      have hdead : { r with state := .stopped }.Hearing mem := ha.withState (by decide)
      rw [ftpCmdDone]
      split
      · exact stop_holding h hl hr hdead
      · next hxerr =>
        have hdfd : r.fcp.dfd = -1 := hdone (not_not.1 hxerr)
        -- a state that is left at once for another one
        have hround : ∀ newstate, newstate ≠ .uninit → newstate ≠ .connect → (mem → FindsMemory newstate as) →
            Holds Any (Holding mem id (Hearing mem))
              (p.gotoState id newstate a.wake >>= fun p => ftpCmdDone as p id 0 status) := by
          intro newstate hnew hconnect hnext
          apply (gotoState_holding (K := fun q => q.Hearing mem ∧ q.fcp.dfd = -1 ∧ q.state = newstate) h hl hr hnew
            ⟨ha.withState hconnect, hdfd, rfl⟩).bind
          rintro t ⟨ht, htl, q, hq, hqa, hqdfd, rfl⟩
          exact ih ht htl hq hqa (fun _ => hqdfd) hnext
        apply holds_user hr
        split
        · next hs => exact absurd hs ha.connected
        · exact holding_or_stops h hl hr hdead (hround .startType (by decide) (by decide) fun _ => rfl)
        · apply (runPipe_hearing h hl hr ha (fun _ _ hf => type_calls hf) fun _ _ hf => ha.inHand.type hf).bind
          rintro ⟨err, t⟩ ⟨ht, htl, q, hq, hqa⟩
          exact holding_or_stops ht htl hq (hqa.withState (by decide))
            (gotoState_holding ht htl hq (by decide) (hqa.withState (by decide)))
        · next hs =>
          exact holding_or_stops h hl hr hdead (hround .get (by decide) (by decide) fun hm => (hmem hm).next (.inl hs))
        · next hs =>
          rw [hs] at hmem
          apply (runPipe_hearing h hl hr ha (fun _ _ hf => get_calls hf) fun _ _ hf =>
            ha.inHand.get (fun _ => hdfd) hmem hf).bind
          rintro ⟨err, t⟩ ⟨ht, htl, q, hq, hqa⟩
          apply holding_or_stops ht htl hq (hqa.withState (by decide))
          have hset := holding_set (u := { q with startedAt := a.now, bytesFetched := 0, reads := 0 }) ht htl hq rfl
            (K := Hearing mem) ⟨⟨hqa.inHand, hqa.queued⟩, hqa.inside, hqa.connected⟩
          rw [beginFetch_ok hq]
          obtain ⟨hset, hsetl, q', hq', hqa'⟩ := hset
          exact gotoState_holding hset hsetl hq' (by decide) (hqa'.withState (by decide))
        · next hs =>
          apply holding_or_stops h hl hr hdead
          exact holding_or_stops h hl hr hdead (hround .get (by decide) (by decide) fun hm => (hmem hm).next (.inr hs))
        · exact ⟨h, hl, r, hr, ha⟩
        · exact ⟨h, hl, r, hr, ha⟩

theorem cmdDoneReturns_holding (h : Orderly mem (some id) p) (hl : Listed p) (hr : p.robousers id = some r)
    (hK : ∀ inFtpCmdDone callbacks, K { r with fcp := { r.fcp with
      inFtpCmdDone := inFtpCmdDone, callbacks := callbacks } }) : Holds Any (Holding mem id K) (p.cmdDoneReturns id) := by
  unfold cmdDoneReturns
  apply holds_user hr
  cases hret : r.fcp.returnFromCallback with
  | error stop => trivial
  | ok fcp =>
      unfold returnFromCallback at hret
      split at hret
      · cases hret
      · cases hret
        exact holding_set h hl hr rfl (hK _ _)

/-- A function of the pipe that may tell the robouser of something, and what it makes of that. -/
theorem runPipe_holding {f : Session → Outcome} {callback : Platoon → ℤ → ℤ → Except Fault Platoon}
    (h : Orderly mem (some id) p) (hl : Listed p) (hr : p.robousers id = some r)
    (hquiet : ∀ e s, f r.fcp = .ok (e, s) → r.fcp.called s = none → K { r with fcp := s })
    (htold : ∀ e s xerr status, f r.fcp = .ok (e, s) → r.fcp.called s = some (xerr, status) →
      Holds Any (Holding mem id K) (callback (p.setUser id { r with fcp := s }) xerr status))
    (hK : ∀ r, K r → ∀ inFtpCmdDone callbacks, K { r with fcp := { r.fcp with
      inFtpCmdDone := inFtpCmdDone, callbacks := callbacks } }) :
    Holds Any (fun x => Holding mem id K x.2) (p.runPipe id f callback) := by
  apply runPipe_holds (fun _ => trivial) hr
  · exact fun e s hf hcalled => holding_set h hl hr rfl (hquiet e s hf hcalled)
  · intro e s xerr status hf hcalled
    apply (htold e s xerr status hf hcalled).mono
    rintro t ⟨ht, htl, q, hq, hKq⟩
    exact cmdDoneReturns_holding ht htl hq (hK q hKq)

/-- What `ftpCmdDone` does when the scheduler calls it. The kickstart of `login` calls it
again only to stop. -/
theorem ftpCmdDone_awake {as : List LoopAnswers} (h : Orderly mem (some id) p) (hl : Listed p)
    (hr : p.robousers id = some r) (ha : r.Awake mem) (hs : r.state = .connect) (hcfd : r.fcp.cfd = -1) :
    Holds Any (Holding mem id (Steady mem)) (ftpCmdDone as p id 0 status) := by
  cases as with
  | nil => trivial
  | cons a as =>
      rw [ftpCmdDone, if_neg (not_not.2 rfl)]
      apply holds_user hr
      rw [hs]
      dsimp only
      apply (runPipe_quiet (Q := fun x => ∃ s, r.fcp.connect a.connect (BitVec.ofInt 16 p.port) = .ok (x.1, s) ∧
        x.2 = p.setUser id { r with fcp := s }) (fun _ => trivial) hr (fun e s hc => called_of_eq (connect_callbacks hc).1)
        fun e s hc => ⟨s, hc, rfl⟩).bind
      rintro ⟨err, p'⟩ ⟨s, hc, rfl⟩
      have hconnected : { r with fcp := s }.Awake mem := ⟨ha.inHand.connect hcfd hc, ha.queued⟩
      obtain ⟨hset, hsetl, _⟩ := holding_set (K := fun _ => True) h hl hr (u := { r with fcp := s }) rfl trivial
      dsimp only
      split
      · exact stop_holding hset hsetl setUser_self (hconnected.withState (by decide))
      · next hzero =>
        rw [not_not] at hzero
        subst hzero
        apply Holds.bind (Q := fun x => Holding mem id (Awake mem) x.2)
        · apply runPipe_holding hset hsetl setUser_self
          · exact fun e t hl _ => ⟨hconnected.inHand.login hl, ha.queued⟩
          · intro e t xerr status hlogin hcalled
            have hawake : { r with fcp := t }.Awake mem := ⟨hconnected.inHand.login hlogin, ha.queued⟩
            obtain ⟨hset', hsetl', q, hq, hqa⟩ := holding_set hset hsetl setUser_self (u := { r with fcp := t }) rfl hawake
            cases as with
            | nil => trivial
            | cons b as =>
                rw [ftpCmdDone, if_pos (login_called p.username.2 hc hlogin hcalled)]
                exact stop_holding hset' hsetl' hq ⟨hqa.inHand, hqa.queued⟩
          · exact fun _ hq => hq.returned
        · rintro ⟨err, t⟩ ⟨ht, htl, q, hq, hqa⟩
          apply holding_or_stops ht htl hq (hqa.withState (by decide))
          exact gotoState_holding ht htl hq (by decide) (hqa.withState (by decide))

/-- Others may be deleted. -/
theorem Orderly.bury (h : Orderly mem busy p) (hr : p.robousers id = some r) (hbusy : p.executing ≠ some id) :
    Orderly mem busy (p.buried id r w) where
  toLinked := h.toLinked.bury hr
  executing := h.executing
  steady := fun j q hq => h.steady j q (buried_get hq).2
  gone := by
    intro x hx
    rcases List.mem_cons.1 hx with rfl | hx
    · exact ⟨rfl, (h.steady id r hr (h.executing ▸ hbusy)).inHand.shutdown⟩
    · exact h.gone x hx
  known := by
    intro j hj hnone
    by_cases hid : j = id
    · rw [hid]
      exact ⟨_, List.mem_cons_self⟩
    · rw [buried_of_ne hid] at hnone
      obtain ⟨q, hq⟩ := h.known j hj hnone
      exact ⟨q, .tail _ hq⟩

theorem listed_nil (h : p.deadlist = []) : Listed p := by
  intro j hj
  rw [h] at hj
  cases hj

theorem reap_orderly (h : Orderly mem busy p) : Holds Any (fun t => Orderly mem busy t ∧ Reaped p t) (p.reap w) := by
  have hloop : Holds Any _ (p.reap w) := reap_invariant (I := Orderly mem busy) (fun _ _ _ _ _ _ => trivial)
    (fun _ _ _ _ _ _ => trivial) ?_ h
  · apply (hloop.and (reap_reaped p w)).mono
    exact fun _ ht => ⟨ht.1.1, ht.2⟩
  · intro t id ids r ht _ hr hex
    have hbase : Orderly mem busy { t with deadlist := ids } := ht.others rfl rfl rfl rfl rfl
    exact hbase.bury hr hex

theorem Reaped.listed (h : Reaped p t) : Listed t := by
  obtain ⟨users, robousers, deleted, heq⟩ := h.rest
  apply listed_nil
  rw [heq]

/-- What `handle_data_io` leaves of a robouser: its pipe, and its state if it did not die. -/
def SamePipe (r q : Robouser) : Prop := q.fcp = r.fcp ∧ q.queued = r.queued ∧ (q.state = r.state ∨ q.state = .stopped)

theorem afterRead_holding {c : Prop} [Decidable c] {nread : ℤ} (h : Orderly mem (some id) p) (hl : Listed p)
    (hr : p.robousers id = some r) : Holds Any (fun x => Holding mem id (SamePipe r) x.2) (if c then do
        let p ← p.stop id k
        return (0, p)
      else do
        let p ← p.reap w
        return (nread, p)) := by
  split
  · apply (stop_holding (K := SamePipe r) h hl hr ⟨rfl, rfl, .inr rfl⟩).bind
    exact fun _ ht => ht
  · apply (reap_orderly h).bind
    rintro t ⟨ht, hreaped⟩
    exact ⟨ht, hreaped.listed, r, (hreaped.busy id h.executing).trans hr, rfl, rfl, .inl rfl⟩

theorem handleDataIo_holding {io : DataIo} (h : Orderly mem (some id) p) (hl : Listed p) (hr : p.robousers id = some r) :
    Holds Any (fun x => Holding mem id (SamePipe r) x.2) (p.handleDataIo id io) := by
  unfold handleDataIo
  split
  · trivial
  · apply holds_user hr
    dsimp only
    split
    · exact holding_set h hl hr rfl ⟨rfl, rfl, .inl rfl⟩
    · next n hn =>
      split
      · exact holding_set h hl hr rfl ⟨rfl, rfl, .inl rfl⟩
      · obtain ⟨hset, hsetl, _⟩ := holding_set (K := fun _ => True) h hl hr (u := fed r n io.now) rfl trivial
        have hread : Orderly mem (some id) { p.setUser id (fed r n io.now) with
            bytesFetched := p.bytesFetched+BitVec.ofNat 64 n, nreads := p.nreads+1 } := hset.others rfl rfl rfl rfl rfl
        have hget : ({ p.setUser id (fed r n io.now) with
            bytesFetched := p.bytesFetched+BitVec.ofNat 64 n, nreads := p.nreads+1 } : Platoon).robousers id =
            some (fed r n io.now) := setUser_self
        exact (afterRead_holding hread hsetl hget).mono fun _ hx => hx

theorem serveData_holding {c : Cause} {io : DataIo} (h : Orderly mem (some id) p) (hl : Listed p)
    (hr : p.robousers id = some r) : Holds Any (Holding mem id (SamePipe r)) (p.serveData id r.fcp c w io) := by
  unfold serveData
  split
  · exact (handleDataIo_holding h hl hr).map fun _ hx => hx
  · exact ⟨h, hl, r, hr, rfl, rfl, .inl rfl⟩

/-- Whatever comes to a pipe from outside. -/
theorem callPipe_holding {c : Cause} {io : DataIo} {as : List LoopAnswers} (h : Orderly mem (some id) p) (hl : Listed p)
    (hr : p.robousers id = some r) (hsteady : r.Steady mem) (hmem : mem → FindsMemory r.state as) :
    Holds Any (Holding mem id (Steady mem)) (p.callPipe id c w io as) := by
  by_cases hs : r.state = .connect
  · have hcfd := hsteady.unconnected hs
    obtain ⟨hdfd, hq⟩ := hsteady.inHand.off hcfd
    exact callPipe_idle (fun _ => trivial) hr hcfd hdfd hq (holding_set h hl hr rfl hsteady)
  · have hawake : r.queued = none := by
      by_contra hq
      exact hs (hsteady.queued hq)
    unfold callPipe
    apply holds_user hr
    apply (serveData_holding h hl hr).bind
    rintro t ⟨ht, htl, q, hq, hfcp, hqueued, hstate⟩
    have hconn : q.state ≠ .connect := by
      rcases hstate with hst | hst
      · rwa [hst]
      · rw [hst]
        decide
    have hnext : mem → FindsMemory q.state as := by
      rcases hstate with hst | hst
      · rwa [hst]
      · rw [hst]
        exact fun _ => rfl
    have hheard : ∀ e s, (q.fcp.receive (p.answered id w io) c).map (fun s => ((0 : ℤ), s)) = .ok (e, s) →
        Heard mem q.fcp s := by
      intro e s hrec
      rw [hfcp] at hrec ⊢
      exact hsteady.inHand.receive (receive_map hrec)
    apply Holds.bind (Q := fun x => Holding mem id (Steady mem) x.2)
    · apply runPipe_holding ht htl hq
      · intro e s hrec _
        have hq' : { q with fcp := s }.Awake mem := ⟨(hheard e s hrec).inHand, hqueued.trans hawake⟩
        exact hq'.steady hconn
      · intro e s xerr status hrec hcalled
        have hinside : s.inFtpCmdDone ≠ 0 := by
          rcases (receive_calls (receive_map hrec)).called_cases with ⟨hnone, _⟩ | ⟨_, _, _, _, hone, _⟩
          · rw [hnone] at hcalled
            cases hcalled
          · rw [hone]
            decide
        have ha : { q with fcp := s }.Hearing mem :=
          ⟨⟨(hheard e s hrec).inHand, hqueued.trans hawake⟩, hinside, hconn⟩
        obtain ⟨hset, hsetl, q', hq', hqa⟩ := holding_set (K := fun q' => q' = { q with fcp := s }) ht htl hq
          (u := { q with fcp := s }) rfl rfl
        subst hqa
        have hdone : xerr = 0 → s.dfd = -1 := by
          intro hxerr
          subst hxerr
          exact (hheard e s hrec).quiet status hcalled
        apply (ftpCmdDone_hearing hset hsetl hq' ha hdone hnext).mono
        exact fun _ hp => hp.mono fun _ hr => hr.toAwake.steady hr.connected
      · exact fun _ hr => hr.returned
    · exact fun _ hp => hp

/-! ## The steps -/

theorem recruit_steady (i : ℕ) (a : Start) : (p.recruit i a).Steady mem where
  inHand := inHand_fresh a.memory p.maxBytesPerSec
  queued := fun _ => rfl
  unconnected := fun _ => rfl

theorem Orderly.enlisted {i : ℕ} {a : Start} (h : Orderly mem none p) (hfree : p.users i = none) (hlt : i < maxUsers) :
    Orderly mem none (p.enlisted i a) where
  toLinked := h.toLinked.enlisted hfree hlt
  executing := h.executing
  steady := by
    intro id q hq hid
    rcases enlisted_cases hq with ⟨rfl, rfl⟩ | ⟨_, hq⟩
    · exact recruit_steady i a
    · exact h.steady id q hq hid
  gone := h.gone
  known := by
    intro id hid hnone
    by_cases hnew : id = p.next
    · rw [hnew, enlisted_recruit] at hnone
      cases hnone
    · have hlt : id < p.next+1 := hid
      exact h.known id (by omega) ((Function.update_of_ne hnew ..).symm.trans hnone)

theorem Listed.enlisted {i : ℕ} {a : Start} (h : Listed p) : Listed (p.enlisted i a) := by
  intro id hid
  by_cases hnew : id = p.next
  · exact ⟨_, hnew ▸ enlisted_recruit⟩
  · obtain ⟨q, hq⟩ := h id hid
    exact ⟨q, (Function.update_of_ne hnew ..).trans hq⟩

/-- The platoon between its steps. -/
def Settled (mem : Prop) (p : Platoon) : Prop := Orderly mem none p ∧ Listed p

theorem Settled.skedCallback {as : List Start} (h : Settled mem p) : Holds Any (Settled mem) (skedCallback as p) := by
  induction as generalizing p with
  | nil =>
      rw [Platoon.skedCallback]
      split
      · trivial
      · exact h
  | cons a as ih =>
      rw [Platoon.skedCallback]
      split
      · rcases startUser_cases (p := p) (a := a) with hs | hs | ⟨i, hfree, hlt, hs⟩
        · rw [hs]
          trivial
        · rw [hs]
          exact h
        · rw [hs]
          exact ih ⟨h.1.enlisted hfree hlt, h.2.enlisted⟩
      · exact h

theorem Orderly.during (h : Orderly mem none p) (id : ℕ) : Orderly mem (some id) (p.during id) :=
  ⟨⟨h.slot, h.held, h.fresh, h.deleted, h.nodup⟩, rfl, fun j q hq _ => h.steady j q hq (Option.some_ne_none j).symm, h.gone, h.known⟩

/-- The robouser's callback has returned. -/
theorem Holding.returns (h : Holding mem id (Steady mem) p) : Settled mem { p with executing := none } := by
  obtain ⟨h, hl, r, hr, hsteady⟩ := h
  refine ⟨⟨⟨h.slot, h.held, h.fresh, h.deleted, h.nodup⟩, rfl, ?_, h.gone, h.known⟩, hl⟩
  intro j q hq _
  by_cases hj : j = id
  · subst hj
    have heq : q = r := Option.some.inj (hq.symm.trans hr)
    exact heq ▸ hsteady
  · exact h.steady j q hq fun heq => hj (Option.some.inj heq).symm

theorem callUser_settled {f : Platoon → Except Fault Platoon}
    (hf : Holds Any (Holding mem id (Steady mem)) (f (p.during id))) : Holds Any (Settled mem) (p.callUser id f) :=
  hf.bind fun _ ht => ht.returns

theorem Settled.reap (h : Settled mem p) : Holds Any (Settled mem) (p.reap w) :=
  (reap_orderly h.1).mono fun _ ht => ⟨ht.1, ht.2.listed⟩

/-- What one step preserves. -/
theorem Settled.step {a : Act} (h : Settled mem p) (hmem : mem → p.GetsQueued a) : Holds Any (Settled mem) (p.step a) := by
  cases a with
  | platoonTimer now as =>
      rw [Platoon.step]
      split
      · have hbase : Settled mem { p with queued := none } := ⟨h.1.others rfl rfl rfl rfl rfl, h.2⟩
        exact hbase.skedCallback
      · trivial
  | userTimer id now as =>
      rw [Platoon.step]
      split
      · trivial
      · next r hr =>
        split
        · next hdue =>
          have hqueued : r.queued ≠ none := by
            intro hq
            rw [hq] at hdue
            cases hdue
          have hsteady := h.1.steady id r hr (Option.some_ne_none id).symm
          have hs := hsteady.queued hqueued
          have hset : Orderly mem none (p.setUser id { r with queued := none }) :=
            h.1.setUser hr rfl fun _ => ⟨hsteady.inHand, absurd rfl, hsteady.unconnected⟩
          apply callUser_settled
          exact ftpCmdDone_awake (hset.during id) h.2.setUser setUser_self ⟨hsteady.inHand, rfl⟩ hs
            (hsteady.unconnected hs)
        · trivial
  | pipe id c w io as =>
      rw [Platoon.step]
      split
      · trivial
      · next r hr =>
        apply callUser_settled
        exact callPipe_holding (h.1.during id) h.2 hr (h.1.steady id r hr (Option.some_ne_none id).symm) fun hm => hmem hm r hr
  | setNuserTarget utarget k => exact ⟨h.1.others rfl rfl rfl rfl rfl, h.2⟩
  | setNconnectingTarget ctarget k => exact ⟨h.1.others rfl rfl rfl rfl rfl, h.2⟩
  | setLastConnectingState s k => exact ⟨h.1.others rfl rfl rfl rfl rfl, h.2⟩
  | reap w => exact h.reap
  | getStatus w =>
      have hstatus : Holds Any (fun x => Settled mem x.2) (p.getStatus w) := h.reap.bind fun _ ht => ht
      exact hstatus.map fun _ hx => hx

theorem init_settled (settings : Settings) : Settled mem (init settings) := by
  refine ⟨⟨init_linked settings, rfl, ?_, ?_, ?_⟩, listed_nil rfl⟩
  · exact fun id r h => (init_robousers settings h).elim
  · exact fun x hx => absurd hx List.not_mem_nil
  · exact fun id hid => absurd hid (Nat.not_lt_zero id)

/-- What a whole run preserves. -/
theorem run_settled {g : Unit} {ok : Platoon → Unit → Act → Prop} (hok : ∀ p g a, ok p g a → mem → p.GetsQueued a)
    (h : Run platoons ok p g) : Settled mem p := by
  apply h.invariant (I := fun p _ => Settled mem p)
  · rintro _ _ ⟨settings, rfl⟩
    exact init_settled settings
  · intro p g a t hp ha hs
    exact (hp.step (hok p g a ha)).result hs

/-! ## The loops of reset -/

/-- Who is there is deleted with its pipe shut down, or still there, and who was deleted stays so. -/
structure Buries (w : World) (p t : Platoon) : Prop where
  users : ∀ i j, t.users i = some j → p.users i = some j
  robousers : ∀ id r, p.robousers id = some r →
    t.robousers id = some r ∨ (id, { r with queued := none, fcp := (r.fcp.shutdown w).2 }) ∈ t.deleted
  deleted : ∀ x ∈ p.deleted, x ∈ t.deleted

theorem Buries.refl (w : World) (p : Platoon) : Buries w p p :=
  ⟨fun _ _ h => h, fun _ _ h => .inl h, fun _ h => h⟩

theorem Buries.trans {t' : Platoon} (h : Buries w p t) (h' : Buries w t t') : Buries w p t' where
  users i j hj := h.users i j (h'.users i j hj)
  robousers id r hr := by
    rcases h.robousers id r hr with hr | hr
    · exact h'.robousers id r hr
    · exact .inr (h'.deleted _ hr)
  deleted x hx := h'.deleted x (h.deleted x hx)

theorem buries_buried (hr : p.robousers id = some r) : Buries w p ({ p with deadlist := ids }.buried id r w) where
  users i j hj := (buried_slot hj).2
  robousers j q hq := by
    by_cases hj : j = id
    · subst hj
      cases hq.symm.trans hr
      exact .inr List.mem_cons_self
    · exact .inl ((buried_of_ne hj).trans hq)
  deleted x hx := .tail _ hx

theorem reap_buries (p : Platoon) (w : World) : Holds Any (Buries w p) (p.reap w) := by
  have hloop : Holds Any _ (p.reap w) := reap_invariant (I := Buries w p) (fun _ _ _ _ _ _ => trivial)
    (fun _ _ _ _ _ _ => trivial) (fun _ _ _ _ ht _ hr _ => ht.trans (buries_buried hr)) (.refl w p)
  apply hloop.mono
  exact fun _ ht => ht.1

theorem resetLoop_clears (is : List ℕ) (h : Orderly mem none p) : ∃ t, resetLoop w is p = .ok t ∧
    (Orderly mem none t ∧ Buries w p t) ∧ t.deadlist = p.deadlist ∧ ∀ i ∈ is, t.users i = none := by
  have hloop := resetLoop_invariant (w := w) (I := fun t => Orderly mem none t ∧ Buries w p t) is ?_ h.toLinked
    h.executing ⟨h, .refl w p⟩
  · obtain ⟨t, ht, hI, _, hdead, _, hclear⟩ := hloop
    exact ⟨t, ht, hI, hdead, hclear⟩
  · exact fun t id r ht hr hex => ⟨ht.1.bury hr hex, ht.2.trans (buries_buried hr)⟩

/-- Deleting again what was deleted. -/
theorem reapLoop_freed (hidle : p.executing = none) (hid : id ∈ ids) (hnone : p.robousers id = none) :
    reapLoop w ids p = .error .freed := by
  induction ids generalizing p with
  | nil => cases hid
  | cons j ids ih =>
      rw [reapLoop]
      cases hj : p.robousers j with
      | none =>
          rw [bury_freed (p := { p with deadlist := ids }) hj]
          rfl
      | some r =>
          have hne : id ≠ j := by
            rintro rfl
            cases hnone.symm.trans hj
          rw [bury_ok (p := { p with deadlist := ids }) hj (hidle.trans_ne (Option.some_ne_none j).symm)]
          exact ih hidle ((List.mem_cons.1 hid).resolve_left hne) ((buried_of_ne hne).trans hnone)

/-- The loop ends if and only if nobody is there twice. -/
theorem reapLoop_ends (hidle : p.executing = none) (hl : ∀ id ∈ ids, ∃ r, p.robousers id = some r) :
    (ids.Nodup → ∃ t, reapLoop w ids p = .ok t) ∧ (¬ ids.Nodup → reapLoop w ids p = .error .freed) := by
  induction ids generalizing p with
  | nil => exact ⟨fun _ => ⟨p, rfl⟩, fun h => absurd List.nodup_nil h⟩
  | cons id ids ih =>
      obtain ⟨r, hr⟩ := hl id List.mem_cons_self
      rw [reapLoop, bury_ok (p := { p with deadlist := ids }) hr (hidle.trans_ne (Option.some_ne_none id).symm),
        List.nodup_cons]
      by_cases hid : id ∈ ids
      · exact ⟨fun h => absurd hid h.1, fun _ => reapLoop_freed hidle hid buried_self⟩
      · have hrest : ∀ j ∈ ids, ∃ q, (({ p with deadlist := ids } : Platoon).buried id r w).robousers j = some q := by
          intro j hj
          obtain ⟨q, hq⟩ := hl j (.tail _ hj)
          have hne : j ≠ id := by
            rintro rfl
            exact hid hj
          exact ⟨q, (buried_of_ne hne).trans hq⟩
        obtain ⟨hends, hfreed⟩ := ih (p := ({ p with deadlist := ids } : Platoon).buried id r w) hidle hrest
        exact ⟨fun h => hends h.2, fun h => hfreed fun hn => h ⟨hid, hn⟩⟩

/-- With all slots empty nothing can be queued but the platoon itself. -/
theorem Orderly.stopped (h : Orderly mem none p) (hclear : ∀ i < maxUsers, p.users i = none) (hdead : p.deadlist = []) :
    Stopped { p with queued := none } := by
  have hslots : ∀ i, p.users i = none := by
    intro i
    rw [Option.eq_none_iff_forall_ne_some]
    intro id hid
    cases (hclear i (h.slot i id hid).1).symm.trans hid
  have hnone : ∀ id, p.robousers id = none := by
    intro id
    rw [Option.eq_none_iff_forall_ne_some]
    intro r hr
    cases (hslots r.user).symm.trans (h.held id r hr)
  refine ⟨⟨rfl, ?_, ?_⟩, hslots, hdead, hnone, fun id hid => h.known id hid (hnone id)⟩
  · intro id r hr
    cases (hnone id).symm.trans hr
  · exact fun x hx => ⟨(h.gone x hx).queued, (h.gone x hx).fcp.queued⟩

theorem reset_ok {q : Platoon} (hreap : p.reap w = .ok q) (hloop : resetLoop w (List.range maxUsers) q = .ok t)
    (hempty : ∀ x ∈ t.deleted, x.2.fcp.queued = none) : p.reset w = .ok { t with queued := none } := by
  have hall : (t.deleted.all fun x => x.2.fcp.queued.isNone) = true :=
    List.all_eq_true.2 fun x hx => Option.isNone_iff_eq_none.2 (hempty x hx)
  rw [Platoon.reset, hreap, ok_bind, hloop, ok_bind]
  exact if_pos hall

/-- What `reset` does if nobody is on the dead list twice. -/
theorem Settled.reset (h : Settled mem p) (hnodup : p.deadlist.Nodup) :
    ∃ t, p.reset w = .ok t ∧ Orderly mem none t ∧ t.Stopped ∧ Buries w p t := by
  obtain ⟨q, hq⟩ := (reapLoop_ends (w := w) h.1.executing h.2).1 hnodup
  have hreap : p.reap w = .ok q := hq
  obtain ⟨horder, hreaped⟩ := (reap_orderly h.1).result hreap
  have hburied : Buries w p q := (reap_buries p w).result hreap
  have hdead : q.deadlist = [] := by
    obtain ⟨_, _, _, heq⟩ := hreaped.rest
    rw [heq]
  obtain ⟨t, hloop, ⟨horder', hburies⟩, hdead', hclear⟩ := resetLoop_clears (w := w) (List.range maxUsers) horder
  have hstopped := horder'.stopped (fun i hi => hclear i (List.mem_range.2 hi)) (hdead'.trans hdead)
  have hrest : Buries w q { t with queued := none } := ⟨hburies.users, hburies.robousers, hburies.deleted⟩
  exact ⟨{ t with queued := none }, reset_ok hreap hloop fun x hx => (hstopped.sked.deleted x hx).2,
    horder'.others rfl rfl rfl rfl rfl, hstopped, hburied.trans hrest⟩

/-- And if somebody is. -/
theorem Settled.reset_freed (h : Settled mem p) (hnodup : ¬ p.deadlist.Nodup) : p.reset w = .error .freed := by
  have hreap : p.reap w = .error .freed := (reapLoop_ends h.1.executing h.2).2 hnodup
  rw [Platoon.reset, hreap]
  rfl

/-- In any run whatever, `reset` empties the scheduler, the slots and the dead list, unless
it finds a robouser on the dead list for the second time. -/
theorem reset_stops {g : Unit} {ok : Platoon → Unit → Act → Prop} (h : Run platoons ok p g) (w : World) :
    (∃ t, p.reset w = .ok t ∧ t.Stopped) ∧ p.deadlist.Nodup ∨ p.reset w = .error .freed ∧ ¬ p.deadlist.Nodup := by
  have hp : Settled False p := run_settled (fun _ _ _ _ => False.elim) h
  by_cases hnodup : p.deadlist.Nodup
  · obtain ⟨t, ht, _, hstopped, _⟩ := hp.reset hnodup
    exact .inl ⟨⟨t, ht, hstopped⟩, hnodup⟩
  · exact .inr ⟨hp.reset_freed hnodup, hnodup⟩

/-- In every run in which each `get` finds memory, the poller has forgotten all of the
descriptors too. -/
theorem reset_leaves_nothing {g : Unit} (h : Run platoons (fun p _ k => GetsQueued p k) p g) (w : World) :
    (∃ t, p.reset w = .ok t ∧ t.LeavesNothing) ∧ p.deadlist.Nodup ∨
      p.reset w = .error .freed ∧ ¬ p.deadlist.Nodup := by
  have hp : Settled True p := run_settled (fun _ _ _ hk _ => hk) h
  by_cases hnodup : p.deadlist.Nodup
  · obtain ⟨t, ht, horder, hstopped, _⟩ := hp.reset hnodup
    have hpoller : ∀ x ∈ t.deleted, ∀ fd, ¬ Registered fd x.2.fcp.log := fun x hx => (horder.gone x hx).fcp.registered trivial
    exact .inl ⟨⟨t, ht, hstopped, hpoller⟩, hnodup⟩
  · exact .inr ⟨hp.reset_freed hnodup, hnodup⟩

end

/-! ## Two runs -/

instance (s : RobouserState) (as : List LoopAnswers) : Decidable (FindsMemory s as) := inferInstanceAs (Decidable (_ = _))

instance (p : Platoon) : (k : Act) → Decidable (GetsQueued p k)
  | .pipe id _ _ _ as => inferInstanceAs (Decidable (∀ r ∈ p.robousers id, FindsMemory r.state as))
  | .platoonTimer _ _ | .userTimer _ _ _ | .setNuserTarget _ _ | .setNconnectingTarget _ _ | .setLastConnectingState _ _
  | .reap _ | .getStatus _ => inferInstanceAs (Decidable True)

instance : (k : Act) → Decidable (PollerAdds k)
  | .userTimer _ _ as => inferInstanceAs (Decidable (∀ a ∈ as, a.connect.add = 0 ∧ a.command.add = 0))
  | .pipe _ _ w _ as => inferInstanceAs (Decidable (w.add = 0 ∧ ∀ a ∈ as, a.connect.add = 0 ∧ a.command.add = 0))
  | .platoonTimer _ _ | .setNuserTarget _ _ | .setNconnectingTarget _ _ | .setLastConnectingState _ _
  | .reap _ | .getStatus _ => inferInstanceAs (Decidable True)

instance (p : Platoon) (as : List LoopAnswers) : Decidable (p.Roomy as) := inferInstanceAs (Decidable (∀ a ∈ as, _))

instance (p : Platoon) : (k : Act) → Decidable (FindsRoom p k)
  | .platoonTimer _ as => inferInstanceAs (Decidable (∀ a ∈ as, a.enqueue = true ∧ a.wake.enqueue = true))
  | .userTimer _ _ as => inferInstanceAs (Decidable (p.Roomy as))
  | .pipe _ _ w io as => inferInstanceAs (Decidable (w.enqueue = true ∧ io.wake.enqueue = true ∧ p.Roomy as))
  | .setNuserTarget _ k | .setNconnectingTarget _ k | .setLastConnectingState _ k =>
    inferInstanceAs (Decidable (k.enqueue = true))
  | .reap _ | .getStatus _ => inferInstanceAs (Decidable True)

/-- The control connection of the first user brings these bytes, and a socket may be asked for. -/
def hear (text : String) (sock : ℕ) (as : List LoopAnswers) : Act :=
  .pipe 0 (.event 3 POLLIN) (Session.calm sock (ascii text))
    ⟨.error EWOULDBLOCK, 0, false, prompt, Session.calm 0 []⟩ as

/-- There is no memory for the entry of a `get`. -/
def poor : LoopAnswers := { smooth with command := { Session.calm 0 [] with enqueue := false } }

/-- A socket for data is opened already while the `get` is issued. -/
def early : LoopAnswers := { smooth with command := Session.calm 4 [] }

/-- One user has logged in. -/
def oneLogin : List Act := oneUser ++ [.userTimer 0 0 [smooth], hear "220 hi\n230 in\n" 0 [smooth, smooth]]

/-- A user is fetching its file over descriptor 4 when all is reset. -/
theorem reset_leaves_nothing_fetching : ∃ p g, Run platoons (fun p _ k => GetsQueued p k) p g ∧
    (p.robousers 0).map (fun r => (r.state, r.fcp.cfd, r.fcp.dfd)) = some (.getting, 3, 4) ∧
    ∀ w, ∃ t, p.reset w = .ok t ∧ t.LeavesNothing := by
  have hfollow : (follow (guarded (fun p _ k => GetsQueued p k) fun p k => (p.step k).toOption) platoons.note
      (init modest) () (oneLogin ++ [hear "200 ok\n" 0 [smooth, smooth], hear "227 (1,2,3,4,5,6)\n" 4 []])).map
        (fun r => (r.1.deadlist, (r.1.robousers 0).map fun r => (r.state, r.fcp.cfd, r.fcp.dfd))) =
          some ([], some (.getting, 3, 4)) := by
    decide +kernel
  obtain ⟨⟨p, g⟩, hr, heq⟩ := Option.map_eq_some_iff.1 hfollow
  obtain ⟨hdead, huser⟩ := Prod.mk.inj heq
  have hrun : Run platoons (fun p _ k => GetsQueued p k) p g :=
    Run.follow_guarded (fun _ _ _ => eq_ok_of_toOption) (.start ⟨modest, rfl⟩) hr
  refine ⟨p, g, hrun, huser, ?_⟩
  intro w
  rcases reset_leaves_nothing hrun w with ⟨hleaves, _⟩ | ⟨_, hnot⟩
  · exact hleaves
  · rw [hdead] at hnot
    exact absurd List.nodup_nil hnot

/-- So many more users are wanted and are started, who wait for their turn to connect. -/
def crowd (n : ℕ) : List Act :=
  [.setNuserTarget (n+1) prompt, .setNconnectingTarget n prompt,
    .platoonTimer 0 (List.replicate n ⟨Session.blank, 0, true, prompt⟩)]

/-- With 254 other users and the platoon in the scheduler, there is no memory when the first file
is asked for, and its final reply comes in one read with the address. The next `get` opens a data
connection at once, and another when its own address comes. The poller still knows the first after
the `reset`. -/
theorem reset_leaves_socket : ¬ ∀ p g, Run platoons (fun p _ k => PollerAdds k ∧ FindsRoom p k) p g → ∀ w,
    p.reset w = .error .freed ∨ ∃ t, p.reset w = .ok t ∧ t.LeavesNothing := by
  intro hall
  have hfollow : (follow (guarded (fun p _ k => PollerAdds k ∧ FindsRoom p k) fun p k => (p.step k).toOption)
      platoons.note (init modest) () (oneLogin ++ crowd 254 ++ [hear "200 ok\n" 0 [smooth, poor],
        hear "227 (1,2,3,4,5,6)\n226 ok\n" 0 [smooth, early], hear "227 (1,2,3,4,5,6)\n" 5 []])).map
        (fun r => (r.1.deadlist, (r.1.robousers 0).map fun r =>
          decide (Registered 4 (r.fcp.shutdown (Session.calm 0 [])).2.log))) = some ([], some true) := by
    decide +kernel
  obtain ⟨⟨p, g⟩, hr, heq⟩ := Option.map_eq_some_iff.1 hfollow
  obtain ⟨hdead, hlog⟩ := Prod.mk.inj heq
  obtain ⟨r, hr₀, hregistered⟩ := Option.map_eq_some_iff.1 hlog
  have hrun : Run platoons (fun p _ k => PollerAdds k ∧ FindsRoom p k) p g :=
    Run.follow_guarded (fun _ _ _ => eq_ok_of_toOption) (.start ⟨modest, rfl⟩) hr
  have hp : Settled False p := run_settled (fun _ _ _ _ => False.elim) hrun
  have hnodup : p.deadlist.Nodup := by
    rw [hdead]
    exact List.nodup_nil
  obtain ⟨t, ht, _, hstopped, hburies⟩ := hp.reset (w := Session.calm 0 []) hnodup
  rcases hall p g hrun (Session.calm 0 []) with hfreed | ⟨t', ht', hleaves⟩
  · cases ht.symm.trans hfreed
  · cases ht.symm.trans ht'
    rcases hburies.robousers 0 r hr₀ with hstill | hgone
    · cases (hstopped.robousers 0).symm.trans hstill
    · exact hleaves.registered _ hgone 4 (of_decide_eq_true hregistered)

end Platoon
end Dkftpbench
