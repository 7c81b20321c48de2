import Dkftpbench.PlatoonStart
import Dkftpbench.PipeLogin

/-!
# What the callbacks of a robouser do to the platoon

When a pipe calls the robouser's `ftpCmdDone`, the commands that this issues cannot call
it again, so every change of state is made by the one call. Only the call that the
scheduler makes, for the connect and the login, is outside of the pipe; it has to rely
on the kickstart in `login` to report nothing.
-/
namespace Dkftpbench
open CLib Census Faults Session

/-- A robouser in a call of `ftpCmdDone` that its pipe made. -/
structure Robouser.Answering (r : Robouser) : Prop where
  inside : r.fcp.callbacks = 1 ∧ r.fcp.inFtpCmdDone = 1
  queued : r.queued = none
  connected : r.state ≠ .connect

theorem Robouser.Answering.withState {r : Robouser} (h : r.Answering) {s : RobouserState} (hs : s ≠ .connect) :
    { r with state := s }.Answering := ⟨h.inside, h.queued, hs⟩

namespace Platoon
open Robouser

/-- The platoon is sound but for this robouser, which is of a kind. -/
def Serving (once : Prop) (id : ℕ) (K : Robouser → Prop) (p : Platoon) : Prop :=
  Sound once (some id) p ∧ ∃ r, p.robousers id = some r ∧ K r

section
variable {once : Prop} {p : Platoon} {id : ℕ} {r u : Robouser} {newstate : RobouserState} {k : Wake} {xerr status : ℤ}

theorem tolerated_stop (s : Stop) : Tolerated once (.stop s) := fun _ => ⟨nofun, nofun⟩

theorem holds_user {β : Type} {E : Fault → Prop} {Q : β → Prop} {f : Robouser → Except Fault β}
    (hr : p.robousers id = some r) (h : Holds E Q (f r)) : Holds E Q (p.user id >>= f) := by
  rw [user_eq hr]
  exact h

theorem gotoState_holds (h : Sound once (some id) p) (hr : p.robousers id = some r) (hold : r.state.IsAlive)
    (hnew : newstate.IsAlive) : Holds (Tolerated once) (fun p' => Sound once (some id) p' ∧
      p'.robousers id = some { r with state := newstate }) (p.gotoState id newstate k) := by
  rw [gotoState_ok hr hnew.ne_uninit]
  exact ⟨h.went hr hold hnew (absurd rfl), setUser_self⟩

theorem stop_holds (h : Sound once (some id) p) (hr : p.robousers id = some r)
    (hx : once → r.state ≠ .stopped) : Holds (Tolerated once) (fun p' => Sound once (some id) p' ∧
      p'.robousers id = some { r with state := .stopped }) (p.stop id k) := by
  rw [stop_ok hr]
  exact ⟨h.died hr hx (absurd rfl), setUser_self⟩

theorem Sound.setBusy (h : Sound once (some id) p) (hr : p.robousers id = some r) (hu : u.user = r.user)
    (hs : u.state = r.state) : Sound once (some id) (p.setUser id u) :=
  h.setUser hr hu hs (absurd rfl)

/-- A function of the pipe runs. If it calls back, the call of `ftpCmdDone` has to return. -/
theorem runPipe_holds {E : Fault → Prop} {Q : ℤ × Platoon → Prop} {f : Session → Outcome}
    {callback : Platoon → ℤ → ℤ → Except Fault Platoon} (hE : ∀ s, E (.stop s)) (hr : p.robousers id = some r)
    (hquiet : ∀ e s, f r.fcp = .ok (e, s) → r.fcp.called s = none → Q (e, p.setUser id { r with fcp := s }))
    (htold : ∀ e s xerr status, f r.fcp = .ok (e, s) → r.fcp.called s = some (xerr, status) →
      Holds E (fun t => Holds E (fun u => Q (e, u)) (t.cmdDoneReturns id))
        (callback (p.setUser id { r with fcp := s }) xerr status)) :
    Holds E Q (p.runPipe id f callback) := by
  unfold runPipe
  apply holds_user hr
  cases hf : f r.fcp with
  | error stop => exact hE stop
  | ok x =>
      obtain ⟨e, s⟩ := x
      dsimp only
      cases hcalled : r.fcp.called s with
      | none => exact hquiet e s hf hcalled
      | some y =>
          obtain ⟨xerr, status⟩ := y
          apply (htold e s xerr status hf hcalled).bind
          exact fun t ht => ht.bind fun _ hu => hu

/-- A function of the pipe that does not call back. -/
theorem runPipe_quiet {E : Fault → Prop} {Q : ℤ × Platoon → Prop} {f : Session → Outcome}
    {callback : Platoon → ℤ → ℤ → Except Fault Platoon} (hE : ∀ s, E (.stop s)) (hr : p.robousers id = some r)
    (hquiet : ∀ e s, f r.fcp = .ok (e, s) → r.fcp.called s = none)
    (hQ : ∀ e s, f r.fcp = .ok (e, s) → Q (e, p.setUser id { r with fcp := s })) :
    Holds E Q (p.runPipe id f callback) := by
  apply runPipe_holds hE hr (fun e s hf _ => hQ e s hf)
  intro e s xerr status hf hcalled
  cases (hquiet e s hf).symm.trans hcalled

theorem stop_serving (h : Sound once (some id) p) (hr : p.robousers id = some r) (ha : r.Answering)
    (hx : once → r.state ≠ .stopped) : Holds (Tolerated once) (Serving once id Answering) (p.stop id k) :=
  (stop_holds h hr hx).mono fun _ hp => ⟨hp.1, _, hp.2, ha.withState nofun⟩

theorem beginFetch_ok {now : Clock} (hr : p.robousers id = some r) : p.beginFetch id now =
    .ok (p.setUser id { r with startedAt := now, bytesFetched := 0, reads := 0 }) := by
  rw [beginFetch, user_eq hr]
  rfl

/-- The robouser stops, or goes on. -/
theorem serving_or_stops {c : Prop} [Decidable c] {x : Except Fault Platoon} (h : Sound once (some id) p)
    (hr : p.robousers id = some r) (ha : r.Answering) (hlive : once → r.state ≠ .stopped)
    (hx : Holds (Tolerated once) (Serving once id Answering) x) :
    Holds (Tolerated once) (Serving once id Answering) (if c then p.stop id k else x) := by
  split
  · exact stop_serving h hr ha hlive
  · exact hx

theorem gotoState_serving (h : Sound once (some id) p) (hr : p.robousers id = some r) (ha : r.Answering)
    (hold : r.state.IsAlive) (hnew : newstate.IsAlive) (hne : newstate ≠ .connect) :
    Holds (Tolerated once) (Serving once id Answering) (p.gotoState id newstate k) :=
  (gotoState_holds h hr hold hnew).mono fun _ hp => ⟨hp.1, _, hp.2, ha.withState hne⟩

/-- A command that does not call back. -/
theorem runPipe_kept {f : Session → Outcome} {callback : Platoon → ℤ → ℤ → Except Fault Platoon}
    (h : Sound once (some id) p) (hr : p.robousers id = some r) (ha : r.Answering)
    (htold : ∀ e s, f r.fcp = .ok (e, s) → r.fcp.called s = none ∧ Keeps r.fcp s) :
    Holds (Tolerated once) (fun x => Sound once (some id) x.2 ∧ ∃ q, x.2.robousers id = some q ∧ q.Answering ∧
      q.state = r.state) (p.runPipe id f callback) := by
  apply runPipe_quiet tolerated_stop hr (fun e s hf => (htold e s hf).1)
  intro e s hf
  have hk := (htold e s hf).2
  exact ⟨h.setBusy hr rfl rfl, _, setUser_self,
    ⟨⟨hk.1.trans ha.inside.1, hk.2.trans ha.inside.2⟩, ha.queued, ha.connected⟩, rfl⟩

theorem afterFetch {now : Clock} (h : Sound once (some id) p) (hr : p.robousers id = some r) (ha : r.Answering)
    (hold : r.state.IsAlive) : Holds (Tolerated once) (Serving once id Answering)
      (p.beginFetch id now >>= fun p => p.gotoState id .getting k) := by
  have hset := h.setBusy (u := { r with startedAt := now, bytesFetched := 0, reads := 0 }) hr rfl rfl
  rw [beginFetch_ok hr]
  exact gotoState_serving hset setUser_self ⟨ha.inside, ha.queued, ha.connected⟩ hold (by decide) nofun

/-- What `ftpCmdDone` does when the pipe calls it. -/
theorem ftpCmdDone_serving {as : List LoopAnswers} (h : Sound once (some id) p) (hr : p.robousers id = some r)
    (ha : r.Answering) (hx : once → r.state = .stopped → xerr = 0) :
    Holds (Tolerated once) (Serving once id Answering) (ftpCmdDone as p id xerr status) := by
  induction as generalizing p r xerr status with
  | nil => exact tolerated_stop .fuel
  | cons a as ih =>
      have hin : r.fcp.inFtpCmdDone ≠ 0 := by simp [ha.inside.2]
      -- a state that is left at once for another one
      have hround : ∀ newstate, r.state.IsAlive → newstate.IsAlive → newstate ≠ .connect →
          Holds (Tolerated once) (Serving once id Answering)
            (p.gotoState id newstate a.wake >>= fun p => ftpCmdDone as p id 0 status) := by
        intro newstate hold hnew hne
        apply (gotoState_holds h hr hold hnew).bind
        intro p' hp
        exact ih hp.1 hp.2 (ha.withState hne) fun _ _ => rfl
      rw [ftpCmdDone]
      split
      · next hxerr => exact stop_serving h hr ha fun ho hs => hxerr (hx ho hs)
      · apply holds_user hr
        split
        · next hs => exact absurd hs ha.connected
        · next hs =>
          have hold : r.state.IsAlive := by rw [hs]; decide
          exact serving_or_stops h hr ha (fun _ => hold.ne_stopped) (hround .startType hold (by decide) nofun)
        · next hs =>
          have hold : r.state.IsAlive := by rw [hs]; decide
          apply (runPipe_kept h hr ha fun e s hf => (type_calls hf).inside hin).bind
          rintro x ⟨hp, q, hq, ha', hsame⟩
          rw [← hsame] at hold
          exact serving_or_stops hp hq ha' (fun _ => hold.ne_stopped)
            (gotoState_serving hp hq ha' hold (by decide) nofun)
        · next hs =>
          have hold : r.state.IsAlive := by rw [hs]; decide
          exact serving_or_stops h hr ha (fun _ => hold.ne_stopped) (hround .get hold (by decide) nofun)
        · next hs =>
          have hold : r.state.IsAlive := by rw [hs]; decide
          apply (runPipe_kept h hr ha fun e s hf => (get_calls hf).inside hin).bind
          rintro x ⟨hp, q, hq, ha', hsame⟩
          rw [← hsame] at hold
          exact serving_or_stops hp hq ha' (fun _ => hold.ne_stopped) (afterFetch hp hq ha' hold)
        · next hs =>
          have hold : r.state.IsAlive := by rw [hs]; decide
          apply serving_or_stops h hr ha fun _ => hold.ne_stopped
          exact serving_or_stops h hr ha (fun _ => hold.ne_stopped) (hround .get hold (by decide) nofun)
        · exact ⟨h, r, hr, ha⟩
        · exact ⟨h, r, hr, ha⟩

theorem tolerated_bufferSize : Tolerated once .bufferSize := fun _ => ⟨nofun, nofun⟩

/-- What `handle_data_io` leaves of a robouser. -/
def AfterIo (once : Prop) (id : ℕ) (r : Robouser) (x : ℤ × Platoon) : Prop :=
  Sound once (some id) x.2 ∧ ∃ q, x.2.robousers id = some q ∧ q.fcp = r.fcp ∧ q.queued = r.queued ∧
    (r.state ≠ .connect → q.state ≠ .connect) ∧ (q.state = .stopped → r.state = .stopped ∨ x.1 = 0)

theorem afterRead {c : Prop} [Decidable c] {nread : ℤ} {w : World} (h : Sound once (some id) p)
    (hr : p.robousers id = some r) (hlive : once → r.state ≠ .stopped) :
    Holds (Tolerated once) (AfterIo once id r) (if c then do
        let p ← p.stop id k
        return (0, p)
      else do
        let p ← p.reap w
        return (nread, p)) := by
  split
  · apply (stop_holds h hr hlive).bind
    rintro t ⟨ht, hq⟩
    exact ⟨ht, _, hq, rfl, rfl, fun _ => nofun, fun _ => .inr rfl⟩
  · apply (h.reap _).bind
    · rintro t ⟨ht, hsame, _⟩
      exact ⟨ht, r, (hsame id rfl).trans hr, rfl, rfl, fun h => h, .inl⟩
    · intro ho j hj hm
      cases hj
      exact hlive ho ((h.mem_deadlist hr).1 hm)

/-- A robouser that bytes came for. -/
def fed (r : Robouser) (nread : ℕ) (now : Clock) : Robouser :=
  { r with
    reads := r.reads+1, startedAt := if r.bytesFetched = 0 then now else r.startedAt
    bytesFetched := r.bytesFetched+BitVec.ofNat 64 nread }

/-- A robouser that is alive stops at most once in `handle_data_io`, which returns 0 then. -/
theorem handleDataIo_holds {io : DataIo} (h : Sound once (some id) p) (hr : p.robousers id = some r)
    (hdead : once → r.state = .stopped → ∀ n, io.read = .ok n → n = 0) :
    Holds (Tolerated once) (AfterIo once id r) (p.handleDataIo id io) := by
  unfold handleDataIo
  split
  · exact tolerated_bufferSize
  · apply holds_user hr
    dsimp only
    split
    · exact ⟨h.setBusy hr rfl rfl, _, setUser_self, rfl, rfl, fun h => h, .inl⟩
    · next n hn =>
      split
      · exact ⟨h.setBusy hr rfl rfl, _, setUser_self, rfl, rfl, fun h => h, .inl⟩
      · next hpos =>
        have hlive : once → r.state ≠ .stopped := fun ho hs => hpos (hdead ho hs n hn)
        have hset := (h.setBusy (u := fed r n io.now) hr rfl rfl).others p.lastConnectingState
          p.nconnectingTarget p.nuserTarget (p.nreads+1) (p.bytesFetched+BitVec.ofNat 64 n) p.queued
        have hget : (p.setUser id (fed r n io.now)).robousers id = some (fed r n io.now) := setUser_self
        exact (afterRead hset hget hlive).mono fun _ hx => hx

/-- Nothing is reported as failed to the robouser, and no bytes come for it. -/
def Spared (s : Session) (c : Cause) (w : World) (io : DataIo) : Prop :=
  (s.callsDataIo w c = true → ∀ n, io.read = .ok n → n = 0) ∧
    ∀ t xerr status, s.receive w c = .ok t → s.called t = some (xerr, status) → xerr = 0

theorem receive_map {s t : Session} {c : Cause} {w : World} {e : ℤ}
    (h : (s.receive w c).map (fun s => ((0 : ℤ), s)) = .ok (e, t)) : s.receive w c = .ok t := by
  cases hs : s.receive w c with
  | error stop =>
      rw [hs] at h
      cases h
  | ok u =>
      rw [hs] at h
      cases h
      rfl

theorem cmdDoneReturns_holds (h : Sound once (some id) p) (hr : p.robousers id = some r) (ha : r.Answering) :
    Holds (Tolerated once) (Serving once id Resting) (p.cmdDoneReturns id) := by
  have hreturn : r.fcp.returnFromCallback =
      .ok { r.fcp with inFtpCmdDone := r.fcp.inFtpCmdDone-1, callbacks := r.fcp.callbacks-1 } :=
    if_neg (by simp [ha.inside.1])
  unfold cmdDoneReturns
  apply holds_user hr
  rw [hreturn]
  refine ⟨h.setBusy hr rfl rfl, _, setUser_self, ?_⟩
  constructor
  · simp [ha.inside]
  · exact fun hq => absurd ha.queued hq
  · exact fun hs => absurd hs ha.connected

/-- A pipe of a robouser that has connected runs, and may call back. -/
theorem runPipe_serving {as : List LoopAnswers} {c : Cause} {w : World} (h : Sound once (some id) p)
    (hr : p.robousers id = some r) (hrest : r.Resting) (hs : r.state ≠ .connect)
    (hx : once → r.state = .stopped → ∀ t xerr status, r.fcp.receive w c = .ok t →
      r.fcp.called t = some (xerr, status) → xerr = 0) :
    Holds (Tolerated once) (fun x => Serving once id Resting x.2)
      (p.runPipe id (fun s => (s.receive w c).map fun s => (0, s))
        fun p xerr status => ftpCmdDone as p id xerr status) := by
  have hq : r.queued = none := by
    by_contra hq
    exact hs (hrest.queued hq)
  apply runPipe_holds tolerated_stop hr
  · intro e t ht hnone
    have hk : Keeps r.fcp t := by
      rcases (receive_calls (receive_map ht)).called_cases with ⟨_, hk⟩ | ⟨xerr, status, hsome, _⟩
      · exact hk
      · cases hnone.symm.trans hsome
    refine ⟨h.setBusy hr rfl rfl, _, setUser_self, ?_⟩
    constructor
    · exact ⟨hk.1.trans hrest.inside.1, hk.2.trans hrest.inside.2⟩
    · exact fun hne => absurd hq hne
    · exact fun hc => absurd hc hs
  · intro e t xerr status ht hsome
    have ha : { r with fcp := t }.Answering := by
      rcases (receive_calls (receive_map ht)).called_cases with ⟨hnone, _⟩ | ⟨_, _, _, _, hone, hcb⟩
      · cases hnone.symm.trans hsome
      · exact ⟨⟨by simp [hcb, hrest.inside.1], hone⟩, hq, hs⟩
    have hset : Sound once (some id) (p.setUser id { r with fcp := t }) := h.setBusy hr rfl rfl
    apply (ftpCmdDone_serving hset setUser_self ha fun ho hst => hx ho hst t xerr status (receive_map ht) hsome).mono
    rintro t' ⟨ht', q, hq', ha'⟩
    exact cmdDoneReturns_holds ht' hq' ha'

/-- What the pipe finds after it called `handle_data_io` or not: a robouser that stopped
there is told of nothing that failed. -/
def AfterData (once : Prop) (id : ℕ) (r : Robouser) (c : Cause) (w : World) (p : Platoon) : Prop :=
  Sound once (some id) p ∧ ∃ q, p.robousers id = some q ∧ q.fcp = r.fcp ∧ q.queued = r.queued ∧
    (r.state ≠ .connect → q.state ≠ .connect) ∧ (q.state = .stopped → r.state = .stopped ∨
      r.fcp.callsDataIo w c = true ∧ w.handleDataIo = 0)

theorem serveData_holds {c : Cause} {w : World} {io : DataIo} (h : Sound once (some id) p)
    (hr : p.robousers id = some r)
    (hdead : once → r.state = .stopped → r.fcp.callsDataIo (p.answered id w io) c = true →
      ∀ n, io.read = .ok n → n = 0) :
    Holds (Tolerated once) (AfterData once id r c (p.answered id w io))
      (p.serveData id r.fcp c (p.answered id w io) io) := by
  unfold serveData
  split
  · next hio =>
    have hafter : Holds (Tolerated once) (AfterIo once id r) (p.handleDataIo id io) :=
      handleDataIo_holds h hr fun ho hst => hdead ho hst hio
    cases hd : p.handleDataIo id io with
    | error f =>
        rw [hd] at hafter
        exact hafter
    | ok x =>
        rw [hd] at hafter
        obtain ⟨ht, q, hq, hfcp, hqueued, hconn, hst⟩ := hafter
        have hresult : (p.answered id w io).handleDataIo = x.1 := by
          rw [answered, dataIoResult, hd]
        exact ⟨ht, q, hq, hfcp, hqueued, hconn, fun h => (hst h).imp_right fun h0 => ⟨hio, hresult.trans h0⟩⟩
  · exact ⟨h, r, hr, rfl, rfl, fun h => h, .inl⟩

/-- A pipe that is not connected does nothing. -/
theorem callPipe_idle {E : Fault → Prop} {Q : Platoon → Prop} {as : List LoopAnswers} {c : Cause} {w : World} {io : DataIo}
    (hE : ∀ s, E (.stop s)) (hr : p.robousers id = some r) (hcfd : r.fcp.cfd = -1) (hdfd : r.fcp.dfd = -1)
    (hq : r.fcp.queued = none) (hQ : Q (p.setUser id r)) : Holds E Q (p.callPipe id c w io as) := by
  have hdata : p.serveData id r.fcp c (p.answered id w io) io = .ok p := by
    rw [serveData, callsDataIo_unconnected hdfd]
    rfl
  have hsame : Holds E (· = p) (p.serveData id r.fcp c (p.answered id w io) io) := Holds.of_ok hdata rfl
  unfold callPipe
  apply holds_user hr
  apply hsame.bind
  rintro _ rfl
  apply Holds.bind (Q := fun x => Q x.2)
  · apply runPipe_quiet hE hr
    · intro e t ht
      rw [receive_unconnected hcfd hdfd hq (receive_map ht)]
      exact called_of_eq rfl
    · intro e t ht
      rw [receive_unconnected hcfd hdfd hq (receive_map ht)]
      exact hQ
  · exact fun _ hp => hp

/-- A robouser's pipe is called from outside. -/
theorem callPipe_holds {as : List LoopAnswers} {c : Cause} {w : World} {io : DataIo} (h : Sound once (some id) p)
    (hr : p.robousers id = some r) (hrest : r.Resting)
    (hspared : once → r.state = .stopped → Spared r.fcp c (p.answered id w io) io) :
    Holds (Tolerated once) (Serving once id Resting) (p.callPipe id c w io as) := by
  by_cases hs : r.state = .connect
  · obtain ⟨hcfd, hdfd, hq⟩ := hrest.unconnected hs
    exact callPipe_idle tolerated_stop hr hcfd hdfd hq ⟨h.setBusy hr rfl rfl, _, setUser_self, hrest⟩
  · unfold callPipe
    apply holds_user hr
    apply (serveData_holds h hr fun ho hst => (hspared ho hst).1).bind
    rintro t ⟨ht, q, hq, hfcp, hqueued, hconn, hst⟩
    have hrest' : q.Resting :=
      ⟨hfcp ▸ hrest.inside, fun hne => absurd (hrest.queued (hqueued ▸ hne)) hs, fun hc => absurd hc (hconn hs)⟩
    apply (runPipe_serving ht hq hrest' (hconn hs) ?_).bind
    · exact fun _ hp => hp
    · intro ho hstop t xerr status hrec hcalled
      rw [hfcp] at hrec hcalled
      rcases hst hstop with hdead | ⟨hio, h0⟩
      · exact (hspared ho hdead).2 t xerr status hrec hcalled
      · exact called_after_dataIo h0 hio hrec hcalled

/-- If the connection is there at once, the kernel does not refuse the first line. -/
def KeepsLogin (p : Platoon) (a : LoopAnswers) : Prop :=
  ConnectsAtOnce a.connect (BitVec.ofInt 16 p.port) → ∀ err,
    a.command.kernel.write 0 (userLine p.username.1) = .error err → err = 0 ∨ err = EWOULDBLOCK

/-- The kickstart in the login has nothing to report. -/
theorem login_after_connect {s t u : Session} {a : LoopAnswers} {e : ℤ} (ha : KeepsLogin p a)
    (hc : s.connect a.connect (BitVec.ofInt 16 p.port) = .ok (0, t))
    (hl : t.login a.command p.username.1 p.passwd.1 = .ok (e, u)) : Keeps t u := by
  rcases connect_succeeds hc with hcfd | ⟨sock, connecting, rfl, hnow⟩
  · exact login_unconnected hcfd hl
  · exact (login_keeps p.username.2 (hnow.imp_right ha) hl).2

theorem resting_of_connected {s : Session} {state : RobouserState} (h0 : s.callbacks = 0 ∧ s.inFtpCmdDone = 0)
    (hq : r.queued = none) (hs : state ≠ .connect) : { r with fcp := s, state := state }.Resting :=
  ⟨h0, fun hne => absurd hq hne, fun hc => absurd hc hs⟩

/-- What `ftpCmdDone` does when the scheduler calls it. -/
theorem ftpCmdDone_connect {as : List LoopAnswers} (h : Sound once (some id) p) (hr : p.robousers id = some r)
    (hrest : r.Resting) (hs : r.state = .connect) (hq : r.queued = none)
    (hlogin : ∀ a ∈ as.head?, KeepsLogin p a) :
    Holds (Tolerated once) (Serving once id Resting) (ftpCmdDone as p id 0 status) := by
  cases as with
  | nil => exact tolerated_stop .fuel
  | cons a as =>
      have hold : r.state.IsAlive := by rw [hs]; decide
      have hcallbacks : ∀ e s, r.fcp.connect a.connect (BitVec.ofInt 16 p.port) = .ok (e, s) →
          s.callbacks = 0 ∧ s.inFtpCmdDone = 0 := fun e s hc =>
        ⟨(connect_callbacks hc).1.trans hrest.inside.1, (connect_callbacks hc).2⟩
      rw [ftpCmdDone, if_neg (not_not.2 rfl)]
      apply holds_user hr
      rw [hs]
      dsimp only
      apply (runPipe_quiet (Q := fun x => ∃ s, r.fcp.connect a.connect (BitVec.ofInt 16 p.port) = .ok (x.1, s) ∧
        x.2 = p.setUser id { r with fcp := s }) tolerated_stop hr (fun e s hc => called_of_eq (connect_callbacks hc).1)
        fun e s hc => ⟨s, hc, rfl⟩).bind
      rintro ⟨err, p'⟩ ⟨s, hc, rfl⟩
      have hset : Sound once (some id) (p.setUser id { r with fcp := s }) := h.setBusy hr rfl rfl
      dsimp only
      split
      · apply (stop_holds hset setUser_self fun _ => hold.ne_stopped).mono
        exact fun _ hp => ⟨hp.1, _, hp.2, resting_of_connected (hcallbacks err s hc) hq nofun⟩
      · next hzero =>
        rw [not_not] at hzero
        subst hzero
        have hkeeps : ∀ e t, s.login a.command p.username.1 p.passwd.1 = .ok (e, t) → Keeps s t :=
          fun e t hl => login_after_connect (hlogin a rfl) hc hl
        apply (runPipe_quiet (Q := fun x => ∃ t, Keeps s t ∧
          x.2 = (p.setUser id { r with fcp := s }).setUser id { r with fcp := t }) tolerated_stop setUser_self
          (fun e t hl => called_of_eq (hkeeps e t hl).1) fun e t hl => ⟨t, hkeeps e t hl, rfl⟩).bind
        rintro ⟨err, p'⟩ ⟨t, hk, rfl⟩
        have hin : t.callbacks = 0 ∧ t.inFtpCmdDone = 0 :=
          ⟨hk.1.trans (hcallbacks 0 s hc).1, hk.2.trans (hcallbacks 0 s hc).2⟩
        have hset' := hset.setBusy (u := { r with fcp := t }) setUser_self rfl rfl
        dsimp only
        split
        · apply (stop_holds hset' setUser_self fun _ => hold.ne_stopped).mono
          exact fun _ hp => ⟨hp.1, _, hp.2, resting_of_connected hin hq nofun⟩
        · apply (gotoState_holds hset' setUser_self hold (by decide)).mono
          exact fun _ hp => ⟨hp.1, _, hp.2, resting_of_connected hin hq nofun⟩

end
end Platoon
end Dkftpbench
