import Dkftpbench.PipeTalk
import Dkftpbench.PlatoonRuns

/-!
# What the users do

Every user connects, logs in, sets the type and then asks for the file again and again, each
after the server has agreed to what came before. When something fails it says nothing more, and
it is the same for those that were deleted. This is read off the logs of the pipes.
-/
namespace Dkftpbench
open CLib Faults Session Watch

theorem no_nul_type : (0 : Byte) ∉ ascii "I" := by decide

/-- The type that users ask for. -/
def imageType : CStr := ⟨ascii "I", no_nul_type⟩

namespace Platoon
open Robouser

/-- What a user has said and heard in each state in which it waits, the last first. -/
inductive Script (o : Settings) : RobouserState → List Seen → Prop
  | start : Script o .connect []
  | login : Script o .connecting [.accepted (.login o.username.1 o.passwd.1), .connect]
  | type {status : ℤ} {log : List Seen} : Script o .connecting log → statusOk status = true →
      Script o .finishType (.accepted (.type imageType) :: .cmdDone 0 status :: log)
  | get {status : ℤ} {log : List Seen} : Script o .finishType log → statusOk status = true →
      Script o .getting (.accepted (.get o.filename.1 none) :: .cmdDone 0 status :: log)
  | again {status : ℤ} {log : List Seen} : Script o .getting log → statusOk status = true →
      Script o .getting (.accepted (.get o.filename.1 none) :: .cmdDone 0 status :: log)

/-- No command was taken. -/
def isIdle : Seen → Bool
  | .accepted _ => false
  | _ => true

/-- A user that left the script somewhere and has asked for nothing since. -/
def Quits (o : Settings) (log : List Seen) : Prop :=
  ∃ s script rest, Script o s script ∧ log = rest ++ script ∧ ∀ x ∈ rest, isIdle x = true

/-- A user that waits, or is dead. -/
def Plays (o : Settings) (r : Robouser) : Prop :=
  Script o r.state r.fcp.talk ∨ r.state = .stopped ∧ Quits o r.fcp.talk

/-- A user in a call of `ftpCmdDone`. -/
inductive Turn (o : Settings) (xerr status : ℤ) : RobouserState → List Seen → Prop
  | told {s : RobouserState} {log : List Seen} : Script o s log → Turn o xerr status s (.cmdDone xerr status :: log)
  | type {log : List Seen} : Script o .connecting log → statusOk status = true → xerr = 0 →
      Turn o xerr status .startType (.cmdDone 0 status :: log)
  | get {log : List Seen} : Script o .finishType log ∨ Script o .getting log → statusOk status = true → xerr = 0 →
      Turn o xerr status .get (.cmdDone 0 status :: log)
  | dead {log : List Seen} : Quits o log → Turn o xerr status .stopped log

/-- All play but for the one that is executing. -/
structure Cast (o : Settings) (busy : Option ℕ) (p : Platoon) : Prop where
  settings : p.toSettings = o
  executing : p.executing = busy
  plays : ∀ id r, p.robousers id = some r → busy ≠ some id → Plays o r
  deleted : ∀ x ∈ p.deleted, Plays o x.2

/-- One is executing, which is of a kind. -/
def Onstage (o : Settings) (id : ℕ) (K : Robouser → Prop) (p : Platoon) : Prop :=
  Cast o (some id) p ∧ ∃ r, p.robousers id = some r ∧ K r

section
variable {o : Settings} {busy : Option ℕ} {p t : Platoon} {id : ℕ} {r u : Robouser} {K : Robouser → Prop}
variable {xerr status : ℤ} {s : RobouserState} {log : List Seen} {x : Seen} {newstate : RobouserState} {k : Wake} {w : World}

theorem Script.quits (h : Script o s log) : Quits o log := ⟨s, log, [], h, rfl, fun _ hx => absurd hx List.not_mem_nil⟩

theorem Quits.cons (h : Quits o log) (hx : isIdle x = true) : Quits o (x :: log) := by
  obtain ⟨s, script, rest, hs, rfl, hrest⟩ := h
  refine ⟨s, script, x :: rest, hs, rfl, ?_⟩
  intro y hy
  rcases List.mem_cons.1 hy with rfl | hy
  · exact hx
  · exact hrest y hy

theorem Turn.quits (h : Turn o xerr status s log) : Quits o log := by
  cases h with
  | told hs => exact hs.quits.cons rfl
  | type hs => exact hs.quits.cons rfl
  | get hs =>
      rcases hs with hs | hs
      · exact hs.quits.cons rfl
      · exact hs.quits.cons rfl
  | dead hq => exact hq

theorem Plays.shutdown (h : Plays o r) : Plays o { r with queued := none, fcp := (r.fcp.shutdown w).2 } := by
  unfold Plays
  rw [shutdown_talk]
  exact h

/-- Nothing changes that matters here. -/
theorem Cast.of_eq (h : Cast o busy p) (hsettings : t.toSettings = p.toSettings) (hexec : t.executing = p.executing)
    (hrob : t.robousers = p.robousers) (hdel : t.deleted = p.deleted) : Cast o busy t :=
  ⟨hsettings.trans h.settings, hexec.trans h.executing, hrob ▸ h.plays, hdel ▸ h.deleted⟩

theorem Cast.setUser (h : Cast o busy p) (hu : busy ≠ some id → Plays o u) : Cast o busy (p.setUser id u) where
  settings := h.settings
  executing := h.executing
  plays := by
    apply forall_setUser
    · exact hu
    · exact fun j q _ hq => h.plays j q hq
  deleted := h.deleted

theorem Cast.onstage (h : Cast o (some id) p) (hK : K u) : Onstage o id K (p.setUser id u) :=
  ⟨h.setUser (absurd rfl), u, setUser_self, hK⟩

theorem gotoState_onstage (h : Cast o (some id) p) (hr : p.robousers id = some r) (hnew : newstate ≠ .uninit)
    (hK : K { r with state := newstate }) : Holds Any (Onstage o id K) (p.gotoState id newstate k) := by
  rw [gotoState_ok hr hnew]
  exact (h.of_eq (t := { p with nInState := counted p.nInState r.state newstate }.wakeUp k) rfl rfl rfl rfl).onstage hK

/-- A user dies. -/
theorem stop_onstage (h : Cast o (some id) p) (hr : p.robousers id = some r) (hK : K { r with state := .stopped }) :
    Holds Any (Onstage o id K) (p.stop id k) := by
  have hgo := gotoState_onstage (k := k) h hr (by decide) hK
  unfold Platoon.stop
  rw [gotoState_ok hr (by decide)] at hgo ⊢
  obtain ⟨hwent, q, hq, hKq⟩ := hgo
  exact ⟨hwent.of_eq rfl rfl rfl rfl, q, hq, hKq⟩

/-- The user dies, or goes on. -/
theorem onstage_or_stops {c : Prop} [Decidable c] {x : Except Fault Platoon} (h : Cast o (some id) p)
    (hr : p.robousers id = some r) (hK : c → K { r with state := .stopped }) (hx : ¬ c → Holds Any (Onstage o id K) x) :
    Holds Any (Onstage o id K) (if c then p.stop id k else x) := by
  split
  · next hc => exact stop_onstage h hr (hK hc)
  · next hc => exact hx hc

/-- Others may be deleted. -/
theorem Cast.reap (h : Cast o busy p) : Holds Any (fun t => Cast o busy t ∧ Reaped p t) (p.reap w) := by
  have hloop : Holds Any _ (p.reap w) := reap_invariant (I := Cast o busy) (fun _ _ _ _ _ _ => trivial)
    (fun _ _ _ _ _ _ => trivial) ?_ h
  · apply (hloop.and (reap_reaped p w)).mono
    exact fun _ ht => ⟨ht.1.1, ht.2⟩
  · intro t id ids r ht _ hr hex
    refine ⟨ht.settings, ht.executing, fun j q hq => ht.plays j q (buried_get hq).2, ?_⟩
    intro x hx
    rcases List.mem_cons.1 hx with rfl | hx
    · exact (ht.plays id r hr (ht.executing ▸ hex)).shutdown
    · exact ht.deleted x hx

/-! ## The callbacks of a user -/

/-- A command was taken, or refused. -/
def Answered (o : FtpClientProto.Op) (r : Robouser) (e : ℤ) (q : Robouser) : Prop :=
  q.state = r.state ∧ (e = 0 ∧ q.fcp.talk = .accepted o :: r.fcp.talk ∨
    e ≠ 0 ∧ q.fcp.talk = .refused o e :: r.fcp.talk)

/-- A command that does not call back. -/
theorem runPipe_answered {c : FtpClientProto.Op} {f : Session → Outcome} {callback : Platoon → ℤ → ℤ → Except Fault Platoon}
    (h : Cast o (some id) p) (hr : p.robousers id = some r) (hquiet : ∀ e s, f r.fcp = .ok (e, s) → r.fcp.called s = none)
    (htalk : ∀ e s, f r.fcp = .ok (e, s) → r.fcp.called s = none → e = 0 ∧ s.talk = .accepted c :: r.fcp.talk ∨
      e ≠ 0 ∧ s.talk = .refused c e :: r.fcp.talk) :
    Holds Any (fun x => Onstage o id (Answered c r x.1) x.2) (p.runPipe id f callback) := by
  apply runPipe_quiet (fun _ => trivial) hr hquiet
  exact fun e s hf => h.onstage ⟨rfl, htalk e s hf (hquiet e s hf)⟩

/-- After a command the user waits, or gives up. -/
theorem answered_plays {c : FtpClientProto.Op} {e : ℤ} {x : Except Fault Platoon} (h : Onstage o id (Answered c r e) p)
    (hquits : Quits o r.fcp.talk)
    (hx : ∀ q, p.robousers id = some q → q.fcp.talk = .accepted c :: r.fcp.talk → Holds Any (Onstage o id (Plays o)) x) :
    Holds Any (Onstage o id (Plays o)) (if e ≠ 0 then p.stop id k else x) := by
  obtain ⟨hcast, q, hq, -, htalk⟩ := h
  rcases htalk with ⟨h0, htalk⟩ | ⟨hne, htalk⟩
  · rw [if_neg (not_not.2 h0)]
    exact hx q hq htalk
  · rw [if_pos hne]
    exact stop_onstage hcast hq (.inr ⟨rfl, htalk ▸ hquits.cons rfl⟩)

/-- What `ftpCmdDone` does when the pipe calls it. -/
theorem ftpCmdDone_plays {as : List LoopAnswers} (h : Cast o (some id) p) (hr : p.robousers id = some r)
    (hin : r.fcp.inFtpCmdDone ≠ 0) (hs : r.state ≠ .connect) (hturn : Turn o xerr status r.state r.fcp.talk) :
    Holds Any (Onstage o id (Plays o)) (ftpCmdDone as p id xerr status) := by
  induction as generalizing p r xerr status with
  | nil => trivial
  | cons a as ih =>
      have hdead : Plays o { r with state := .stopped } := .inr ⟨rfl, hturn.quits⟩
      rw [ftpCmdDone]
      apply onstage_or_stops h hr fun _ => hdead
      intro hxerr
      rw [not_not] at hxerr
      -- a state that is left at once for another one
      have hround : ∀ newstate, newstate ≠ .uninit → newstate ≠ .connect → Turn o 0 status newstate r.fcp.talk →
          Holds Any (Onstage o id (Plays o))
            (p.gotoState id newstate a.wake >>= fun p => ftpCmdDone as p id 0 status) := by
        intro newstate hnew hconnect hnext
        apply (gotoState_onstage (K := fun q => q = { r with state := newstate }) h hr hnew rfl).bind
        rintro t ⟨ht, q, hq, rfl⟩
        exact ih ht hq hin hconnect hnext
      apply holds_user hr
      split
      · next hst => exact absurd hst hs
      · next hst =>
        rw [hst] at hturn
        apply onstage_or_stops h hr fun _ => hdead
        intro hok
        rw [Bool.not_eq_true', Bool.not_eq_false] at hok
        generalize r.fcp.talk = log at hturn hround
        cases hturn with
        | told hscript =>
            rw [hxerr] at hround
            exact hround .startType (by decide) (by decide) (.type hscript hok rfl)
      · next hst =>
        rw [hst] at hturn
        apply (runPipe_answered h hr (fun e s hf => ((type_calls hf).inside hin).1) fun e s hf => type_talk hf).bind
        rintro ⟨err, t⟩ ht
        apply answered_plays ht hturn.quits
        intro q hq htalk
        apply gotoState_onstage ht.1 hq (by decide)
        left
        rw [htalk]
        generalize r.fcp.talk = log at hturn
        cases hturn with
        | told hscript => cases hscript
        | type hscript hok => exact .type hscript hok
      · next hst =>
        rw [hst] at hturn
        apply onstage_or_stops h hr fun _ => hdead
        intro hok
        rw [Bool.not_eq_true', Bool.not_eq_false] at hok
        generalize r.fcp.talk = log at hturn hround
        cases hturn with
        | told hscript =>
            rw [hxerr] at hround
            exact hround .get (by decide) (by decide) (.get (.inl hscript) hok rfl)
      · next hst =>
        rw [hst] at hturn
        apply (runPipe_answered h hr (fun e s hf => ((get_calls hf).inside hin).1) fun e s hf => get_talk hf).bind
        rintro ⟨err, t⟩ ht
        apply answered_plays ht hturn.quits
        intro q hq htalk
        rw [beginFetch_ok hq]
        have hset : Cast o (some id) (t.setUser id { q with startedAt := a.now, bytesFetched := 0, reads := 0 }) :=
          ht.1.setUser (absurd rfl)
        apply gotoState_onstage hset setUser_self (by decide)
        left
        dsimp only
        rw [htalk, h.settings]
        generalize r.fcp.talk = log at hturn
        cases hturn with
        | told hscript => cases hscript
        | get hscript hok =>
            rcases hscript with hscript | hscript
            · exact .get hscript hok
            · exact .again hscript hok
      · next hst =>
        rw [hst] at hturn
        apply onstage_or_stops h hr fun _ => hdead
        intro hok
        rw [Bool.not_eq_true', Bool.not_eq_false] at hok
        apply onstage_or_stops h hr fun _ => hdead
        intro _
        generalize r.fcp.talk = log at hturn hround
        cases hturn with
        | told hscript =>
            rw [hxerr] at hround
            exact hround .get (by decide) (by decide) (.get (.inr hscript) hok rfl)
      · next hst => exact ⟨h, r, hr, .inr ⟨hst, hturn.quits⟩⟩
      · next hst =>
        rw [hst] at hturn
        generalize r.fcp.talk = log at hturn
        cases hturn with
        | told hscript => cases hscript

/-- What `ftpCmdDone` does when the scheduler calls it. -/
theorem ftpCmdDone_starts {as : List LoopAnswers} (h : Cast o (some id) p) (hr : p.robousers id = some r)
    (hs : r.state = .connect) (hplays : Plays o r) (hlogin : ∀ a ∈ as.head?, KeepsLogin p a) :
    Holds Any (Onstage o id (Plays o)) (ftpCmdDone as p id 0 status) := by
  have hscript : Script o .connect r.fcp.talk := by
    rcases hplays with hscript | ⟨hdead, -⟩
    · rwa [hs] at hscript
    · cases hs.symm.trans hdead
  have hempty : r.fcp.talk = [] := by
    generalize r.fcp.talk = log at hscript
    cases hscript with
    | start => rfl
  cases as with
  | nil => trivial
  | cons a as =>
      rw [ftpCmdDone, if_neg (not_not.2 rfl)]
      apply holds_user hr
      rw [hs]
      dsimp only
      apply (runPipe_quiet (Q := fun x => ∃ s, r.fcp.connect a.connect (BitVec.ofInt 16 p.port) = .ok (x.1, s) ∧
        x.2 = p.setUser id { r with fcp := s }) (fun _ => trivial) hr (fun e s hc => called_of_eq (connect_callbacks hc).1)
        fun e s hc => ⟨s, hc, rfl⟩).bind
      rintro ⟨err, t⟩ ⟨s, hc, rfl⟩
      have hset : Cast o (some id) (p.setUser id { r with fcp := s }) := h.setUser (absurd rfl)
      have hdialled : s.talk = [.connect] := by rw [connect_talk hc, hempty]
      have hquits : Quits o s.talk := by
        rw [hdialled]
        exact (Script.start (o := o)).quits.cons rfl
      apply onstage_or_stops hset setUser_self fun _ => .inr ⟨rfl, hquits⟩
      intro hzero
      rw [not_not] at hzero
      rw [hzero] at hc
      have hquiet : ∀ e t, s.login a.command p.username.1 p.passwd.1 = .ok (e, t) → s.called t = none :=
        fun e t hl => called_of_eq (login_after_connect (hlogin a rfl) hc hl).1
      apply (runPipe_answered (r := { r with fcp := s }) hset setUser_self hquiet fun e t hl => login_talk hl).bind
      rintro ⟨err, t⟩ ht
      apply answered_plays ht hquits
      intro q hq htalk
      apply gotoState_onstage ht.1 hq (by decide)
      left
      dsimp only at htalk ⊢
      rw [htalk, hdialled, hset.settings]
      exact .login

theorem cmdDoneReturns_plays (h : Cast o (some id) p) (hr : p.robousers id = some r) (hplays : Plays o r) :
    Holds Any (Onstage o id (Plays o)) (p.cmdDoneReturns id) := by
  unfold cmdDoneReturns
  apply holds_user hr
  cases hret : r.fcp.returnFromCallback with
  | error stop => trivial
  | ok fcp =>
      unfold returnFromCallback at hret
      split at hret
      · cases hret
      · cases hret
        exact h.onstage hplays

/-- What `handle_data_io` leaves of a user. -/
def Read (r q : Robouser) : Prop := q.fcp = r.fcp ∧ (q.state = r.state ∨ q.state = .stopped)

theorem Read.plays (h : Read r u) (hplays : Plays o r) : Plays o u := by
  obtain ⟨hfcp, hstate⟩ := h
  unfold Plays
  rw [hfcp]
  rcases hstate with hst | hst
  · rw [hst]
    exact hplays
  · right
    rcases hplays with hscript | ⟨-, hquits⟩
    · exact ⟨hst, hscript.quits⟩
    · exact ⟨hst, hquits⟩

theorem afterRead_onstage {c : Prop} [Decidable c] {nread : ℤ} (h : Cast o (some id) p) (hr : p.robousers id = some r) :
    Holds Any (fun x => Onstage o id (Read r) x.2) (if c then do
        let p ← p.stop id k
        return (0, p)
      else do
        let p ← p.reap w
        return (nread, p)) := by
  split
  · apply (stop_onstage (K := Read r) h hr ⟨rfl, .inr rfl⟩).bind
    exact fun _ ht => ht
  · apply h.reap.bind
    rintro t ⟨ht, hreaped⟩
    exact ⟨ht, r, (hreaped.busy id h.executing).trans hr, rfl, .inl rfl⟩

theorem handleDataIo_onstage {io : DataIo} (h : Cast o (some id) p) (hr : p.robousers id = some r) :
    Holds Any (fun x => Onstage o id (Read r) x.2) (p.handleDataIo id io) := by
  unfold handleDataIo
  split
  · trivial
  · apply holds_user hr
    dsimp only
    split
    · exact h.onstage ⟨rfl, .inl rfl⟩
    · next n hn =>
      split
      · exact h.onstage ⟨rfl, .inl rfl⟩
      · have hread : Cast o (some id) { p.setUser id (fed r n io.now) with
            bytesFetched := p.bytesFetched+BitVec.ofNat 64 n, nreads := p.nreads+1 } :=
          (h.setUser (absurd rfl) : Cast o (some id) (p.setUser id (fed r n io.now))).of_eq rfl rfl rfl rfl
        have hget : ({ p.setUser id (fed r n io.now) with
            bytesFetched := p.bytesFetched+BitVec.ofNat 64 n, nreads := p.nreads+1 } : Platoon).robousers id =
            some (fed r n io.now) := setUser_self
        exact (afterRead_onstage hread hget).mono fun _ hx => hx

/-- Whatever comes to a pipe from outside. -/
theorem callPipe_plays {c : Cause} {io : DataIo} {as : List LoopAnswers} (h : Cast o (some id) p)
    (hr : p.robousers id = some r) (hrest : r.Resting) (hplays : Plays o r) :
    Holds Any (Onstage o id (Plays o)) (p.callPipe id c w io as) := by
  by_cases hs : r.state = .connect
  · obtain ⟨hcfd, hdfd, hq⟩ := hrest.unconnected hs
    exact callPipe_idle (fun _ => trivial) hr hcfd hdfd hq (h.onstage hplays)
  · unfold callPipe
    apply holds_user hr
    apply Holds.bind (Q := Onstage o id (Read r))
    · unfold serveData
      split
      · exact (handleDataIo_onstage h hr).map fun _ ht => ht
      · exact ⟨h, r, hr, rfl, .inl rfl⟩
    · rintro t ⟨ht, q, hq, hread⟩
      have hconnect : q.state ≠ .connect := by
        rcases hread.2 with hst | hst
        · rwa [hst]
        · rw [hst]
          decide
      have hplays' := hread.plays hplays
      apply Holds.bind (Q := fun x => Onstage o id (Plays o) x.2)
      · apply runPipe_holds (fun _ => trivial) hq
        · intro e s hrec hnone
          rcases receive_says (receive_map hrec) with ⟨-, htalk⟩ | ⟨xerr, status, hsome, -⟩
          · apply ht.onstage
            unfold Plays
            rw [htalk]
            exact hplays'
          · cases hnone.symm.trans hsome
        · intro e s xerr status hrec hcalled
          have htalk : s.talk = .cmdDone xerr status :: q.fcp.talk := by
            rcases receive_says (receive_map hrec) with ⟨hnone, -⟩ | ⟨_, _, hsome, htalk⟩
            · cases hnone.symm.trans hcalled
            · cases hsome.symm.trans hcalled
              exact htalk
          have hinside : s.inFtpCmdDone ≠ 0 := by
            rcases (receive_calls (receive_map hrec)).called_cases with ⟨hnone, _⟩ | ⟨_, _, _, _, hone, _⟩
            · cases hnone.symm.trans hcalled
            · rw [hone]
              decide
          have hset : Cast o (some id) (t.setUser id { q with fcp := s }) := ht.setUser (absurd rfl)
          have hturn : Turn o xerr status q.state s.talk := by
            rw [htalk]
            rcases hplays' with hscript | ⟨hdead, hquits⟩
            · exact .told hscript
            · rw [hdead]
              exact .dead (hquits.cons rfl)
          apply (ftpCmdDone_plays (r := { q with fcp := s }) hset setUser_self hinside hconnect hturn).mono
          rintro t' ⟨ht', q', hq', hplays''⟩
          exact cmdDoneReturns_plays ht' hq' hplays''
      · exact fun _ hx => hx

theorem Cast.enlisted {i : ℕ} {a : Start} (h : Cast o none p) : Cast o none (p.enlisted i a) where
  settings := h.settings
  executing := h.executing
  plays := by
    intro id q hq _
    rcases enlisted_cases hq with ⟨rfl, rfl⟩ | ⟨_, hq⟩
    · exact .inl .start
    · exact h.plays id q hq nofun
  deleted := h.deleted

theorem Cast.skedCallback {as : List Start} (h : Cast o none p) : Holds Any (Cast o none) (p.skedCallback as) := by
  induction as generalizing p with
  | nil =>
      rw [Platoon.skedCallback]
      split
      · trivial
      · exact h
  | cons a as ih =>
      rw [Platoon.skedCallback]
      split
      · rcases startUser_cases (p := p) (a := a) with hs | hs | ⟨i, hfree, _, hs⟩
        · rw [hs]
          trivial
        · rw [hs]
          exact h
        · rw [hs]
          exact ih h.enlisted
      · exact h

/-- The user's callback has returned. -/
theorem callUser_plays {f : Platoon → Except Fault Platoon} (hf : Holds Any (Onstage o id (Plays o)) (f (p.during id))) :
    Holds Any (Cast o none) (p.callUser id f) := by
  apply hf.bind
  rintro t ⟨ht, q, hq, hplays⟩
  refine ⟨ht.settings, rfl, ?_, ht.deleted⟩
  intro j u hu _
  by_cases hj : j = id
  · rw [hj, hq, Option.some.injEq] at hu
    exact hu ▸ hplays
  · exact ht.plays j u hu fun heq => hj (Option.some.inj heq).symm

theorem Cast.during (h : Cast o none p) (id : ℕ) : Cast o (some id) (p.during id) :=
  ⟨h.settings, rfl, fun j r hr _ => h.plays j r hr nofun, h.deleted⟩

/-- What one step preserves. -/
theorem step_plays {k : Act} (hsound : Sound False none p) (h : Cast o none p) (hlogin : LoginsKept p k) :
    Holds Any (Cast o none) (p.step k) := by
  have hidle : ∀ id : ℕ, (none : Option ℕ) ≠ some id := fun id => (Option.some_ne_none id).symm
  cases k with
  | platoonTimer now as =>
      rw [step]
      split
      · exact (h.of_eq (t := { p with queued := none }) rfl rfl rfl rfl).skedCallback
      · trivial
  | userTimer id now as =>
      rw [step]
      split
      · trivial
      · next r hr =>
        split
        · next hdue =>
          have hqueued : r.queued ≠ none := by
            intro hq
            rw [hq] at hdue
            cases hdue
          have hconnect := (hsound.resting id r hr (hidle id)).queued hqueued
          have hplays : Plays o { r with queued := none } := h.plays id r hr (hidle id)
          have hset : Cast o none (p.setUser id { r with queued := none }) := h.setUser fun _ => hplays
          exact callUser_plays (ftpCmdDone_starts (hset.during id) setUser_self hconnect hplays hlogin)
        · trivial
  | pipe id c w io as =>
      rw [step]
      split
      · trivial
      · next r hr =>
        exact callUser_plays (callPipe_plays (h.during id) hr (hsound.resting id r hr (hidle id)) (h.plays id r hr (hidle id)))
  | setNuserTarget | setNconnectingTarget | setLastConnectingState => exact h.of_eq rfl rfl rfl rfl
  | reap w => exact h.reap.mono fun _ ht => ht.1
  | getStatus w =>
      apply Holds.map (Q := fun x : Status × Platoon => Cast o none x.2) _ fun _ hx => hx
      exact h.reap.bind fun _ ht => ht.1

/-- In every run in which no login's first line is refused all users play, those that are
there and those that were deleted. -/
theorem users_play {g : Unit} (h : Run platoons (fun p _ k => LoginsKept p k) p g) :
    (∀ id r, p.robousers id = some r → Plays p.toSettings r) ∧ ∀ x ∈ p.deleted, Plays p.toSettings x.2 := by
  have hall : Sound False none p ∧ Cast p.toSettings none p := by
    apply h.invariant (I := fun p _ => Sound False none p ∧ Cast p.toSettings none p)
    · rintro _ _ ⟨settings, rfl⟩
      exact ⟨init_sound settings, rfl, rfl, fun id r hr => (init_robousers settings hr).elim,
        fun x hx => absurd hx List.not_mem_nil⟩
    · intro p g k t ⟨hsound, hcast⟩ hk hs
      have ht := (step_plays hsound hcast hk).result hs
      exact ⟨(step_holds hsound hk False.elim).result hs, ht.settings.symm ▸ ht⟩
  exact ⟨fun id r hr => hall.2.plays id r hr nofun, hall.2.deleted⟩

end

/-- A text comes for the first user, on its control connection. -/
def hears (text : String) : Act :=
  .pipe 0 (.event 3 POLLIN) (Session.calm 0 (ascii text)) ⟨.error EWOULDBLOCK, 0, false, prompt, Session.calm 0 []⟩
    [smooth, smooth]

/-- One user logs in and asks for the file. -/
def fetchingUser : List Act :=
  oneUser ++ [.userTimer 0 0 [smooth]] ++ [hears "220 hello\r\n331 name\r\n230 in\r\n", hears "200 image\r\n"]

theorem loginsKept_fetchingUser {k : Act} (h : k ∈ fetchingUser) (p : Platoon) : LoginsKept p k := by
  rcases List.mem_append.1 h with h | h
  · exact (allowed_after_oneUser rfl h p).1
  · rcases List.mem_cons.1 h with rfl | h
    · trivial
    · rw [List.mem_singleton.1 h]
      trivial

/-- A user that waits for its file. -/
theorem users_play_getting : ∃ p g r, Run platoons (fun p _ k => LoginsKept p k) p g ∧ p.robousers 0 = some r ∧
    r.state = .getting ∧ r.fcp.talk.length = 6 ∧ Plays p.toSettings r := by
  have hfollow : (follow (fun p _ k => (p.step k).toOption) platoons.note (init modest) () fetchingUser).bind
      (fun x => (x.1.robousers 0).map fun r => (r.state, r.fcp.talk.length)) = some (.getting, 6) := by
    decide +kernel
  obtain ⟨⟨p, g⟩, hr, heq⟩ := Option.bind_eq_some_iff.1 hfollow
  obtain ⟨r, hrob, hstate⟩ := Option.map_eq_some_iff.1 heq
  have hrun : Run platoons (fun p _ k => LoginsKept p k) p g :=
    run_modest (fun k hk p _ => loginsKept_fetchingUser hk p) hr
  obtain ⟨hgetting, hlen⟩ := Prod.mk.inj hstate
  exact ⟨p, g, r, hrun, hrob, hgetting, hlen, (users_play hrun).1 0 r hrob⟩

end Platoon
end Dkftpbench
