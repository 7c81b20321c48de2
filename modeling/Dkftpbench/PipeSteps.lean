import Dkftpbench.Faults
import Dkftpbench.PipeMoves
import Dkftpbench.Watch

/-!
# What a step of the pipe can do

`Stepped` has one constructor for each kind of step, with the state it leads to. The
log only grows, so a condition on its entries that holds after a step held before it.
An invariant that needs such a condition is carried over a handler's moves and its end
by the two rules at the end.
-/
namespace Dkftpbench.Session
open CLib EventClock Faults FtpClientProto Relation Watch

/-- A command was accepted, and the protocol is `p` now. -/
def issued (s : Session) (o : Op) (p : FtpClientProto) : Session :=
  { s with proto := p, log := .accepted o :: s.log }

/-- A transfer is expected to begin within five seconds. -/
def awaiting (s : Session) (w : World) : Session :=
  { s with state := .getting, bytesUnsleptFor := 0, wakeup := w.now
           queued := if w.enqueue then some (deadline w) else none }

/-- The log after a descriptor was discarded. -/
def discarded (fd : ℤ) (log : List Seen) : List Seen :=
  if fd ≠ -1 then .close fd :: .del fd :: log else log

/-- The pipe when `connect` begins. -/
def reset (s : Session) : Session := (s.init s.bytesPerSec).note .connect

/-- A control connection is under way. -/
def dialled (s : Session) (w : World) (sock : ℕ) (connecting : Bool) : Session :=
  { s.reset with
    cfd := sock, cfdConnecting := connecting, ilineFull := false
    queued := if w.enqueue then some (deadline w) else none
    log := .connected :: .add sock :: .socket sock :: s.reset.log }

/-- A sleeping pipe is called at its time. -/
def woken (s : Session) (now : Clock) : Session :=
  { s with queued := none, state := .getting, dfdEvents := 0, wakeup := now }

inductive Stepped (s : Session) (w : World) : Act → Session → Prop
  | connectFailed (port : BitVec 16) : Stepped s w (.connect port) s.reset
  | connectClosed (port : BitVec 16) (sock : ℕ) : w.socket = .ok sock →
      Stepped s w (.connect port) ((s.reset.note (.socket sock)).note (.close sock))
  | connectUnwatched (port : BitVec 16) (sock : ℕ) (connecting : Bool) : w.socket = .ok sock →
      w.add ≠ 0 → Stepped s w (.connect port)
        { s.reset.note (.socket sock) with cfdConnecting := connecting, cfd := sock }
  | connected (port : BitVec 16) (sock : ℕ) (connecting : Bool) : w.socket = .ok sock →
      w.add = 0 → s.queued = none → Stepped s w (.connect port) (s.dialled w sock connecting)
  | shutdown : Stepped s w .shutdown (s.shutdown w).2
  | refused (c : Command) (o : Op) (err : ℤ) : err ≠ 0 →
      Stepped s w (.command c) (s.note (.refused o err))
  | issued {s' : Session} {p : FtpClientProto} (c : Command) (o : Op) : (∀ f, o ≠ .get f none) →
      Issued s.proto o p → s.cfd ≠ -1 → Handled w (s.issued o p) s' → Stepped s w (.command c) s'
  | gotten {s' : Session} {p : FtpClientProto} (c : Command) (f : CStr) :
      Issued s.proto (.get f none) p → s.queued = none → s.cfd ≠ -1 →
      Handled w ((s.issued (.get f none) p).awaiting w) s' → Stepped s w (.command c) s'
  | ignored (fd : ℤ) (revents : Revents) : Stepped s w (.pollEvent fd revents) s
  | handled {s' : Session} (fd : ℤ) (revents : Revents) : fd ≠ -1 → fd = s.dfd ∨ fd = s.cfd →
      Handled w s s' → Stepped s w (.pollEvent fd revents) s'
  | expired {when : Clock} (now : Clock) : s.queued = some when → eclockAfter when now = false →
      s.state = .idle ∨ s.state = .getting →
      Stepped s w (.timer now) (s.delClient.shutdownAndNotify w)
  | wokenQuiet {when : Clock} (now : Clock) : s.queued = some when → eclockAfter when now = false →
      s.state = .sleeping → Stepped s w (.timer now) { s.delClient with state := .getting }
  | woken {s' : Session} {when : Clock} (now : Clock) : s.queued = some when →
      eclockAfter when now = false → s.state = .sleeping → s.dfd ≠ -1 →
      Handled w (s.woken now) s' → Stepped s w (.timer now) s'
  | returned : s.callbacks ≠ 0 → Stepped s w .cmdDoneReturns
      { s with inFtpCmdDone := s.inFtpCmdDone-1, callbacks := s.callbacks-1 }

/-- The app may issue a command: it is connected, and the previous command was reported
without an error. -/
def mayIssue : List Seen → Bool
  | [] => false
  | .connect :: _ => false
  | .shutdown :: _ => false
  | .accepted _ :: _ => false
  | .connected :: _ => true
  | .cmdDone xerr _ :: log => xerr == 0 || mayIssue log
  | _ :: log => mayIssue log

/-- Every entry of the log is of this kind. -/
def Logged (C : Seen → Prop) (s : Session) : Prop := ∀ x ∈ s.log, C x

section
variable {w : World} {s s' t u : Session} {e : ℤ} {n : ℤ} {now : Clock} {fd : ℤ} {o : Op} {C : Seen → Prop}

theorem throttle_eq (s : Session) (now : Clock) (n : ℤ) : ∃ unslept wakeup events, s.throttle now n =
    { s with bytesUnsleptFor := unslept, wakeup := wakeup, dfdEvents := events } := by
  unfold throttle
  split
  · dsimp only
    split
    · exact ⟨_, _, _, rfl⟩
    · exact ⟨_, _, _, rfl⟩
  · exact ⟨_, _, _, rfl⟩

@[simp] theorem throttle_state : (s.throttle now n).state = s.state := by
  obtain ⟨_, _, _, h⟩ := throttle_eq s now n
  rw [h]

@[simp] theorem throttle_cfd : (s.throttle now n).cfd = s.cfd := by
  obtain ⟨_, _, _, h⟩ := throttle_eq s now n
  rw [h]

@[simp] theorem throttle_dfd : (s.throttle now n).dfd = s.dfd := by
  obtain ⟨_, _, _, h⟩ := throttle_eq s now n
  rw [h]

@[simp] theorem throttle_proto : (s.throttle now n).proto = s.proto := by
  obtain ⟨_, _, _, h⟩ := throttle_eq s now n
  rw [h]

@[simp] theorem throttle_queued : (s.throttle now n).queued = s.queued := by
  obtain ⟨_, _, _, h⟩ := throttle_eq s now n
  rw [h]

@[simp] theorem throttle_log : (s.throttle now n).log = s.log := by
  obtain ⟨_, _, _, h⟩ := throttle_eq s now n
  rw [h]

theorem discard_eq : s.discard fd = { s with log := discarded fd s.log } := by
  unfold discard discarded
  split
  · rfl
  · rfl

theorem mayIssue_discarded (fd : ℤ) (log : List Seen) : mayIssue (discarded fd log) = mayIssue log := by
  unfold discarded
  split <;> rfl

theorem hangUp_eq : s.hangUp.2 = { s with
    queued := none, state := .idle, dfd := -1, log := discarded s.dfd s.log } := by
  unfold hangUp
  rw [discard_eq]
  rfl

/-- Nothing to do, or everything is given up. -/
theorem shutdown_cases : (s.cfd = -1 ∧ s.dfd = -1) ∧ (s.shutdown w).2 = s ∨
    (s.shutdown w).2 = { s with
      queued := none, state := .idle, cfdConnecting := false, dfdConnecting := false, dfd := -1, cfd := -1
      log := .shutdown :: discarded s.dfd (discarded s.cfd s.log) } := by
  unfold shutdown
  split
  · next hoff => exact .inl ⟨hoff, rfl⟩
  · right
    dsimp only
    rw [discard_eq, discard_eq]
    rfl

theorem dropFailed_cases :
    s.dropFailed = s ∧ (s.proto.getStatus = 0 ∨ is2xx s.proto.getStatus = true ∨ s.dfd = -1) ∨
    (s.proto.getStatus ≠ 0 ∧ is2xx s.proto.getStatus = false ∧ s.dfd ≠ -1) ∧
      s.dropFailed = { s with dfdConnecting := false, dfd := -1, log := discarded s.dfd s.log } := by
  unfold dropFailed
  dsimp only
  split
  · next hdrop =>
    rw [discard_eq]
    exact .inr ⟨⟨hdrop.1, by simpa using hdrop.2.1, hdrop.2.2⟩, rfl⟩
  · next hkeep =>
    refine .inl ⟨rfl, ?_⟩
    by_contra hne
    rw [not_or, not_or] at hne
    exact hkeep ⟨hne.1, by simpa using hne.2.1, hne.2.2⟩

theorem dropFailed_proto : s.dropFailed.proto = s.proto := by
  rcases dropFailed_cases (s := s) with ⟨h, _⟩ | ⟨_, h⟩
  · rw [h]
  · rw [h]

/-- The app is called, or it is already inside `ftpCmdDone`. -/
theorem callFtpCmdDone_cases (xerr status : ℤ) :
    s.inFtpCmdDone = 0 ∧ s.callFtpCmdDone xerr status = { s with
      inFtpCmdDone := s.inFtpCmdDone+1, callbacks := s.callbacks+1
      log := .cmdDone xerr status :: s.log } ∨
    s.callFtpCmdDone xerr status =
      { s with log := .withheld s.toFtpClientPipe xerr status :: s.log } := by
  unfold callFtpCmdDone
  split
  · next h => exact .inl ⟨h, rfl⟩
  · exact .inr rfl

theorem callFtpCmdDone_cfd (xerr status : ℤ) : (s.callFtpCmdDone xerr status).cfd = s.cfd := by
  rcases callFtpCmdDone_cases (s := s) xerr status with ⟨_, h⟩ | h
  · rw [h]
  · rw [h]

theorem callFtpCmdDone_proto (xerr status : ℤ) : (s.callFtpCmdDone xerr status).proto = s.proto := by
  rcases callFtpCmdDone_cases (s := s) xerr status with ⟨_, h⟩ | h
  · rw [h]
  · rw [h]

theorem addClient_eq {when : Clock} (h : s.addClient w when = .ok t) :
    s.queued = none ∧ t = { s with queued := if w.enqueue then some when else none } := by
  unfold addClient at h
  split at h
  · cases h
  · next hq =>
    have hnone : s.queued = none := by simpa using hq
    cases h
    refine ⟨hnone, ?_⟩
    split
    · rfl
    · simp [← hnone]

theorem connect_spec {port : BitVec 16} (h : s.connect w port = .ok (e, s')) :
    Stepped s w (.connect port) s' := by
  unfold connect at h
  split at h
  · cases h
    exact .connectFailed port
  · split at h
    · cases h
      exact .connectFailed port
    · next sock hsock =>
      dsimp only at h
      split at h
      · cases h
        exact .connectClosed port sock hsock
      · split at h
        · cases h
          exact .connectClosed port sock hsock
        · next connecting _ =>
          split at h
          · next hadd =>
            cases h
            exact .connectUnwatched port sock connecting hsock hadd
          · next hadd =>
            split at h
            · cases h
            · next u hu =>
              cases h
              obtain ⟨hq, rfl⟩ := addClient_eq hu
              exact .connected port sock connecting hsock (not_not.1 hadd) hq

theorem kickstart_spec (h : s.kickstart w = .ok (e, s')) : s.cfd ≠ -1 ∧ Handled w s s' := by
  rcases notifyPollEvent_spec h with ⟨hne, _⟩ | ⟨⟨hfd, _⟩, _, hh⟩
  · exact absurd rfl hne.2
  · exact ⟨hfd, hh⟩

/-- A command is refused, or it is accepted and the output kickstarted. -/
theorem wrapper_spec {ready : Session → Except Stop Session} (hd : s.proto.Disciplined)
    (h : s.wrapper w o ready = .ok (e, s')) :
    (∃ err, err ≠ 0 ∧ s' = s.note (.refused o err)) ∨
    ∃ p t, Issued s.proto o p ∧ ready (s.issued o p) = .ok t ∧ t.cfd ≠ -1 ∧ Handled w t s' := by
  unfold wrapper at h
  rcases perform_spec hd o with ⟨err, herr, heq⟩ | ⟨p, heq, hi⟩
  · rw [heq] at h
    dsimp only at h
    rw [if_pos herr] at h
    cases h
    exact .inl ⟨_, herr, rfl⟩
  · rw [heq] at h
    dsimp only at h
    rw [if_neg (not_not.2 rfl)] at h
    split at h
    · cases h
    · next t ht => exact .inr ⟨p, t, hi, ht, kickstart_spec h⟩

theorem perform_spec {c : Command} (hd : s.proto.Disciplined) (h : s.perform w c = .ok (e, s')) :
    Stepped s w (.command c) s' := by
  have plain : ∀ {o : Op} {e : ℤ}, (∀ f, o ≠ .get f none) → s.wrapper w o .ok = .ok (e, s') →
      Stepped s w (.command c) s' := by
    intro o e ho h
    rcases wrapper_spec hd h with ⟨err, herr, rfl⟩ | ⟨p, t, hi, ht, hcfd, hh⟩
    · exact .refused c o err herr
    · cases ht
      exact .issued c o ho hi hcfd hh
  cases c with
  | login username password => exact plain (o := .login username password) nofun h
  | quit => exact plain (o := .quit) nofun h
  | cd dir => exact plain (o := .cd dir) nofun h
  | type ttype => exact plain (o := .type ttype) nofun h
  | size fname => exact plain (o := .size fname) nofun h
  | ls dirname passive =>
      change s.ls w dirname passive = .ok (e, s') at h
      unfold Session.ls at h
      split at h
      · cases h
      · rcases wrapper_spec hd h with ⟨err, herr, rfl⟩ | ⟨p, t, hi, _⟩
        · exact .refused _ _ err herr
        · cases hi
  | get fname passive =>
      change s.get w fname passive = .ok (e, s') at h
      unfold Session.get at h
      split at h
      · cases h
      · rcases wrapper_spec hd h with ⟨err, herr, rfl⟩ | ⟨p, t, hi, ht, hcfd, hh⟩
        · exact .refused _ _ err herr
        · obtain ⟨hq, rfl⟩ := addClient_eq ht
          exact .gotten _ fname hi hq hcfd hh

theorem skedCallback_spec {when : Clock} (hq : s.queued = some when)
    (hdue : eclockAfter when now = false) (h : s.delClient.skedCallback w now = .ok s') :
    Stepped s w (.timer now) s' := by
  unfold skedCallback at h
  split at h
  · next hst =>
    cases h
    exact .expired now hq hdue (.inl hst)
  · next hst =>
    cases h
    exact .expired now hq hdue (.inr hst)
  · next hst =>
    unfold wake at h
    dsimp only at h
    split at h
    · cases h
      exact .wokenQuiet now hq hdue hst
    · split at h
      · cases h
      · split at h
        · cases h
        · next err t ht =>
          rcases notifyPollEvent_spec ht with ⟨hne, _⟩ | ⟨⟨hfd, _⟩, rfl, hh⟩
          · exact absurd rfl hne.1
          · cases h
            exact .woken now hq hdue hst hfd hh
  · cases h

/-- The central inversion: what can have happened in a step. -/
theorem step_spec {k : Label} (hd : s.proto.Disciplined) (h : s.step k = .ok s') :
    Stepped s k.world k.act s' := by
  obtain ⟨act, w⟩ := k
  cases act with
  | connect port =>
      cases hc : s.connect w port with
      | error stop => simp [step, hc, Except.map] at h
      | ok r =>
          simp only [step, hc, Except.map, Except.ok.injEq] at h
          subst h
          exact connect_spec (e := r.1) hc
  | shutdown =>
      cases h
      exact .shutdown
  | command c =>
      cases hc : s.perform w c with
      | error stop => simp [step, hc, Except.map] at h
      | ok r =>
          simp only [step, hc, Except.map, Except.ok.injEq] at h
          subst h
          exact perform_spec (e := r.1) hd hc
  | pollEvent fd revents =>
      cases hc : s.notifyPollEvent w fd revents with
      | error stop => simp [step, hc, Except.map] at h
      | ok r =>
          simp only [step, hc, Except.map, Except.ok.injEq] at h
          subst h
          rcases notifyPollEvent_spec (e := r.1) hc with ⟨_, _, hsame⟩ | ⟨⟨hfd, hmine⟩, _, hh⟩
          · rw [hsame]
            exact .ignored fd revents
          · exact .handled fd revents hfd hmine hh
  | timer now =>
      unfold step runTimer at h
      dsimp only at h
      split at h
      · cases h
      · next when hq =>
        split at h
        · cases h
        · next hdue => exact skedCallback_spec hq (by simpa using hdue) h
  | cmdDoneReturns =>
      unfold step returnFromCallback at h
      dsimp only at h
      split at h
      · cases h
      · next hc =>
        cases h
        exact .returned hc

theorem discarded_suffix (fd : ℤ) (log : List Seen) : log <:+ discarded fd log := by
  unfold discarded
  split
  · exact List.suffix_append [.close fd, .del fd] log
  · exact List.suffix_rfl

theorem Logged.of_suffix (h : s.log <:+ t.log) (ht : Logged C t) : Logged C s :=
  fun x hx => ht x (h.subset hx)

theorem Move.grows (h : Move w s t) : s.log <:+ t.log := by
  cases h with
  | fields | advance | sleep | portLost => exact List.suffix_rfl
  | line | read | portLeaked | portUnwatched => exact List.suffix_cons _ _
  | portOpened sock => exact List.suffix_append [.add (sock : ℤ), .socket (sock : ℤ)] s.log
  | throttle n => rw [throttle_log]

theorem Moves.grows (h : Moves w s t) : s.log <:+ t.log := by
  induction h with
  | refl => exact List.suffix_rfl
  | tail _ hm ih => exact ih.trans hm.grows

theorem Ends.grows (h : Ends s e t) : s.log <:+ t.log := by
  cases h with
  | quiet => exact List.suffix_rfl
  | failed | answered => exact List.suffix_cons _ _
  | refused => exact (List.suffix_cons _ _).trans (List.suffix_cons _ _)
  | hungUp =>
      rw [hangUp_eq]
      exact discarded_suffix s.dfd s.log

theorem dropFailed_grows : s.log <:+ s.dropFailed.log := by
  rcases dropFailed_cases (s := s) with ⟨h, _⟩ | ⟨_, h⟩
  · rw [h]
  · rw [h]
    exact discarded_suffix s.dfd s.log

theorem callFtpCmdDone_grows (xerr status : ℤ) : s.log <:+ (s.callFtpCmdDone xerr status).log := by
  rcases callFtpCmdDone_cases (s := s) xerr status with ⟨_, h⟩ | h
  · rw [h]
    exact List.suffix_cons _ _
  · rw [h]
    exact List.suffix_cons _ _

theorem shutdown_grows : s.log <:+ (s.shutdown w).2.log := by
  rcases shutdown_cases (s := s) (w := w) with ⟨_, h⟩ | h
  · rw [h]
  · rw [h]
    exact ((discarded_suffix _ _).trans (discarded_suffix _ _)).trans (List.suffix_cons _ _)

theorem Reported.grows (h : Reported s e t) : s.log <:+ t.log := by
  cases h with
  | kept => exact dropFailed_grows
  | told | done => exact dropFailed_grows.trans (callFtpCmdDone_grows _ _)

theorem Handled.grows (h : Handled w s t) : s.log <:+ t.log := by
  cases h with
  | quiet hm he => exact hm.grows.trans he.grows
  | reported hm he _ hr => exact (hm.grows.trans he.grows).trans hr.grows

theorem Stepped.grows {a : Act} (h : Stepped s w a t) : s.log <:+ t.log := by
  cases h with
  | connectFailed => exact List.suffix_cons _ _
  | connectClosed port sock => exact List.suffix_append [.close (sock : ℤ), .socket (sock : ℤ), .connect] s.log
  | connectUnwatched port sock => exact List.suffix_append [.socket (sock : ℤ), .connect] s.log
  | connected port sock =>
      exact List.suffix_append [.connected, .add (sock : ℤ), .socket (sock : ℤ), .connect] s.log
  | shutdown => exact shutdown_grows
  | refused => exact List.suffix_cons _ _
  | issued c o _ _ _ hh => exact (List.suffix_cons _ _).trans hh.grows
  | gotten c f _ _ _ hh => exact (List.suffix_cons _ _).trans hh.grows
  | ignored | wokenQuiet | returned => exact List.suffix_rfl
  | handled fd revents _ _ hh => exact hh.grows
  | expired => exact (shutdown_grows (s := s.delClient)).trans (callFtpCmdDone_grows _ _)
  | woken now _ _ _ _ hh => exact hh.grows

/-- What every move keeps, moves keep. -/
theorem Moves.invariant {I : Session → Prop}
    (hmove : ∀ s t, I s → Logged C t → Move w s t → I t) (hm : Moves w s t) (hC : Logged C t)
    (hs : I s) : I t := by
  induction hm with
  | refl => exact hs
  | tail _ hlast ih => exact hmove _ _ (ih (hC.of_suffix hlast.grows)) hC hlast

/-- From the moves, the ends and the reports to the run of a handler: `I` is what holds in
the handler, `J` what holds between its return and the report, and `K` what holds then. -/
theorem Handled.rule {I K : Session → Prop} {J : ℤ → Session → Prop}
    (hmove : ∀ s t, I s → Logged C t → Move w s t → I t)
    (hend : ∀ s e t, I s → Logged C t → Ends s e t → J e t)
    (hzero : ∀ t, J 0 t → K t)
    (hreport : ∀ t e u, J e t → Logged C u → Reported t e u → K u)
    (h : Handled w s t) (hC : Logged C t) (hs : I s) : K t := by
  cases h with
  | quiet hm he =>
      exact hzero _ (hend _ _ _ (hm.invariant hmove (hC.of_suffix he.grows) hs) hC he)
  | reported hm he _ hr =>
      have hend' := hC.of_suffix hr.grows
      have hmoved := hm.invariant hmove (hend'.of_suffix he.grows) hs
      exact hreport _ _ _ (hend _ _ _ hmoved hend' he) hC hr

theorem Handled.invariant {I : Session → Prop} {J : ℤ → Session → Prop}
    (hmove : ∀ s t, I s → Logged C t → Move w s t → I t)
    (hend : ∀ s e t, I s → Logged C t → Ends s e t → J e t)
    (hzero : ∀ t, J 0 t → I t)
    (hreport : ∀ t e u, J e t → Logged C u → Reported t e u → I u)
    (h : Handled w s t) (hC : Logged C t) (hs : I s) : I t :=
  h.rule hmove hend hzero hreport hC hs

end

/-- The runs of a pipe from some states on, with the clock as it was last read. -/
def runs (start : Session → Prop) : System Session Label Clock where
  start s _ := start s
  step s k s' := s.step k = .ok s'
  note _ _ k _ := k.world.now

theorem Handled.disciplined {w : World} {s t : Session} (h : Handled w s t)
    (hd : s.proto.Disciplined) : t.proto.Disciplined := by
  apply h.invariant (C := fun _ => True) (I := fun s => s.proto.Disciplined)
    (J := fun _ s => s.proto.Disciplined) _ _ (fun _ hd => hd) _ (fun _ _ => trivial) hd
  · intro s t hd _ hm
    cases hm with
    | fields | sleep | read => exact hd
    | line full hg => exact giveInput_disciplined hd hg
    | advance | portLost | portLeaked | portUnwatched | portOpened => exact ⟨hd.outside, hd.inside⟩
    | throttle n => rwa [throttle_proto]
  · intro s e t hd _ he
    cases he with
    | quiet | failed => exact hd
    | refused full hg | answered full hg => exact giveInput_disciplined hd hg
    | hungUp =>
        rw [hangUp_eq]
        exact hd
  · intro s e t hd _ hr
    have hdrop : s.dropFailed.proto = s.proto := dropFailed_proto
    have hcall : ∀ x y, (s.dropFailed.callFtpCmdDone x y).proto = s.proto :=
      fun x y => (callFtpCmdDone_proto x y).trans hdrop
    cases hr with
    | kept => rwa [hdrop]
    | told | done => rwa [hcall]

theorem shutdown_proto {w : World} {s : Session} : (s.shutdown w).2.proto = s.proto := by
  rcases shutdown_cases (s := s) (w := w) with ⟨_, h⟩ | h <;> rw [h]

theorem Stepped.disciplined {w : World} {s t : Session} {a : Act} (h : Stepped s w a t)
    (hd : s.proto.Disciplined) : t.proto.Disciplined := by
  cases h with
  | connectFailed | connectClosed | connectUnwatched | connected => exact init_disciplined s.proto
  | shutdown => rwa [shutdown_proto]
  | refused | ignored | wokenQuiet | returned => exact hd
  | issued c o _ hi _ hh => exact hh.disciplined (hi.disciplined hd)
  | gotten c f hi _ _ hh => exact hh.disciplined (hi.disciplined hd)
  | handled fd revents _ _ hh => exact hh.disciplined hd
  | woken now _ _ _ _ hh => exact hh.disciplined hd
  | expired =>
      have hproto : (s.delClient.shutdownAndNotify w).proto = s.proto :=
        (callFtpCmdDone_proto EPIPE 0).trans shutdown_proto
      rwa [hproto]

/-- An invariant of the runs whose log is of a kind: it holds at the start, and
whatever a step can do keeps it. -/
theorem runs_invariant {start : Session → Prop} {ok : Session → Clock → Label → Prop}
    {C : Seen → Prop} {I : Session → Clock → Prop} {s : Session} {g : Clock}
    (hstart : ∀ s g, start s → s.proto.Disciplined ∧ I s g)
    (hstep : ∀ s g k t, I s g → ok s g k → Logged C t → Stepped s k.world k.act t → I t k.world.now)
    (h : Run (runs start) ok s g) (hC : Logged C s) : I s g := by
  refine (h.invariant (I := fun s g => s.proto.Disciplined ∧ (Logged C s → I s g)) ?_ ?_).2 hC
  · intro s g hs
    exact ⟨(hstart s g hs).1, fun _ => (hstart s g hs).2⟩
  · intro s g k t ⟨hd, hI⟩ hk hs
    have hstepped := step_spec hd hs
    exact ⟨hstepped.disciplined hd,
      fun hC => hstep s g k t (hI (hC.of_suffix hstepped.grows)) hk hC hstepped⟩

/-- A step whose label is allowed, if it has a result. -/
def exec {γ : Type*} (allowed : Session → γ → Label → Bool) (s : Session) (g : γ) (k : Label) : Option Session :=
  if allowed s g k then (s.step k).toOption else none

theorem exec_eq_some {γ : Type*} {allowed : Session → γ → Label → Bool} {s s' : Session} {g : γ} {k : Label}
    (h : exec allowed s g k = some s') : allowed s g k = true ∧ s.step k = .ok s' := by
  unfold exec at h
  split at h
  · next hk => exact ⟨hk, eq_ok_of_toOption h⟩
  · cases h

/-- A kernel with these bytes to read, which accepts all that is written. -/
def kernelOf (bytes : List Byte) : Kernel where
  read i n := if i = 0 ∧ bytes ≠ [] then .ok (bytes.take n) else .error EWOULDBLOCK
  read_le := by
    intro i n bs h
    split at h
    · cases h
      exact List.length_take_le n bytes
    · cases h
  write _ bs := .ok bs.length
  write_le := by
    intro i bs n h
    cases h
    exact le_rfl

/-- A world in which every call succeeds; `sock` is the next descriptor. -/
def calm (sock : ℕ) (bytes : List Byte) : World where
  now := 0
  lookup := some 0
  sockError := .ok 0
  socket := .ok sock
  setNonblocking := none
  connect := fun _ _ => none
  close := fun _ => 0
  add := 0
  del := fun _ => 0
  setMask := fun _ _ => 0
  kernel := kernelOf bytes
  enqueue := true
  handleDataIo := -EWOULDBLOCK
  before := []
  fuel := 20

/-- An object in memory that is all zero. -/
def blank : FtpClientPipe where
  state := .idle
  cfd := 0
  cfdConnecting := false
  dfd := 0
  dfdConnecting := false
  obuf := ⟨fun _ => 0, 0, 0, 0, 0⟩
  ibuf := ⟨fun _ => 0, 0, 0, 0, 0⟩
  iline := fun _ => 0
  ilineFull := false
  bytesPerTick := 0
  bytesPerSec := 0
  bytesUnsleptFor := 0
  dfdEvents := 0
  wakeup := 0
  inFtpCmdDone := 0
  proto := zeroed

/-- The app connects and gets descriptor 3. -/
def connecting : Label := ⟨.connect 21, calm 3 []⟩

/-- The app logs in. -/
def loggingIn : Label := ⟨.command (.login ⟨ascii "u", no_nul_u⟩ ⟨ascii "p", no_nul_p⟩), calm 0 []⟩

/-- The app fetches a file. -/
def fetching : Label := ⟨.command (.get ⟨ascii "f", no_nul_f⟩ true), calm 0 []⟩

/-- Text arrives on the control connection; `sock` is the next descriptor. -/
def arrival (sock : ℕ) (text : String) : Label := ⟨.pollEvent 3 POLLIN, calm sock (ascii text)⟩

/-- The app's `ftpCmdDone` returns. -/
def returning : Label := ⟨.cmdDoneReturns, calm 0 []⟩

/-- An object that `init` has just set up. -/
def IsFresh (s : Session) : Prop := ∃ memory rate, s = fresh memory rate

theorem run_fresh {ok : Session → Clock → Label → Prop} [∀ s g k, Decidable (ok s g k)]
    {ks : List Label} {s : Session} {g : Clock}
    (h : follow (exec fun s g k => decide (ok s g k)) (runs IsFresh).note (fresh blank 28000) 0 ks =
      some (s, g)) : Run (runs IsFresh) ok s g := by
  have h0 : Run (runs IsFresh) ok (fresh blank 28000) 0 := .start ⟨blank, 28000, rfl⟩
  exact h0.follow (fun s g k t ht => (exec_eq_some ht).imp_left of_decide_eq_true) h

end Dkftpbench.Session
