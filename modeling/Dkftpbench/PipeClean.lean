import Dkftpbench.PipeTidy

/-!
# A finished command leaves the pipe clean

A tidy pipe is clean when a command is reported done. No assertion fails in it: those of
the handlers and of the scheduler are about a state of the transfer that it is not in.
-/
namespace Dkftpbench.Session
open CLib EventClock FtpClientProto Watch

/-- The status that `ftpCmdDone` was just called with. -/
def told : List Seen → Option ℤ
  | .cmdDone 0 status :: _ => some status
  | _ => none

/-- The command that was accepted last is a `get`. -/
def fetched : List Seen → Bool
  | [] => false
  | .accepted (.get _ _) :: _ => true
  | .accepted _ :: _ => false
  | _ :: log => fetched log

/-- Why a step has no result. -/
def stop (s : Session) (k : Label) : Option Stop :=
  match s.step k with
  | .error stop => some stop
  | .ok _ => none

/-- `throttle` divides by 0, or the smallest `int` by -1. -/
def Traps (s : Session) (nxfer : ℤ) : Prop :=
  s.bytesPerTick < 5 ∧ (s.bytesPerSec = 0 ∨ s.bytesPerSec = -1 ∧
    (Int32.ofInt nxfer+s.bytesUnsleptFor)*Int32.ofNat eclockHertz = Int32.minValue)

theorem told_eq_some {log : List Seen} {status : ℤ} (h : told log = some status) :
    ∃ l, log = .cmdDone 0 status :: l := by
  unfold told at h
  split at h
  · cases h
    exact ⟨_, rfl⟩
  · cases h

theorem stop_eq_some {s : Session} {k : Label} {e : Stop} (h : s.stop k = some e) : s.step k = .error e := by
  unfold stop at h
  split at h
  · next e' he =>
    cases h
    exact he
  · cases h

section
variable {o : Op} {w : World} {s : Session} {base g : Clock}

theorem takeLine_error {stop : Stop} (h : s.takeLine w = .error stop) : stop = .assertion .protocol := by
  unfold takeLine giveLine at h
  dsimp only at h
  split at h
  · cases h
    rfl
  · split at h
    · cases h
    · split at h <;> cases h

theorem controlLoop_error {fuel : ℕ} {geterr puterr : ℤ} {a : Assertion}
    (h : controlLoop w fuel geterr puterr s = .error (.assertion a)) : a = .protocol := by
  induction fuel generalizing s geterr puterr with
  | zero => cases h
  | succ fuel ih =>
      unfold controlLoop at h
      split at h
      · split at h
        · cases h
        · next geterr' t _ =>
          split at h
          · next stop hstop =>
            split at hstop
            · cases takeLine_error hstop
              cases h
              rfl
            · cases hstop
          · cases h
          · split at h
            · cases h
            · exact ih h
      · cases h

theorem serveControl_error {a : Assertion} (h : s.serveControl w = .error (.assertion a)) :
    a = .protocol := by
  unfold serveControl at h
  split at h
  · next stop hloop =>
    cases h
    exact controlLoop_error hloop
  · cases h
  · next t _ =>
    split at h
    · next stop hwrite =>
      cases h
      unfold writeOutput at hwrite
      split at hwrite
      · cases hwrite
      · split at hwrite
        · cases hwrite
        · dsimp only at hwrite
          split at hwrite <;> cases hwrite
    · cases h
    · split at h <;> cases h

theorem notifyPollEventCfd_error {fd : ℤ} {revents : Revents} {a : Assertion} (hfd : fd ≠ -1)
    (h : s.notifyPollEventCfd w fd revents = .error (.assertion a)) : a = .protocol := by
  unfold notifyPollEventCfd at h
  rw [if_neg hfd] at h
  split at h
  · cases h
  · split at h
    · cases h
    · split at h
      · cases h
      · exact serveControl_error h

theorem addClient_ok (when : Clock) (hq : s.queued = none) : ∃ t, s.addClient w when = .ok t := by
  unfold addClient
  rw [hq]
  exact ⟨_, rfl⟩

/-- A pipe that is to sleep is not queued. -/
theorem snooze_ok (revents : Revents)
    (hq : s.state = .getting → s.queued ≠ none → eclockAfter s.wakeup w.now = false) :
    ∃ t, s.snooze w revents = .ok t := by
  unfold snooze
  split
  · next hsn =>
    have hnone : s.queued = none := by
      by_contra hne
      have hno := hq hsn.1 hne
      rw [hsn.2.2] at hno
      cases hno
    obtain ⟨t, ht⟩ := addClient_ok (w := w) s.wakeup hnone
    rw [hnone, ht]
    exact ⟨_, rfl⟩
  · exact ⟨_, rfl⟩

/-- The data handler's assertions: a transfer is under way, and a pipe that is to sleep
is not queued. -/
theorem notifyPollEventDfd_ok (revents : Revents) (hst : s.state ≠ .idle)
    (hq : s.state = .getting → s.queued ≠ none → eclockAfter s.wakeup w.now = false) :
    ∃ r, s.notifyPollEventDfd w revents = .ok r := by
  unfold notifyPollEventDfd
  rw [if_neg hst]
  cases hc : s.dfdConnected w revents with
  | error r => exact ⟨r, rfl⟩
  | ok t =>
      obtain ⟨c, rfl⟩ := dfdConnected_eq hc
      obtain ⟨u, hu⟩ := snooze_ok (s := { s with dfdConnecting := c }) revents hq
      dsimp only
      rw [hu]
      exact ⟨_, rfl⟩

theorem finish_error {r : ℤ × Session} {stop : Stop} (h : finish w r = .error stop) : stop = .exit := by
  unfold finish at h
  split at h
  · cases h
    rfl
  · cases h

theorem notifyPollEvent_error {fd : ℤ} {revents : Revents} {a : Assertion} (hfd : fd ≠ -1)
    (hdata : fd = s.dfd → s.state ≠ .idle ∧
      (s.state = .getting → s.queued ≠ none → eclockAfter s.wakeup w.now = false))
    (h : s.notifyPollEvent w fd revents = .error (.assertion a)) : a = .protocol := by
  unfold notifyPollEvent at h
  rw [if_neg hfd] at h
  split at h
  · next hd =>
    obtain ⟨hst, hq⟩ := hdata hd
    obtain ⟨r, hr⟩ := notifyPollEventDfd_ok revents hst hq
    rw [hr] at h
    cases finish_error h
  · split at h
    · cases hh : s.notifyPollEventCfd w fd revents with
      | error stop =>
          rw [hh] at h
          cases h
          exact notifyPollEventCfd_error hfd hh
      | ok r =>
          rw [hh] at h
          cases finish_error h
    · cases h

/-- An event of the data connection finds a transfer. -/
theorem Tidy.data_event {fd : ℤ} (h : Tidy base w.now s) (hw : InWindow base w.now) (hfd : fd ≠ -1)
    (hd : fd = s.dfd) : s.state ≠ .idle ∧
      (s.state = .getting → s.queued ≠ none → eclockAfter s.wakeup w.now = false) := by
  have hdfd : s.dfd ≠ -1 := hd ▸ hfd
  have hcfd : s.cfd ≠ -1 := fun hoff => hdfd (h.off hoff).2.1
  constructor
  · exact (h.phase hcfd).not_idle hdfd
  · intro hst hq
    obtain ⟨_, hwindow, hle⟩ := h.timeout hst hq
    exact (eclockAfter_eq_false_iff hwindow hw).2 hle

/-- A command's kickstart goes to the control connection. -/
theorem wrapper_error {ready : Session → Except Stop Session} {a : Assertion}
    (h : s.wrapper w o ready = .error (.assertion a))
    (hready : ∀ q, Issued s.proto o q → ∃ t, ready (s.issued o q) = .ok t ∧ t.cfd ≠ -1 ∧ t.dfd = -1)
    (hd : s.proto.Disciplined) : a = .protocol := by
  unfold wrapper at h
  rcases FtpClientProto.perform_spec hd o with ⟨err, herr, heq⟩ | ⟨q, heq, hi⟩
  · rw [heq] at h
    dsimp only at h
    rw [if_pos herr] at h
    cases h
  · rw [heq] at h
    dsimp only at h
    rw [if_neg (not_not.2 rfl)] at h
    obtain ⟨t, ht, hcfd, hdfd⟩ := hready q hi
    rw [show ready { s.note (.accepted o) with proto := q } = .ok t from ht] at h
    refine notifyPollEvent_error hcfd (fun hsame => ?_) h
    exact absurd (hsame.trans hdfd) hcfd

theorem Tidy.command_error {c : Command} {a : Assertion} (h : Tidy base w.now s)
    (hm : mayIssue s.log = true) (herr : s.perform w c = .error (.assertion a)) :
    a = .passive ∨ a = .protocol := by
  obtain ⟨hidle, hcfd, hph, hdfd⟩ := h.ready hm
  have plain : ∀ {o : Op}, s.wrapper w o .ok = .error (.assertion a) → a = .protocol := by
    intro o herr
    exact wrapper_error herr (fun q _ => ⟨s.issued o q, rfl, hcfd, hdfd⟩) h.proto
  cases c with
  | login username password => exact .inr (plain (o := .login username password) herr)
  | quit => exact .inr (plain (o := .quit) herr)
  | cd dir => exact .inr (plain (o := .cd dir) herr)
  | type ttype => exact .inr (plain (o := .type ttype) herr)
  | size fname => exact .inr (plain (o := .size fname) herr)
  | ls dirname passive =>
      change s.ls w dirname passive = _ at herr
      unfold Session.ls at herr
      split at herr
      · cases herr
        exact .inl rfl
      · refine .inr (wrapper_error herr (fun q hi => ?_) h.proto)
        cases hi
  | get fname passive =>
      change s.get w fname passive = _ at herr
      unfold Session.get at herr
      split at herr
      · cases herr
        exact .inl rfl
      · refine .inr (wrapper_error herr (fun q hi => ?_) h.proto)
        have hproto : s.proto.state = .idle := by
          cases hi with
          | getPasv f hst => exact hst
        have hnone : s.queued = none := by
          by_contra hq
          cases hproto.symm.trans (h.connecting hidle hq).1
        unfold startGet addClient
        simp only [issued, hnone, Option.isSome_none, Bool.false_eq_true, if_false]
        refine ⟨_, rfl, ?_, ?_⟩
        · split <;> exact hcfd
        · split <;> exact hdfd

theorem Tidy.connect_error {port : BitVec 16} {stop : Stop} (h : Tidy base g s) (hoff : s.cfd = -1)
    (herr : s.connect w port = .error stop) : False := by
  have hnone := (h.off hoff).2.2
  unfold connect at herr
  dsimp only at herr
  split at herr
  · cases herr
  · split at herr
    · cases herr
    · split at herr
      · cases herr
      · split at herr
        · cases herr
        · split at herr
          · cases herr
          · split at herr
            · next stop hstop =>
              simp [addClient, note, Session.init, hnone] at hstop
            · cases herr

theorem Tidy.timer_error {now : Clock} {a : Assertion} (h : Tidy base w.now s)
    (herr : s.runTimer w now = .error (.assertion a)) : a = .protocol := by
  unfold runTimer at herr
  split at herr
  · cases herr
  · next when hq =>
    split at herr
    · cases herr
    · next hdue =>
      have hcfd : s.cfd ≠ -1 := by
        intro hoff
        rw [(h.off hoff).2.2] at hq
        cases hq
      have hph := h.phase hcfd
      unfold skedCallback at herr
      split at herr
      · cases herr
      · cases herr
      · next hst =>
        have hst' : s.state = .sleeping := hst
        unfold Session.wake at herr
        dsimp only at herr
        split at herr
        · cases herr
        · split at herr
          · next hafter =>
            have hwhen := h.nap when hst' hq
            rw [hwhen] at hdue
            exact absurd hafter hdue
          · split at herr
            · next stop hstop =>
              cases herr
              refine notifyPollEvent_error (hph.asleep hst') (fun _ => ?_) hstop
              exact ⟨PipeState.noConfusion, fun _ hne => absurd rfl hne⟩
            · cases herr
      · next hst => exact absurd hst hph.moving

/-- No assertion fails but the two that are about what the pipe is given: the mode of a
transfer, and the string for the protocol. -/
theorem Tidy.step_error {k : Label} {a : Assertion} (h : Tidy base k.world.now s)
    (hw : InWindow base k.world.now) (hp : Polite s k.act) (herr : s.step k = .error (.assertion a)) :
    a = .passive ∨ a = .protocol := by
  obtain ⟨act, w⟩ := k
  cases act with
  | connect port =>
      cases hc : s.connect w port with
      | error stop => exact (h.connect_error hp.1 hc).elim
      | ok r => simp [Session.step, hc, Except.map] at herr
  | shutdown => cases herr
  | command c =>
      cases hc : s.perform w c with
      | error stop =>
          simp only [Session.step, hc, Except.map, Except.error.injEq] at herr
          subst herr
          exact h.command_error hp hc
      | ok r => simp [Session.step, hc, Except.map] at herr
  | pollEvent fd revents =>
      cases hc : s.notifyPollEvent w fd revents with
      | error stop =>
          simp only [Session.step, hc, Except.map, Except.error.injEq] at herr
          subst herr
          exact .inr (notifyPollEvent_error hp (h.data_event hw hp) hc)
      | ok r => simp [Session.step, hc, Except.map] at herr
  | timer now => exact .inr (h.timer_error herr)
  | cmdDoneReturns =>
      unfold Session.step returnFromCallback at herr
      dsimp only at herr
      split at herr <;> cases herr

theorem not_traps (hrate : 1 ≤ s.bytesPerSec.toInt) (nxfer : ℤ) : ¬ s.Traps nxfer := by
  rintro ⟨-, h0 | ⟨h1, -⟩⟩
  · rw [h0] at hrate
    exact absurd hrate (by decide)
  · rw [h1] at hrate
    exact absurd hrate (by decide)

/-- In every run that meets the condition a completion finds the pipe clean, and none
of the pipe's or the scheduler's assertions fails; nor does a division of the throttle. -/
theorem finished_pipe_clean (h : Run (runs IsFresh) (Orderly base) s g) (hC : Logged Settled s)
    (hrate : 1 ≤ s.bytesPerSec.toInt) :
    (∀ status l, s.log = .cmdDone 0 status :: l → Clean s) ∧
    (∀ k a, Orderly base s g k → s.step k = .error (.assertion a) → a = .passive ∨ a = .protocol) ∧
    ∀ nxfer, ¬ s.Traps nxfer := by
  have htidy := run_tidy h hC
  refine ⟨fun status l hl => htidy.clean hl, ?_, not_traps hrate⟩
  intro k a ⟨⟨hw, hle⟩, hp⟩ herr
  exact (htidy.later hle).step_error hw hp herr

end

/-- A file is fetched and the pipe is clean. -/
theorem finished_pipe_clean_get : ∃ s g, Run (runs IsFresh) (Orderly 0) s g ∧
    completed s.log = 2 ∧ Clean s := by
  have hfollow : ((follow (exec fun s g k => decide (Orderly 0 s g k)) (runs IsFresh).note
      (fresh blank 28000) 0
      [connecting, loggingIn, arrival 0 "220 hi\n230 in\n", returning, fetching,
        arrival 4 "227 (1,2,3,4,5,6)\n", arrival 0 "150 go\n226 ok\n",
        ⟨.pollEvent 4 POLLHUP, calm 0 []⟩]).map fun r =>
        (completed r.1.log, told r.1.log, r.1.bytesPerSec.toInt, r.1.log.all fun x => decide (Settled x))) =
          some (2, some 226, 28000, true) := by
    decide +kernel
  obtain ⟨⟨s, g⟩, hr, heq⟩ := Option.map_eq_some_iff.1 hfollow
  rw [Prod.mk.injEq, Prod.mk.injEq, Prod.mk.injEq, List.all_eq_true] at heq
  have hC : Logged Settled s := fun x hx => of_decide_eq_true (heq.2.2.2 x hx)
  have hrate : 1 ≤ s.bytesPerSec.toInt := by
    rw [heq.2.2.1]
    decide
  obtain ⟨l, hl⟩ := told_eq_some heq.2.1
  exact ⟨s, g, run_fresh hr, heq.1, (finished_pipe_clean (run_fresh hr) hC hrate).1 226 l hl⟩

/-- The server refuses PASV. The pipe stays in state GETTING and in the scheduler, so
the next `get` adds it a second time. -/
theorem refused_get_unclean : ∃ s g k status l, Run (runs IsFresh) (Orderly 0) s g ∧
    s.log = .cmdDone 0 status :: l ∧ fetched l = true ∧ ¬ Clean s ∧
    Orderly 0 s g k ∧ s.step k = .error (.assertion .addClient) := by
  have hfollow : ((follow (exec fun s g k => decide (Orderly 0 s g k)) (runs IsFresh).note
      (fresh blank 28000) 0
      [connecting, loggingIn, arrival 0 "220 hi\n230 in\n", returning, fetching,
        arrival 0 "500 no\n"]).map fun r =>
        (told r.1.log, fetched r.1.log, r.1.state, decide (Orderly 0 r.1 r.2 fetching),
          r.1.stop fetching)) = some (some 500, true, .getting, true, some (.assertion .addClient)) := by
    decide +kernel
  obtain ⟨⟨s, g⟩, hr, heq⟩ := Option.map_eq_some_iff.1 hfollow
  simp only [Prod.mk.injEq] at heq
  obtain ⟨htold, hget, hst, hok, hstop⟩ := heq
  obtain ⟨l, hl⟩ := told_eq_some htold
  refine ⟨s, g, fetching, 500, l, run_fresh hr, hl, ?_, fun hclean => ?_, of_decide_eq_true hok,
    stop_eq_some hstop⟩
  · rwa [hl] at hget
  · cases hst.symm.trans hclean.state

end Dkftpbench.Session
