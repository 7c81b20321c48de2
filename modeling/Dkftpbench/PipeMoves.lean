import Dkftpbench.ClientPipe
import Dkftpbench.ProtoRuns
import Mathlib.Logic.Relation

/-!
# What a handler can do

Whatever a handler does, it does in small moves, of which the ones below are all, and
then it ends in one of five ways. What follows the handler in `notifyPollEvent` is
told apart by what the app learns. An invariant of the pipe is checked against these,
not against the code of the handlers.
-/
namespace Dkftpbench.Session
open CLib EventClock FtpClientProto Relation

/-- A line was given to the protocol, which is `p` now. -/
def taken (s : Session) (ibuf : Line) (p : FtpClientProto) (full : Bool) : Session :=
  { s with queued := if s.state = .idle then none else s.queued
           log := .line s.toFtpClientPipe ibuf :: s.log, proto := p, ilineFull := full }

/-- The address of the data port was taken from the protocol. -/
def ported (s : Session) : Session := { s with proto := { s.proto with addressReady := false } }

inductive Move (w : World) (s : Session) : Session → Prop
  | fields (ibuf obuf : Nbbio) (iline : ℕ → Byte) (full cfdConnecting dfdConnecting : Bool)
      (events : Revents) : Move w s { s with
        ibuf := ibuf, obuf := obuf, iline := iline, ilineFull := full
        cfdConnecting := cfdConnecting, dfdConnecting := dfdConnecting, dfdEvents := events }
  | line {ibuf : Line} {p : FtpClientProto} {e : ℤ} (full : Bool) :
      s.proto.giveInput ibuf = some (e, p) → e = 0 ∨ e = EWOULDBLOCK → p.getStatus = 0 →
      Move w s (s.taken ibuf p full)
  | advance : Move w s { s with proto := s.proto.advanceOutput }
  | sleep : s.state = .getting → s.dfd ≠ -1 → s.queued = none → Move w s { s with
      state := .sleeping, queued := if w.enqueue then some s.wakeup else none }
  | read : s.state = .getting ∨ s.state = .putting → s.dfd ≠ -1 →
      Move w s (s.delClient.note (.dataIo w.handleDataIo w.now))
  | throttle (n : ℤ) : n = 0 ∨ s.queued = none → Move w s (s.throttle w.now n)
  | portLost : s.proto.addressReady = true → Move w s s.ported
  | portLeaked (sock : ℕ) : s.proto.addressReady = true → w.socket = .ok sock →
      Move w s (s.ported.note (.socket sock))
  | portUnwatched (sock : ℕ) : s.proto.addressReady = true → w.socket = .ok sock → w.add ≠ 0 →
      Move w s { s.ported.note (.socket sock) with dfdConnecting := true, dfd := sock }
  | portOpened (sock : ℕ) (connecting : Bool) : s.proto.addressReady = true →
      w.socket = .ok sock → w.add = 0 → Move w s { (s.ported.note (.socket sock)).note (.add sock) with
        dfdConnecting := connecting, dfd := sock }

abbrev Moves (w : World) : Session → Session → Prop := ReflTransGen (Move w)

/-- How a handler returns. -/
inductive Ends (s : Session) : ℤ → Session → Prop
  | quiet : Ends s 0 s
  | failed (e : ℤ) : Ends s e (s.note (.failed s.toFtpClientPipe e))
  | refused {ibuf : Line} {p : FtpClientProto} {e : ℤ} (full : Bool) :
      s.proto.giveInput ibuf = some (e, p) → e ≠ 0 → e ≠ EWOULDBLOCK →
      Ends s e ((s.taken ibuf p full).note (.failed (s.taken ibuf p full).toFtpClientPipe e))
  | answered {ibuf : Line} {p : FtpClientProto} {e : ℤ} (full : Bool) :
      s.proto.giveInput ibuf = some (e, p) → e = 0 ∨ e = EWOULDBLOCK → p.getStatus ≠ 0 →
      Ends s EALREADY (s.taken ibuf p full)
  | hungUp : s.state ≠ .idle → s.dfd ≠ -1 → Ends s EALREADY s.hangUp.2

/-- What the tail of `notifyPollEvent` makes of the handler's error number. -/
inductive Reported (s : Session) (e : ℤ) : Session → Prop
  | kept : e = EALREADY → s.proto.getStatus = 0 ∨ s.dropFailed.dfd ≠ -1 → Reported s e s.dropFailed
  | told : e ≠ EALREADY → e ≠ 0 → Reported s e (s.dropFailed.callFtpCmdDone e s.proto.getStatus)
  | done : e = EALREADY → s.proto.getStatus ≠ 0 → s.dropFailed.dfd = -1 →
      Reported s e (s.dropFailed.callFtpCmdDone 0 s.proto.getStatus)

/-- A handler's run together with that tail. -/
inductive Handled (w : World) (s : Session) : Session → Prop
  | quiet {t t' : Session} : Moves w s t → Ends t 0 t' → Handled w s t'
  | reported {t t' u : Session} {e : ℤ} : Moves w s t → Ends t e t' → e ≠ 0 → Reported t' e u →
      Handled w s u

/-- A handler has moved and ended. -/
def Finishes (w : World) (s : Session) (r : ℤ × Session) : Prop := ∃ t, Moves w s t ∧ Ends t r.1 r.2

/-- A part of a handler has moved, or has ended it. -/
def Follows (w : World) (s : Session) : Part → Prop
  | .ok t => Moves w s t
  | .error r => Finishes w s r

section
variable {w : World} {s s' t : Session} {e : ℤ} {revents : Revents} {r : ℤ × Session} {part : Part}

theorem Finishes.of_moves (hm : Moves w s t) (h : Finishes w t r) : Finishes w s r := by
  obtain ⟨t', ht, he⟩ := h
  exact ⟨t', hm.trans ht, he⟩

theorem Follows.of_moves (hm : Moves w s t) (h : Follows w t part) : Follows w s part := by
  cases part with
  | ok t' => exact ReflTransGen.trans hm h
  | error r => exact Finishes.of_moves hm h

theorem finishes_fail (e : ℤ) : Finishes w s (s.fail e) := ⟨s, .refl, .failed e⟩

theorem finishes_quiet : Finishes w s (0, s) := ⟨s, .refl, .quiet⟩

theorem dfdConnected_follows (revents : Revents) : Follows w s (s.dfdConnected w revents) := by
  unfold dfdConnected
  split
  · cases checkConnect w with
    | error e => exact finishes_fail e
    | ok c => exact .single (.fields _ _ _ _ _ _ _)
  · exact ReflTransGen.refl

theorem cfdConnected_follows (revents : Revents) : Follows w s (s.cfdConnected w revents) := by
  unfold cfdConnected
  split
  · cases checkConnect w with
    | error e => exact finishes_fail e
    | ok c => exact .single (.fields _ _ _ _ _ _ _)
  · exact ReflTransGen.refl

theorem moves_ibuf (ibuf : Nbbio) : Moves w s { s with ibuf := ibuf } :=
  .single (.fields ibuf _ _ _ _ _ _)

theorem moves_obuf (obuf : Nbbio) : Moves w s { s with obuf := obuf } :=
  .single (.fields _ obuf _ _ _ _ _)

theorem readInput_follows (revents : Revents) : Follows w s (s.readInput w revents) := by
  unfold readInput
  split
  · dsimp only
    split
    · exact Finishes.of_moves (moves_ibuf _) (finishes_fail _)
    · exact moves_ibuf _
  · exact ReflTransGen.refl

/-- `nextLine` and `putOutput` also pass on an error number of their own. -/
def FollowsWith (w : World) (s : Session) : Except (ℤ × Session) (ℤ × Session) → Prop
  | .ok r => Moves w s r.2
  | .error r => Finishes w s r

theorem nextLine_follows (geterr : ℤ) : FollowsWith w s (s.nextLine geterr) := by
  unfold nextLine
  split
  · exact ReflTransGen.refl
  · dsimp only
    split
    · exact .single (.fields _ _ _ _ _ _ _)
    · split
      · exact Finishes.of_moves (.single (.fields _ _ _ _ _ _ _)) (finishes_fail _)
      · exact .single (.fields _ _ _ _ _ _ _)

theorem putOutput_follows (puterr : ℤ) : FollowsWith w s (s.putOutput puterr) := by
  unfold putOutput
  split
  · exact ReflTransGen.refl
  · dsimp only
    split
    · exact moves_obuf _
    · split
      · exact Finishes.of_moves (moves_obuf _) (finishes_fail _)
      · next obuf _ _ _ =>
        exact ReflTransGen.tail (moves_obuf (s.obuf.put _).2.1) .advance

theorem cancelTimeout_eq (s : Session) :
    s.cancelTimeout = { s with queued := if s.state = .idle then none else s.queued } := by
  unfold cancelTimeout
  split
  · rfl
  · rfl

theorem takeLine_follows (h : s.takeLine w = .ok part) : Follows w s part := by
  unfold takeLine giveLine at h
  rw [cancelTimeout_eq] at h
  dsimp only at h
  split at h
  · cases h
  · next e p hg =>
    split at h
    · next herr =>
      cases h
      exact ⟨s, .refl, .refused s.ilineFull hg herr.1 herr.2⟩
    · next herr =>
      have he : e = 0 ∨ e = EWOULDBLOCK := by
        by_contra hne
        rw [not_or] at hne
        exact herr hne
      split at h
      · next hst =>
        cases h
        exact ⟨s, .refl, .answered _ hg he hst⟩
      · next hst =>
        cases h
        exact .single (.line _ hg he (not_not.1 hst))

theorem controlLoop_follows {fuel : ℕ} {geterr puterr : ℤ}
    (h : controlLoop w fuel geterr puterr s = .ok part) : Follows w s part := by
  induction fuel generalizing s geterr puterr with
  | zero => cases h
  | succ fuel ih =>
      unfold controlLoop at h
      split at h
      · have hnext := nextLine_follows (w := w) (s := s) geterr
        cases hn : s.nextLine geterr with
        | error r =>
            rw [hn] at h hnext
            cases h
            exact hnext
        | ok r =>
            obtain ⟨geterr', t⟩ := r
            rw [hn] at h hnext
            dsimp only at h
            cases htake : (if t.ilineFull then t.takeLine w else .ok (.ok t)) with
            | error stop =>
                rw [htake] at h
                cases h
            | ok part' =>
                rw [htake] at h
                have htaken : Follows w t part' := by
                  split at htake
                  · exact takeLine_follows htake
                  · cases htake
                    exact ReflTransGen.refl
                cases part' with
                | error r =>
                    cases h
                    exact Finishes.of_moves hnext htaken
                | ok u =>
                    dsimp only at h
                    have hput := putOutput_follows (w := w) (s := u) puterr
                    have hm : Moves w s u := ReflTransGen.trans hnext htaken
                    cases hp : u.putOutput puterr with
                    | error r =>
                        rw [hp] at h hput
                        cases h
                        exact Finishes.of_moves hm hput
                    | ok r =>
                        rw [hp] at h hput
                        exact Follows.of_moves (hm.trans hput) (ih h)
      · cases h
        exact ReflTransGen.refl

theorem writeOutput_follows (h : s.writeOutput w = .ok part) : Follows w s part := by
  unfold writeOutput at h
  split at h
  · cases h
    exact ReflTransGen.refl
  · cases hf : s.obuf.flushTo w.kernel 2 0 with
    | none =>
        rw [hf] at h
        cases h
    | some r =>
        obtain ⟨err, obuf, _, _⟩ := r
        rw [hf] at h
        dsimp only at h
        split at h
        · cases h
          exact Finishes.of_moves (moves_obuf obuf) (finishes_fail err)
        · cases h
          exact moves_obuf obuf

theorem checkQuit_follows : Follows w s s.checkQuit := by
  unfold checkQuit
  split
  · exact finishes_fail EPIPE
  · exact ReflTransGen.refl

theorem isPortReady_of_ready {p : FtpClientProto} (h : p.addressReady = true) :
    p.isPortReady = (some p.address, { p with addressReady := false }) := by
  rw [isPortReady, h]
  rfl

theorem isPortReady_of_not_ready {p : FtpClientProto} (h : p.addressReady = false) :
    p.isPortReady = (none, p) := by
  rw [isPortReady, h]
  rfl

theorem openData_finishes : Finishes w s (s.openData w) := by
  unfold openData
  cases hready : s.proto.addressReady with
  | false =>
      rw [isPortReady_of_not_ready hready]
      exact finishes_quiet
  | true =>
      rw [isPortReady_of_ready hready]
      dsimp only
      cases hsock : w.socket with
      | error e => exact .of_moves (.single (.portLost hready)) (finishes_fail e)
      | ok sock =>
          dsimp only
          cases w.setNonblocking with
          | some e => exact .of_moves (.single (.portLeaked sock hready hsock)) (finishes_fail e)
          | none =>
              dsimp only
              split
              · next hadd =>
                exact .of_moves (.single (.portUnwatched sock hready hsock hadd)) (finishes_fail _)
              · next hadd =>
                cases connectOutcome (w.connect sock s.proto.address) with
                | error e =>
                    exact .of_moves (.single (.portOpened sock false hready hsock (not_not.1 hadd)))
                      (finishes_fail e)
                | ok c =>
                    exact .of_moves (.single (.portOpened sock c hready hsock (not_not.1 hadd)))
                      finishes_quiet

theorem serveControl_finishes (h : s.serveControl w = .ok r) : Finishes w s r := by
  unfold serveControl at h
  cases hloop : controlLoop w w.fuel 0 0 s with
  | error stop =>
      rw [hloop] at h
      cases h
  | ok part =>
      have hl := controlLoop_follows hloop
      rw [hloop] at h
      cases part with
      | error r =>
          cases h
          exact hl
      | ok t =>
          dsimp only at h
          cases hwrite : t.writeOutput w with
          | error stop =>
              rw [hwrite] at h
              cases h
          | ok part =>
              have hw := writeOutput_follows hwrite
              rw [hwrite] at h
              cases part with
              | error r =>
                  cases h
                  exact .of_moves hl hw
              | ok u =>
                  dsimp only at h
                  have hq := checkQuit_follows (w := w) (s := u)
                  have hm : Moves w s u := ReflTransGen.trans hl hw
                  cases hquit : u.checkQuit with
                  | error r =>
                      rw [hquit] at h hq
                      cases h
                      exact .of_moves hm hq
                  | ok v =>
                      rw [hquit] at h hq
                      cases h
                      exact .of_moves (hm.trans hq) openData_finishes

theorem notifyPollEventCfd_finishes {fd : ℤ} (h : s.notifyPollEventCfd w fd revents = .ok r) :
    Finishes w s r := by
  unfold notifyPollEventCfd at h
  split at h
  · cases h
  · split at h
    · cases h
      exact finishes_fail EPIPE
    · have hc := cfdConnected_follows (w := w) (s := s) revents
      cases hconn : s.cfdConnected w revents with
      | error r =>
          rw [hconn] at h hc
          cases h
          exact hc
      | ok t =>
          rw [hconn] at h hc
          dsimp only at h
          have hi := readInput_follows (w := w) (s := t) revents
          cases hin : t.readInput w revents with
          | error r =>
              rw [hin] at h hi
              cases h
              exact .of_moves hc hi
          | ok u =>
              rw [hin] at h hi
              exact .of_moves (ReflTransGen.trans hc hi) (serveControl_finishes h)

theorem transfer_finishes (hst : s.state ≠ .idle) (hdfd : s.dfd ≠ -1) :
    Finishes w s (s.transfer w revents) := by
  unfold transfer
  split
  · exact .of_moves (.single (.fields _ _ _ _ _ _ _)) finishes_quiet
  · split
    · next hio =>
      have hm : Moves w s (s.delClient.note (.dataIo w.handleDataIo w.now)) :=
        .single (.read (hio.imp And.left And.left) hdfd)
      refine .of_moves hm ?_
      dsimp only
      split
      · exact ⟨_, .refl, .hungUp hst hdfd⟩
      · split
        · exact .of_moves (.single (.throttle 0 (.inl rfl))) finishes_quiet
        · split
          · exact finishes_fail EPIPE
          · exact .of_moves (.single (.throttle w.handleDataIo (.inr rfl))) finishes_quiet
    · split
      · exact ⟨s, .refl, .hungUp hst hdfd⟩
      · exact .of_moves (.single (.throttle 0 (.inl rfl))) finishes_quiet

theorem snooze_moves (hdfd : s.dfd ≠ -1) (h : s.snooze w revents = .ok t) :
    Moves w s t ∧ (t = s ∨ t.state = .sleeping) ∧ t.dfd = s.dfd := by
  unfold snooze addClient at h
  split at h
  · next hsn =>
    split at h
    · cases h
    · next hq =>
      have hnone : s.queued = none := by simpa using hq
      dsimp only at h
      cases h
      refine ⟨?_, .inr rfl, ?_⟩
      · convert Relation.ReflTransGen.single (Move.sleep (w := w) hsn.1 hdfd hnone) using 1
        split <;> simp [hnone]
      · split <;> rfl
  · cases h
    exact ⟨.refl, .inl rfl, rfl⟩

theorem dfdConnected_eq (h : s.dfdConnected w revents = .ok t) :
    ∃ connecting, t = { s with dfdConnecting := connecting } := by
  unfold dfdConnected at h
  split at h
  · cases hc : checkConnect w with
    | error e =>
        rw [hc] at h
        cases h
    | ok c =>
        rw [hc] at h
        cases h
        exact ⟨c, rfl⟩
  · cases h
    exact ⟨_, rfl⟩

theorem notifyPollEventDfd_finishes (hdfd : s.dfd ≠ -1) (h : s.notifyPollEventDfd w revents = .ok r) :
    Finishes w s r := by
  unfold notifyPollEventDfd at h
  split at h
  · cases h
  · next hst =>
    have hc := dfdConnected_follows (w := w) (s := s) revents
    cases hconn : s.dfdConnected w revents with
    | error r =>
        rw [hconn] at h hc
        cases h
        exact hc
    | ok t =>
        rw [hconn] at h hc
        dsimp only at h
        obtain ⟨c, rfl⟩ := dfdConnected_eq hconn
        cases hsnooze : snooze { s with dfdConnecting := c } w revents with
        | error stop =>
            rw [hsnooze] at h
            cases h
        | ok u =>
            rw [hsnooze] at h
            cases h
            obtain ⟨hm, hu, hudfd⟩ := snooze_moves (s := { s with dfdConnecting := c }) hdfd hsnooze
            have hust : u.state ≠ .idle := by
              rcases hu with rfl | hu
              · exact hst
              · simp [hu]
            exact .of_moves (ReflTransGen.trans hc hm)
              (transfer_finishes hust (hudfd.trans_ne hdfd))

theorem report_spec (he : e ≠ 0) : Reported s e (s.report e) := by
  unfold report
  dsimp only
  by_cases hal : e = EALREADY
  · rw [if_pos hal]
    split
    · next hdone =>
      have hdone := hdone.resolve_left (by simp)
      exact .done hal hdone.1 hdone.2
    · next hkept =>
      rw [not_or, not_and_or, not_not] at hkept
      exact .kept hal (hkept.2.imp_left not_not.1)
  · rw [if_neg hal, if_pos (.inl he)]
    exact .told hal he

theorem finish_spec (hr : Finishes w s r) (h : finish w r = .ok (e, s')) : e = 0 ∧ Handled w s s' := by
  obtain ⟨t, hm, hend⟩ := hr
  unfold finish at h
  split at h
  · cases h
  · cases h
    refine ⟨rfl, ?_⟩
    split
    · next he => exact .quiet hm (he ▸ hend)
    · next he => exact .reported hm hend he (report_spec he)

/-- Either the descriptor is not one of the pipe's, or a handler runs. -/
theorem notifyPollEvent_spec {fd : ℤ} (h : s.notifyPollEvent w fd revents = .ok (e, s')) :
    (fd ≠ s.dfd ∧ fd ≠ s.cfd) ∧ e = EINVAL ∧ s' = s ∨
    (fd ≠ -1 ∧ (fd = s.dfd ∨ fd = s.cfd)) ∧ e = 0 ∧ Handled w s s' := by
  unfold notifyPollEvent at h
  split at h
  · cases h
  · next hfd =>
    split at h
    · next hd =>
      cases hh : s.notifyPollEventDfd w revents with
      | error stop =>
          rw [hh] at h
          cases h
      | ok r =>
          rw [hh] at h
          obtain ⟨he, hr⟩ := finish_spec (notifyPollEventDfd_finishes (hd ▸ hfd) hh) h
          exact .inr ⟨⟨hfd, .inl hd⟩, he, hr⟩
    · next hd =>
      split at h
      · next hc =>
        cases hh : s.notifyPollEventCfd w fd revents with
        | error stop =>
            rw [hh] at h
            cases h
        | ok r =>
            rw [hh] at h
            obtain ⟨he, hr⟩ := finish_spec (notifyPollEventCfd_finishes hh) h
            exact .inr ⟨⟨hfd, .inr hc⟩, he, hr⟩
      · next hc =>
        cases h
        exact .inl ⟨⟨hd, hc⟩, rfl, rfl⟩

end
end Dkftpbench.Session
