import Dkftpbench.PipeSteps
import Dkftpbench.NbbioQueue
import Dkftpbench.Platoon

/-!
# When a pipe calls the object that owns it

A function of a pipe ends with one call of `ftpCmdDone` or with none, and it makes none
from inside another. After `handle_data_io` has returned 0, the call has no error. The
kickstart in `login` has something to report only if it comes to a write.
-/
namespace Dkftpbench.Session
open CLib EventClock FtpClientProto Relation RingWindow

/-- Nothing that the app's `ftpCmdDone` has to do with changed. -/
def Keeps (s t : Session) : Prop := t.callbacks = s.callbacks ∧ t.inFtpCmdDone = s.inFtpCmdDone

inductive Calls (s t : Session) : Prop
  | no : Keeps s t → Calls s t
  | yes {xerr status : ℤ} {log : List Seen} : s.inFtpCmdDone = 0 → t.inFtpCmdDone = 1 →
      t.callbacks = s.callbacks+1 → t.log = .cmdDone xerr status :: log → Calls s t

section
variable {w : World} {s t u : Session} {e : ℤ} {c : Cause} {revents : Revents} {r : ℤ × Session}
  {xerr status : ℤ}

theorem Keeps.trans (h : Keeps s t) (h' : Keeps t u) : Keeps s u := ⟨h'.1.trans h.1, h'.2.trans h.2⟩

theorem Calls.of_keeps (h : Keeps s t) (h' : Calls t u) : Calls s u := by
  cases h' with
  | no h' => exact .no (h.trans h')
  | yes h0 h1 hcb hlog => exact .yes (h.2 ▸ h0) h1 (h.1 ▸ hcb) hlog

theorem throttle_keeps (now : Clock) (n : ℤ) : Keeps s (s.throttle now n) := by
  obtain ⟨_, _, _, h⟩ := throttle_eq s now n
  rw [h]
  exact ⟨rfl, rfl⟩

theorem Move.keeps (h : Move w s t) : Keeps s t := by
  cases h with
  | throttle n => exact throttle_keeps w.now n
  | fields | line | advance | sleep | read | portLost | portLeaked | portUnwatched | portOpened =>
      exact ⟨rfl, rfl⟩

theorem Moves.keeps (h : Moves w s t) : Keeps s t := by
  induction h with
  | refl => exact ⟨rfl, rfl⟩
  | tail _ hlast ih => exact ih.trans hlast.keeps

theorem Ends.keeps (h : Ends s e t) : Keeps s t := by
  cases h with
  | quiet | failed | refused | answered => exact ⟨rfl, rfl⟩
  | hungUp =>
      rw [hangUp_eq]
      exact ⟨rfl, rfl⟩

theorem dropFailed_keeps : Keeps s s.dropFailed := by
  rcases dropFailed_cases (s := s) with ⟨h, _⟩ | ⟨_, h⟩
  · rw [h]
    exact ⟨rfl, rfl⟩
  · rw [h]
    exact ⟨rfl, rfl⟩

theorem shutdown_keeps : Keeps s (s.shutdown w).2 := by
  rcases shutdown_cases (s := s) (w := w) with ⟨_, h⟩ | h
  · rw [h]
    exact ⟨rfl, rfl⟩
  · rw [h]
    exact ⟨rfl, rfl⟩

theorem callFtpCmdDone_calls (xerr status : ℤ) : Calls s (s.callFtpCmdDone xerr status) := by
  rcases callFtpCmdDone_cases (s := s) xerr status with ⟨h0, h⟩ | h
  · rw [h]
    exact .yes h0 (by simp [h0]) rfl rfl
  · rw [h]
    exact .no ⟨rfl, rfl⟩

theorem Handled.calls (h : Handled w s t) : Calls s t := by
  cases h with
  | quiet hm he => exact .no (hm.keeps.trans he.keeps)
  | @reported _ t' _ _ hm he _ hr =>
      have hkeeps : Keeps s t'.dropFailed := (hm.keeps.trans he.keeps).trans dropFailed_keeps
      cases hr with
      | kept => exact .no hkeeps
      | told | done => exact .of_keeps hkeeps (callFtpCmdDone_calls _ _)

theorem notifyPollEvent_calls {fd : ℤ} (h : s.notifyPollEvent w fd revents = .ok (e, t)) : Calls s t := by
  rcases notifyPollEvent_spec h with ⟨_, _, rfl⟩ | ⟨_, _, hh⟩
  · exact .no ⟨rfl, rfl⟩
  · exact hh.calls

theorem runTimer_calls {now : Clock} (h : s.runTimer w now = .ok t) : Calls s t := by
  unfold runTimer at h
  split at h
  · cases h
  · next when hq =>
    split at h
    · cases h
    · next hdue =>
      cases skedCallback_spec hq (by simpa using hdue) h with
      | expired =>
          exact .of_keeps (shutdown_keeps (s := s.delClient)) (callFtpCmdDone_calls EPIPE 0)
      | wokenQuiet => exact .no ⟨rfl, rfl⟩
      | woken _ _ _ _ _ hh => exact .of_keeps (t := s.woken now) ⟨rfl, rfl⟩ hh.calls

theorem receive_event {fd : ℤ} (h : s.receive w (.event fd revents) = .ok t) :
    ∃ e, s.notifyPollEvent w fd revents = .ok (e, t) := by
  cases hn : s.notifyPollEvent w fd revents with
  | error stop => simp [receive, hn, Except.map] at h
  | ok r =>
      simp only [receive, hn, Except.map, Except.ok.injEq] at h
      exact ⟨r.1, congrArg (fun t => Except.ok (r.1, t)) h⟩

theorem receive_calls (h : s.receive w c = .ok t) : Calls s t := by
  cases c with
  | event fd revents =>
      obtain ⟨e, hn⟩ := receive_event h
      exact notifyPollEvent_calls hn
  | timer now => exact runTimer_calls h

theorem wrapper_calls {o : Op} {ready : Session → Except Stop Session}
    (hready : ∀ s t, ready s = .ok t → Keeps s t) (h : s.wrapper w o ready = .ok (e, t)) : Calls s t := by
  unfold wrapper at h
  split at h
  · cases h
  · split at h
    · cases h
      exact .no ⟨rfl, rfl⟩
    · split at h
      · cases h
      · next u hu =>
        have hk := hready _ u hu
        exact .of_keeps ⟨hk.1, hk.2⟩ (kickstart_spec h).2.calls

theorem type_calls {ttype : CStr} (h : s.type w ttype = .ok (e, t)) : Calls s t := by
  apply wrapper_calls _ h
  intro s t hs
  cases hs
  exact ⟨rfl, rfl⟩

theorem get_calls {fname : CStr} (h : s.get w fname true = .ok (e, t)) : Calls s t := by
  apply wrapper_calls _ h
  intro s t hs
  obtain ⟨_, rfl⟩ := addClient_eq hs
  exact ⟨rfl, rfl⟩

theorem connect_callbacks {port : BitVec 16} (h : s.connect w port = .ok (e, t)) :
    t.callbacks = s.callbacks ∧ t.inFtpCmdDone = 0 := by
  cases connect_spec h with
  | connectFailed | connectClosed | connectUnwatched | connected => exact ⟨rfl, rfl⟩

theorem called_of_eq (h : t.callbacks = s.callbacks) : s.called t = none := if_pos h

/-- Nothing was told, or the app is inside one call of `ftpCmdDone` now. -/
theorem Calls.called_cases (h : Calls s t) : s.called t = none ∧ Keeps s t ∨
    ∃ xerr status, s.called t = some (xerr, status) ∧ s.inFtpCmdDone = 0 ∧ t.inFtpCmdDone = 1 ∧
      t.callbacks = s.callbacks+1 := by
  cases h with
  | no h => exact .inl ⟨called_of_eq h.1, h⟩
  | @yes xerr status log h0 h1 hcb hlog =>
      refine .inr ⟨xerr, status, ?_, h0, h1, hcb⟩
      rw [called, if_neg (by omega), hlog]

theorem Calls.inside (h : Calls s t) (hin : s.inFtpCmdDone ≠ 0) : s.called t = none ∧ Keeps s t := by
  rcases h.called_cases with h | ⟨_, _, _, h0, _⟩
  · exact h
  · exact absurd h0 hin

theorem callsDataIo_unconnected (hdfd : s.dfd = -1) : s.callsDataIo w c = false := by
  have hnone : s.dataEvents c = none := by
    cases c with
    | event fd revents => exact if_neg fun h => h.1 (h.2.trans hdfd)
    | timer now => exact if_neg fun h => h.2.2.2.2 hdfd
  rw [callsDataIo, hnone]

/-- A pipe that was never connected does nothing. -/
theorem receive_unconnected (hcfd : s.cfd = -1) (hdfd : s.dfd = -1) (hq : s.queued = none)
    (h : s.receive w c = .ok t) : t = s := by
  cases c with
  | event fd revents =>
      obtain ⟨e, hn⟩ := receive_event h
      rcases notifyPollEvent_spec hn with ⟨_, _, h⟩ | ⟨⟨hne, hfd⟩, _⟩
      · exact h
      · rcases hfd with hfd | hfd
        · exact absurd (hfd.trans hdfd) hne
        · exact absurd (hfd.trans hcfd) hne
  | timer now =>
      rw [receive, runTimer, hq] at h
      cases h

theorem dataIos_of_log (h : t.log = s.log) : t.dataIos = s.dataIos := by rw [dataIos, h, dataIos]

theorem transfer_ends (h0 : w.handleDataIo = 0) (h : s.dataIos < (s.transfer w revents).2.dataIos) :
    (s.transfer w revents).1 = EALREADY := by
  unfold transfer at h ⊢
  split at h
  · exact absurd h (lt_irrefl _)
  · next hst =>
    rw [if_neg hst]
    split at h
    · next hio =>
      rw [if_pos hio]
      dsimp only
      rw [if_pos h0]
      rfl
    · next hio =>
      rw [if_neg hio]
      split at h
      · next hhup =>
        rw [if_pos hhup]
        rfl
      · rw [dataIos_of_log throttle_log] at h
        exact absurd h (lt_irrefl _)

/-- The transfer is over once `handle_data_io` returned 0. -/
theorem notifyPollEventDfd_ends (h0 : w.handleDataIo = 0) (h : s.notifyPollEventDfd w revents = .ok r)
    (hio : s.dataIos < r.2.dataIos) : r.1 = EALREADY := by
  unfold notifyPollEventDfd at h
  split at h
  · cases h
  · split at h
    · next r' hc =>
      cases h
      unfold dfdConnected at hc
      split at hc
      · split at hc
        · cases hc
          exact absurd hio (lt_irrefl _)
        · cases hc
      · cases hc
    · next t hc =>
      obtain ⟨connecting, rfl⟩ := dfdConnected_eq hc
      split at h
      · cases h
      · next u hs =>
        cases h
        have hlog : u.log = s.log := by
          unfold snooze at hs
          split at hs
          · split at hs
            · cases hs
            · split at hs
              · cases hs
              · next v hv =>
                cases hs
                obtain ⟨_, rfl⟩ := addClient_eq hv
                rfl
          · cases hs
            rfl
        rw [← dataIos_of_log hlog] at hio
        exact transfer_ends h0 hio

/-- What is told after the end of a transfer is told without an error. -/
theorem report_called (hk : Keeps s t) (h : s.called (t.report EALREADY) = some (xerr, status)) : xerr = 0 := by
  have hd := hk.trans (dropFailed_keeps (s := t))
  have hr := report_spec (s := t) (e := EALREADY) (by decide)
  generalize t.report EALREADY = u at h hr
  cases hr with
  | kept =>
      rw [called_of_eq hd.1] at h
      cases h
  | told hne => exact absurd rfl hne
  | done =>
      rcases callFtpCmdDone_cases (s := t.dropFailed) 0 t.proto.getStatus with ⟨_, heq⟩ | heq
      · rw [heq, called, if_neg (by simp [hd.1])] at h
        cases h
        rfl
      · have hnone : s.called (t.dropFailed.callFtpCmdDone 0 t.proto.getStatus) = none := by
          apply called_of_eq
          rw [heq]
          exact hd.1
        rw [hnone] at h
        cases h

theorem notifyPollEvent_dfd {fd : ℤ} (hne : fd ≠ -1) (hfd : fd = s.dfd)
    (h : s.notifyPollEvent w fd revents = .ok (e, t)) :
    ∃ r, s.notifyPollEventDfd w revents = .ok r ∧ e = 0 ∧ t = if r.1 = 0 then r.2 else r.2.report r.1 := by
  unfold notifyPollEvent at h
  rw [if_neg hne, if_pos hfd] at h
  cases hd : s.notifyPollEventDfd w revents with
  | error stop =>
      rw [hd] at h
      cases h
  | ok r =>
      rw [hd] at h
      change finish w r = _ at h
      unfold finish at h
      split at h
      · cases h
      · cases h
        exact ⟨r, rfl, rfl, rfl⟩

theorem callsDataIo_spec (h : s.callsDataIo w c = true) : ∃ u revents,
    s.dataEvents c = some (u, revents) ∧
      ∀ r, u.notifyPollEventDfd w revents = .ok r → u.dataIos < r.2.dataIos := by
  unfold callsDataIo at h
  split at h
  · cases h
  · next u revents hev =>
    refine ⟨u, revents, hev, fun r hr => ?_⟩
    rw [hr] at h
    exact of_decide_eq_true h

theorem dataEvents_timer {now : Clock} (h : s.dataEvents (.timer now) = some (u, revents)) :
    (s.state = .sleeping ∧ s.dfdEvents ≠ 0 ∧ eclockAfter s.wakeup now = false ∧ s.dfd ≠ -1) ∧
      u = s.woken now ∧ revents = s.dfdEvents := by
  rw [dataEvents] at h
  split at h
  · next hwake =>
    cases h
    exact ⟨⟨hwake.2.1, hwake.2.2.1, by simpa using hwake.2.2.2.1, hwake.2.2.2.2⟩, rfl, rfl⟩
  · cases h

/-- A sleeper wakes up for events. -/
theorem runTimer_woken {now : Clock} (hst : s.state = .sleeping) (hevents : s.dfdEvents ≠ 0)
    (h : s.runTimer w now = .ok t) : ∃ err v, (s.woken now).notifyPollEvent w s.dfd s.dfdEvents = .ok (err, v) ∧
      t = if err ≠ 0 then v.shutdownAndNotify w else v := by
  have hst' : s.delClient.state = .sleeping := hst
  have hevents' : s.delClient.dfdEvents ≠ 0 := hevents
  unfold runTimer skedCallback at h
  split at h
  · cases h
  · rw [hst'] at h
    split at h
    · cases h
    · dsimp only at h
      unfold wake at h
      dsimp only at h
      rw [if_neg hevents'] at h
      split at h
      · cases h
      · split at h
        · cases h
        · next err v hv =>
          cases h
          exact ⟨err, v, hv, rfl⟩

theorem called_after_transfer {fd : ℤ} (hk : Keeps s u) (hne : fd ≠ -1) (hfd : fd = u.dfd)
    (h0 : w.handleDataIo = 0)
    (hio : ∀ r, u.notifyPollEventDfd w revents = .ok r → u.dataIos < r.2.dataIos)
    (h : u.notifyPollEvent w fd revents = .ok (e, t)) :
    e = 0 ∧ (s.called t = some (xerr, status) → xerr = 0) := by
  obtain ⟨r, hr, rfl, rfl⟩ := notifyPollEvent_dfd hne hfd h
  refine ⟨rfl, fun hcalled => ?_⟩
  rw [notifyPollEventDfd_ends h0 hr (hio r hr), if_neg (by decide)] at hcalled
  obtain ⟨v, hm, he⟩ := notifyPollEventDfd_finishes (hfd ▸ hne) hr
  exact report_called (hk.trans (hm.keeps.trans he.keeps)) hcalled

/-- After `handle_data_io` returned 0 the app is not told of an error. -/
theorem called_after_dataIo (h0 : w.handleDataIo = 0) (hio : s.callsDataIo w c = true)
    (h : s.receive w c = .ok t) (hcalled : s.called t = some (xerr, status)) : xerr = 0 := by
  obtain ⟨u, revents, hev, hread⟩ := callsDataIo_spec hio
  cases c with
  | event fd revents =>
      rw [dataEvents] at hev
      split at hev
      · next hfd =>
        cases hev
        obtain ⟨e, hn⟩ := receive_event h
        exact (called_after_transfer ⟨rfl, rfl⟩ hfd.1 hfd.2 h0 hread hn).2 hcalled
      · cases hev
  | timer now =>
      obtain ⟨⟨hst, hevents, _, hdfd⟩, rfl, rfl⟩ := dataEvents_timer hev
      obtain ⟨err, v, hv, rfl⟩ := runTimer_woken hst hevents h
      obtain ⟨rfl, hxerr⟩ := called_after_transfer (s := s) (u := s.woken now) ⟨rfl, rfl⟩ hdfd rfl h0 hread hv
      exact hxerr hcalled

end
end Dkftpbench.Session
