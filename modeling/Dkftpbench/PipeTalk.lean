import Dkftpbench.PipeCalls

/-!
# What the owner of a pipe says to it and hears from it

Of the log of a pipe only the connects, the commands and the calls of `ftpCmdDone` are its
owner's affair. A command adds itself alone, and whatever comes from the network or the
scheduler adds a call of `ftpCmdDone` or nothing.
-/
namespace Dkftpbench.Session
open CLib EventClock FtpClientProto Relation

/-- What the owner does or is told. -/
def isTalk : Seen → Bool
  | .connect => true
  | .accepted _ => true
  | .refused _ _ => true
  | .cmdDone _ _ => true
  | _ => false

/-- The owner's part of the log. -/
def talk (s : Session) : List Seen := s.log.filter isTalk

/-- Nothing was said, or the owner was called. -/
def Says (s t : Session) : Prop := s.called t = none ∧ t.talk = s.talk ∨
  ∃ xerr status, s.called t = some (xerr, status) ∧ t.talk = .cmdDone xerr status :: s.talk

section
variable {w : World} {s t u : Session} {e : ℤ} {revents : Revents} {c : Cause} {o : Op} {xerr status : ℤ}

theorem talk_of_log (h : t.log = s.log) : t.talk = s.talk := by rw [talk, h, talk]

theorem filter_discarded (fd : ℤ) (log : List Seen) : (discarded fd log).filter isTalk = log.filter isTalk := by
  unfold discarded
  split
  · rfl
  · rfl

theorem Move.talk (h : Move w s t) : t.talk = s.talk := by
  cases h with
  | throttle n => exact talk_of_log throttle_log
  | fields | line | advance | sleep | read | portLost | portLeaked | portUnwatched | portOpened => rfl

theorem Moves.talk (h : Moves w s t) : t.talk = s.talk := by
  induction h with
  | refl => rfl
  | tail _ hlast ih => exact hlast.talk.trans ih

theorem Ends.talk (h : Ends s e t) : t.talk = s.talk := by
  cases h with
  | quiet | failed | refused | answered => rfl
  | hungUp =>
      rw [hangUp_eq]
      exact filter_discarded s.dfd s.log

theorem dropFailed_talk : s.dropFailed.talk = s.talk := by
  rcases dropFailed_cases (s := s) with ⟨h, _⟩ | ⟨_, h⟩
  · rw [h]
  · rw [h]
    exact filter_discarded s.dfd s.log

theorem shutdown_talk : (s.shutdown w).2.talk = s.talk := by
  rcases shutdown_cases (s := s) (w := w) with ⟨_, h⟩ | h
  · rw [h]
  · rw [h]
    exact (filter_discarded s.dfd _).trans (filter_discarded s.cfd s.log)

theorem Says.of_quiet (h : Keeps s t) (htalk : t.talk = s.talk) : Says s t := .inl ⟨called_of_eq h.1, htalk⟩

theorem Says.of_keeps (hk : Keeps s t) (htalk : t.talk = s.talk) (h : Says t u) : Says s u := by
  unfold Says called at h ⊢
  rw [hk.1, htalk] at h
  exact h

theorem callFtpCmdDone_talk (xerr status : ℤ) : Says s (s.callFtpCmdDone xerr status) := by
  rcases callFtpCmdDone_cases (s := s) xerr status with ⟨_, h⟩ | h
  · rw [h]
    refine .inr ⟨xerr, status, ?_, rfl⟩
    rw [called, if_neg (Nat.succ_ne_self s.callbacks)]
  · rw [h]
    exact .of_quiet ⟨rfl, rfl⟩ rfl

theorem Handled.says (h : Handled w s t) : Says s t := by
  cases h with
  | quiet hm he => exact .of_quiet (hm.keeps.trans he.keeps) (he.talk.trans hm.talk)
  | @reported _ t' _ _ hm he _ hr =>
      have hkeeps : Keeps s t'.dropFailed := (hm.keeps.trans he.keeps).trans dropFailed_keeps
      have htalk : t'.dropFailed.talk = s.talk := (dropFailed_talk.trans he.talk).trans hm.talk
      cases hr with
      | kept => exact .of_quiet hkeeps htalk
      | told | done => exact .of_keeps hkeeps htalk (callFtpCmdDone_talk _ _)

theorem runTimer_says {now : Clock} (h : s.runTimer w now = .ok t) : Says s t := by
  unfold runTimer at h
  split at h
  · cases h
  · next when hq =>
    split at h
    · cases h
    · next hdue =>
      cases skedCallback_spec hq (by simpa using hdue) h with
      | expired =>
          exact .of_keeps (shutdown_keeps (s := s.delClient)) (shutdown_talk (s := s.delClient))
            (callFtpCmdDone_talk EPIPE 0)
      | wokenQuiet => exact .of_quiet ⟨rfl, rfl⟩ rfl
      | woken _ _ _ _ _ hh => exact .of_keeps (t := s.woken now) ⟨rfl, rfl⟩ rfl hh.says

/-- Whatever comes to the pipe. -/
theorem receive_says (h : s.receive w c = .ok t) : Says s t := by
  cases c with
  | event fd revents =>
      obtain ⟨e, hn⟩ := receive_event h
      rcases notifyPollEvent_spec hn with ⟨_, _, rfl⟩ | ⟨_, _, hh⟩
      · exact .of_quiet ⟨rfl, rfl⟩ rfl
      · exact hh.says
  | timer now => exact runTimer_says h

theorem connect_talk {port : BitVec 16} (h : s.connect w port = .ok (e, t)) : t.talk = .connect :: s.talk := by
  cases connect_spec h with
  | connectFailed | connectClosed | connectUnwatched | connected => rfl

/-- A command that the owner is not called from. -/
theorem wrapper_talk {ready : Session → Except Stop Session}
    (hready : ∀ s t, ready s = .ok t → Keeps s t ∧ t.log = s.log) (h : s.wrapper w o ready = .ok (e, t))
    (hquiet : s.called t = none) :
    e = 0 ∧ t.talk = .accepted o :: s.talk ∨ e ≠ 0 ∧ t.talk = .refused o e :: s.talk := by
  unfold wrapper at h
  split at h
  · cases h
  · next err proto _ =>
    split at h
    · next herr =>
      cases h
      exact .inr ⟨herr, rfl⟩
    · split at h
      · cases h
      · next u hu =>
        obtain ⟨hk, hlog⟩ := hready _ u hu
        left
        rcases notifyPollEvent_spec h with ⟨hne, _⟩ | ⟨_, hzero, hh⟩
        · exact absurd rfl hne.2
        · refine ⟨hzero, ?_⟩
          have hcalled : u.called t = none := by
            rw [← hquiet, called, hk.1, called]
            rfl
          rcases hh.says with ⟨_, htalk⟩ | ⟨_, _, hsome, _⟩
          · rw [htalk, talk_of_log hlog]
            rfl
          · cases hcalled.symm.trans hsome

theorem login_talk {username password : CStr} (h : s.login w username password = .ok (e, t))
    (hquiet : s.called t = none) : e = 0 ∧ t.talk = .accepted (.login username password) :: s.talk ∨
      e ≠ 0 ∧ t.talk = .refused (.login username password) e :: s.talk := by
  apply wrapper_talk _ h hquiet
  intro s t hs
  cases hs
  exact ⟨⟨rfl, rfl⟩, rfl⟩

theorem type_talk {ttype : CStr} (h : s.type w ttype = .ok (e, t)) (hquiet : s.called t = none) :
    e = 0 ∧ t.talk = .accepted (.type ttype) :: s.talk ∨ e ≠ 0 ∧ t.talk = .refused (.type ttype) e :: s.talk := by
  apply wrapper_talk _ h hquiet
  intro s t hs
  cases hs
  exact ⟨⟨rfl, rfl⟩, rfl⟩

theorem get_talk {fname : CStr} (h : s.get w fname true = .ok (e, t)) (hquiet : s.called t = none) :
    e = 0 ∧ t.talk = .accepted (.get fname none) :: s.talk ∨
      e ≠ 0 ∧ t.talk = .refused (.get fname none) e :: s.talk := by
  apply wrapper_talk _ h hquiet
  intro s t hs
  obtain ⟨_, rfl⟩ := addClient_eq hs
  exact ⟨⟨rfl, rfl⟩, rfl⟩

end
end Dkftpbench.Session
