import Dkftpbench.PipeCompletion

/-!
# The app learns of every answer and every failure

The log tells what the app has not been told yet: an error number that a handler
returned, and the status of the final reply to the command last accepted. Neither is
left over after a step, unless the data connection of the command is still open. An
observer looks at the error codes that the calls of a step gave, and whether the app was
told of an error in it.
-/
namespace Dkftpbench.Session
open CLib FtpClientProto Watch

/-- How far the command last accepted has come: nothing is outstanding, its final reply
is awaited, or it was taken and the app has not been told. -/
inductive Outstanding
  | none | underway | answered (status : ℤ)
deriving DecidableEq, Repr

/-- The app is called back. An error ends the wait for the answer, too. -/
def Outstanding.told (xerr status : ℤ) : Outstanding → Outstanding
  | .answered st => if xerr ≠ 0 ∨ status = st then .none else .answered st
  | o => o

def outstanding : List Seen → Outstanding
  | [] => .none
  | .connect :: _ => .none
  | .shutdown :: _ => .none
  | .accepted _ :: _ => .underway
  | .line pipe ibuf :: log =>
    if outstanding log = .underway ∧ pipe.proto.multiline = false ∧ pipe.proto.isFinal ibuf = true then
      .answered (atoi ibuf.text)
    else outstanding log
  | .cmdDone xerr status :: log => (outstanding log).told xerr status
  | _ :: log => outstanding log

/-- The error number of a handler that neither `ftpCmdDone` nor the result of a command
has told to the app. -/
def unheard : List Seen → Option ℤ
  | [] => none
  | .failed _ err :: log => if err ≠ 0 then some err else unheard log
  | .cmdDone xerr _ :: log => if unheard log = some xerr then none else unheard log
  | .refused _ _ :: _ => none
  | _ :: log => unheard log

/-- The entries that a step has added. -/
def news (s t : Session) : List Seen := t.log.take (t.log.length-s.log.length)

/-- The error code, if any, of the call to the poller or to a socket that the entry is about. -/
def code (w : World) : Seen → ℤ
  | .failed _ err => err
  | .del fd => w.del fd
  | .close fd => w.close fd
  | _ => 0

/-- The app is told of an error, by `ftpCmdDone` or by the result of a command. -/
def tellsError : Seen → Bool
  | .cmdDone xerr _ => xerr ≠ 0
  | .refused _ _ => true
  | _ => false

/-- What `connect` and `shutdown` return to the app. -/
def returned (s : Session) (k : Label) : ℤ :=
  match k.act with
  | .connect port =>
    match s.connect k.world port with
    | .ok r => r.1
    | .error _ => 0
  | .shutdown => (s.shutdown k.world).1
  | _ => 0

/-- The error codes of a step, where the app is told of none in it. -/
def dropped (s : Session) (k : Label) (t : Session) : List ℤ :=
  if (news s t).any tellsError ∨ s.returned k ≠ 0 then []
  else ((news s t).map (code k.world)).filter (· ≠ 0)

/-- What it takes of the lines and the failures: none fails with EALREADY, and final
replies have a number; and inside `ftpCmdDone` no handler fails, and no final reply is
taken but one of 2xx whose data connection is open. -/
def Audible : Seen → Prop
  | .failed pipe err => err ≠ EALREADY ∧ pipe.inFtpCmdDone = 0
  | .line pipe ibuf =>
    pipe.proto.multiline = false → pipe.proto.isFinal ibuf = true → atoi ibuf.text ≠ 0 ∧
      (pipe.inFtpCmdDone = 0 ∨ is2xx (atoi ibuf.text) = true ∧ pipe.dfd ≠ -1)
  | _ => True

instance (x : Seen) : Decidable (Audible x) :=
  match x with
  | .failed _ _ => inferInstanceAs (Decidable (_ ∧ _))
  | .line _ _ => inferInstanceAs (Decidable (_ → _ → _))
  | .connect | .connected | .shutdown | .accepted _ | .refused _ _ | .socket _ | .add _ | .del _
  | .close _ | .dataIo _ _ | .cmdDone _ _ | .withheld _ _ _ => isTrue trivial

/-- The pipe is called with an event, or by the scheduler. -/
def isEvent : Act → Bool
  | .pollEvent _ _ => true
  | .timer _ => true
  | _ => false

/-- What it takes of the steps: no `Poller::del` fails and no `close`; and inside
`ftpCmdDone` no event comes while an answer is kept back for the data connection. -/
structure Attended (s : Session) (k : Label) : Prop where
  del : ∀ fd, k.world.del fd = 0
  close : ∀ fd, k.world.close fd = 0
  patient : isEvent k.act = true → s.inFtpCmdDone ≠ 0 → ∀ status, outstanding s.log ≠ .answered status

/-- What carries `Told` from step to step: an answer that is kept back for the data
connection is the status of the protocol. -/
structure Hearing (p : FtpClientProto) (cfd dfd : ℤ) (log : List Seen) : Prop where
  proto : p.Disciplined
  control : dfd ≠ -1 → cfd ≠ -1
  errors : unheard log = none
  answer : ∀ status, outstanding log = .answered status →
    p.state = .idle ∧ p.status = status ∧ status ≠ 0 ∧ is2xx status = true ∧ dfd ≠ -1

/-- What holds in a handler. One that is called inside `ftpCmdDone` finds no answer there. -/
structure Listening (s : Session) : Prop where
  hearing : Hearing s.proto s.cfd s.dfd s.log
  control : s.cfd ≠ -1
  nested : s.inFtpCmdDone ≠ 0 → ∀ status, outstanding s.log ≠ .answered status

/-- What holds when a handler has returned: its error is the one not told, and without
an error an answer is the status that `getStatus` gives. -/
structure Returned (err : ℤ) (s : Session) : Prop where
  proto : s.proto.Disciplined
  control : s.cfd ≠ -1
  errors : unheard s.log = if err = 0 ∨ err = EALREADY then none else some err
  answer : ∀ status, outstanding s.log = .answered status → err = 0 ∨ err = EALREADY →
    s.proto.getStatus = status ∧ status ≠ 0 ∧ (is2xx status = true → s.proto.state = .idle)
  quiet : err = 0 → Hearing s.proto s.cfd s.dfd s.log
  callable : err ≠ 0 → err ≠ EALREADY → s.inFtpCmdDone = 0
  pending : ∀ status, outstanding s.log = .answered status → err = EALREADY →
    s.inFtpCmdDone = 0 ∨ is2xx status = true ∧ s.dfd ≠ -1

section
variable {p p' : FtpClientProto} {cfd dfd dfd' : ℤ} {log : List Seen} {x : Seen} {ibuf : Line}
variable {e : ℤ} {o : Op} {pipe : FtpClientPipe} {w : World} {s t u : Session}

theorem unheard_discarded (fd : ℤ) : unheard (discarded fd log) = unheard log := by
  unfold discarded
  split <;> rfl

theorem outstanding_discarded (fd : ℤ) : outstanding (discarded fd log) = outstanding log := by
  unfold discarded
  split <;> rfl

/-- An entry that says nothing to either account. -/
theorem Hearing.cons (h : Hearing p cfd dfd log) (hu : unheard (x :: log) = unheard log)
    (ho : outstanding (x :: log) = outstanding log) : Hearing p cfd dfd (x :: log) :=
  ⟨h.proto, h.control, hu.trans h.errors, fun status hst => h.answer status (ho.symm.trans hst)⟩

theorem getStatus_of_settled (h : p.state = .idle ∨ p.state = .init) : p.getStatus = p.status := by
  unfold getStatus
  rw [if_neg]
  intro hne
  exact h.elim hne.1 hne.2

/-- After a failed login the status is no success. -/
theorem not_is2xx_of_init {status : ℤ} (hr : Reply p ibuf status e p') (h : awaits p.state = true)
    (hinit : p'.state = .init) : is2xx status = false := by
  cases hr with
  | loginFailed _ h2 => exact h2
  | helloUser | hello | refused | askPass | loggedIn | done | portOk | pasvOk | abandoned
  | retrDone => cases hinit
  | retrMark hst => cases hst.symm.trans hinit
  | unexpected =>
      rw [hinit] at h
      cases h

/-- An answer that is not told when a line was accepted is the status now. -/
theorem Hearing.answer_line {status : ℤ} (h : Hearing p cfd dfd log) (hpipe : pipe.proto = p)
    (hC : Audible (.line pipe ibuf)) (hg : p.giveInput ibuf = some (e, p'))
    (he : e = 0 ∨ e = EWOULDBLOCK)
    (hst : outstanding (.line pipe ibuf :: log) = .answered status) :
    p'.getStatus = status ∧ status ≠ 0 ∧ (is2xx status = true → p'.state = .idle) ∧
      (pipe.inFtpCmdDone = 0 ∨ is2xx status = true ∧ (dfd ≠ -1 ∨ pipe.dfd ≠ -1)) := by
  subst hpipe
  have herr : e ≠ EINVAL := by
    intro heq
    subst heq
    revert he
    decide
  rcases giveInput_cases h.proto hg with ⟨hm, _, rfl⟩ | ⟨hm, hr⟩
  · have hkept : outstanding log = .answered status := by
      rw [outstanding, if_neg (by simp [hm])] at hst
      exact hst
    obtain ⟨hidle, hstatus, hne, h2, hdfd⟩ := h.answer status hkept
    exact ⟨(getStatus_of_settled (.inl hidle)).trans hstatus, hne, fun _ => hidle, .inr ⟨h2, .inl hdfd⟩⟩
  · by_cases hfinal : pipe.proto.isFinal ibuf = true
    · have hstate : p'.state = .idle ∨ p'.state = .init := by
        rcases hr.settles with ⟨_, hstate⟩ | ⟨hno, _⟩
        · exact hstate
        · exact absurd (hno.symm.trans hfinal) (by decide)
      have hstatus : p'.getStatus = atoi ibuf.text :=
        (getStatus_of_settled hstate).trans hr.kept.1
      have hawaits : awaits pipe.proto.state = true := awaits_of_isFinal hfinal
      have hidle : is2xx (atoi ibuf.text) = true → p'.state = .idle := by
        intro h2
        refine hstate.resolve_right fun hinit => ?_
        rw [not_is2xx_of_init hr hawaits hinit] at h2
        cases h2
      by_cases hunder : outstanding log = .underway
      · rw [outstanding, if_pos ⟨hunder, hm, hfinal⟩] at hst
        cases hst
        obtain ⟨hnum, hwhen⟩ := hC hm hfinal
        exact ⟨hstatus, hnum, hidle, hwhen.imp id fun ⟨h2, hopen⟩ => ⟨h2, .inr hopen⟩⟩
      · rw [outstanding, if_neg fun hc => hunder hc.1] at hst
        have hbusy := (h.answer status hst).1
        rw [hbusy] at hawaits
        cases hawaits
    · rw [outstanding, if_neg fun hc => hfinal hc.2.2] at hst
      exact absurd (hr.error_of_idle (h.answer status hst).1) herr

/-- A line that leaves no status was not the final reply. -/
theorem Hearing.line (h : Hearing p cfd dfd log) (hpipe : pipe.proto = p)
    (hC : Audible (.line pipe ibuf)) (hg : p.giveInput ibuf = some (e, p'))
    (he : e = 0 ∨ e = EWOULDBLOCK) (hst : p'.getStatus = 0) :
    Hearing p' cfd dfd (.line pipe ibuf :: log) := by
  refine ⟨giveInput_disciplined h.proto hg, h.control, h.errors, fun status hanswer => ?_⟩
  obtain ⟨hstatus, hne, _⟩ := h.answer_line hpipe hC hg he hanswer
  exact absurd (hstatus.symm.trans hst) hne

/-- A data connection is opened: nothing but the protocol's flag and the descriptor. -/
theorem Hearing.ported (h : Hearing p cfd dfd log) (hcfd : cfd ≠ -1)
    (hdfd : dfd ≠ -1 → dfd' ≠ -1) : Hearing { p with addressReady := false } cfd dfd' log :=
  ⟨⟨h.proto.outside, h.proto.inside⟩, fun _ => hcfd, h.errors, fun status hst =>
    ⟨(h.answer status hst).1, (h.answer status hst).2.1, (h.answer status hst).2.2.1,
      (h.answer status hst).2.2.2.1, hdfd (h.answer status hst).2.2.2.2⟩⟩

theorem Listening.move (h : Listening s) (hC : Logged Audible t) (hm : Move w s t) : Listening t := by
  obtain ⟨h, hcfd, hnested⟩ := h
  have hsock : ∀ sock : ℕ, (sock : ℤ) ≠ -1 := fun sock => by omega
  cases hm with
  | fields | sleep => exact ⟨h, hcfd, hnested⟩
  | line full hg he hst =>
      have haudible := hC _ List.mem_cons_self
      refine ⟨h.line rfl haudible hg he hst, hcfd, fun _ status hanswer => ?_⟩
      obtain ⟨hstatus, hne, _⟩ := h.answer_line rfl haudible hg he hanswer
      exact absurd (hstatus.symm.trans hst) hne
  | advance => exact ⟨⟨⟨h.proto.outside, h.proto.inside⟩, h.control, h.errors, h.answer⟩, hcfd, hnested⟩
  | read => exact ⟨h.cons rfl rfl, hcfd, hnested⟩
  | throttle n =>
      obtain ⟨_, _, _, heq⟩ := throttle_eq s w.now n
      rw [heq]
      exact ⟨h, hcfd, hnested⟩
  | portLost => exact ⟨h.ported hcfd id, hcfd, hnested⟩
  | portLeaked => exact ⟨(h.ported hcfd id).cons rfl rfl, hcfd, hnested⟩
  | portUnwatched sock => exact ⟨(h.ported hcfd fun _ => hsock sock).cons rfl rfl, hcfd, hnested⟩
  | portOpened sock =>
      exact ⟨((h.ported hcfd fun _ => hsock sock).cons rfl rfl).cons rfl rfl, hcfd, hnested⟩

theorem Listening.ends (h : Listening s) (hC : Logged Audible t) (he : Ends s e t) : Returned e t := by
  obtain ⟨h, hcfd, hnested⟩ := h
  have hkept : ∀ status, outstanding s.log = .answered status →
      s.proto.getStatus = status ∧ status ≠ 0 ∧ (is2xx status = true → s.proto.state = .idle) := by
    intro status hst
    obtain ⟨hidle, hstatus, hne, _⟩ := h.answer status hst
    exact ⟨(getStatus_of_settled (.inl hidle)).trans hstatus, hne, fun _ => hidle⟩
  cases he with
  | quiet =>
      exact ⟨h.proto, hcfd, by simpa using h.errors, fun status hst _ => hkept status hst, fun _ => h,
        fun h0 => absurd rfl h0, fun _ _ hal => absurd hal (by decide)⟩
  | failed e =>
      obtain ⟨hal, hcallable⟩ := hC _ List.mem_cons_self
      refine ⟨h.proto, hcfd, ?_, fun status hst _ => hkept status hst, ?_, fun _ _ => hcallable,
        fun _ _ heq => absurd heq hal⟩
      · by_cases h0 : e = 0
        · rw [note, unheard, if_neg (not_not.2 h0), if_pos (.inl h0)]
          exact h.errors
        · rw [note, unheard, if_pos h0, if_neg (not_or.2 ⟨h0, hal⟩)]
      · intro heq
        subst heq
        exact h.cons rfl rfl
  | refused full hg hne hblock =>
      obtain ⟨hal, hcallable⟩ := hC _ List.mem_cons_self
      refine ⟨giveInput_disciplined h.proto hg, hcfd, ?_, ?_, fun h0 => absurd h0 hne, fun _ _ => hcallable,
        fun _ _ heq => absurd heq hal⟩
      · rw [note, unheard, if_pos hne, if_neg (not_or.2 ⟨hne, hal⟩)]
      · intro _ _ hwhich
        exact absurd hwhich (not_or.2 ⟨hne, hal⟩)
  | answered full hg he hst =>
      have haudible := hC _ List.mem_cons_self
      refine ⟨giveInput_disciplined h.proto hg, hcfd, h.errors, ?_, (fun h0 => by cases h0),
        fun _ hal => absurd rfl hal, fun status hanswer _ => ?_⟩
      · intro status hanswer _
        obtain ⟨hstatus, hne, hidle, _⟩ := h.answer_line rfl haudible hg he hanswer
        exact ⟨hstatus, hne, hidle⟩
      · obtain ⟨_, _, _, hwhen⟩ := h.answer_line rfl haudible hg he hanswer
        rcases hwhen with hzero | ⟨h2, hopen⟩
        · exact .inl hzero
        · exact .inr ⟨h2, hopen.elim id id⟩
  | hungUp =>
      rw [hangUp_eq]
      refine ⟨h.proto, hcfd, (unheard_discarded s.dfd).trans h.errors, ?_, (fun h0 => by cases h0),
        fun _ hal => absurd rfl hal, fun status hst _ => ?_⟩
      · exact fun status hst _ => hkept status ((outstanding_discarded s.dfd).symm.trans hst)
      · by_contra hno
        exact hnested (not_or.1 hno).1 status ((outstanding_discarded s.dfd).symm.trans hst)

/-- A call of `ftpCmdDone` that is not withheld, or that has nothing to tell. -/
theorem Hearing.call {xerr status : ℤ} (hproto : s.proto.Disciplined) (hcfd : s.cfd ≠ -1)
    (herr : unheard s.log = none ∨ unheard s.log = some xerr)
    (hanswer : ∀ st, outstanding s.log = .answered st → xerr ≠ 0 ∨ status = st)
    (hnow : s.inFtpCmdDone = 0 ∨ unheard s.log = none ∧ ∀ st, outstanding s.log ≠ .answered st) :
    Hearing (s.callFtpCmdDone xerr status).proto (s.callFtpCmdDone xerr status).cfd
      (s.callFtpCmdDone xerr status).dfd (s.callFtpCmdDone xerr status).log := by
  unfold callFtpCmdDone
  split
  · refine ⟨hproto, fun _ => hcfd, ?_, fun st hst => ?_⟩
    · rcases herr with h | h <;> simp [note, unheard, h]
    · exfalso
      change (outstanding s.log).told xerr status = .answered st at hst
      cases ho : outstanding s.log with
      | none | underway => simp [ho, Outstanding.told] at hst
      | answered st' =>
          rw [ho, Outstanding.told, if_pos (hanswer st' ho)] at hst
          cases hst
  · next hne =>
    obtain ⟨hnone, hno⟩ := hnow.resolve_left hne
    exact ⟨hproto, fun _ => hcfd, hnone, fun st hst => absurd hst (hno st)⟩

/-- Dropping the data connection of a failed command changes nothing else. -/
theorem dropFailed_same (s : Session) : s.dropFailed.proto = s.proto ∧ s.dropFailed.cfd = s.cfd ∧
    unheard s.dropFailed.log = unheard s.log ∧
    outstanding s.dropFailed.log = outstanding s.log ∧ s.dropFailed.inFtpCmdDone = s.inFtpCmdDone := by
  rcases dropFailed_cases (s := s) with ⟨heq, _⟩ | ⟨_, heq⟩
  · rw [heq]
    exact ⟨rfl, rfl, rfl, rfl, rfl⟩
  · rw [heq]
    exact ⟨rfl, rfl, unheard_discarded s.dfd, outstanding_discarded s.dfd, rfl⟩

/-- The data connection of a command that succeeded is not dropped. -/
theorem dropFailed_of_2xx (h : is2xx s.proto.getStatus = true) : s.dropFailed = s := by
  rcases dropFailed_cases (s := s) with ⟨heq, _⟩ | ⟨⟨_, hno, _⟩, _⟩
  · exact heq
  · cases hno.symm.trans h

theorem Returned.kept (h : Returned EALREADY s)
    (hk : s.proto.getStatus = 0 ∨ s.dropFailed.dfd ≠ -1) :
    Hearing s.dropFailed.proto s.dropFailed.cfd s.dropFailed.dfd s.dropFailed.log := by
  obtain ⟨hproto, hcfd, herr, hout, _⟩ := dropFailed_same s
  refine ⟨by rw [hproto]; exact h.proto, fun _ => by rw [hcfd]; exact h.control, ?_, fun st hst => ?_⟩
  · rw [herr, h.errors, if_pos (.inr rfl)]
  · rw [hout] at hst
    obtain ⟨hstatus, hne, hidle⟩ := h.answer st hst (.inr rfl)
    have hopen : s.dropFailed.dfd ≠ -1 := hk.resolve_left (hstatus.trans_ne hne)
    rcases dropFailed_cases (s := s) with ⟨heq, hok⟩ | ⟨_, heq⟩
    · rw [heq] at hopen ⊢
      have h2 : is2xx st = true := by
        rcases hok with h0 | h2 | hclosed
        · exact absurd h0 (hstatus.trans_ne hne)
        · rwa [hstatus] at h2
        · exact absurd hclosed hopen
      exact ⟨hidle h2, (getStatus_of_settled (.inl (hidle h2))).symm.trans hstatus, hne, h2, hopen⟩
    · rw [heq] at hopen
      exact absurd rfl hopen

/-- The report of an answer or a failure; one that is withheld has nothing to tell. -/
theorem Returned.report (h : Returned e s) (hr : Reported s e t) : Hearing t.proto t.cfd t.dfd t.log := by
  obtain ⟨hproto, hcfd, herr, hout, hcount⟩ := dropFailed_same s
  have hdisciplined : s.dropFailed.proto.Disciplined := by
    rw [hproto]
    exact h.proto
  have hcontrol : s.dropFailed.cfd ≠ -1 := by
    rw [hcfd]
    exact h.control
  cases hr with
  | kept hal hk =>
      subst hal
      exact h.kept hk
  | told hal he =>
      refine Hearing.call hdisciplined hcontrol ?_ (fun _ _ => .inl he) (.inl ?_)
      · rw [herr, h.errors, if_neg (not_or.2 ⟨he, hal⟩)]
        exact .inr rfl
      · rw [hcount]
        exact h.callable he hal
  | done hal hst hdfd =>
      have hnone : unheard s.dropFailed.log = none := by
        rw [herr, h.errors, if_pos (.inr hal)]
      refine Hearing.call hdisciplined hcontrol (.inl hnone) (fun st hanswer => .inr ?_) ?_
      · rw [hout] at hanswer
        exact (h.answer st hanswer (.inr hal)).1
      · by_cases hzero : s.inFtpCmdDone = 0
        · exact .inl (hcount.trans hzero)
        · refine .inr ⟨hnone, fun st hanswer => ?_⟩
          rw [hout] at hanswer
          obtain ⟨h2, hopen⟩ := (h.pending st hanswer hal).resolve_left hzero
          rw [← (h.answer st hanswer (.inr hal)).1] at h2
          rw [dropFailed_of_2xx h2] at hdfd
          exact hopen hdfd

theorem Hearing.handled (hh : Handled w s t) (hC : Logged Audible t) (hcfd : s.cfd ≠ -1)
    (hnested : s.inFtpCmdDone ≠ 0 → ∀ status, outstanding s.log ≠ .answered status)
    (h : Hearing s.proto s.cfd s.dfd s.log) : Hearing t.proto t.cfd t.dfd t.log :=
  hh.rule (I := Listening) (J := Returned) (K := fun t => Hearing t.proto t.cfd t.dfd t.log)
    (fun _ _ hs hC hm => hs.move hC hm) (fun _ _ _ hs hC he => hs.ends hC he) (fun _ ht => ht.quiet rfl)
    (fun _ _ _ ht _ hr => ht.report hr) hC ⟨h, hcfd, hnested⟩

theorem Hearing.issue (h : Hearing p cfd dfd log) (hi : Issued p o p') :
    Hearing p' cfd dfd (.accepted o :: log) :=
  ⟨hi.disciplined h.proto, h.control, h.errors, nofun⟩

theorem Hearing.shutdown (h : Hearing s.proto s.cfd s.dfd s.log) :
    Hearing (s.shutdown w).2.proto (s.shutdown w).2.cfd (s.shutdown w).2.dfd (s.shutdown w).2.log := by
  rcases shutdown_cases (s := s) (w := w) with ⟨_, heq⟩ | heq
  · rw [heq]
    exact h
  · rw [heq]
    refine ⟨h.proto, fun hd => absurd rfl hd, ?_, nofun⟩
    exact ((unheard_discarded _).trans (unheard_discarded _)).trans h.errors

/-- The call that ends a session whose time has run out, withheld or not. -/
theorem Hearing.expire (h : Hearing s.proto s.cfd s.dfd s.log) :
    Hearing (s.callFtpCmdDone EPIPE 0).proto (s.callFtpCmdDone EPIPE 0).cfd
      (s.callFtpCmdDone EPIPE 0).dfd (s.callFtpCmdDone EPIPE 0).log := by
  rcases callFtpCmdDone_cases (s := s) EPIPE 0 with ⟨_, heq⟩ | heq
  · rw [heq]
    refine ⟨h.proto, h.control, by simp [unheard, h.errors], fun st hst => h.answer st ?_⟩
    change (outstanding s.log).told EPIPE 0 = .answered st at hst
    cases ho : outstanding s.log with
    | none | underway => simp [ho, Outstanding.told] at hst
    | answered st' =>
        rw [ho, Outstanding.told, if_pos (.inl (by decide))] at hst
        cases hst
  · rw [heq]
    exact h.cons rfl rfl

theorem Hearing.reset (h : Hearing s.proto s.cfd s.dfd s.log) :
    Hearing s.reset.proto (-1) (-1) s.reset.log :=
  ⟨init_disciplined s.proto, fun hd => absurd rfl hd, h.errors, nofun⟩

theorem Hearing.step {a : Act} (h : Hearing s.proto s.cfd s.dfd s.log)
    (hpatient : isEvent a = true → s.inFtpCmdDone ≠ 0 → ∀ status, outstanding s.log ≠ .answered status)
    (hC : Logged Audible t) (hs : Stepped s w a t) : Hearing t.proto t.cfd t.dfd t.log := by
  cases hs with
  | connectFailed => exact h.reset
  | connectClosed => exact (h.reset.cons rfl rfl).cons rfl rfl
  | connectUnwatched port sock =>
      have h' := h.reset.cons (x := .socket sock) rfl rfl
      exact ⟨h'.proto, fun hd => absurd rfl hd, h'.errors, h'.answer⟩
  | connected port sock =>
      have h' := ((h.reset.cons (x := .socket sock) rfl rfl).cons (x := .add sock) rfl rfl).cons
        (x := .connected) rfl rfl
      exact ⟨h'.proto, fun hd => absurd rfl hd, h'.errors, h'.answer⟩
  | shutdown => exact h.shutdown
  | refused c o err => exact ⟨h.proto, h.control, rfl, h.answer⟩
  | issued c o _ hi hcfd hh => exact Hearing.handled hh hC hcfd (fun _ _ => Outstanding.noConfusion) (h.issue hi)
  | gotten c f hi _ hcfd hh => exact Hearing.handled hh hC hcfd (fun _ _ => Outstanding.noConfusion) (h.issue hi)
  | ignored | wokenQuiet | returned => exact h
  | handled fd revents hfd hmine hh =>
      have hcfd : s.cfd ≠ -1 := by
        rcases hmine with hd | hc
        · exact h.control (hd ▸ hfd)
        · exact hc ▸ hfd
      exact Hearing.handled hh hC hcfd (hpatient rfl) h
  | expired => exact (Hearing.shutdown (s := s.delClient) h).expire
  | woken now _ _ _ hdfd hh =>
      exact Hearing.handled (s := s.woken now) hh hC (h.control hdfd) (hpatient rfl) h

end

end Dkftpbench.Session
