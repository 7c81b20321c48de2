import Dkftpbench.PipeSteps
import Dkftpbench.ProtoStatus

/-!
# At most one completion for each command

A completion is a call of `ftpCmdDone` without an error. The account of a pipe is
settled by its protocol state, its data descriptor and its log: as long as a reply is
awaited or a data connection is open, a command is owed a completion.
-/
namespace Dkftpbench
open CLib FtpClientProto Watch

namespace FtpClientProto

/-- The state awaits the reply to a command. -/
def awaits : Fcps → Bool
  | .user | .pass | .cwd | .type | .size | .port | .pasv | .retr => true
  | _ => false

/-- The session has not been logged in. -/
def isEarly : Fcps → Bool
  | .uninit | .init | .connected | .user | .pass => true
  | _ => false

/-- A command has been accepted and not been answered. -/
def Busy (p : FtpClientProto) : Prop := awaits p.state = true ∨ p.state = .init ∧ p.sentUser = true

section
variable {p p' : FtpClientProto} {ibuf : Line} {status e : ℤ} {o : Op}

/-- A login waits for the hello only in state INIT, or for nothing after a refusal. -/
theorem Reply.sent (hr : Reply p ibuf status e p')
    (hs : p.sentUser = true → p.state = .init ∨ p.state = .uninit) (h : p'.sentUser = true) :
    p'.state = .init ∨ p'.state = .uninit := by
  cases hr with
  | helloUser => cases h
  | hello _ _ hu => cases hu.symm.trans h
  | refused => exact .inr rfl
  | unexpected => exact hs h
  | askPass hst | portOk hst | pasvOk _ hst | retrMark hst | retrDone hst =>
      have hstate := hs h
      simp [hst] at hstate
  | loggedIn hst | loginFailed hst | done hst | abandoned hst =>
      have hstate : p.state = .init ∨ p.state = .uninit := hs h
      rcases hstate with hstate | hstate <;> simp [hstate] at hst

theorem Reply.sentUser (hr : Reply p ibuf status e p') (h : p'.sentUser = true) : p.sentUser = true := by
  cases hr with
  | helloUser => cases h
  | hello | refused | askPass | loggedIn | loginFailed | done | portOk | pasvOk | abandoned
  | retrMark | retrDone | unexpected => exact h

/-- No line is expected in state IDLE. -/
theorem Reply.error_of_idle (hr : Reply p ibuf status e p') (hidle : p.state = .idle) : e = EINVAL := by
  cases hr with
  | unexpected => rfl
  | helloUser hst | hello hst | refused hst | askPass hst | portOk hst | pasvOk _ hst
  | retrMark hst | retrDone hst => cases hidle.symm.trans hst
  | loggedIn hst | loginFailed hst | done hst | abandoned hst => simp [hidle] at hst

theorem Reply.early (hr : Reply p ibuf status e p') (h : isEarly p'.state = true) :
    isEarly p.state = true := by
  cases hr with
  | helloUser hst | hello hst | refused hst | askPass hst =>
      rw [hst]
      rfl
  | loginFailed hst =>
      rcases hst with ⟨hst, _⟩ | hst <;> rw [hst] <;> rfl
  | loggedIn | done | portOk | pasvOk | abandoned | retrDone => cases h
  | retrMark | unexpected => exact h

/-- A reply leaves nothing awaited that was not awaited before. -/
theorem Reply.busy (hr : Reply p ibuf status e p') (h : p'.Busy) : p.Busy := by
  cases hr with
  | helloUser hst _ hu => exact .inr ⟨hst, hu⟩
  | hello | refused | loggedIn | done | abandoned | retrDone => simp [Busy, awaits, setState, popped] at h
  | askPass hst | portOk hst | pasvOk _ hst =>
      left
      rw [hst]
      rfl
  | loginFailed hst =>
      left
      rcases hst with ⟨hst, _⟩ | hst <;> rw [hst] <;> rfl
  | retrMark | unexpected => exact h

theorem awaits_of_isFinal (h : p.isFinal ibuf = true) : awaits p.state = true := by
  unfold isFinal at h
  cases hst : p.state <;> simp [hst] at h <;> rfl

/-- Accepting a command makes the protocol busy, from a state in which it was not. -/
theorem Issued.idle (hi : Issued p o p') : p.state = .idle ∨ isEarly p.state = true := by
  cases hi with
  | loginEarly u v hst | login u v hst =>
      right
      rw [hst]
      rfl
  | cd d hst | type y hst | size f hst | getPasv f hst | getPort f a hst => exact .inl hst

theorem Issued.early (hi : Issued p o p') (h : isEarly p'.state = true) : isEarly p.state = true := by
  cases hi with
  | loginEarly => exact h
  | login u v hst =>
      rw [hst]
      rfl
  | cd | type | size | getPasv | getPort => cases h

theorem Issued.sent (hi : Issued p o p') (hs : p.sentUser = true → p.state = .init ∨ p.state = .uninit)
    (h : p'.sentUser = true) : p'.state = .init ∨ p'.state = .uninit := by
  cases hi with
  | loginEarly u v hst => exact .inl hst
  | login u v _ hu => cases hu.symm.trans h
  | cd d hst | type y hst | size f hst | getPasv f hst | getPort f a hst =>
      have hstate := hs h
      simp [hst] at hstate

theorem Issued.port (hi : Issued p o p') (hp : p.addressReady = true → p.state = .retr) :
    p'.addressReady = false := by
  have hready : p'.addressReady = p.addressReady := by cases hi <;> rfl
  rw [hready]
  by_contra h
  have hretr := hp (by simpa using h)
  rcases hi.idle with hst | hst <;> rw [hretr] at hst <;> cases hst

end
end FtpClientProto

namespace Seen

def isAccepted : Seen → Bool
  | .accepted _ => true
  | _ => false

def isCompletion : Seen → Bool
  | .cmdDone xerr _ => xerr == 0
  | _ => false

end Seen

namespace Session

def accepted (log : List Seen) : ℕ := log.countP Seen.isAccepted

def completed (log : List Seen) : ℕ := log.countP Seen.isCompletion

/-- There are no more completions than commands, and each was made while a command
was outstanding. -/
structure Accounted (log : List Seen) : Prop where
  count : completed log ≤ accepted log
  outstanding : ∀ status l, .cmdDone 0 status :: l <:+ log → completed l < accepted l

/-- What the account needs of the lines and of the failures:
no line comes inside a multi-line reply whose first line ended a command, unless a data
connection is open; the address of the data port is taken before the final reply; and a
handler that fails with EALREADY finds no status left behind, or a data connection. -/
def Accountable : Seen → Prop
  | .line pipe ibuf =>
    (pipe.proto.multiline = true → pipe.proto.state = .init ∨ pipe.proto.state = .idle →
      pipe.proto.status = 0 ∨ pipe.dfd ≠ -1) ∧ pipe.proto.PortFirst ibuf
  | .failed pipe err => err = EALREADY → pipe.proto.getStatus = 0 ∨ pipe.dfd ≠ -1
  | _ => True

instance (p : FtpClientProto) (ibuf : Line) : Decidable (p.PortFirst ibuf) :=
  inferInstanceAs (Decidable (_ → _ → _ → _))

instance (x : Seen) : Decidable (Accountable x) :=
  match x with
  | .line pipe ibuf => inferInstanceAs (Decidable ((_ → _ → _) ∧ pipe.proto.PortFirst ibuf))
  | .failed _ _ => inferInstanceAs (Decidable (_ → _))
  | .connect | .connected | .shutdown | .accepted _ | .refused _ _ | .socket _ | .add _ | .del _
  | .close _ | .dataIo _ _ | .cmdDone _ _ | .withheld _ _ _ => isTrue trivial

/-- A pipe whose `connect` has just returned 0. -/
def JustConnected (s : Session) : Prop := ∃ s₀ w port, s₀.log = [] ∧ connect s₀ w port = .ok (0, s)

/-- Anything but a new connection. -/
def Continues (k : Label) : Prop := ∀ port, k.act ≠ .connect port

instance (k : Label) : Decidable (Continues k) :=
  match h : k.act with
  | .connect port => isFalse fun hk => hk port h
  | .shutdown | .command _ | .pollEvent _ _ | .timer _ | .cmdDoneReturns => isTrue (by simp [Continues, h])

/-- What carries the account from step to step. -/
structure Owing (p : FtpClientProto) (dfd : ℤ) (log : List Seen) : Prop where
  proto : p.Disciplined
  sent : p.sentUser = true → p.state = .init ∨ p.state = .uninit
  port : p.addressReady = true → p.state = .retr
  early : isEarly p.state = true → dfd = -1
  owes : p.Busy ∨ dfd ≠ -1 → completed log < accepted log
  accounted : Accounted log

section
variable {p p' : FtpClientProto} {dfd dfd' : ℤ} {log : List Seen} {x : Seen} {ibuf : Line} {e : ℤ}
variable {o : Op} {pipe : FtpClientPipe} {w : World} {s t u : Session}

theorem accounted_cons (hx : x.isCompletion = false) (h : Accounted log) : Accounted (x :: log) := by
  constructor
  · have hle := h.count
    simp only [completed, accepted, List.countP_cons, hx] at hle ⊢
    simp only [Bool.false_eq_true, if_false]
    omega
  · intro status l hl
    rcases List.suffix_cons_iff.1 hl with heq | hl
    · cases heq
      cases hx
    · exact h.outstanding status l hl

theorem Accounted.cmdDone {status : ℤ} (h : Accounted log) (hlt : completed log < accepted log) :
    Accounted (.cmdDone 0 status :: log) := by
  constructor
  · rw [completed, accepted, List.countP_cons, List.countP_cons]
    exact Nat.succ_le_of_lt hlt
  · intro status' l hl
    rcases List.suffix_cons_iff.1 hl with heq | hl
    · cases heq
      exact hlt
    · exact h.outstanding status' l hl

/-- An entry that is neither a command nor a completion. -/
theorem Owing.cons (hx : x.isCompletion = false) (hy : x.isAccepted = false) (h : Owing p dfd log) :
    Owing p dfd (x :: log) := by
  refine ⟨h.proto, h.sent, h.port, h.early, ?_, accounted_cons hx h.accounted⟩
  intro hb
  have hlt := h.owes hb
  simpa [completed, accepted, List.countP_cons, hx, hy] using hlt

theorem Owing.discarded (h : Owing p dfd log) (fd : ℤ) : Owing p dfd (discarded fd log) := by
  unfold Session.discarded
  split
  · exact (h.cons rfl rfl).cons rfl rfl
  · exact h

theorem Owing.closed (h : Owing p dfd log) : Owing p (-1) log :=
  ⟨h.proto, h.sent, h.port, fun _ => rfl, fun hb => h.owes (.inl (hb.resolve_right (by simp))),
    h.accounted⟩

theorem Owing.advanceOutput (h : Owing p dfd log) : Owing p.advanceOutput dfd log :=
  ⟨⟨h.proto.outside, h.proto.inside⟩, h.sent, h.port, h.early, h.owes, h.accounted⟩

/-- The reply to RETR is awaited when a data connection is opened. -/
theorem Owing.ported (h : Owing p dfd log) (hready : p.addressReady = true) :
    Owing { p with addressReady := false } dfd' log := by
  have hretr := h.port hready
  have hlt : completed log < accepted log := h.owes (.inl (.inl (by rw [hretr]; rfl)))
  exact ⟨⟨h.proto.outside, h.proto.inside⟩, h.sent, nofun,
    fun he => absurd (hretr ▸ he) (by decide), fun _ => hlt, h.accounted⟩

theorem Owing.complete {status : ℤ} (h : Owing p (-1) log) (hlt : completed log < accepted log)
    (hbusy : ¬ p.Busy) : Owing p (-1) (.cmdDone 0 status :: log) :=
  ⟨h.proto, h.sent, h.port, h.early, fun hb => absurd (hb.resolve_right (by simp)) hbusy,
    h.accounted.cmdDone hlt⟩


theorem Owing.line (h : Owing p dfd log) (hpipe : pipe.proto = p) (hC : Accountable (.line pipe ibuf))
    (hg : p.giveInput ibuf = some (e, p')) : Owing p' dfd (.line pipe ibuf :: log) := by
  have hd := giveInput_disciplined h.proto hg
  subst hpipe
  apply Owing.cons rfl rfl
  have hport := giveInput_port h.proto h.port hC.2 hg
  rcases giveInput_cases h.proto hg with ⟨_, _, rfl⟩ | ⟨_, hr⟩
  · exact ⟨hd, h.sent, hport, h.early, h.owes, h.accounted⟩
  · exact ⟨hd, hr.sent h.sent, hport, fun he => h.early (hr.early he),
      fun hb => h.owes (hb.imp_left hr.busy), h.accounted⟩

/-- Where a data connection is open, a status is that of state IDLE. -/
theorem Owing.of_open (h : Owing p dfd log) (hdfd : dfd ≠ -1) (hst : p.getStatus ≠ 0) :
    completed log < accepted log ∧ ¬ p.Busy := by
  refine ⟨h.owes (.inr hdfd), ?_⟩
  have hinit : p.state ≠ .init := by
    intro hi
    exact hdfd (h.early (by rw [hi]; rfl))
  have hidle : p.state = .idle := (getStatus_ne_zero hst).1.resolve_right hinit
  simp [Busy, hidle, awaits]

/-- The line that brings a status is the final reply to a command. -/
theorem Owing.answer (h : Owing p dfd log) (hpipe : pipe.proto = p) (hdfd : pipe.dfd = dfd)
    (hC : Accountable (.line pipe ibuf)) (hg : p.giveInput ibuf = some (e, p'))
    (he : e = 0 ∨ e = EWOULDBLOCK) (hst : p'.getStatus ≠ 0) :
    completed log < accepted log ∧ ¬ p'.Busy := by
  obtain ⟨hstate, hstatus⟩ := getStatus_ne_zero hst
  have hline := h.line hpipe hC hg
  subst hpipe
  rcases giveInput_cases h.proto hg with ⟨hm, _, rfl⟩ | ⟨_, hr⟩
  · rcases hC.1 hm hstate.symm with h0 | hopen
    · exact absurd (hstatus.trans h0) hst
    · exact hline.of_open (hdfd ▸ hopen) hst
  · have herr : e ≠ EINVAL := by
      intro heq
      subst heq
      revert he
      decide
    rcases hr.settles with ⟨hfinal, _⟩ | ⟨_, ⟨hidle, rfl⟩ | ⟨hidle, hinit⟩⟩
    · have hawaits := awaits_of_isFinal hfinal
      refine ⟨h.owes (.inl (.inl hawaits)), fun hbusy => ?_⟩
      have hawaits' : awaits pipe.proto.state = true := hawaits
      rcases hbusy with hb | ⟨_, hu⟩
      · rcases hstate with hs | hs <;> rw [hs] at hb <;> cases hb
      · rcases h.sent (hr.sentUser hu) with hs | hs <;> rw [hs] at hawaits' <;> cases hawaits'
    · exact absurd (hr.error_of_idle hidle) herr
    · exact absurd hstate (by simp [hidle, hinit])

/-- What holds when a handler has returned: a completion is due where the return asks
for one. -/
def AfterHandler (err : ℤ) (s : Session) : Prop :=
  Owing s.proto s.dfd s.log ∧
    (err = EALREADY → s.proto.getStatus ≠ 0 → completed s.log < accepted s.log ∧ ¬ s.proto.Busy)

theorem Owing.move (h : Owing s.proto s.dfd s.log) (hC : Logged Accountable t) (hm : Move w s t) :
    Owing t.proto t.dfd t.log := by
  cases hm with
  | fields | sleep => exact h
  | line full hg _ _ => exact h.line rfl (hC _ List.mem_cons_self) hg
  | advance => exact h.advanceOutput
  | read => exact h.cons rfl rfl
  | throttle n => simpa using h
  | portLost hready => exact h.ported hready
  | portLeaked sock hready => exact (h.ported hready).cons rfl rfl
  | portUnwatched sock hready => exact (h.ported hready).cons rfl rfl
  | portOpened sock c hready => exact ((h.ported hready).cons rfl rfl).cons rfl rfl

theorem Owing.ends (h : Owing s.proto s.dfd s.log) (hC : Logged Accountable t) (he : Ends s e t) :
    AfterHandler e t := by
  cases he with
  | quiet => exact ⟨h, fun h0 => by cases h0⟩
  | failed e =>
      refine ⟨h.cons rfl rfl, fun hal hst => ?_⟩
      have hopen : s.dfd ≠ -1 := (hC _ List.mem_cons_self hal).resolve_left hst
      exact (h.cons rfl rfl).of_open hopen hst
  | refused full hg hne _ =>
      refine ⟨(h.line rfl (hC _ (.tail _ List.mem_cons_self)) hg).cons rfl rfl, fun hal => ?_⟩
      rcases giveInput_result h.proto hg with h0 | h0 | h0
      · exact absurd h0 hne
      · exact absurd (hal.symm.trans h0) (by decide)
      · exact absurd (hal.symm.trans h0) (by decide)
  | answered full hg he hst =>
      have hline := hC _ List.mem_cons_self
      refine ⟨h.line rfl hline hg, fun _ hst => ?_⟩
      obtain ⟨hlt, hbusy⟩ := h.answer rfl rfl hline hg he hst
      exact ⟨hlt, hbusy⟩
  | hungUp _ hdfd =>
      rw [hangUp_eq]
      refine ⟨(h.discarded s.dfd).closed, fun _ hst => ?_⟩
      exact (h.discarded s.dfd).of_open hdfd hst

theorem Owing.dropFailed (h : Owing s.proto s.dfd s.log) :
    Owing s.dropFailed.proto s.dropFailed.dfd s.dropFailed.log ∧
      completed s.dropFailed.log = completed s.log ∧ accepted s.dropFailed.log = accepted s.log ∧
      s.dropFailed.proto = s.proto := by
  rcases dropFailed_cases (s := s) with ⟨heq, _⟩ | ⟨hdrop, heq⟩
  · rw [heq]
    exact ⟨h, rfl, rfl, rfl⟩
  · rw [heq]
    refine ⟨(h.discarded s.dfd).closed, ?_, ?_, rfl⟩
    · unfold Session.discarded
      split <;> rfl
    · unfold Session.discarded
      split <;> rfl

theorem Owing.call {xerr status : ℤ} (h : Owing s.proto s.dfd s.log)
    (hdue : xerr = 0 → s.dfd = -1 ∧ completed s.log < accepted s.log ∧ ¬ s.proto.Busy) :
    Owing (s.callFtpCmdDone xerr status).proto (s.callFtpCmdDone xerr status).dfd
      (s.callFtpCmdDone xerr status).log := by
  rcases callFtpCmdDone_cases (s := s) xerr status with ⟨_, heq⟩ | heq
  · rw [heq]
    by_cases hx : xerr = 0
    · subst hx
      obtain ⟨hdfd, hlt, hbusy⟩ := hdue rfl
      have h' : Owing s.proto (-1) s.log := hdfd ▸ h
      change Owing s.proto s.dfd (.cmdDone 0 status :: s.log)
      rw [hdfd]
      exact h'.complete hlt hbusy
    · exact h.cons (by simpa [Seen.isCompletion] using hx) rfl
  · rw [heq]
    exact h.cons rfl rfl

theorem AfterHandler.report (h : AfterHandler e s) (hr : Reported s e t) :
    Owing t.proto t.dfd t.log := by
  obtain ⟨hdrop, hcompleted, haccepted, hproto⟩ := h.1.dropFailed
  cases hr with
  | kept => exact hdrop
  | told hne he => exact hdrop.call fun h0 => absurd h0 he
  | done hal hst hdfd =>
      apply hdrop.call
      intro _
      rw [hcompleted, haccepted, hproto]
      exact ⟨hdfd, h.2 hal hst⟩

theorem Owing.handled (hh : Handled w s t) (hC : Logged Accountable t)
    (h : Owing s.proto s.dfd s.log) : Owing t.proto t.dfd t.log := by
  apply hh.invariant (I := fun s => Owing s.proto s.dfd s.log) (J := AfterHandler)
    (fun s t hs hC hm => hs.move hC hm) (fun s e t hs hC he => hs.ends hC he)
    (fun t ht => ht.1) (fun t e u ht _ hr => ht.report hr) hC h

theorem Owing.issue (h : Owing p dfd log) (hi : Issued p o p') :
    Owing p' dfd (.accepted o :: log) := by
  have hle := h.accounted.count
  have hacc := accounted_cons (x := .accepted o) rfl h.accounted
  refine ⟨hi.disciplined h.proto, hi.sent h.sent, ?_, fun he => h.early (hi.early he), ?_, hacc⟩
  · intro hready
    rw [hi.port h.port] at hready
    cases hready
  · intro _
    simp only [completed, accepted, List.countP_cons, Seen.isCompletion, Seen.isAccepted] at hle ⊢
    simp only [Bool.false_eq_true, if_false, if_true]
    omega

theorem Owing.shutdown (h : Owing s.proto s.dfd s.log) :
    Owing (s.shutdown w).2.proto (s.shutdown w).2.dfd (s.shutdown w).2.log := by
  rcases shutdown_cases (s := s) (w := w) with ⟨_, heq⟩ | heq
  · rw [heq]
    exact h
  · rw [heq]
    exact ((h.discarded _).discarded _).closed.cons rfl rfl

theorem Owing.step {a : Act} (h : Owing s.proto s.dfd s.log) (hC : Logged Accountable t)
    (ha : ∀ port, a ≠ .connect port) (hs : Stepped s w a t) : Owing t.proto t.dfd t.log := by
  cases hs with
  | connectFailed port | connectClosed port | connectUnwatched port | connected port =>
      exact absurd rfl (ha port)
  | shutdown => exact h.shutdown
  | refused => exact h.cons rfl rfl
  | issued c o _ hi _ hh => exact Owing.handled hh hC (h.issue hi)
  | gotten c f hi _ _ hh => exact Owing.handled hh hC (h.issue hi)
  | ignored | wokenQuiet | returned => exact h
  | handled fd revents _ _ hh => exact Owing.handled hh hC h
  | expired =>
      exact (Owing.shutdown (s := s.delClient) h).call fun h0 => by cases h0
  | woken now _ _ _ _ hh => exact Owing.handled (s := s.woken now) hh hC h

theorem owing_of_justConnected (h : JustConnected s) : Owing s.proto s.dfd s.log := by
  obtain ⟨s₀, w, port, hlog, hc⟩ := h
  have hreset : Owing s₀.reset.proto (-1) (.connect :: s₀.log) := by
    rw [hlog]
    exact ⟨init_disciplined s₀.proto, nofun, nofun, fun _ => rfl,
      fun hb => by simp [Busy, awaits, reset, note, Session.init, FtpClientProto.init] at hb,
      ⟨le_rfl, fun status l hl => by simp [List.suffix_cons_iff] at hl⟩⟩
  cases connect_spec hc with
  | connectFailed => exact hreset
  | connectClosed => exact (hreset.cons rfl rfl).cons rfl rfl
  | connectUnwatched => exact hreset.cons rfl rfl
  | connected => exact ((hreset.cons rfl rfl).cons rfl rfl).cons rfl rfl

/-- In every run that meets the condition each completion has its command. -/
theorem completions_accounted {g : Clock}
    (h : Run (runs JustConnected) (fun _ _ k => Continues k) s g) (hC : Logged Accountable s) :
    Accounted s.log := by
  refine (runs_invariant (C := Accountable) (I := fun s _ => Owing s.proto s.dfd s.log) ?_ ?_ h hC).accounted
  · intro s _ hs
    exact ⟨(owing_of_justConnected hs).proto, owing_of_justConnected hs⟩
  · intro s _ k t hs hk hC hstep
    exact hs.step hC hk hstep

end

/-- The pipe after the first `connect`. -/
def dialled3 : Session :=
  match (fresh blank 28000).connect (calm 3 []) 21 with
  | .ok r => r.2
  | .error _ => fresh blank 28000

theorem run_dialled3 {ks : List Label} {s : Session} {g : Clock}
    (h : follow (exec fun _ _ k => decide (Continues k)) (runs JustConnected).note dialled3 0 ks =
      some (s, g)) : Run (runs JustConnected) (fun _ _ k => Continues k) s g := by
  have h0 : Run (runs JustConnected) (fun _ _ k => Continues k) dialled3 0 :=
    .start ⟨fresh blank 28000, calm 3 [], 21, rfl, rfl⟩
  exact h0.follow (fun s g k t ht => (exec_eq_some ht).imp_left of_decide_eq_true) h

/-- A login that succeeds. -/
theorem completions_accounted_login : ∃ s g, Run (runs JustConnected) (fun _ _ k => Continues k) s g ∧
    completed s.log = 1 ∧ Accounted s.log := by
  have hfollow : ((follow (exec fun _ _ k => decide (Continues k)) (runs JustConnected).note dialled3 0
      [loggingIn, arrival 0 "220 hi\n230 in\n", returning]).map fun r =>
        (completed r.1.log, r.1.log.all fun x => decide (Accountable x))) = some (1, true) := by
    decide +kernel
  obtain ⟨⟨s, g⟩, hr, heq⟩ := Option.map_eq_some_iff.1 hfollow
  rw [Prod.mk.injEq, List.all_eq_true] at heq
  have hC : Logged Accountable s := fun x hx => of_decide_eq_true (heq.2 x hx)
  exact ⟨s, g, run_dialled3 hr, heq.1, completions_accounted (run_dialled3 hr) hC⟩

/-- A multi-line refusal of one login is reported twice. -/
theorem refusal_reported_twice : ¬ ∀ s g,
    Run (runs JustConnected) (fun _ _ k => Continues k) s g → Accounted s.log := by
  intro hall
  have hfollow : ((follow (exec fun _ _ k => decide (Continues k)) (runs JustConnected).note dialled3 0
      [loggingIn, arrival 0 "220 hi\n530-no\n530-more\n", returning, arrival 0 ""]).map fun r =>
        (completed r.1.log, accepted r.1.log)) = some (2, 1) := by
    decide +kernel
  obtain ⟨⟨s, g⟩, hr, heq⟩ := Option.map_eq_some_iff.1 hfollow
  have hcount := (hall s g (run_dialled3 hr)).count
  rw [Prod.mk.injEq] at heq
  rw [heq.1, heq.2] at hcount
  exact absurd hcount (by decide)

end Session
end Dkftpbench
