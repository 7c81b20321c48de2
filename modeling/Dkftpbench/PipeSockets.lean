import Dkftpbench.LifeCycle
import Dkftpbench.PipeCompletion

/-!
# The life of the pipe's sockets

A socket comes from `socket`, is added to the poller, removed from it and closed, in
this order. The pipe has added just those that it holds as its control and its data
descriptor. The data descriptor is set only where none is held, as long as the address
of a data port is not left over from a transfer that has ended.
-/
namespace Dkftpbench
open CLib LifeCycle Watch

inductive FdPhase
  | unused | opened | registered | removed
deriving DecidableEq, Repr

inductive FdUse
  | socket | add | del | close
deriving DecidableEq, Repr

/-- A socket that was never added may be closed at once. -/
def FdPhase.next : FdPhase → FdUse → Option FdPhase
  | .unused, .socket => some .opened
  | .opened, .add => some .registered
  | .registered, .del => some .removed
  | .opened, .close => some .unused
  | .removed, .close => some .unused
  | _, _ => none

def Seen.fdUse : Seen → Option (FdUse × ℤ)
  | .socket fd => some (.socket, fd)
  | .add fd => some (.add, fd)
  | .del fd => some (.del, fd)
  | .close fd => some (.close, fd)
  | _ => none

namespace FtpClientProto

/-- A data connection is still to be opened. -/
def Dialling (p : FtpClientProto) : Prop := p.state = .pasv ∨ p.addressReady = true

/-- The protocol is in a transfer. -/
def Transfers (p : FtpClientProto) : Prop := p.state = .pasv ∨ p.state = .port ∨ p.state = .retr

section
variable {p p' : FtpClientProto} {ibuf : Line} {status e : ℤ} {o : Op}

theorem Reply.dialling (hr : Reply p ibuf status e p') (h : p'.Dialling) : p.Dialling := by
  cases hr with
  | pasvOk _ hst => exact .inl hst
  | retrMark | unexpected => exact h
  | helloUser | hello | refused | askPass | loggedIn | loginFailed | done | portOk | abandoned | retrDone =>
      exact .inr (h.resolve_left nofun)

theorem Reply.transfers (hr : Reply p ibuf status e p') (h : p'.Transfers) : p.Transfers := by
  cases hr with
  | pasvOk _ hst => exact .inl hst
  | portOk hst => exact .inr (.inl hst)
  | retrMark | unexpected => exact h
  | helloUser | hello | refused | askPass | loggedIn | loginFailed | done | abandoned | retrDone =>
      rcases h with h | h | h <;> cases h

theorem giveInput_dialling (hd : p.Disciplined) (hg : p.giveInput ibuf = some (e, p')) (h : p'.Dialling) :
    p.Dialling := by
  rcases giveInput_cases hd hg with ⟨_, _, rfl⟩ | ⟨_, hr⟩
  · exact h
  · exact hr.dialling h

theorem giveInput_transfers (hd : p.Disciplined) (hg : p.giveInput ibuf = some (e, p')) (h : p'.Transfers) :
    p.Transfers := by
  rcases giveInput_cases hd hg with ⟨_, _, rfl⟩ | ⟨_, hr⟩
  · exact h
  · exact hr.transfers h

/-- Where a status shows, no transfer is under way. -/
theorem not_transfers_of_status (h : p.getStatus ≠ 0) : ¬ p.Transfers := by
  intro ht
  rcases (getStatus_ne_zero h).1 with hst | hst <;> rcases ht with ht | ht | ht <;>
    cases hst.symm.trans ht

/-- Only a transfer in passive mode dials. -/
theorem Issued.not_dialling (hi : Issued p o p') (hport : p.addressReady = true → p.state = .retr)
    (ho : ∀ f, o ≠ .get f none) : ¬ p'.Dialling := by
  have hready := hi.port hport
  intro h
  rcases h with hpasv | hr
  · cases hi with
    | getPasv f => exact ho f rfl
    | loginEarly u v hst =>
        have hst' : p.state = .pasv := hpasv
        cases hst.symm.trans hst'
    | login | cd | type | size | getPort => cases hpasv
  · cases hready.symm.trans hr

end
end FtpClientProto

namespace Session
open FtpClientProto

def sockets : Discipline ℤ FdUse FdPhase Seen := ⟨.unused, FdPhase.next, Seen.fdUse⟩

/-- The phase of a descriptor after the calls in the log, if these were in order. -/
abbrev phase (fd : ℤ) (log : List Seen) : Option FdPhase := sockets.life fd log

/-- What is to hold of the pipe's sockets. -/
structure SocketsKept (s : Session) : Prop where
  registered : ∀ fd, phase fd s.log = some .registered ↔ fd ≠ -1 ∧ (fd = s.cfd ∨ fd = s.dfd)
  transfer : s.dfd ≠ -1 → s.state ≠ .idle
  once : ∀ fd, phase fd s.log ≠ none
  shutdown : ∀ w, (s.shutdown w).2.cfd = -1 ∧ (s.shutdown w).2.dfd = -1 ∧
    (s.shutdown w).2.queued = none ∧ ∀ fd, phase fd (s.shutdown w).2.log ≠ some .registered

/-- A new socket has a descriptor that is not in use. -/
def FreshSocket (log : List Seen) : Except ℤ ℕ → Prop
  | .ok sock => phase sock log = some .unused
  | .error _ => True

instance (log : List Seen) (r : Except ℤ ℕ) : Decidable (FreshSocket log r) :=
  match r with
  | .ok _ => inferInstanceAs (Decidable (_ = _))
  | .error _ => isTrue trivial

/-- The app connects only a fresh or shut-down pipe, and a command is issued on a
connection when the previous one was reported. -/
def Waits (s : Session) : Act → Prop
  | .connect _ => s.cfd = -1 ∧ s.dfd = -1
  | .command _ => s.cfd ≠ -1 ∧ mayIssue s.log = true
  | .pollEvent _ _ | .shutdown | .timer _ | .cmdDoneReturns => True

instance (s : Session) (a : Act) : Decidable (Waits s a) :=
  match a with
  | .connect _ | .command _ => inferInstanceAs (Decidable (_ ∧ _))
  | .pollEvent _ _ | .shutdown | .timer _ | .cmdDoneReturns => isTrue trivial

/-- The poller accepts what it is given, and the kernel hands out no descriptor twice. -/
def Reliable (s : Session) (_ : Clock) (k : Label) : Prop :=
  Waits s k.act ∧ k.world.add = 0 ∧ FreshSocket s.log k.world.socket

instance (s : Session) (g : Clock) (k : Label) : Decidable (Reliable s g k) :=
  inferInstanceAs (Decidable (_ ∧ _))

/-- No final reply to RETR comes before the address of the data port was taken. -/
def Prompt : Seen → Prop
  | .line pipe ibuf => pipe.proto.PortFirst ibuf
  | _ => True

instance (x : Seen) : Decidable (Prompt x) :=
  match x with
  | .line pipe ibuf => inferInstanceAs (Decidable (pipe.proto.PortFirst ibuf))
  | .connect | .connected | .shutdown | .accepted _ | .refused _ _ | .socket _ | .add _ | .del _
  | .close _ | .failed _ _ | .dataIo _ _ | .cmdDone _ _ | .withheld _ _ _ => isTrue trivial

/-- The registered descriptors are `cfd` and `dfd`, and nothing was done out of order. -/
structure Watched (cfd dfd : ℤ) (log : List Seen) : Prop where
  apart : cfd = dfd → cfd = -1
  held : ∀ fd, fd ≠ -1 → fd = cfd ∨ fd = dfd → phase fd log = some .registered
  rest : ∀ fd, fd = -1 ∨ fd ≠ cfd ∧ fd ≠ dfd → phase fd log = some .unused ∨ phase fd log = some .opened

section
variable {cfd dfd fd fd' : ℤ} {log : List Seen} {x : Seen} {sock : ℕ}

theorem Watched.swap (h : Watched cfd dfd log) : Watched dfd cfd log where
  apart he := he.trans (h.apart he.symm)
  held fd hne hfd := h.held fd hne hfd.symm
  rest fd hfd := h.rest fd (hfd.imp_right And.symm)

theorem Watched.cons (h : Watched cfd dfd log) (hx : x.fdUse = none) : Watched cfd dfd (x :: log) := by
  have hskip : ∀ fd, phase fd (x :: log) = phase fd log := fun fd => life_skip hx
  refine ⟨h.apart, fun fd hne hfd => ?_, fun fd hfd => ?_⟩
  · rw [hskip]
    exact h.held fd hne hfd
  · rw [hskip]
    exact h.rest fd hfd

theorem phase_discarded (hfd : fd ≠ -1) (h : phase fd log = some .registered) :
    phase fd (discarded fd log) = some .unused := by
  rw [discarded, if_pos hfd]
  have hdel : phase fd (.del fd :: log) = some .removed := life_same rfl h rfl
  exact life_same rfl hdel rfl

theorem phase_discarded_of_ne (hne : fd ≠ fd') : phase fd (discarded fd' log) = phase fd log := by
  unfold discarded
  split
  · exact (life_other rfl hne).trans (life_other rfl hne)
  · rfl

theorem Watched.discard (h : Watched cfd dfd log) : Watched cfd (-1) (discarded dfd log) where
  apart he := he
  held fd hne hfd := by
    have hfd := hfd.resolve_right hne
    have hother : fd ≠ dfd := by
      intro hd
      exact hne (hfd.trans (h.apart (hfd.symm.trans hd)))
    rw [phase_discarded_of_ne hother]
    exact h.held fd hne (.inl hfd)
  rest fd hfd := by
    by_cases hd : fd = dfd
    · subst hd
      by_cases hne : fd = -1
      · rw [discarded, if_neg (not_not.2 hne)]
        exact h.rest fd (.inl hne)
      · exact .inl (phase_discarded hne (h.held fd hne (.inr rfl)))
    · rw [phase_discarded_of_ne hd]
      exact h.rest fd (hfd.imp_right fun hc => ⟨hc.1, hd⟩)

/-- A descriptor that is not in use is not one of the pipe's. -/
theorem Watched.ne_of_unused (h : Watched cfd dfd log) (hfd : fd ≠ -1) (hu : phase fd log = some .unused) :
    fd ≠ cfd ∧ fd ≠ dfd := by
  rw [← not_or]
  intro hmine
  cases hu.symm.trans (h.held fd hfd hmine)

/-- A socket that is opened, and then given up without being closed. -/
theorem Watched.leak (h : Watched cfd dfd log) (hu : phase sock log = some .unused) :
    Watched cfd dfd (.socket sock :: log) := by
  have hother := h.ne_of_unused (by omega) hu
  refine ⟨h.apart, fun fd hne hfd => ?_, fun fd hfd => ?_⟩
  · have hne' : fd ≠ sock := by
      intro he
      exact hfd.elim (he ▸ hother.1) (he ▸ hother.2)
    exact (life_other rfl hne').trans (h.held fd hne hfd)
  · by_cases he : fd = sock
    · subst he
      exact .inr (life_same rfl hu rfl)
    · have hsame : phase fd (.socket sock :: log) = phase fd log := life_other rfl he
      rw [hsame]
      exact h.rest fd hfd

theorem phase_opened (hu : phase sock log = some .unused) :
    phase sock (.socket sock :: log) = some .opened := life_same rfl hu rfl

/-- A socket that is opened and closed at once. -/
theorem Watched.giveUp (h : Watched cfd dfd log) (hu : phase sock log = some .unused) :
    Watched cfd dfd (.close sock :: .socket sock :: log) := by
  have hleak := h.leak hu
  refine ⟨h.apart, fun fd hne hfd => ?_, fun fd hfd => ?_⟩
  · have hne' : fd ≠ sock := by
      intro heq
      subst heq
      cases (phase_opened hu).symm.trans (hleak.held _ hne hfd)
    exact (life_other rfl hne').trans (hleak.held fd hne hfd)
  · by_cases he : fd = sock
    · subst he
      exact .inl (life_same rfl (phase_opened hu) rfl)
    · have hsame : phase fd (.close sock :: .socket sock :: log) = phase fd (.socket sock :: log) :=
        life_other rfl he
      rw [hsame]
      exact hleak.rest fd hfd

/-- A socket that is opened, added and held. -/
theorem Watched.add (h : Watched cfd (-1) log) (hu : phase sock log = some .unused) :
    Watched cfd sock (.add sock :: .socket sock :: log) := by
  have hleak := h.leak hu
  have hne : (sock : ℤ) ≠ -1 := by omega
  have hother := h.ne_of_unused hne hu
  refine ⟨fun he => absurd he.symm hother.1, fun fd hne hfd => ?_, fun fd hfd => ?_⟩
  · by_cases he : fd = sock
    · subst he
      exact life_same rfl (phase_opened hu) rfl
    · exact (life_other rfl he).trans (hleak.held fd hne (.inl (hfd.resolve_right he)))
  · have he : fd ≠ sock := by
      rcases hfd with rfl | hfd
      · omega
      · exact hfd.2
    have hsame : phase fd (.add sock :: .socket sock :: log) = phase fd (.socket sock :: log) :=
      life_other rfl he
    rw [hsame]
    refine hleak.rest fd ?_
    by_cases hne : fd = -1
    · exact .inl hne
    · exact .inr ⟨(hfd.resolve_left hne).1, hne⟩

theorem Watched.registered (h : Watched cfd dfd log) :
    phase fd log = some .registered ↔ fd ≠ -1 ∧ (fd = cfd ∨ fd = dfd) := by
  constructor
  · intro hr
    by_contra hnot
    rw [not_and_or, not_not, not_or] at hnot
    rcases h.rest fd hnot with hu | ho
    · cases hr.symm.trans hu
    · cases hr.symm.trans ho
  · exact fun hfd => h.held fd hfd.1 hfd.2

theorem Watched.once (h : Watched cfd dfd log) : phase fd log ≠ none := by
  intro hnone
  by_cases hmine : fd ≠ -1 ∧ (fd = cfd ∨ fd = dfd)
  · cases hnone.symm.trans (h.held fd hmine.1 hmine.2)
  · rw [not_and_or, not_not, not_or] at hmine
    rcases h.rest fd hmine with hu | ho
    · cases hnone.symm.trans hu
    · cases hnone.symm.trans ho

end

/-- The pipe between its steps. -/
structure Kept (s : Session) : Prop where
  proto : s.proto.Disciplined
  port : s.proto.addressReady = true → s.proto.state = .retr
  off : s.cfd = -1 → s.dfd = -1 ∧ s.queued = none
  transfer : s.dfd ≠ -1 → s.state ≠ .idle
  dialling : s.cfd ≠ -1 → s.proto.Dialling → s.state = .getting ∧ s.dfd = -1
  may : mayIssue s.log = true → s.dfd = -1 ∧ ¬ s.proto.Transfers
  watched : Watched s.cfd s.dfd s.log

/-- The descriptor that the kernel has for the next socket was not given out yet, as
long as a data connection is to be opened. -/
def Unspent (w : World) (s : Session) : Prop := s.proto.Dialling → FreshSocket s.log w.socket

/-- What holds in a handler. -/
def Handling (w : World) (s : Session) : Prop := Kept s ∧ s.cfd ≠ -1 ∧ Unspent w s

section
variable {p p' : FtpClientProto} {x : Seen} {ibuf : Line} {e : ℤ} {o : Op} {f : CStr} {sock : ℕ}
variable {w : World} {s t u : Session}

/-- Entries that tell the app nothing and are about no descriptor. -/
theorem Kept.cons (h : Kept s) (hm : mayIssue (x :: s.log) = mayIssue s.log) (hx : x.fdUse = none) :
    Kept { s with log := x :: s.log } where
  proto := h.proto
  port := h.port
  off := h.off
  transfer := h.transfer
  dialling := h.dialling
  may hmay := h.may (hm.symm.trans hmay)
  watched := h.watched.cons hx

theorem FreshSocket.cons {log : List Seen} {r : Except ℤ ℕ} (h : FreshSocket log r) (hx : x.fdUse = none) :
    FreshSocket (x :: log) r := by
  cases r with
  | error e => trivial
  | ok sock => exact (life_skip hx).trans h

theorem Handling.cons (h : Handling w s) (hm : mayIssue (x :: s.log) = mayIssue s.log)
    (hx : x.fdUse = none) : Handling w { s with log := x :: s.log } :=
  ⟨h.1.cons hm hx, h.2.1, fun hd => (h.2.2 hd).cons hx⟩

theorem Handling.line {full : Bool} (h : Handling w s) (hC : Prompt (.line s.toFtpClientPipe ibuf))
    (hg : s.proto.giveInput ibuf = some (e, p)) : Handling w (s.taken ibuf p full) := by
  obtain ⟨h, hcfd, hu⟩ := h
  refine ⟨?_, hcfd, fun hd => (hu (giveInput_dialling h.proto hg hd)).cons rfl⟩
  exact {
    proto := giveInput_disciplined h.proto hg
    port := giveInput_port h.proto h.port hC hg
    off := fun hoff => absurd hoff hcfd
    transfer := h.transfer
    dialling := fun _ hd => h.dialling hcfd (giveInput_dialling h.proto hg hd)
    may := fun hm => ⟨(h.may hm).1, fun ht => (h.may hm).2 (giveInput_transfers h.proto hg ht)⟩
    watched := h.watched.cons rfl }

theorem Kept.throttle {now : Clock} {n : ℤ} (h : Kept s) : Kept (s.throttle now n) where
  proto := by simpa using h.proto
  port := by simpa using h.port
  off := by simpa using h.off
  transfer := by simpa using h.transfer
  dialling := by simpa using h.dialling
  may := by simpa using h.may
  watched := by simpa using h.watched

/-- The address of the data port is taken. -/
theorem Kept.ported (h : Kept s) : Kept s.ported where
  proto := ⟨h.proto.outside, h.proto.inside⟩
  port := nofun
  off := h.off
  transfer := h.transfer
  dialling hcfd hd := h.dialling hcfd (.inl (hd.resolve_right nofun))
  may := h.may
  watched := h.watched

/-- No data connection is to be opened once the address was taken. -/
theorem Kept.not_dialling_ported (h : Kept s) (hready : s.proto.addressReady = true) :
    ¬ s.ported.proto.Dialling := by
  intro hd
  have hpasv : s.proto.state = .pasv := hd.resolve_right nofun
  cases hpasv.symm.trans (h.port hready)

/-- A data connection is opened where none is open, in a transfer. -/
theorem Kept.openPort (h : Kept s) (hcfd : s.cfd ≠ -1) (hready : s.proto.addressReady = true)
    (hu : phase sock s.log = some .unused) (connecting : Bool) :
    Kept { (s.ported.note (.socket sock)).note (.add sock) with
      dfdConnecting := connecting, dfd := sock } := by
  obtain ⟨hst, hdfd⟩ := h.dialling hcfd (.inr hready)
  have hw := h.watched
  rw [hdfd] at hw
  exact {
    proto := h.ported.proto
    port := nofun
    off := fun hoff => absurd hoff hcfd
    transfer := fun _ hidle => by cases hst.symm.trans hidle
    dialling := fun _ hd => absurd hd (h.not_dialling_ported hready)
    may := fun hm => absurd (.inr (.inr (h.port hready))) (h.may hm).2
    watched := hw.add hu }

theorem Handling.move (hadd : w.add = 0) (h : Handling w s) (hC : Logged Prompt t) (hm : Move w s t) :
    Handling w t := by
  have hkept := h.1
  have hcfd := h.2.1
  have hunspent := h.2.2
  have fresh : ∀ {sock : ℕ}, s.proto.addressReady = true → w.socket = .ok sock →
      phase sock s.log = some .unused := by
    intro sock hready hsock
    have hf := hunspent (.inr hready)
    rwa [hsock] at hf
  cases hm with
  | fields =>
      exact ⟨⟨hkept.proto, hkept.port, hkept.off, hkept.transfer, hkept.dialling, hkept.may,
        hkept.watched⟩, hcfd, hunspent⟩
  | advance =>
      exact ⟨⟨⟨hkept.proto.outside, hkept.proto.inside⟩, hkept.port, hkept.off, hkept.transfer,
        hkept.dialling, hkept.may, hkept.watched⟩, hcfd, hunspent⟩
  | line full hg => exact h.line (hC _ List.mem_cons_self) hg
  | sleep hst hdfd =>
      refine ⟨⟨hkept.proto, hkept.port, fun hoff => absurd hoff hcfd, nofun, fun _ hd => ?_, hkept.may,
        hkept.watched⟩, hcfd, hunspent⟩
      exact absurd (hkept.dialling hcfd hd).2 hdfd
  | read =>
      have hdel : Handling w s.delClient :=
        ⟨⟨hkept.proto, hkept.port, fun hoff => absurd hoff hcfd, hkept.transfer, hkept.dialling, hkept.may,
          hkept.watched⟩, hcfd, hunspent⟩
      exact hdel.cons rfl rfl
  | throttle n => exact ⟨hkept.throttle, by simpa using hcfd, by simpa [Unspent] using hunspent⟩
  | portLost hready =>
      exact ⟨hkept.ported, hcfd, fun hd => absurd hd (hkept.not_dialling_ported hready)⟩
  | portLeaked sock hready hsock =>
      have hp := hkept.ported
      refine ⟨⟨hp.proto, hp.port, hp.off, hp.transfer, hp.dialling, hp.may, ?_⟩, hcfd,
        fun hd => absurd hd (hkept.not_dialling_ported hready)⟩
      exact hp.watched.leak (fresh hready hsock)
  | portUnwatched sock _ _ hne => exact absurd hadd hne
  | portOpened sock c hready hsock =>
      exact ⟨hkept.openPort hcfd hready (fresh hready hsock) c, hcfd,
        fun hd => absurd hd (hkept.not_dialling_ported hready)⟩

/-- The data descriptor is given up; none is to be opened. -/
theorem Handling.discard (h : Handling w s) (hdfd : s.dfd ≠ -1) (state : PipeState) (queued : Option Clock)
    (connecting : Bool) :
    Handling w { s with state := state, queued := queued, dfdConnecting := connecting, dfd := -1
                        log := discarded s.dfd s.log } := by
  obtain ⟨h, hcfd, _⟩ := h
  have hnot : ¬ s.proto.Dialling := fun hd => hdfd (h.dialling hcfd hd).2
  refine ⟨?_, hcfd, fun hd => absurd hd hnot⟩
  exact {
    proto := h.proto
    port := h.port
    off := fun hoff => absurd hoff hcfd
    transfer := fun hne => absurd rfl hne
    dialling := fun _ hd => absurd hd hnot
    may := fun hm => by
      rw [mayIssue_discarded] at hm
      exact ⟨rfl, (h.may hm).2⟩
    watched := h.watched.discard }

theorem Handling.ends (h : Handling w s) (hC : Logged Prompt t) (he : Ends s e t) : Handling w t := by
  cases he with
  | quiet => exact h
  | failed e => exact h.cons rfl rfl
  | refused full hg => exact (h.line (hC _ (.tail _ List.mem_cons_self)) hg).cons rfl rfl
  | answered full hg => exact h.line (hC _ List.mem_cons_self) hg
  | hungUp _ hdfd =>
      rw [hangUp_eq]
      exact h.discard hdfd .idle none s.dfdConnecting

theorem Handling.dropFailed (h : Handling w s) : Handling w s.dropFailed := by
  rcases dropFailed_cases (s := s) with ⟨heq, _⟩ | ⟨⟨_, _, hdfd⟩, heq⟩
  · rw [heq]
    exact h
  · rw [heq]
    exact h.discard hdfd s.state s.queued false

/-- The app is called: with an error, or when a command is done and nothing is open. -/
theorem Kept.call {xerr status : ℤ} (h : Kept s) (hdone : xerr = 0 → s.dfd = -1 ∧ ¬ s.proto.Transfers) :
    Kept (s.callFtpCmdDone xerr status) := by
  rcases callFtpCmdDone_cases (s := s) xerr status with ⟨_, heq⟩ | heq
  · rw [heq]
    refine ⟨h.proto, h.port, h.off, h.transfer, h.dialling, fun hm => ?_, h.watched.cons rfl⟩
    by_cases hx : xerr = 0
    · exact hdone hx
    · apply h.may
      simpa [mayIssue, hx] using hm
  · rw [heq]
    exact h.cons rfl rfl

theorem Handling.call {xerr status : ℤ} (h : Handling w s)
    (hdone : xerr = 0 → s.dfd = -1 ∧ ¬ s.proto.Transfers) :
    Handling w (s.callFtpCmdDone xerr status) := by
  obtain ⟨h, hcfd, hu⟩ := h
  refine ⟨h.call hdone, by rwa [callFtpCmdDone_cfd], ?_⟩
  rcases callFtpCmdDone_cases (s := s) xerr status with ⟨_, heq⟩ | heq
  · rw [heq]
    exact fun hd => (hu hd).cons rfl
  · rw [heq]
    exact fun hd => (hu hd).cons rfl

theorem Handling.report (h : Handling w s) (hr : Reported s e t) : Handling w t := by
  have hdrop := h.dropFailed
  cases hr with
  | kept => exact hdrop
  | told _ he => exact hdrop.call fun h0 => absurd h0 he
  | done _ hst hdfd =>
      apply hdrop.call
      intro _
      refine ⟨hdfd, ?_⟩
      rw [dropFailed_proto]
      exact not_transfers_of_status hst

theorem Handling.handled (hh : Handled w s t) (hC : Logged Prompt t) (hadd : w.add = 0)
    (h : Handling w s) : Kept t := by
  have hkeep := hh.invariant (I := Handling w) (J := fun _ => Handling w)
    (fun s t hs hC hm => hs.move hadd hC hm) (fun s e t hs hC he => hs.ends hC he) (fun t ht => ht)
    (fun t e u ht _ hr => ht.report hr) hC h
  exact hkeep.1

theorem Kept.delClient (h : Kept s) : Kept s.delClient where
  proto := h.proto
  port := h.port
  off hoff := ⟨(h.off hoff).1, rfl⟩
  transfer := h.transfer
  dialling := h.dialling
  may := h.may
  watched := h.watched

theorem Kept.shutdown (h : Kept s) : Kept (s.shutdown w).2 := by
  rcases shutdown_cases (s := s) (w := w) with ⟨_, heq⟩ | heq
  · rw [heq]
    exact h
  · rw [heq]
    exact {
      proto := h.proto
      port := h.port
      off := fun _ => ⟨rfl, rfl⟩
      transfer := fun hne => absurd rfl hne
      dialling := fun hne => absurd rfl hne
      may := nofun
      watched := h.watched.swap.discard.swap.discard.cons rfl }

/-- After `shutdown` the pipe holds nothing. -/
theorem Kept.after_shutdown (h : Kept s) :
    (s.shutdown w).2.cfd = -1 ∧ (s.shutdown w).2.dfd = -1 ∧ (s.shutdown w).2.queued = none := by
  rcases shutdown_cases (s := s) (w := w) with ⟨⟨hcfd, hdfd⟩, heq⟩ | heq
  · rw [heq]
    exact ⟨hcfd, hdfd, (h.off hcfd).2⟩
  · rw [heq]
    exact ⟨rfl, rfl, rfl⟩

theorem Handling.issue (h : Kept s) (hcfd : s.cfd ≠ -1) (hm : mayIssue s.log = true)
    (hi : Issued s.proto o p) (ho : ∀ f, o ≠ .get f none) : Handling w (s.issued o p) := by
  have hnot : ¬ p.Dialling := hi.not_dialling h.port ho
  have hdfd := (h.may hm).1
  refine ⟨?_, hcfd, fun hd => absurd hd hnot⟩
  exact {
    proto := hi.disciplined h.proto
    port := fun hready => absurd (.inr hready) hnot
    off := fun hoff => absurd hoff hcfd
    transfer := fun hopen => absurd hdfd hopen
    dialling := fun _ hd => absurd hd hnot
    may := nofun
    watched := h.watched.cons rfl }

theorem Handling.get (h : Kept s) (hcfd : s.cfd ≠ -1) (hm : mayIssue s.log = true)
    (hi : Issued s.proto (.get f none) p) (hfresh : FreshSocket s.log w.socket) :
    Handling w ((s.issued (.get f none) p).awaiting w) := by
  have hready := hi.port h.port
  have hdfd := (h.may hm).1
  refine ⟨?_, hcfd, fun _ => hfresh.cons rfl⟩
  exact {
    proto := hi.disciplined h.proto
    port := fun hr => by cases hready.symm.trans hr
    off := fun hoff => absurd hoff hcfd
    transfer := fun hopen => absurd hdfd hopen
    dialling := fun _ _ => ⟨rfl, hdfd⟩
    may := nofun
    watched := h.watched.cons rfl }

theorem Kept.reset (h : Kept s) (hcfd : s.cfd = -1) : Kept s.reset := by
  obtain ⟨hdfd, hq⟩ := h.off hcfd
  have hw := h.watched
  rw [hcfd, hdfd] at hw
  exact {
    proto := init_disciplined s.proto
    port := nofun
    off := fun _ => ⟨rfl, hq⟩
    transfer := fun hne => absurd rfl hne
    dialling := fun hne => absurd rfl hne
    may := nofun
    watched := hw.cons rfl }

/-- A control connection is opened. -/
theorem Kept.dialled (h : Kept s.reset) (hu : phase sock s.reset.log = some .unused) (connecting : Bool) :
    Kept (s.dialled w sock connecting) where
  proto := h.proto
  port := nofun
  off hoff := by
    have hsock : (sock : ℤ) = -1 := hoff
    omega
  transfer hne := absurd rfl hne
  dialling _ hd := by
    rcases hd with hd | hd <;> cases hd
  may _ := by
    refine ⟨rfl, fun ht => ?_⟩
    rcases ht with ht | ht | ht <;> cases ht
  watched := (h.watched.swap.add hu).swap.cons rfl

/-- A sleeping pipe is called at its time. -/
theorem Kept.wake (h : Kept s) (hcfd : s.cfd ≠ -1) (events : Revents) (when : Clock) :
    Kept { s with queued := none, state := .getting, dfdEvents := events, wakeup := when } where
  proto := h.proto
  port := h.port
  off hoff := absurd hoff hcfd
  transfer _ := nofun
  dialling hc hd := ⟨rfl, (h.dialling hc hd).2⟩
  may := h.may
  watched := h.watched

theorem Kept.step {a : Act} (h : Kept s) (hwait : Waits s a) (hadd : w.add = 0)
    (hfresh : FreshSocket s.log w.socket) (hC : Logged Prompt t) (hs : Stepped s w a t) : Kept t := by
  have unused : ∀ {sock : ℕ}, w.socket = .ok sock → phase sock s.log = some .unused := by
    intro sock hsock
    rwa [hsock] at hfresh
  cases hs with
  | connectFailed => exact h.reset hwait.1
  | connectClosed port sock hsock =>
      have hr := h.reset hwait.1
      have hu : phase sock s.reset.log = some .unused := (life_skip rfl).trans (unused hsock)
      exact ⟨hr.proto, hr.port, hr.off, hr.transfer, hr.dialling, hr.may, hr.watched.giveUp hu⟩
  | connectUnwatched port sock c _ hne => exact absurd hadd hne
  | connected port sock c hsock =>
      have hu : phase sock s.reset.log = some .unused := (life_skip rfl).trans (unused hsock)
      exact (h.reset hwait.1).dialled hu c
  | shutdown => exact h.shutdown
  | refused => exact h.cons rfl rfl
  | issued c o ho hi _ hh =>
      exact Handling.handled hh hC hadd (Handling.issue h hwait.1 hwait.2 hi ho)
  | gotten c f hi _ _ hh =>
      exact Handling.handled hh hC hadd (Handling.get h hwait.1 hwait.2 hi hfresh)
  | ignored => exact h
  | handled fd revents hfd hmine hh =>
      have hcfd : s.cfd ≠ -1 := by
        rcases hmine with hd | hc
        · exact fun hoff => hfd (hd.trans (h.off hoff).1)
        · exact hc ▸ hfd
      exact Handling.handled hh hC hadd ⟨h, hcfd, fun _ => hfresh⟩
  | expired =>
      unfold shutdownAndNotify
      exact h.delClient.shutdown.call fun h0 => by cases h0
  | wokenQuiet now hq =>
      have hcfd : s.cfd ≠ -1 := fun hoff => by cases hq.symm.trans (h.off hoff).2
      exact h.wake hcfd s.dfdEvents s.wakeup
  | woken now _ _ _ hdfd hh =>
      have hcfd : s.cfd ≠ -1 := fun hoff => hdfd (h.off hoff).1
      exact Handling.handled (s := s.woken now) hh hC hadd
        ⟨h.wake hcfd 0 now, hcfd, fun _ => hfresh⟩
  | returned => exact ⟨h.proto, h.port, h.off, h.transfer, h.dialling, h.may, h.watched⟩

theorem kept_of_fresh (h : IsFresh s) : Kept s := by
  obtain ⟨memory, rate, rfl⟩ := h
  exact {
    proto := init_disciplined memory.proto
    port := nofun
    off := fun _ => ⟨rfl, rfl⟩
    transfer := fun hne => absurd rfl hne
    dialling := fun hne => absurd rfl hne
    may := nofun
    watched := ⟨fun _ => rfl, fun fd hne hfd => absurd (hfd.elim id id) hne, fun _ _ => .inl rfl⟩ }

theorem Kept.sockets (h : Kept s) : SocketsKept s where
  registered _ := h.watched.registered
  transfer := h.transfer
  once _ := h.watched.once
  shutdown w := by
    obtain ⟨hcfd, hdfd, hq⟩ := h.after_shutdown (w := w)
    refine ⟨hcfd, hdfd, hq, fun fd hr => ?_⟩
    obtain ⟨hne, hmine⟩ := h.shutdown.watched.registered.1 hr
    rw [hcfd, hdfd] at hmine
    exact hne (hmine.elim id id)

/-- In every run that meets the condition the pipe keeps its sockets in order. -/
theorem sockets_kept {g : Clock} (h : Run (runs IsFresh) Reliable s g) (hC : Logged Prompt s) :
    SocketsKept s := by
  apply Kept.sockets
  apply runs_invariant (C := Prompt) (I := fun s _ => Kept s) _ _ h hC
  · intro s _ hs
    exact ⟨(kept_of_fresh hs).proto, kept_of_fresh hs⟩
  · intro s _ k t hs hok hC hstep
    exact hs.step hok.1 hok.2.1 hok.2.2 hC hstep

end

/-- A file is fetched over descriptor 4, which is closed at the end. -/
theorem sockets_kept_get : ∃ s g, Run (runs IsFresh) Reliable s g ∧
    (phase 3 s.log = some .registered ∧ phase 4 s.log = some .unused) ∧ SocketsKept s := by
  have hfollow : ((follow (exec fun s g k => decide (Reliable s g k)) (runs IsFresh).note
      (fresh blank 28000) 0
      [connecting, loggingIn, arrival 0 "220 hi\n230 in\n", returning, fetching,
        arrival 4 "227 (1,2,3,4,5,6)\n", arrival 0 "150 go\n226 ok\n",
        ⟨.pollEvent 4 POLLHUP, calm 0 []⟩]).map fun r =>
        (phase 3 r.1.log, phase 4 r.1.log, r.1.log.all fun x => decide (Prompt x))) =
          some (some .registered, some .unused, true) := by
    decide +kernel
  obtain ⟨⟨s, g⟩, hr, heq⟩ := Option.map_eq_some_iff.1 hfollow
  rw [Prod.mk.injEq, Prod.mk.injEq, List.all_eq_true] at heq
  have hC : Logged Prompt s := fun x hx => of_decide_eq_true (heq.2.2 x hx)
  exact ⟨s, g, run_fresh hr, ⟨heq.1, heq.2.1⟩, sockets_kept (run_fresh hr) hC⟩

/-- The final reply comes in one read with the address. A data connection is opened for
the finished `get`, and forgotten when the next one opens its own. -/
theorem stale_socket_forgotten : ¬ ∀ s g, Run (runs IsFresh) Reliable s g → SocketsKept s := by
  intro hall
  have hfollow : ((follow (exec fun s g k => decide (Reliable s g k)) (runs IsFresh).note
      (fresh blank 28000) 0
      [connecting, loggingIn, arrival 0 "220 hi\n230 in\n", returning, fetching,
        arrival 0 "227 (1,2,3,4,5,6)\n550 no\n", returning, arrival 4 "",
        ⟨.pollEvent 4 POLLIN, calm 0 []⟩, fetching, arrival 5 "227 (1,2,3,4,5,6)\n"]).map fun r =>
        (phase 4 r.1.log, r.1.cfd, r.1.dfd)) = some (some .registered, 3, 5) := by
    decide +kernel
  obtain ⟨⟨s, g⟩, hr, heq⟩ := Option.map_eq_some_iff.1 hfollow
  rw [Prod.mk.injEq, Prod.mk.injEq] at heq
  obtain ⟨h4, hcfd, hdfd⟩ := heq
  obtain ⟨_, hmine⟩ := ((hall s g (run_fresh hr)).registered 4).1 h4
  rw [hcfd, hdfd] at hmine
  revert hmine
  decide

end Session
end Dkftpbench
