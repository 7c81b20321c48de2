import Dkftpbench.PipeLogin
import Dkftpbench.PipeSockets

/-!
# What a pipe has in hand

Whatever the server sends, a descriptor that the poller knows is one that the pipe holds,
as long as every `get` found memory for its entry in the scheduler. That entry is what
keeps the next `get` from being accepted while the address of a data port is left over.
Without it, what is queued is at least connected. So `shutdown` leaves nothing behind.
-/
namespace Dkftpbench
open CLib LifeCycle

namespace FtpClientProto
variable {p p' : FtpClientProto} {ibuf : Line} {status e : ℤ} {o : Op}

/-- No reply makes a pipe ask for an address. -/
theorem Reply.not_pasv (hr : Reply p ibuf status e p') : p'.state ≠ .pasv := by
  cases hr with
  | retrMark hst =>
      rw [hst]
      exact nofun
  | unexpected hst => rcases hst with hst | hst | hst | hst <;> simp [hst]
  | helloUser | hello | refused | askPass | loggedIn | loginFailed | done | portOk | pasvOk | abandoned | retrDone =>
      exact nofun

theorem giveInput_asked (hd : p.Disciplined) (hg : p.giveInput ibuf = some (e, p')) (h : p'.state = .pasv) :
    p.state = .pasv ∧ p'.addressReady = p.addressReady := by
  rcases giveInput_cases hd hg with ⟨_, _, rfl⟩ | ⟨_, hr⟩
  · exact ⟨h, rfl⟩
  · exact absurd h hr.not_pasv

/-- Where another command than `get` dials, an address was left over. -/
theorem Issued.left_over (hi : Issued p o p') (ho : ∀ f, o ≠ .get f none) (h : p'.Dialling) :
    p'.state ≠ .pasv ∧ p.addressReady = true := by
  cases hi with
  | getPasv f => exact absurd rfl (ho f)
  | loginEarly u v hst =>
      have hnot : p.state ≠ .pasv := by
        rw [hst]
        exact nofun
      exact ⟨hnot, h.resolve_left hnot⟩
  | login | cd | type | size | getPort => exact ⟨nofun, h.resolve_left nofun⟩

end FtpClientProto

namespace Session
open FtpClientProto

/-- What the poller knows: the last call about a descriptor was `add`. -/
def interest : Discipline ℤ Bool Bool Seen where
  unused := false
  next _ a := some a
  entry
    | .add fd => some (true, fd)
    | .del fd => some (false, fd)
    | _ => none

/-- The descriptor is registered in the poller after these calls. -/
def Registered (fd : ℤ) (log : List Seen) : Prop := interest.life fd log = some true

instance (fd : ℤ) (log : List Seen) : Decidable (Registered fd log) := inferInstanceAs (Decidable (_ = _))

section
variable {fd fd' : ℤ} {x : Seen} {log : List Seen}

theorem registered_skip (hx : interest.entry x = none) : Registered fd (x :: log) ↔ Registered fd log := by
  rw [Registered, life_skip hx, Registered]

/-- Nothing that is done to the poller is out of order. -/
theorem life_known (fd : ℤ) (log : List Seen) : ∃ known, interest.life fd log = some known :=
  life_of_total fun _ a => ⟨a, rfl⟩

theorem registered_add : Registered fd (.add fd' :: log) ↔ fd = fd' ∨ Registered fd log := by
  by_cases hfd : fd = fd'
  · obtain ⟨known, hk⟩ := life_known fd log
    exact iff_of_true (life_same (congrArg (fun f => some (true, f)) hfd.symm) hk rfl) (.inl hfd)
  · rw [Registered, life_other rfl hfd]
    exact (or_iff_right hfd).symm

theorem registered_del : Registered fd (.del fd' :: log) ↔ fd ≠ fd' ∧ Registered fd log := by
  by_cases hfd : fd = fd'
  · obtain ⟨known, hk⟩ := life_known fd log
    have hlife := life_same (x := .del fd') (congrArg (fun f => some (false, f)) hfd.symm) hk rfl
    refine iff_of_false (fun h => ?_) fun h => h.1 hfd
    cases hlife.symm.trans h
  · rw [Registered, life_other rfl hfd]
    exact (and_iff_right hfd).symm

theorem registered_discarded (h : Registered fd (discarded fd' log)) :
    Registered fd log ∧ (fd = fd' → fd' = -1) := by
  unfold discarded at h
  split at h
  · rw [registered_skip rfl, registered_del] at h
    exact ⟨h.2, fun heq => absurd heq h.1⟩
  · next hne => exact ⟨h, fun _ => not_not.1 hne⟩

end

/-- The pipe between its steps. `mem` is that every `get` found memory for its entry. -/
structure InHand (mem : Prop) (s : Session) : Prop where
  proto : s.proto.Disciplined
  off : s.cfd = -1 → s.dfd = -1 ∧ s.queued = none
  registered : mem → ∀ fd, Registered fd s.log → fd ≠ -1 ∧ (fd = s.cfd ∨ fd = s.dfd)
  dialling : mem → s.cfd ≠ -1 → s.proto.Dialling → s.state = .getting ∧ s.dfd = -1 ∧ s.queued ≠ none
  asked : mem → s.proto.state = .pasv → s.proto.addressReady = false

/-- The pipe in a handler. -/
def Serves (mem : Prop) (s : Session) : Prop := InHand mem s ∧ s.cfd ≠ -1

section
variable {mem : Prop} {w : World} {s t u : Session} {p : FtpClientProto} {ibuf : Line} {x : Seen} {e xerr status : ℤ}
  {o : Op} {f : CStr} {fd : ℤ} {revents : Revents}

/-- An entry that is about no registration. -/
theorem Serves.cons (h : Serves mem s) (hx : interest.entry x = none) : Serves mem { s with log := x :: s.log } := by
  obtain ⟨h, hcfd⟩ := h
  exact ⟨⟨h.proto, h.off, fun hmem fd hfd => h.registered hmem fd ((registered_skip hx).1 hfd), h.dialling, h.asked⟩,
    hcfd⟩

/-- A line is given to the protocol. While an address is awaited the entry stays queued. -/
theorem Serves.line {full : Bool} (h : Serves mem s) (hg : s.proto.giveInput ibuf = some (e, p)) :
    Serves mem (s.taken ibuf p full) := by
  obtain ⟨h, hcfd⟩ := h
  refine ⟨⟨?_, ?_, ?_, ?_, ?_⟩, hcfd⟩
  · exact giveInput_disciplined h.proto hg
  · exact fun hoff => absurd hoff hcfd
  · exact fun hmem fd hfd => h.registered hmem fd ((registered_skip rfl).1 hfd)
  · intro hmem _ hd
    obtain ⟨hst, hdfd, hq⟩ := h.dialling hmem hcfd (giveInput_dialling h.proto hg hd)
    refine ⟨hst, hdfd, ?_⟩
    rw [taken, if_neg (by rw [hst]; exact nofun)]
    exact hq
  · intro hmem hst
    obtain ⟨hst, haddress⟩ := giveInput_asked h.proto hg hst
    exact haddress.trans (h.asked hmem hst)

theorem Serves.not_dialling (h : Serves mem s) (hmem : mem) (hdfd : s.dfd ≠ -1) : ¬ s.proto.Dialling :=
  fun hd => hdfd (h.1.dialling hmem h.2 hd).2.1

/-- Once its address was taken, a `get` has nothing to dial. -/
theorem Serves.ported (h : Serves mem s) (hready : s.proto.addressReady = true) (hmem : mem) :
    ¬ s.ported.proto.Dialling := by
  intro hd
  have hst : s.proto.state = .pasv := hd.resolve_right nofun
  rw [h.1.asked hmem hst] at hready
  cases hready

/-- Where there is an address, what is registered is the control descriptor. -/
theorem Serves.registered_cfd (h : Serves mem s) (hready : s.proto.addressReady = true) (hmem : mem)
    (hfd : Registered fd s.log) : fd ≠ -1 ∧ fd = s.cfd := by
  obtain ⟨hne, hmine⟩ := h.1.registered hmem fd hfd
  refine ⟨hne, hmine.resolve_right fun hd => ?_⟩
  exact hne (hd.trans (h.1.dialling hmem h.2 (.inr hready)).2.1)

/-- What one move preserves. -/
theorem Serves.move (h : Serves mem s) (hm : Move w s t) : Serves mem t := by
  have hcfd := h.2
  have hoff : s.cfd = -1 → False := fun hoff => hcfd hoff
  cases hm with
  | fields => exact ⟨⟨h.1.proto, h.1.off, h.1.registered, h.1.dialling, h.1.asked⟩, hcfd⟩
  | advance =>
      exact ⟨⟨⟨h.1.proto.outside, h.1.proto.inside⟩, h.1.off, h.1.registered, h.1.dialling, h.1.asked⟩, hcfd⟩
  | line full hg => exact h.line hg
  | sleep _ hdfd =>
      exact ⟨⟨h.1.proto, fun ho => (hoff ho).elim, h.1.registered,
        fun hmem _ hd => absurd hd (h.not_dialling hmem hdfd), h.1.asked⟩, hcfd⟩
  | read _ hdfd =>
      have hdel : Serves mem s.delClient := ⟨⟨h.1.proto, fun ho => (hoff ho).elim, h.1.registered,
        fun hmem _ hd => absurd hd (h.not_dialling hmem hdfd), h.1.asked⟩, hcfd⟩
      exact hdel.cons rfl
  | throttle n =>
      obtain ⟨unslept, wakeup, events, heq⟩ := throttle_eq s w.now n
      rw [heq]
      exact ⟨⟨h.1.proto, h.1.off, h.1.registered, h.1.dialling, h.1.asked⟩, hcfd⟩
  | portLost hready =>
      exact ⟨⟨⟨h.1.proto.outside, h.1.proto.inside⟩, h.1.off, h.1.registered,
        fun hmem _ hd => absurd hd (h.ported hready hmem), fun _ _ => rfl⟩, hcfd⟩
  | portLeaked sock hready =>
      exact ⟨⟨⟨h.1.proto.outside, h.1.proto.inside⟩, h.1.off,
        fun hmem fd hfd => h.1.registered hmem fd ((registered_skip rfl).1 hfd),
        fun hmem _ hd => absurd hd (h.ported hready hmem), fun _ _ => rfl⟩, hcfd⟩
  | portUnwatched sock hready =>
      refine ⟨⟨⟨h.1.proto.outside, h.1.proto.inside⟩, fun ho => (hoff ho).elim, ?_,
        fun hmem _ hd => absurd hd (h.ported hready hmem), fun _ _ => rfl⟩, hcfd⟩
      intro hmem fd hfd
      exact (h.registered_cfd hready hmem ((registered_skip rfl).1 hfd)).imp_right .inl
  | portOpened sock connecting hready =>
      refine ⟨⟨⟨h.1.proto.outside, h.1.proto.inside⟩, fun ho => (hoff ho).elim, ?_,
        fun hmem _ hd => absurd hd (h.ported hready hmem), fun _ _ => rfl⟩, hcfd⟩
      intro hmem fd hfd
      rcases registered_add.1 hfd with hsock | hold
      · exact ⟨by omega, .inr hsock⟩
      · exact (h.registered_cfd hready hmem ((registered_skip rfl).1 hold)).imp_right .inl

/-- The data descriptor is given up. -/
theorem Serves.discard (h : Serves mem s) (hdfd : s.dfd ≠ -1) (state : PipeState) (queued : Option Clock)
    (connecting : Bool) : Serves mem { s with
      state := state, queued := queued, dfdConnecting := connecting, dfd := -1, log := discarded s.dfd s.log } := by
  refine ⟨⟨h.1.proto, fun hoff => absurd hoff h.2, ?_, fun hmem _ hd => absurd hd (h.not_dialling hmem hdfd),
    h.1.asked⟩, h.2⟩
  intro hmem fd hfd
  obtain ⟨hold, hother⟩ := registered_discarded hfd
  obtain ⟨hne, hmine⟩ := h.1.registered hmem fd hold
  exact ⟨hne, .inl (hmine.resolve_right fun hd => hdfd (hother hd))⟩

theorem Serves.ends (h : Serves mem s) (he : Ends s e t) : Serves mem t := by
  cases he with
  | quiet => exact h
  | failed => exact h.cons rfl
  | refused full hg => exact (h.line hg).cons rfl
  | answered full hg => exact h.line hg
  | hungUp _ hdfd =>
      rw [hangUp_eq]
      exact h.discard hdfd .idle none s.dfdConnecting

theorem Serves.dropFailed (h : Serves mem s) : Serves mem s.dropFailed := by
  rcases dropFailed_cases (s := s) with ⟨heq, _⟩ | ⟨⟨_, _, hdfd⟩, heq⟩
  · rw [heq]
    exact h
  · rw [heq]
    exact h.discard hdfd s.state s.queued false

theorem InHand.call (h : InHand mem s) : InHand mem (s.callFtpCmdDone xerr status) := by
  have hskip : ∀ {x : Seen}, interest.entry x = none →
      mem → ∀ fd, Registered fd (x :: s.log) → fd ≠ -1 ∧ (fd = s.cfd ∨ fd = s.dfd) :=
    fun hx hmem fd hfd => h.registered hmem fd ((registered_skip hx).1 hfd)
  rcases callFtpCmdDone_cases (s := s) xerr status with ⟨_, heq⟩ | heq
  · rw [heq]
    exact ⟨h.proto, h.off, hskip rfl, h.dialling, h.asked⟩
  · rw [heq]
    exact ⟨h.proto, h.off, hskip rfl, h.dialling, h.asked⟩

theorem Serves.report (h : Serves mem s) (hr : Reported s e t) : Serves mem t := by
  have hdrop := h.dropFailed
  cases hr with
  | kept => exact hdrop
  | told | done => exact ⟨hdrop.1.call, by rw [callFtpCmdDone_cfd]; exact hdrop.2⟩

/-- What a handler preserves. -/
theorem Serves.handled (h : Serves mem s) (hh : Handled w s t) : Serves mem t := by
  apply hh.invariant (C := fun _ => True) (I := Serves mem) (J := fun _ => Serves mem) _ _ (fun _ ht => ht) _
    (fun _ _ => trivial) h
  · exact fun _ _ hs _ hm => hs.move hm
  · exact fun _ _ _ hs _ he => hs.ends he
  · exact fun _ _ _ ht _ hr => ht.report hr

theorem InHand.serves_of_queued (h : InHand mem s) (hq : s.queued ≠ none) : Serves mem s :=
  ⟨h, fun hoff => hq (h.off hoff).2⟩

theorem InHand.delClient (h : InHand mem s) (hst : mem → s.cfd ≠ -1 → ¬ s.proto.Dialling) : InHand mem s.delClient :=
  ⟨h.proto, fun hoff => ⟨(h.off hoff).1, rfl⟩, h.registered, fun hmem hcfd hd => absurd hd (hst hmem hcfd), h.asked⟩

/-- After `shutdown` nothing is queued, held or registered. -/
structure Released (mem : Prop) (s : Session) : Prop where
  inHand : InHand mem s
  cfd : s.cfd = -1
  queued : s.queued = none
  registered : mem → ∀ fd, ¬ Registered fd s.log

theorem InHand.released (h : InHand mem s) (hcfd : s.cfd = -1) : Released mem s := by
  obtain ⟨hdfd, hq⟩ := h.off hcfd
  refine ⟨h, hcfd, hq, fun hmem fd hfd => ?_⟩
  obtain ⟨hne, hmine⟩ := h.registered hmem fd hfd
  rw [hcfd, hdfd] at hmine
  exact hne (hmine.elim id id)

theorem InHand.shutdown (h : InHand mem s) : Released mem (s.shutdown w).2 := by
  rcases shutdown_cases (s := s) (w := w) with ⟨⟨hcfd, _⟩, heq⟩ | heq
  · rw [heq]
    exact h.released hcfd
  · rw [heq]
    refine InHand.released ⟨h.proto, fun _ => ⟨rfl, rfl⟩, ?_, fun _ hne => absurd rfl hne, h.asked⟩ rfl
    intro hmem fd hfd
    obtain ⟨hfd, hdfd⟩ := registered_discarded ((registered_skip rfl).1 hfd)
    obtain ⟨hfd, hcfd⟩ := registered_discarded hfd
    obtain ⟨hne, hmine⟩ := h.registered hmem fd hfd
    rcases hmine with heq | heq
    · exact absurd (heq.trans (hcfd heq)) hne
    · exact absurd (heq.trans (hdfd heq)) hne

/-- What a finished command tells the app with no error, it tells with no data connection open. -/
def QuietDone (s t : Session) : Prop := ∀ status, s.called t = some (0, status) → t.dfd = -1

theorem callFtpCmdDone_dfd (xerr status : ℤ) : (s.callFtpCmdDone xerr status).dfd = s.dfd := by
  rcases callFtpCmdDone_cases (s := s) xerr status with ⟨_, h⟩ | h
  · rw [h]
  · rw [h]

theorem quietDone_of_keeps (h : Keeps s t) : QuietDone s t := by
  intro status hcalled
  rw [called_of_eq h.1] at hcalled
  cases hcalled

/-- The app is told what `call_ftpCmdDone` was called with. -/
theorem called_call {xerr' status' : ℤ} (hk : Keeps s u)
    (h : s.called (u.callFtpCmdDone xerr status) = some (xerr', status')) : xerr' = xerr := by
  rcases callFtpCmdDone_cases (s := u) xerr status with ⟨_, heq⟩ | heq
  · rw [heq, called, if_neg (by simp [hk.1])] at h
    cases h
    rfl
  · have hnone : s.called (u.callFtpCmdDone xerr status) = none := by
      apply called_of_eq
      rw [heq]
      exact hk.1
    rw [hnone] at h
    cases h

theorem Handled.quietDone (h : Handled w s t) : QuietDone s t := by
  cases h with
  | quiet hm he => exact quietDone_of_keeps (hm.keeps.trans he.keeps)
  | @reported _ t' _ _ hm he _ hr =>
      have hkeeps : Keeps s t'.dropFailed := (hm.keeps.trans he.keeps).trans dropFailed_keeps
      cases hr with
      | kept => exact quietDone_of_keeps hkeeps
      | told _ hne =>
          intro status hcalled
          exact absurd (called_call hkeeps hcalled).symm hne
      | done _ _ hdfd =>
          intro status _
          rw [callFtpCmdDone_dfd]
          exact hdfd

theorem shutdown_delClient (hcfd : s.cfd ≠ -1) : (s.delClient.shutdown w).2 = (s.shutdown w).2 := by
  have hon : ¬(s.cfd = -1 ∧ s.dfd = -1) := fun hoff => hcfd hoff.1
  have hon' : ¬(s.delClient.cfd = -1 ∧ s.delClient.dfd = -1) := hon
  unfold Session.shutdown
  rw [if_neg hon, if_neg hon']
  rfl

/-- What a step that comes from outside preserves. -/
structure Heard (mem : Prop) (s t : Session) : Prop where
  inHand : InHand mem t
  quiet : QuietDone s t

theorem InHand.notifyPollEvent (h : InHand mem s) (hn : s.notifyPollEvent w fd revents = .ok (e, t)) :
    Heard mem s t := by
  rcases notifyPollEvent_spec hn with ⟨_, _, rfl⟩ | ⟨⟨hne, hmine⟩, _, hh⟩
  · exact ⟨h, quietDone_of_keeps ⟨rfl, rfl⟩⟩
  · have hcfd : s.cfd ≠ -1 := by
      rcases hmine with hd | hc
      · exact fun hoff => hne (hd.trans (h.off hoff).1)
      · exact hc ▸ hne
    have hserves : Serves mem s := ⟨h, hcfd⟩
    exact ⟨(hserves.handled hh).1, hh.quietDone⟩

theorem InHand.runTimer {now : Clock} (h : InHand mem s) (ht : s.runTimer w now = .ok t) : Heard mem s t := by
  unfold Session.runTimer at ht
  split at ht
  · cases ht
  · next when hq =>
    split at ht
    · cases ht
    · next hdue =>
      have hserves : Serves mem s := h.serves_of_queued (by rw [hq]; exact nofun)
      -- a sleeper has a data connection, so it awaits no address
      have hsleep : s.state = .sleeping → mem → s.cfd ≠ -1 → ¬ s.proto.Dialling := by
        intro hst hmem hcfd hd
        cases hst.symm.trans (h.dialling hmem hcfd hd).1
      cases skedCallback_spec hq (by simpa using hdue) ht with
      | expired =>
          have hshut : Released mem (s.delClient.shutdown w).2 := by
            rw [shutdown_delClient hserves.2]
            exact h.shutdown
          refine ⟨hshut.inHand.call, ?_⟩
          intro status hcalled
          have hzero : (0 : ℤ) = EPIPE := called_call (shutdown_keeps (s := s.delClient)) hcalled
          cases hzero
      | wokenQuiet _ _ _ hst =>
          have hdel := h.delClient (hsleep hst)
          refine ⟨⟨hdel.proto, hdel.off, hdel.registered, ?_, hdel.asked⟩, quietDone_of_keeps ⟨rfl, rfl⟩⟩
          exact fun hmem hcfd hd => absurd hd (hsleep hst hmem hcfd)
      | woken _ _ _ hst _ hh =>
          have hwoken : Serves mem (s.woken now) := ⟨⟨h.proto, fun hoff => absurd hoff hserves.2, h.registered,
            fun hmem hcfd hd => absurd hd (hsleep hst hmem hcfd), h.asked⟩, hserves.2⟩
          exact ⟨(hwoken.handled hh).1, hh.quietDone⟩

theorem InHand.receive {c : Cause} (h : InHand mem s) (hr : s.receive w c = .ok t) : Heard mem s t := by
  cases c with
  | event fd revents =>
      obtain ⟨e, hn⟩ := receive_event hr
      exact h.notifyPollEvent hn
  | timer now => exact h.runTimer hr

/-- A pipe that begins a session, and knows at most its control descriptor. -/
theorem inHand_begun (hproto : t.proto = s.proto.init) (hdfd : t.dfd = -1) (hq : t.cfd = -1 → t.queued = none)
    (hlog : mem → ∀ fd, Registered fd t.log → fd ≠ -1 ∧ fd = t.cfd) : InHand mem t where
  proto := by
    rw [hproto]
    exact init_disciplined s.proto
  off := fun hoff => ⟨hdfd, hq hoff⟩
  registered := fun hmem fd hfd => (hlog hmem fd hfd).imp_right .inl
  dialling := by
    intro _ _ hd
    rw [hproto] at hd
    rcases hd with hd | hd
    · cases hd
    · cases hd
  asked := fun _ _ => by
    rw [hproto]
    rfl

/-- `connect`, on a pipe that is not connected. -/
theorem InHand.connect {port : BitVec 16} (h : InHand mem s) (hcfd : s.cfd = -1) (hc : s.connect w port = .ok (e, t)) :
    InHand mem t := by
  have hreleased := h.released hcfd
  -- the poller knows nothing before the new descriptor is added
  have hdialled : ∀ {fd}, mem → Registered fd (.connect :: s.log) → False := fun hmem hfd =>
    hreleased.registered hmem _ ((registered_skip rfl).1 hfd)
  have hopened : ∀ {fd} {sock : ℕ}, mem → Registered fd (.socket sock :: .connect :: s.log) → False := fun hmem hfd =>
    hdialled hmem ((registered_skip rfl).1 hfd)
  cases connect_spec hc with
  | connectFailed =>
      exact inHand_begun rfl rfl (fun _ => hreleased.queued) fun hmem fd hfd => (hdialled hmem hfd).elim
  | connectClosed _ sock =>
      exact inHand_begun rfl rfl (fun _ => hreleased.queued)
        fun hmem fd hfd => (hopened hmem ((registered_skip rfl).1 hfd)).elim
  | connectUnwatched _ sock =>
      have hsock : (sock : ℤ) ≠ -1 := by omega
      exact inHand_begun rfl rfl (fun hoff => absurd hoff hsock) fun hmem fd hfd => (hopened hmem hfd).elim
  | connected _ sock =>
      have hsock : (sock : ℤ) ≠ -1 := by omega
      refine inHand_begun rfl rfl (fun hoff => absurd hoff hsock) ?_
      intro hmem fd hfd
      rcases registered_add.1 ((registered_skip rfl).1 hfd) with rfl | hold
      · exact ⟨hsock, rfl⟩
      · exact (hopened hmem hold).elim

/-- A command other than `get` is accepted. -/
theorem Serves.issued (h : Serves mem s) (hi : Issued s.proto o p) (ho : ∀ f, o ≠ .get f none) :
    Serves mem (s.issued o p) := by
  obtain ⟨h, hcfd⟩ := h
  refine ⟨⟨hi.disciplined h.proto, h.off, fun hmem fd hfd => h.registered hmem fd ((registered_skip rfl).1 hfd), ?_, ?_⟩,
    hcfd⟩
  · exact fun hmem hcfd hd => h.dialling hmem hcfd (.inr (hi.left_over ho hd).2)
  · exact fun _ hst => absurd hst (hi.left_over ho (.inl hst)).1

theorem InHand.refused (h : InHand mem s) (err : ℤ) : InHand mem (s.note (.refused o err)) :=
  ⟨h.proto, h.off, fun hmem fd hfd => h.registered hmem fd ((registered_skip rfl).1 hfd), h.dialling, h.asked⟩

theorem InHand.command (h : InHand mem s) (ho : ∀ f, o ≠ .get f none) (hs : s.wrapper w o .ok = .ok (e, t)) :
    InHand mem t := by
  rcases wrapper_spec h.proto hs with ⟨err, _, rfl⟩ | ⟨p, t', hi, ht, hcfd, hh⟩
  · exact h.refused err
  · cases ht
    have hserves : Serves mem s := ⟨h, hcfd⟩
    exact ((hserves.issued hi ho).handled hh).1

/-- A `get` that found memory, with no data connection open. -/
theorem InHand.get (h : InHand mem s) (hdfd : mem → s.dfd = -1) (hmem : mem → w.enqueue = true)
    (hs : s.get w f true = .ok (e, t)) : InHand mem t := by
  unfold Session.get at hs
  rw [if_neg (by decide)] at hs
  rcases wrapper_spec h.proto hs with ⟨err, _, rfl⟩ | ⟨p, t', hi, ht, hcfd, hh⟩
  · exact h.refused err
  · obtain ⟨hq, rfl⟩ := addClient_eq ht
    have hserves : Serves mem ((s.issued (.get f none) p).awaiting w) := by
      refine ⟨⟨hi.disciplined h.proto, fun hoff => absurd hoff hcfd, ?_, ?_, ?_⟩, hcfd⟩
      · exact fun hmem fd hfd => h.registered hmem fd ((registered_skip rfl).1 hfd)
      · intro hm _ _
        refine ⟨rfl, hdfd hm, ?_⟩
        rw [awaiting, if_pos (hmem hm)]
        exact nofun
      · intro hm _
        cases hi with
        | getPasv =>
            change s.proto.addressReady = false
            cases hready : s.proto.addressReady with
            | false => rfl
            | true => exact absurd hq (h.dialling hm hcfd (.inr hready)).2.2
    exact (hserves.handled hh).1

/-- The kickstart of the first line has heard nothing, so it may only tell of a failure. -/
theorem Greeting.kickstart_called {line : List Byte} (h : Greeting s line) (hlen : line.length < 1023) (hpos : line ≠ [])
    (hst : s.proto.status = 0) (hk : s.kickstart w = .ok (e, t)) (hcalled : s.called t = some (xerr, status)) :
    xerr ≠ 0 := by
  obtain ⟨r, hs, rfl, rfl⟩ := h.handler hk
  obtain ⟨_, hkeeps, hproto⟩ := h.serveControl hlen hpos hs
  have hstatus : r.2.proto.getStatus = 0 := by
    rw [hproto, FtpClientProto.getStatus]
    split
    · rfl
    · exact hst
  have hdrop : Keeps s r.2.dropFailed := hkeeps.trans dropFailed_keeps
  split at hcalled
  · rw [called_of_eq hkeeps.1] at hcalled
    cases hcalled
  · next hne =>
    have hr := report_spec (s := r.2) hne
    generalize r.2.report r.1 = u at hcalled hr
    cases hr with
    | kept =>
        rw [called_of_eq hdrop.1] at hcalled
        cases hcalled
    | told => exact called_call hdrop hcalled ▸ hne
    | done _ hdone => exact absurd hstatus hdone

theorem login_called {port : BitVec 16} {w' : World} {username password : CStr} (hlen : username.1.length < 128)
    (hc : s.connect w port = .ok (0, t)) (hl : t.login w' username password = .ok (e, u))
    (hcalled : t.called u = some (xerr, status)) : xerr ≠ 0 := by
  rcases connect_succeeds hc with hcfd | ⟨sock, connecting, rfl, _⟩
  · rw [called_of_eq (login_unconnected hcfd hl).1] at hcalled
    cases hcalled
  · rw [login_dialled] at hl
    exact (greeting_spec s w sock connecting username password).kickstart_called (userLine_length hlen) nofun rfl hl hcalled

theorem InHand.login {username password : CStr} (h : InHand mem s) (hl : s.login w username password = .ok (e, t)) :
    InHand mem t :=
  h.command (fun _ heq => by cases heq) hl

theorem InHand.type {ttype : CStr} (h : InHand mem s) (hs : s.type w ttype = .ok (e, t)) : InHand mem t :=
  h.command (fun _ heq => by cases heq) hs

theorem InHand.inside (h : InHand mem s) (inFtpCmdDone : ℤ) (callbacks : ℕ) :
    InHand mem { s with inFtpCmdDone := inFtpCmdDone, callbacks := callbacks } :=
  ⟨h.proto, h.off, h.registered, h.dialling, h.asked⟩

theorem inHand_fresh (memory : FtpClientPipe) (rate : Int32) : InHand mem (fresh memory rate) where
  proto := init_disciplined memory.proto
  off := fun _ => ⟨rfl, rfl⟩
  registered := fun _ _ hfd => by cases hfd
  dialling := fun _ hne => absurd rfl hne
  asked := fun _ => nofun

end
end Session
end Dkftpbench
