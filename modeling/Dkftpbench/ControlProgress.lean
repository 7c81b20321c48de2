import Dkftpbench.ControlStream

/-!
# The protocol waits for no line that has arrived

The loop over the lines stops where the protocol wants no line or where there is none. So as
long as no handler has failed, a pipe in which an operation is under way has given the
protocol every line that it received: the reply still awaited has not come.
-/
namespace Dkftpbench.Session
open CLib EventClock Faults FtpClientProto LineSplit Nbbio Watch

/-- Not the failure of a handler. -/
def Unfailed : Seen → Prop
  | .failed _ _ => False
  | _ => True

instance (x : Seen) : Decidable (Unfailed x) := by
  unfold Unfailed
  cases x <;> infer_instance

/-- Where a reply is awaited, no line is left to read. -/
def Caught (s : Session) : Prop := s.proto.getStatus = 0 → s.proto.isInputReady = true → NoLine s

/-- A handler has failed, or no line is left to read. -/
def Settles (r : ℤ × Session) : Prop := Logged Unfailed r.2 → Caught r.2

/-- The two descriptors differ. -/
def Apart (s : Session) : Prop := s.dfd ≠ -1 → s.dfd ≠ s.cfd

/-- The kernel hands out no descriptor that the pipe holds. -/
def OtherSocket (s : Session) (_ : Option Traffic) (k : Label) : Prop :=
  match k.world.socket with
  | .ok sock => (sock : ℤ) ≠ s.cfd
  | .error _ => True

instance (s : Session) (o : Option Traffic) (k : Label) : Decidable (OtherSocket s o k) := by
  unfold OtherSocket
  split <;> infer_instance

section
variable {g : Traffic} {w : World} {s t u : Session} {r : ℤ × Session} {e : ℤ} {revents : Revents} {l : LoopState}
variable {part : Part}

theorem fail_settles (e : ℤ) : Settles (s.fail e) :=
  fun hno => (hno _ List.mem_cons_self).elim

theorem Caught.of_same (h : Caught s) (hproto : t.proto = s.proto) (hwire : t.wire = s.wire) : Caught t := by
  intro h0 hin
  rw [hproto] at h0 hin
  obtain ⟨hheld, hfull⟩ := h h0 hin
  have hibuf : t.ibuf = s.ibuf := congrArg Wire.ibuf hwire
  have hiline : t.ilineFull = s.ilineFull := congrArg Wire.ilineFull hwire
  exact ⟨by rw [hibuf]; exact hheld, hiline.trans hfull⟩

theorem Drained.caught (h : Drained s) : Caught s := fun _ hin => h.input hin

/-- A handler returns from within the loop with a failure or with a status to report. -/
theorem iterate_settles (h : iterate w l = .ok (.error r)) : Settles r := by
  unfold iterate at h
  cases hn : l.session.nextLine l.geterr with
  | error r' =>
      rw [hn] at h
      cases h
      unfold nextLine at hn
      split at hn
      · cases hn
      · dsimp only at hn
        split at hn
        · cases hn
        · split at hn
          · cases hn
            exact fail_settles _
          · cases hn
  | ok p =>
      obtain ⟨geterr, t⟩ := p
      rw [hn] at h
      dsimp only at h
      split at h
      · cases h
      · next r' htake =>
        cases h
        split at htake
        · unfold takeLine giveLine at htake
          dsimp only at htake
          split at htake
          · cases htake
          · split at htake
            · cases htake
              exact fail_settles _
            · split at htake
              · next hst =>
                cases htake
                exact fun _ h0 => absurd h0 hst
              · cases htake
        · cases htake
      · next u _ =>
        split at h
        · next r' hput =>
          cases h
          unfold putOutput at hput
          split at hput
          · cases hput
          · dsimp only at hput
            split at hput
            · cases hput
            · split at hput
              · cases hput
                exact fail_settles _
              · cases hput
        · cases h

/-- Where the loop ends, no work is left behind; where a handler returns from it, it settles. -/
theorem loop_settles {fuel : ℕ} (h : Truthful l) (hl : loop w fuel l = .ok part) :
    (∀ t, part = .ok t → Drained t) ∧ ∀ r, part = .error r → Settles r := by
  induction fuel generalizing l with
  | zero => cases hl
  | succ fuel ih =>
      cases hgo : goesOn l with
      | false =>
          rw [loop_stops hgo fuel] at hl
          cases hl
          constructor
          · intro t ht
            cases ht
            exact h.drained hgo
          · intro r hr
            cases hr
      | true =>
          rw [loop_iterates hgo] at hl
          rcases steps_of_truthful (w := w) h hgo with ⟨stop, _, heq, _⟩ | ⟨r, heq⟩ | ⟨l', heq, hl'⟩
          · rw [heq] at hl
            cases hl
          · rw [heq] at hl
            cases hl
            constructor
            · intro t ht
              cases ht
            · intro r' hr
              cases hr
              exact iterate_settles heq
          · rw [heq] at hl
            exact ih hl'.truthful hl

theorem openData_caught (h : Caught s) : Caught (s.openData w).2 := by
  unfold openData
  split
  · exact h
  · next address p hp =>
    have hp' : Caught { s with proto := p } := by
      unfold isPortReady at hp
      split at hp
      · cases hp
      · cases hp
        exact h
    dsimp only
    split
    · exact hp'
    · split
      · exact hp'
      · split
        · exact hp'
        · split
          · exact hp'
          · exact hp'

theorem serveControl_settles (h : Readable s) (hr : s.serveControl w = .ok r) : Settles r := by
  have hne : (0 : ℤ) ≠ EWOULDBLOCK := by decide
  have h0 : Truthful ⟨0, 0, s⟩ := ⟨h, fun h0 => absurd h0 hne, fun _ h0 => absurd h0 hne⟩
  unfold serveControl at hr
  split at hr
  · cases hr
  · next r' hl =>
    cases hr
    exact (loop_settles h0 hl).2 _ rfl
  · next t hl =>
    have hdrained := (loop_settles h0 hl).1 t rfl
    split at hr
    · cases hr
    · next r' hw =>
      cases hr
      unfold writeOutput at hw
      split at hw
      · cases hw
      · split at hw
        · cases hw
        · dsimp only at hw
          split at hw
          · cases hw
            exact fail_settles _
          · cases hw
    · next u hw =>
      have hcaught : Caught u := by
        unfold writeOutput at hw
        split at hw
        · cases hw
          exact hdrained.caught
        · split at hw
          · cases hw
          · dsimp only at hw
            split at hw
            · cases hw
            · cases hw
              exact hdrained.caught
      unfold checkQuit at hr
      split at hr
      · next r' hq =>
        split at hq
        · cases hq
          cases hr
          exact fail_settles _
        · cases hq
      · next v hq =>
        split at hq
        · cases hq
        · cases hq
          cases hr
          exact fun _ => openData_caught hcaught

theorem notifyPollEventCfd_settles {fd : ℤ} (h : Readable s) (hr : s.notifyPollEventCfd w fd revents = .ok r) :
    Settles r := by
  unfold notifyPollEventCfd at hr
  split at hr
  · cases hr
  · split at hr
    · cases hr
      exact fail_settles _
    · split at hr
      · next r' hc =>
        cases hr
        unfold cfdConnected at hc
        split at hc
        · split at hc
          · cases hc
            exact fail_settles _
          · cases hc
        · cases hc
      · next t hc =>
        have ht : Readable t := by
          unfold cfdConnected at hc
          split at hc
          · split at hc
            · cases hc
            · cases hc
              exact ⟨h.proto, h.ibuf, h.linelen, h.obuf⟩
          · cases hc
            exact h
        split at hr
        · next r' hi =>
          cases hr
          unfold readInput at hi
          split at hi
          · dsimp only at hi
            split at hi
            · cases hi
              exact fail_settles _
            · cases hi
          · cases hi
        · next u hi =>
          have hu : Readable u := by
            unfold readInput at hi
            split at hi
            · dsimp only at hi
              split at hi
              · cases hi
              · cases hi
                exact ⟨ht.proto, (fillFrom_moves w.kernel ht.ibuf).valid,
                  (fillFrom_reading (s := t.ibuf) w.kernel).1.trans_le ht.linelen, ht.obuf⟩
            · cases hi
              exact ht
          exact serveControl_settles hu hr

theorem dfdConnected_proto (hc : s.dfdConnected w revents = .error r) : r.2.proto = s.proto := by
  unfold dfdConnected at hc
  split at hc
  · split at hc
    · cases hc
      rfl
    · cases hc
  · cases hc

theorem transfer_proto : (s.transfer w revents).2.proto = s.proto := by
  unfold transfer
  split
  · rfl
  · split
    · dsimp only
      split
      · rw [hangUp_eq]
        rfl
      · split
        · exact throttle_proto
        · split
          · rfl
          · exact throttle_proto
    · split
      · rw [hangUp_eq]
      · exact throttle_proto

theorem notifyPollEventDfd_proto (h : s.notifyPollEventDfd w revents = .ok r) : r.2.proto = s.proto := by
  unfold notifyPollEventDfd at h
  split at h
  · cases h
  · split at h
    · next r' hc =>
      cases h
      exact dfdConnected_proto hc
    · next t hc =>
      obtain ⟨_, rfl⟩ := dfdConnected_eq hc
      split at h
      · cases h
      · next u hs =>
        cases h
        have hsnooze : u.proto = s.proto := by
          unfold snooze at hs
          split at hs
          · split at hs
            · cases hs
            · split at hs
              · cases hs
              · next v hv =>
                cases hs
                obtain ⟨_, rfl⟩ := addClient_eq hv
                rfl
          · cases hs
            rfl
        exact transfer_proto.trans hsnooze

theorem Reported.proto (h : Reported s e t) : t.proto = s.proto := by
  cases h with
  | kept => exact dropFailed_proto
  | told | done => exact (callFtpCmdDone_proto _ _).trans dropFailed_proto

/-- What follows the handler changes nothing that counts. -/
theorem finish_settles (hr : Settles r) (h : finish w r = .ok (e, t)) (hno : Logged Unfailed t) : Caught t := by
  have hwire := finish_wire h
  unfold finish at h
  split at h
  · cases h
  · cases h
    split at hno
    · next h0 =>
      rw [if_pos h0]
      exact hr hno
    · next h0 =>
      rw [if_neg h0] at hwire ⊢
      have hrep := report_spec (s := r.2) h0
      exact (hr (hno.of_suffix hrep.grows)).of_same hrep.proto hwire

theorem notifyPollEvent_caught {fd : ℤ} (h : Readable s) (hs : Logged Unfailed s → Caught s)
    (hn : s.notifyPollEvent w fd revents = .ok (e, t)) (hno : Logged Unfailed t) : Caught t := by
  have hgrows : s.log <:+ t.log := by
    rcases notifyPollEvent_spec hn with ⟨_, _, rfl⟩ | ⟨_, _, hh⟩
    · exact List.suffix_rfl
    · exact hh.grows
  unfold notifyPollEvent at hn
  split at hn
  · cases hn
  · split at hn
    · cases hr : s.notifyPollEventDfd w revents with
      | error stop =>
          rw [hr] at hn
          cases hn
      | ok r =>
          rw [hr] at hn
          have hsettles : Settles r := by
            intro _
            exact (hs (hno.of_suffix hgrows)).of_same (notifyPollEventDfd_proto hr) (notifyPollEventDfd_wire hr)
          exact finish_settles hsettles hn hno
    · split at hn
      · cases hr : s.notifyPollEventCfd w fd revents with
        | error stop =>
            rw [hr] at hn
            cases hn
        | ok r =>
            rw [hr] at hn
            exact finish_settles (notifyPollEventCfd_settles h hr) hn hno
      · cases hn
        exact hs hno

/-- A kickstart reads on, also where a command has just changed what is awaited. -/
theorem kickstart_caught (h : Readable s) (hapart : Apart s) (hk : s.kickstart w = .ok (e, t))
    (hno : Logged Unfailed t) : Caught t := by
  unfold kickstart notifyPollEvent at hk
  split at hk
  · cases hk
  · next hne =>
    split at hk
    · next heq => exact absurd heq.symm (hapart (heq ▸ hne))
    · rw [if_pos rfl] at hk
      cases hr : s.notifyPollEventCfd w s.cfd (POLLOUT ||| KICKSTART) with
      | error stop =>
          rw [hr] at hk
          cases hk
      | ok r =>
          rw [hr] at hk
          exact finish_settles (notifyPollEventCfd_settles h hr) hk hno

theorem Readable.of_wire (h : Readable s) (hd : t.proto.Disciplined) (hw : t.wire = s.wire) : Readable t := by
  have hibuf : t.ibuf = s.ibuf := congrArg Wire.ibuf hw
  have hobuf : t.obuf = s.obuf := congrArg Wire.obuf hw
  exact ⟨hd, hibuf ▸ h.ibuf, hibuf ▸ h.linelen, hobuf ▸ h.obuf⟩

/-- What is done between an accepted command and its kickstart. -/
structure Readies (s t : Session) : Prop where
  wire : t.wire = s.wire
  proto : t.proto = s.proto
  fds : t.dfd = s.dfd ∧ t.cfd = s.cfd

theorem wrapper_caught {o : Op} {ready : Session → Except Stop Session}
    (hready : ∀ s t, ready s = .ok t → Readies s t) (h : Readable s) (hapart : Apart s)
    (hs : Logged Unfailed s → Caught s) (hw : s.wrapper w o ready = .ok (e, t)) (hno : Logged Unfailed t) :
    Caught t := by
  unfold wrapper at hw
  rcases FtpClientProto.perform_spec h.proto o with ⟨err, herr, heq⟩ | ⟨p, heq, hi⟩
  · rw [heq] at hw
    dsimp only at hw
    rw [if_pos herr] at hw
    cases hw
    exact hs (hno.of_suffix (List.suffix_cons _ _))
  · rw [heq] at hw
    dsimp only at hw
    rw [if_neg (not_not.2 rfl)] at hw
    split at hw
    · cases hw
    · next u hu =>
      have hu := hready _ u hu
      have hd : u.proto.Disciplined := by
        rw [hu.proto]
        exact hi.disciplined h.proto
      have hapart' : Apart u := by
        unfold Apart
        rw [hu.fds.1, hu.fds.2]
        exact hapart
      exact kickstart_caught (h.of_wire hd hu.wire) hapart' hw hno

theorem perform_caught {c : Command} (h : Readable s) (hapart : Apart s) (hs : Logged Unfailed s → Caught s)
    (hp : s.perform w c = .ok (e, t)) (hno : Logged Unfailed t) : Caught t := by
  have plain : ∀ {o : Op} {e : ℤ}, s.wrapper w o .ok = .ok (e, t) → Caught t := by
    intro o e hp
    apply wrapper_caught _ h hapart hs hp hno
    intro s t hs
    cases hs
    exact ⟨rfl, rfl, rfl, rfl⟩
  cases c with
  | login username password => exact plain (o := .login username password) hp
  | quit => exact plain (o := .quit) hp
  | cd dir => exact plain (o := .cd dir) hp
  | type ttype => exact plain (o := .type ttype) hp
  | size fname => exact plain (o := .size fname) hp
  | ls dirname passive =>
      change s.ls w dirname passive = .ok (e, t) at hp
      unfold Session.ls at hp
      split at hp
      · cases hp
      · apply wrapper_caught _ h hapart hs hp hno
        intro s t hs
        cases hs
        exact ⟨rfl, rfl, rfl, rfl⟩
  | get fname passive =>
      change s.get w fname passive = .ok (e, t) at hp
      unfold Session.get at hp
      split at hp
      · cases hp
      · apply wrapper_caught _ h hapart hs hp hno
        intro s t hs
        obtain ⟨_, rfl⟩ := addClient_eq hs
        exact ⟨rfl, rfl, rfl, rfl⟩

theorem runTimer_caught {now : Clock} (h : Readable s) (hs : Logged Unfailed s → Caught s)
    (ht : s.runTimer w now = .ok t) (hno : Logged Unfailed t) : Caught t := by
  have hgone : ∀ u : Session, Caught u → Caught (u.shutdownAndNotify w) := by
    intro u hu
    exact hu.of_same ((callFtpCmdDone_proto _ _).trans shutdown_proto) (callFtpCmdDone_wire.trans shutdown_wire)
  have hgrows : ∀ u : Session, u.log <:+ (u.shutdownAndNotify w).log := by
    intro u
    exact shutdown_grows.trans (callFtpCmdDone_grows _ _)
  unfold runTimer at ht
  split at ht
  · cases ht
  · split at ht
    · cases ht
    · unfold skedCallback at ht
      split at ht
      · cases ht
        exact hgone s.delClient (hs (hno.of_suffix (hgrows s.delClient)))
      · cases ht
        exact hgone s.delClient (hs (hno.of_suffix (hgrows s.delClient)))
      · unfold wake at ht
        dsimp only at ht
        split at ht
        · cases ht
          exact hs hno
        · split at ht
          · cases ht
          · split at ht
            · cases ht
            · next err u hu =>
              have hread : Readable { s.delClient with state := .getting, dfdEvents := 0, wakeup := now } :=
                ⟨h.proto, h.ibuf, h.linelen, h.obuf⟩
              cases ht
              split at hno
              · next herr =>
                rw [if_pos herr]
                exact hgone u (notifyPollEvent_caught hread hs hu (hno.of_suffix (hgrows u)))
              · next herr =>
                rw [if_neg herr]
                exact notifyPollEvent_caught hread hs hu hno
      · cases ht

/-- What carries the result from step to step. -/
structure Attentive (s : Session) (o : Option Traffic) : Prop where
  proto : s.proto.Disciplined
  apart : Apart s
  channel : ∀ g, o = some g → Channel s.wire g ∧ (Logged Unfailed s → Caught s)

theorem Handled.apart (hh : Handled w s t) (hsock : ∀ sock, w.socket = .ok sock → (sock : ℤ) ≠ s.cfd)
    (h : Apart s) : Apart t := by
  have hinv : t.cfd = s.cfd ∧ Apart t := by
    apply hh.invariant (C := fun _ => True) (I := fun t => t.cfd = s.cfd ∧ Apart t)
      (J := fun _ t => t.cfd = s.cfd ∧ Apart t) _ _ (fun _ h => h) _ (fun _ _ => trivial) ⟨rfl, h⟩
    · intro a b ⟨hcfd, ha⟩ _ hm
      cases hm with
      | fields | line | advance | sleep | read | portLost | portLeaked => exact ⟨hcfd, ha⟩
      | throttle n =>
          unfold Apart
          rw [throttle_cfd, throttle_dfd]
          exact ⟨hcfd, ha⟩
      | portUnwatched sock _ hs => exact ⟨hcfd, fun _ heq => hsock sock hs (heq.trans hcfd)⟩
      | portOpened sock _ _ hs => exact ⟨hcfd, fun _ heq => hsock sock hs (heq.trans hcfd)⟩
    · intro a e b ⟨hcfd, ha⟩ _ he
      cases he with
      | quiet | failed | refused | answered => exact ⟨hcfd, ha⟩
      | hungUp =>
          rw [hangUp_eq]
          exact ⟨hcfd, fun hne => absurd rfl hne⟩
    · intro a e b ⟨hcfd, ha⟩ _ hr
      have hdrop : a.dropFailed.cfd = s.cfd ∧ Apart a.dropFailed := by
        rcases dropFailed_cases (s := a) with ⟨heq, _⟩ | ⟨_, heq⟩
        · rw [heq]
          exact ⟨hcfd, ha⟩
        · rw [heq]
          exact ⟨hcfd, fun hne => absurd rfl hne⟩
      have hcall : ∀ x y, (a.dropFailed.callFtpCmdDone x y).cfd = s.cfd ∧ Apart (a.dropFailed.callFtpCmdDone x y) := by
        intro x y
        rcases callFtpCmdDone_cases (s := a.dropFailed) x y with ⟨_, heq⟩ | heq
        · rw [heq]
          exact hdrop
        · rw [heq]
          exact hdrop
      cases hr with
      | kept => exact hdrop
      | told | done => exact hcall _ _
  exact hinv.2

theorem shutdown_apart (h : Apart s) : Apart (s.shutdown w).2 := by
  rcases shutdown_cases (s := s) (w := w) with ⟨_, heq⟩ | heq
  · rw [heq]
    exact h
  · rw [heq]
    exact fun hne => absurd rfl hne

theorem Stepped.apart {a : Act} (h : Stepped s w a t) (hsock : ∀ sock, w.socket = .ok sock → (sock : ℤ) ≠ s.cfd)
    (ha : Apart s) : Apart t := by
  cases h with
  | connectFailed | connectClosed | connectUnwatched | connected => exact fun hne => absurd rfl hne
  | shutdown => exact shutdown_apart ha
  | refused | ignored | wokenQuiet | returned => exact ha
  | issued c o _ _ _ hh => exact hh.apart hsock ha
  | gotten c f _ _ _ hh => exact hh.apart hsock ha
  | handled fd revents _ _ hh => exact hh.apart hsock ha
  | woken now _ _ _ _ hh => exact hh.apart hsock ha
  | expired =>
      have hdown : Apart (s.delClient.shutdown w).2 := shutdown_apart (s := s.delClient) ha
      rcases callFtpCmdDone_cases (s := (s.delClient.shutdown w).2) EPIPE 0 with ⟨_, heq⟩ | heq
      · exact show Apart (Session.callFtpCmdDone _ EPIPE 0) by rw [heq]; exact hdown
      · exact show Apart (Session.callFtpCmdDone _ EPIPE 0) by rw [heq]; exact hdown

/-- One step: with the account in order, what arrived is read on. -/
theorem step_caught {k : Label} {o : Option Traffic} (h : Attentive s o) (hs : s.step k = .ok t)
    (ht : s.traffic k t o = some g) (hno : Logged Unfailed t) : Caught t := by
  have readable : ∀ a, o = some a → Readable s := by
    intro a ha
    have hc := (h.channel a ha).1
    exact ⟨h.proto, hc.ibuf, hc.linelen, hc.obuf⟩
  obtain ⟨act, w⟩ := k
  cases act with
  | connect port =>
      cases hc : s.connect w port with
      | error stop => simp [step, hc, Except.map] at hs
      | ok r =>
          simp only [step, hc, Except.map, Except.ok.injEq] at hs
          subst hs
          have hspec := connect_spec (e := r.1) hc
          generalize r.2 = t at hspec ht hno ⊢
          cases hspec with
          | connectFailed | connectClosed | connectUnwatched => cases ht
          | connected => exact fun _ _ => ⟨held_init, rfl⟩
  | shutdown =>
      cases hs
      exact ((h.channel g ht).2 (hno.of_suffix shutdown_grows)).of_same shutdown_proto shutdown_wire
  | command c =>
      obtain ⟨a, ha, rfl⟩ := Option.map_eq_some_iff.1 ht
      cases hc : s.perform w c with
      | error stop => simp [step, hc, Except.map] at hs
      | ok r =>
          simp only [step, hc, Except.map, Except.ok.injEq] at hs
          subst hs
          exact perform_caught (e := r.1) (readable a ha) h.apart (h.channel a ha).2 hc hno
  | pollEvent fd revents =>
      obtain ⟨a, ha, rfl⟩ := Option.map_eq_some_iff.1 ht
      cases hc : s.notifyPollEvent w fd revents with
      | error stop => simp [step, hc, Except.map] at hs
      | ok r =>
          simp only [step, hc, Except.map, Except.ok.injEq] at hs
          subst hs
          exact notifyPollEvent_caught (e := r.1) (readable a ha) (h.channel a ha).2 hc hno
  | timer now => exact runTimer_caught (readable g ht) (h.channel g ht).2 hs hno
  | cmdDoneReturns =>
      change s.returnFromCallback = .ok t at hs
      unfold returnFromCallback at hs
      split at hs
      · cases hs
      · cases hs
        exact (h.channel g ht).2 hno

theorem step_attentive {k : Label} {o : Option Traffic} (h : Attentive s o) (hk : OtherSocket s o k)
    (hs : s.step k = .ok t) : Attentive t (s.traffic k t o) where
  proto := (step_spec h.proto hs).disciplined h.proto
  apart := by
    apply (step_spec h.proto hs).apart _ h.apart
    intro sock hsock
    unfold OtherSocket at hk
    rw [hsock] at hk
    exact hk
  channel g hg := ⟨step_carried (fun a ha => (h.channel a ha).1) hs hg, step_caught h hs hg⟩

/-- As long as no handler has failed, a pipe that waits for a reply has given the protocol every
line that it received. -/
theorem every_line_taken (h : Run connections OtherSocket s (some g)) (hno : Logged Unfailed s)
    (h0 : s.proto.getStatus = 0) (hin : s.proto.isInputReady = true) :
    (s.ibuf.held = [] ∧ s.ilineFull = false) ∧ g.lines = (Nbbio.fresh.items CR LF g.received).2.map cut := by
  have hatt : Attentive s (some g) := by
    apply h.invariant (I := Attentive)
    · rintro s o ⟨⟨memory, rate, rfl⟩, rfl⟩
      exact ⟨init_disciplined _, fun hne => absurd rfl hne, nofun⟩
    · intro s o k t hs hk hstep
      exact step_attentive hs hk hstep
  obtain ⟨hchannel, hcaught⟩ := hatt.channel g rfl
  obtain ⟨hheld, hfull⟩ := hcaught hno h0 hin
  obtain ⟨bs, hb⟩ := hchannel.heard
  have hreceived : g.received = bs := by
    have hreceived := hb.received
    rwa [show s.wire.ibuf.held = [] from hheld, List.append_nil] at hreceived
  have hlines := hb.lines
  rw [Wire.waiting, show s.wire.ilineFull = false from hfull] at hlines
  refine ⟨⟨hheld, hfull⟩, ?_⟩
  rw [hreceived, ← hlines]
  simp

end

/-- The login waits for the reply to PASS, of which the start has come. -/
theorem every_line_taken_pieces : ∃ s g, Run connections OtherSocket s (some g) ∧ g.lines = [ascii "220 hi"] ∧
    s.ibuf.held = [] ∧ g.lines = (Nbbio.fresh.items CR LF g.received).2.map cut := by
  have hfollow : (follow (guarded OtherSocket fun s k => (s.step k).toOption) connections.note (fresh blank 28000)
      none inPieces).bind (fun r => if (∀ x ∈ r.1.log, Unfailed x) ∧ r.1.proto.getStatus = 0 ∧
        r.1.proto.isInputReady = true then r.2.map Traffic.lines else none) = some [ascii "220 hi"] := by
    decide +kernel
  obtain ⟨⟨s, o⟩, hr, hlines⟩ := Option.bind_eq_some_iff.1 hfollow
  split at hlines
  · next hquiet =>
    obtain ⟨g, rfl, hg⟩ := Option.map_eq_some_iff.1 hlines
    have h0 : Run connections OtherSocket (fresh blank 28000) none := .start ⟨⟨blank, 28000, rfl⟩, rfl⟩
    have hrun := h0.follow_guarded (fun s k t ht => eq_ok_of_toOption ht) hr
    obtain ⟨⟨hheld, _⟩, htaken⟩ := every_line_taken hrun hquiet.1 hquiet.2.1 hquiet.2.2
    exact ⟨s, g, hrun, hg, hheld, htaken⟩
  · cases hlines

end Dkftpbench.Session
