import Dkftpbench.PipeCompletion

/-!
# The pipe between its steps

The transfer state, the data descriptor and the protocol are in phase with each other,
and the entry in the scheduler belongs to the transfer state. When a status is reported,
this leaves only the state IDLE with nothing open and nothing queued.
-/
namespace Dkftpbench.Session
open CLib EventClock FtpClientProto Watch

structure Clean (s : Session) : Prop where
  state : s.state = .idle
  dfd : s.dfd = -1
  queued : s.queued = none
  port : s.proto.addressReady = false

/-- The app connects only a fresh or shut-down pipe and waits for the previous command,
and events are those of descriptors. -/
def Polite (s : Session) : Act → Prop
  | .connect _ => s.cfd = -1 ∧ s.dfd = -1
  | .command _ => mayIssue s.log = true
  | .pollEvent fd _ => fd ≠ -1
  | .shutdown | .timer _ | .cmdDoneReturns => True

instance (s : Session) (a : Act) : Decidable (Polite s a) :=
  match a with
  | .connect _ => inferInstanceAs (Decidable (_ ∧ _))
  | .command _ => inferInstanceAs (Decidable (_ = _))
  | .pollEvent _ _ => inferInstanceAs (Decidable (_ ≠ _))
  | .shutdown | .timer _ | .cmdDoneReturns => isTrue trivial

/-- The clock does not go back, nor out of its window. -/
def Orderly (base : Clock) (s : Session) (g : Clock) (k : Label) : Prop :=
  (InWindow base k.world.now ∧ offset base g ≤ offset base k.world.now) ∧ Polite s k.act

instance (base : Clock) (s : Session) (g : Clock) (k : Label) : Decidable (Orderly base s g k) :=
  inferInstanceAs (Decidable (_ ∧ _))

/-- What it takes of the lines that go through the switch: PASV is answered with an
address; the final reply to RETR comes after the address was taken, and when the
transfer is over or, if it is a success, the data connection open; and a line that
comes unasked during a transfer is a success. -/
def Settled : Seen → Prop
  | .line pipe ibuf => pipe.proto.multiline = false →
    (pipe.proto.state = .pasv →
      is2xx (atoi ibuf.text) = true ∧ (parsePasv ibuf).isSome = true) ∧
    (pipe.proto.state = .retr → is1xx (atoi ibuf.text) = false →
      pipe.proto.addressReady = false ∧
        (pipe.state = .idle ∨ is2xx (atoi ibuf.text) = true ∧ pipe.dfd ≠ -1)) ∧
    (pipe.proto.state = .idle → pipe.state = .idle ∨ is2xx (atoi ibuf.text) = true)
  | _ => True

instance (x : Seen) : Decidable (Settled x) :=
  match x with
  | .line _ _ => inferInstanceAs (Decidable (_ → (_ → _ ∧ _) ∧ (_ → _ → _ ∧ _) ∧ (_ → _)))
  | .connect | .connected | .shutdown | .accepted _ | .refused _ _ | .socket _ | .add _ | .del _
  | .close _ | .failed _ _ | .dataIo _ _ | .cmdDone _ _ | .withheld _ _ _ => isTrue trivial

/-- How far a transfer has come, as the pipe and as the protocol see it. -/
structure InPhase (state : PipeState) (dfd : ℤ) (p : FtpClientProto) : Prop where
  port : p.addressReady = true → p.state = .retr
  asking : p.state = .pasv ∨ p.addressReady = true → state = .getting ∧ dfd = -1
  data : dfd ≠ -1 → (state = .getting ∨ state = .sleeping) ∧
    (p.state = .retr ∨ p.state = .idle ∧ is2xx p.status = true)
  waiting : state = .getting → dfd = -1 → p.state = .pasv ∨ p.state = .retr
  asleep : state = .sleeping → dfd ≠ -1
  moving : state ≠ .putting

/-- The pipe between its steps, with the clock as it was last read. -/
structure Tidy (base g : Clock) (s : Session) : Prop where
  proto : s.proto.Disciplined
  off : s.cfd = -1 → s.state = .idle ∧ s.dfd = -1 ∧ s.queued = none
  phase : s.cfd ≠ -1 → InPhase s.state s.dfd s.proto
  nap : ∀ when, s.state = .sleeping → s.queued = some when → when = s.wakeup
  connecting : s.state = .idle → s.queued ≠ none → s.proto.state = .init ∧ s.proto.status = 0
  timeout : s.state = .getting → s.queued ≠ none →
    s.bytesUnsleptFor = 0 ∧ InWindow base s.wakeup ∧ offset base s.wakeup ≤ offset base g
  may : mayIssue s.log = true → s.state = .idle ∧ s.cfd ≠ -1
  told : ∀ status l, s.log = .cmdDone 0 status :: l → s.queued = none

section
variable {p p' : FtpClientProto} {state : PipeState} {dfd : ℤ} {x : Seen} {ibuf : Line}
variable {e : ℤ} {o : Op} {pipe : FtpClientPipe} {w : World} {s t u : Session} {base g g' now : Clock}

/-- A data connection belongs to a transfer. -/
theorem InPhase.not_idle (h : InPhase state dfd p) (hopen : dfd ≠ -1) : state ≠ .idle := by
  rcases (h.data hopen).1 with hst | hst
  · rw [hst]
    exact PipeState.noConfusion
  · rw [hst]
    exact PipeState.noConfusion

theorem InPhase.dfd_of_idle (h : InPhase .idle dfd p) : dfd = -1 := by
  by_contra hopen
  exact h.not_idle hopen rfl

/-- No transfer is under way where the protocol is not in one. -/
theorem InPhase.of_outside (h : InPhase state dfd p)
    (hp : p.state ≠ .pasv ∧ p.state ≠ .retr ∧ p.state ≠ .idle) :
    state = .idle ∧ dfd = -1 ∧ p.addressReady = false := by
  have hdfd : dfd = -1 := by
    by_contra hopen
    rcases (h.data hopen).2 with hr | ⟨hi, _⟩
    · exact hp.2.1 hr
    · exact hp.2.2 hi
  refine ⟨?_, hdfd, ?_⟩
  · cases state with
    | idle => rfl
    | getting =>
        rcases h.waiting rfl hdfd with hr | hr
        · exact absurd hr hp.1
        · exact absurd hr hp.2.1
    | sleeping => exact absurd hdfd (h.asleep rfl)
    | putting => exact absurd rfl h.moving
  · by_contra hready
    exact hp.2.1 (h.port (by simpa using hready))

/-- Outside a transfer any protocol state but PASV is in phase. -/
theorem inPhase_idle (hready : p.addressReady = false) (hp : p.state ≠ .pasv) :
    InPhase .idle (-1) p where
  port h := by cases hready.symm.trans h
  asking h := h.elim (fun h => absurd h hp) fun h => by cases hready.symm.trans h
  data h := absurd rfl h
  waiting := nofun
  asleep := nofun
  moving := nofun

theorem InPhase.line (h : InPhase pipe.state pipe.dfd pipe.proto) (hd : pipe.proto.Disciplined)
    (hC : Settled (.line pipe ibuf)) (hg : pipe.proto.giveInput ibuf = some (e, p')) :
    InPhase pipe.state pipe.dfd p' := by
  rcases giveInput_cases hd hg with ⟨_, _, rfl⟩ | ⟨hm, hr⟩
  · exact ⟨h.port, h.asking, h.data, h.waiting, h.asleep, h.moving⟩
  · obtain ⟨hpasv, hretr, hidle⟩ := hC hm
    have outside : pipe.proto.state ≠ .pasv ∧ pipe.proto.state ≠ .retr ∧ pipe.proto.state ≠ .idle →
        p'.addressReady = pipe.proto.addressReady → p'.state ≠ .pasv →
        InPhase pipe.state pipe.dfd p' := by
      intro hout hready hne
      obtain ⟨hst, hdfd, hnot⟩ := h.of_outside hout
      rw [hst, hdfd]
      exact inPhase_idle (hready.trans hnot) hne
    cases hr with
    | helloUser hst | hello hst | refused hst | askPass hst | portOk hst =>
        have hst' : pipe.proto.state = _ := hst
        exact outside (by simp [hst']) rfl nofun
    | loggedIn hst | loginFailed hst | done hst =>
        have hsave : (pipe.proto.saveStatus ibuf).state = pipe.proto.state := rfl
        rw [hsave] at hst
        refine outside ⟨fun h => ?_, fun h => ?_, fun h => ?_⟩ rfl nofun <;> simp [h] at hst
    | pasvOk address hst h2 hp =>
        have hasking := h.asking (.inl hst)
        exact ⟨fun _ => rfl, fun _ => hasking, fun hopen => absurd hasking.2 hopen, fun _ _ => .inr rfl,
          h.asleep, h.moving⟩
    | abandoned hst =>
        rcases hst with ⟨hst, _⟩ | ⟨hst, hbad⟩
        · have hst' : pipe.proto.state = .port := hst
          exact outside (by simp [hst']) rfl nofun
        · obtain ⟨h2, haddr⟩ := hpasv hst
          rcases hbad with hbad | hbad
          · exact absurd (hbad.symm.trans h2) (by decide)
          · rw [hbad] at haddr
            cases haddr
    | retrMark hst h1 =>
        have hst' : pipe.proto.state = .retr := hst
        exact ⟨h.port, h.asking, fun hopen => ⟨(h.data hopen).1, .inl hst'⟩, h.waiting, h.asleep, h.moving⟩
    | retrDone hst h1 =>
        obtain ⟨hready, hover⟩ := hretr hst h1
        refine ⟨fun hr => ?_, fun ha => ?_, fun hopen => ?_, fun hget hclosed => ?_, h.asleep, h.moving⟩
        · cases hready.symm.trans hr
        · rcases ha with ha | ha
          · cases ha
          · cases hready.symm.trans ha
        · refine ⟨(h.data hopen).1, .inr ⟨rfl, ?_⟩⟩
          rcases hover with hidle | ⟨h2, _⟩
          · exact absurd hidle (h.not_idle hopen)
          · exact h2
        · rcases hover with hidle | ⟨_, hopen⟩
          · cases hidle.symm.trans hget
          · exact absurd hclosed hopen
    | unexpected hst =>
        by_cases hi : pipe.proto.state = .idle
        · refine ⟨h.port, h.asking, fun hopen => ?_, h.waiting, h.asleep, h.moving⟩
          refine ⟨(h.data hopen).1, .inr ⟨hi, ?_⟩⟩
          rcases hidle hi with hidle | h2
          · exact absurd hidle (h.not_idle hopen)
          · exact h2
        · have hst' : pipe.proto.state = .uninit ∨ pipe.proto.state = .connected ∨
              pipe.proto.state = .idle ∨ pipe.proto.state = .quit := hst
          have hout : pipe.proto.state ≠ .pasv ∧ pipe.proto.state ≠ .retr ∧ pipe.proto.state ≠ .idle := by
            rcases hst' with h | h | h | h <;> simp [h] at hi ⊢
          exact outside hout rfl hout.1

/-- A new command starts in a pipe that is not in a transfer. -/
theorem InPhase.issue (h : InPhase .idle dfd p) (hi : Issued p o p') (ho : ∀ f, o ≠ .get f none) :
    InPhase .idle (-1) p' := by
  apply inPhase_idle (hi.port h.port)
  cases hi with
  | getPasv f => exact absurd rfl (ho f)
  | loginEarly u v hst =>
      have hst' : p.state = .init := hst
      simp [queueUser, putLine, hst']
  | login | cd | type | size | getPort =>
      intro hidle
      cases hidle

/-- The data port is awaited when its address is taken. -/
theorem InPhase.ported (h : InPhase state dfd p) (hready : p.addressReady = true) (dfd' : ℤ) :
    InPhase state dfd' { p with addressReady := false } := by
  have hretr := h.port hready
  obtain ⟨hst, _⟩ := h.asking (.inr hready)
  refine ⟨nofun, fun ha => ?_, fun _ => ⟨.inl hst, .inl hretr⟩, fun _ _ => .inr hretr,
    fun hs => ?_, h.moving⟩
  · rcases ha with ha | ha
    · cases hretr.symm.trans ha
    · cases ha
  · cases hst.symm.trans hs

/-- A status that can be reported, with nothing open, is that of an idle pipe. -/
theorem InPhase.idle_of_status (h : InPhase state dfd p) (hst : p.getStatus ≠ 0) (hdfd : dfd = -1) :
    state = .idle := by
  have hstate := (getStatus_ne_zero hst).1
  cases state with
  | idle => rfl
  | getting =>
      rcases h.waiting rfl hdfd with hp | hp <;> simp [hp] at hstate
  | sleeping => exact absurd hdfd (h.asleep rfl)
  | putting => exact absurd rfl h.moving

/-- Where a data connection is open, only a success can be reported. -/
theorem InPhase.is2xx_of_open (h : InPhase state dfd p) (hst : p.getStatus ≠ 0) (hdfd : dfd ≠ -1) :
    is2xx p.getStatus = true := by
  obtain ⟨hstate, heq⟩ := getStatus_ne_zero hst
  rcases (h.data hdfd).2 with hp | ⟨_, h2⟩
  · simp [hp] at hstate
  · rwa [heq]

/-- Where a command may be issued nothing is under way. -/
theorem Tidy.ready (h : Tidy base g s) (hm : mayIssue s.log = true) :
    s.state = .idle ∧ s.cfd ≠ -1 ∧ InPhase .idle s.dfd s.proto ∧ s.dfd = -1 := by
  obtain ⟨hidle, hcfd⟩ := h.may hm
  have hph := h.phase hcfd
  rw [hidle] at hph
  exact ⟨hidle, hcfd, hph, hph.dfd_of_idle⟩

/-- Entries that tell the app nothing. -/
theorem Tidy.cons (h : Tidy base g s) (hx : mayIssue (x :: s.log) = mayIssue s.log)
    (hd : x.isCompletion = false) : Tidy base g { s with log := x :: s.log } where
  proto := h.proto
  off := h.off
  phase := h.phase
  nap := h.nap
  connecting := h.connecting
  timeout := h.timeout
  may hm := h.may (hx.symm.trans hm)
  told _ _ hl := by
    rw [(List.cons.inj hl).1] at hd
    cases hd

theorem Tidy.later (h : Tidy base g s) (hle : offset base g ≤ offset base g') : Tidy base g' s where
  proto := h.proto
  off := h.off
  phase := h.phase
  nap := h.nap
  connecting := h.connecting
  timeout hst hq := ⟨(h.timeout hst hq).1, (h.timeout hst hq).2.1, (h.timeout hst hq).2.2.trans hle⟩
  may := h.may
  told := h.told

theorem Tidy.line {full : Bool} (h : Tidy base g s) (hcfd : s.cfd ≠ -1)
    (hC : Settled (.line s.toFtpClientPipe ibuf)) (hg : s.proto.giveInput ibuf = some (e, p')) :
    Tidy base g (s.taken ibuf p' full) where
  proto := giveInput_disciplined h.proto hg
  off hoff := absurd hoff hcfd
  phase _ := (h.phase hcfd).line h.proto hC hg
  nap when hst hq := by
    have hst' : s.state = .sleeping := hst
    refine h.nap when hst' ?_
    simpa [taken, hst'] using hq
  connecting hst hq := by
    have hst' : s.state = .idle := hst
    simp [taken, hst'] at hq
  timeout hst hq := by
    have hst' : s.state = .getting := hst
    refine h.timeout hst' ?_
    simpa [taken, hst'] using hq
  may hm := h.may hm
  told := nofun

theorem throttle_of_ne {n : ℤ} (h : s.state ≠ .getting) : s.throttle now n = s := if_neg h

/-- With nothing read and nothing left over the pipe may read again at once. -/
theorem throttle_zero (now : Clock) (hst : s.state = .getting) (hu : s.bytesUnsleptFor = 0) :
    (s.throttle now 0).bytesUnsleptFor = 0 ∧ (s.throttle now 0).wakeup = now := by
  unfold throttle
  rw [if_pos hst, hu]
  dsimp only
  split
  · simp
  · simp

theorem Tidy.throttle {n : ℤ} (h : Tidy base now s) (hnow : InWindow base now)
    (hn : n = 0 ∨ s.queued = none) : Tidy base now (s.throttle now n) := by
  by_cases hst : s.state = .getting
  · constructor
    · simpa using h.proto
    · simpa using h.off
    · simpa using h.phase
    · intro when hsleep
      rw [throttle_state, hst] at hsleep
      cases hsleep
    · simpa using h.connecting
    · intro _ hq
      rw [throttle_queued] at hq
      have h0 := hn.resolve_right hq
      subst h0
      obtain ⟨hunslept, hwakeup⟩ := throttle_zero now hst (h.timeout hst hq).1
      rw [hunslept, hwakeup]
      exact ⟨rfl, hnow, le_rfl⟩
    · simpa using h.may
    · simpa using h.told
  · rw [throttle_of_ne hst]
    exact h

theorem Tidy.sleep (h : Tidy base g s) (hst : s.state = .getting) (hdfd : s.dfd ≠ -1) (b : Bool) :
    Tidy base g { s with state := .sleeping, queued := if b then some s.wakeup else none } where
  proto := h.proto
  off hoff := absurd (h.off hoff).2.1 hdfd
  phase hcfd :=
    have hph := h.phase hcfd
    ⟨hph.port, fun ha => absurd (hph.asking ha).2 hdfd, fun _ => ⟨.inr rfl, (hph.data hdfd).2⟩,
      nofun, fun _ => hdfd, nofun⟩
  nap when _ hq := by
    cases b with
    | true => exact (Option.some.inj hq).symm
    | false => cases hq
  connecting := nofun
  timeout := nofun
  may hm := by cases hst.symm.trans (h.may hm).1
  told status l hl := by
    have hidle := (h.may (show mayIssue s.log = true by rw [show s.log = _ from hl]; rfl)).1
    cases hst.symm.trans hidle

/-- The timeout or the nap is over. -/
theorem Tidy.delClient (h : Tidy base g s) : Tidy base g s.delClient where
  proto := h.proto
  off hoff := ⟨(h.off hoff).1, (h.off hoff).2.1, rfl⟩
  phase := h.phase
  nap _ _ hq := by cases hq
  connecting _ hq := absurd rfl hq
  timeout _ hq := absurd rfl hq
  may := h.may
  told _ _ _ := rfl

/-- A data connection is opened, or not, when its address was taken. -/
theorem Tidy.ported (h : Tidy base g s) (hcfd : s.cfd ≠ -1) (hready : s.proto.addressReady = true)
    (dfd' : ℤ) (connecting : Bool) :
    Tidy base g { s.ported with dfd := dfd', dfdConnecting := connecting } where
  proto := ⟨h.proto.outside, h.proto.inside⟩
  off hoff := absurd hoff hcfd
  phase _ := (h.phase hcfd).ported hready dfd'
  nap := h.nap
  connecting := h.connecting
  timeout := h.timeout
  may := h.may
  told := h.told

theorem Tidy.move (h : Tidy base w.now s ∧ s.cfd ≠ -1) (hw : InWindow base w.now)
    (hC : Logged Settled t) (hm : Move w s t) : Tidy base w.now t ∧ t.cfd ≠ -1 := by
  obtain ⟨h, hcfd⟩ := h
  cases hm with
  | fields =>
      exact ⟨⟨h.proto, h.off, h.phase, h.nap, h.connecting, h.timeout, h.may, h.told⟩, hcfd⟩
  | advance =>
      have hph := h.phase hcfd
      exact ⟨⟨⟨h.proto.outside, h.proto.inside⟩, h.off,
        fun _ => ⟨hph.port, hph.asking, hph.data, hph.waiting, hph.asleep, hph.moving⟩,
        h.nap, h.connecting, h.timeout, h.may, h.told⟩, hcfd⟩
  | line full hg he hst => exact ⟨h.line hcfd (hC _ List.mem_cons_self) hg, hcfd⟩
  | sleep hst hdfd hq => exact ⟨h.sleep hst hdfd w.enqueue, hcfd⟩
  | read => exact ⟨h.delClient.cons rfl rfl, hcfd⟩
  | throttle n hn => exact ⟨h.throttle hw hn, by simpa using hcfd⟩
  | portLost hready => exact ⟨h.ported hcfd hready s.dfd s.dfdConnecting, hcfd⟩
  | portLeaked sock hready =>
      exact ⟨(h.ported hcfd hready s.dfd s.dfdConnecting).cons rfl rfl, hcfd⟩
  | portUnwatched sock hready => exact ⟨(h.ported hcfd hready sock true).cons rfl rfl, hcfd⟩
  | portOpened sock c hready =>
      exact ⟨((h.ported hcfd hready sock c).cons rfl rfl).cons rfl rfl, hcfd⟩

theorem Tidy.hangUp (h : Tidy base g s) (hcfd : s.cfd ≠ -1) (hdfd : s.dfd ≠ -1) :
    Tidy base g s.hangUp.2 := by
  rw [hangUp_eq]
  have hph := h.phase hcfd
  have hasking : ∀ {P : Prop}, s.proto.state = .pasv ∨ s.proto.addressReady = true → P := by
    intro P ha
    exact absurd (hph.asking ha).2 hdfd
  exact {
    proto := h.proto
    off := fun hoff => absurd hoff hcfd
    phase := fun _ => ⟨hph.port, hasking, fun hopen => absurd rfl hopen, nofun, nofun, nofun⟩
    nap := nofun
    connecting := fun _ hq => absurd rfl hq
    timeout := nofun
    may := fun _ => ⟨rfl, hcfd⟩
    told := fun _ _ _ => rfl }

theorem Tidy.ends (h : Tidy base g s ∧ s.cfd ≠ -1) (hC : Logged Settled t) (he : Ends s e t) :
    Tidy base g t ∧ t.cfd ≠ -1 := by
  obtain ⟨h, hcfd⟩ := h
  cases he with
  | quiet => exact ⟨h, hcfd⟩
  | failed e => exact ⟨h.cons rfl rfl, hcfd⟩
  | refused full hg =>
      exact ⟨(h.line hcfd (hC _ (.tail _ List.mem_cons_self)) hg).cons rfl rfl, hcfd⟩
  | answered full hg => exact ⟨h.line hcfd (hC _ List.mem_cons_self) hg, hcfd⟩
  | hungUp _ hdfd => exact ⟨h.hangUp hcfd hdfd, by rw [hangUp_eq]; exact hcfd⟩

/-- No data connection is dropped for a failed command. -/
theorem Tidy.dropFailed_eq (h : Tidy base g s) (hcfd : s.cfd ≠ -1) : s.dropFailed = s := by
  rcases dropFailed_cases (s := s) with ⟨heq, _⟩ | ⟨⟨hst, h2, hdfd⟩, _⟩
  · exact heq
  · exact absurd ((h.phase hcfd).is2xx_of_open hst hdfd) (by simp [h2])

theorem Tidy.call {xerr status : ℤ} (h : Tidy base g s)
    (hdone : xerr = 0 → s.state = .idle ∧ s.cfd ≠ -1 ∧ s.queued = none) :
    Tidy base g (s.callFtpCmdDone xerr status) := by
  rcases callFtpCmdDone_cases (s := s) xerr status with ⟨_, heq⟩ | heq
  · rw [heq]
    refine ⟨h.proto, h.off, h.phase, h.nap, h.connecting, h.timeout, fun hm => ?_, fun st l hl => ?_⟩
    · by_cases hx : xerr = 0
      · exact ⟨(hdone hx).1, (hdone hx).2.1⟩
      · refine h.may ?_
        simpa [mayIssue, hx] using hm
    · cases hl
      exact (hdone rfl).2.2
  · rw [heq]
    exact h.cons rfl rfl

theorem Tidy.report (h : Tidy base g s ∧ s.cfd ≠ -1) (hr : Reported s e t) :
    Tidy base g t ∧ t.cfd ≠ -1 := by
  obtain ⟨h, hcfd⟩ := h
  have hdrop := h.dropFailed_eq hcfd
  cases hr with
  | kept =>
      rw [hdrop]
      exact ⟨h, hcfd⟩
  | told _ he =>
      rw [hdrop]
      exact ⟨h.call fun h0 => absurd h0 he, by rw [callFtpCmdDone_cfd]; exact hcfd⟩
  | done _ hst hdfd =>
      rw [hdrop] at hdfd ⊢
      refine ⟨h.call fun _ => ?_, by rw [callFtpCmdDone_cfd]; exact hcfd⟩
      have hidle := (h.phase hcfd).idle_of_status hst hdfd
      refine ⟨hidle, hcfd, ?_⟩
      by_contra hq
      exact hst ((getStatus_ne_zero hst).2.trans (h.connecting hidle hq).2)

theorem Tidy.handled (hh : Handled w s t) (hC : Logged Settled t) (hw : InWindow base w.now)
    (hcfd : s.cfd ≠ -1) (h : Tidy base w.now s) : Tidy base w.now t := by
  have hkeep := hh.invariant (I := fun s => Tidy base w.now s ∧ s.cfd ≠ -1)
    (J := fun _ s => Tidy base w.now s ∧ s.cfd ≠ -1) (fun s t hs hC hm => Tidy.move hs hw hC hm)
    (fun s e t hs hC he => Tidy.ends hs hC he) (fun t ht => ht)
    (fun t e u ht _ hr => Tidy.report ht hr) hC ⟨h, hcfd⟩
  exact hkeep.1

theorem Tidy.shutdown (h : Tidy base g s) : Tidy base g (s.shutdown w).2 := by
  rcases shutdown_cases (s := s) (w := w) with ⟨_, heq⟩ | heq
  · rw [heq]
    exact h
  · rw [heq]
    exact {
      proto := h.proto
      off := fun _ => ⟨rfl, rfl, rfl⟩
      phase := fun hcfd => absurd rfl hcfd
      nap := nofun
      connecting := fun _ hq => absurd rfl hq
      timeout := nofun
      may := nofun
      told := nofun }

theorem Tidy.issue (h : Tidy base g s) (hm : mayIssue s.log = true) (hi : Issued s.proto o p)
    (ho : ∀ f, o ≠ .get f none) : Tidy base g (s.issued o p) := by
  obtain ⟨hidle, hcfd, hph, hdfd⟩ := h.ready hm
  exact {
    proto := hi.disciplined h.proto
    off := fun hoff => absurd hoff hcfd
    phase := fun _ => by
      change InPhase s.state s.dfd p
      rw [hidle, hdfd]
      exact hph.issue hi ho
    nap := fun when hst hq => h.nap when hst hq
    connecting := fun _ hq => by
      obtain ⟨hinit, hstatus⟩ := h.connecting hidle hq
      cases hi with
      | loginEarly => exact ⟨hinit, hstatus⟩
      | login u v hst | cd d hst | type y hst | size f hst | getPasv f hst | getPort f a hst =>
          cases hinit.symm.trans hst
    timeout := fun hst _ => by cases hidle.symm.trans hst
    may := nofun
    told := nofun }

theorem Tidy.get {f : CStr} (h : Tidy base w.now s) (hw : InWindow base w.now)
    (hm : mayIssue s.log = true) (hi : Issued s.proto (.get f none) p) :
    Tidy base w.now ((s.issued (.get f none) p).awaiting w) := by
  obtain ⟨hidle, hcfd, hph, hdfd⟩ := h.ready hm
  have hready := hi.port hph.port
  have hpasv : p.state = .pasv := by
    cases hi
    rfl
  exact {
    proto := hi.disciplined h.proto
    off := fun hoff => absurd hoff hcfd
    phase := fun _ => by
      refine ⟨fun hr => ?_, fun _ => ⟨rfl, hdfd⟩, fun hopen => absurd hdfd hopen, fun _ _ => .inl hpasv,
        nofun, nofun⟩
      cases hready.symm.trans hr
    nap := nofun
    connecting := nofun
    timeout := fun _ _ => ⟨rfl, hw, le_rfl⟩
    may := nofun
    told := nofun }

theorem Tidy.reset (h : Tidy base g s) (hoff : s.cfd = -1) : Tidy base g s.reset where
  proto := init_disciplined s.proto
  off _ := ⟨rfl, rfl, (h.off hoff).2.2⟩
  phase hcfd := absurd rfl hcfd
  nap := nofun
  connecting _ hq := absurd (h.off hoff).2.2 hq
  timeout := nofun
  may := nofun
  told := nofun

/-- A control descriptor is opened by `connect`. -/
theorem Tidy.dial (h : Tidy base g s.reset) (sock : ℕ) (connecting : Bool) (hq : s.reset.queued = none) :
    Tidy base g { s.reset with cfd := sock, cfdConnecting := connecting } where
  proto := h.proto
  off hoff := by
    have hsock : (sock : ℤ) = -1 := hoff
    omega
  phase _ := inPhase_idle rfl nofun
  nap := nofun
  connecting _ hne := absurd hq hne
  timeout := nofun
  may := nofun
  told := nofun

theorem Tidy.dialled (h : Tidy base g s.reset) (sock : ℕ) (connecting : Bool) :
    Tidy base g (s.dialled w sock connecting) where
  proto := h.proto
  off hoff := by
    have hsock : (sock : ℤ) = -1 := hoff
    omega
  phase _ := inPhase_idle rfl nofun
  nap := nofun
  connecting _ _ := ⟨rfl, rfl⟩
  timeout := nofun
  may _ := ⟨rfl, by change (sock : ℤ) ≠ -1; omega⟩
  told := nofun

/-- A sleeping pipe is called at its time. -/
theorem Tidy.wake (h : Tidy base g s) (hst : s.state = .sleeping) (events : Revents) (when : Clock) :
    Tidy base g { s with queued := none, state := .getting, dfdEvents := events, wakeup := when } := by
  have hcfd : s.cfd ≠ -1 := fun hoff => by cases hst.symm.trans (h.off hoff).1
  have hph := h.phase hcfd
  have hdfd := hph.asleep hst
  exact {
    proto := h.proto
    off := fun hoff => absurd hoff hcfd
    phase := fun _ => ⟨hph.port, fun ha => absurd (hph.asking ha).2 hdfd,
      fun _ => ⟨.inl rfl, (hph.data hdfd).2⟩, fun _ hclosed => absurd hclosed hdfd, nofun, nofun⟩
    nap := nofun
    connecting := nofun
    timeout := fun _ hq => absurd rfl hq
    may := fun hm => by cases hst.symm.trans (h.may hm).1
    told := fun _ _ _ => rfl }

theorem Tidy.step {a : Act} (h : Tidy base w.now s) (hw : InWindow base w.now) (hp : Polite s a)
    (hC : Logged Settled t) (hs : Stepped s w a t) : Tidy base w.now t := by
  cases hs with
  | connectFailed => exact h.reset hp.1
  | connectClosed => exact ((h.reset hp.1).cons rfl rfl).cons rfl rfl
  | connectUnwatched port sock c =>
      exact ((h.reset hp.1).dial sock c (h.off hp.1).2.2).cons rfl rfl
  | connected port sock c => exact (h.reset hp.1).dialled sock c
  | shutdown => exact h.shutdown
  | refused => exact h.cons rfl rfl
  | issued c o ho hi hcfd hh => exact Tidy.handled hh hC hw hcfd (h.issue hp hi ho)
  | gotten c f hi _ hcfd hh => exact Tidy.handled hh hC hw hcfd (h.get hw hp hi)
  | ignored => exact h
  | handled fd revents hfd hmine hh =>
      have hcfd : s.cfd ≠ -1 := by
        rcases hmine with hd | hc
        · exact fun hoff => hfd (hd.trans (h.off hoff).2.1)
        · exact hc ▸ hfd
      exact Tidy.handled hh hC hw hcfd h
  | expired =>
      exact (Tidy.shutdown h.delClient).call fun h0 => by cases h0
  | wokenQuiet now _ _ hst => exact h.wake hst s.dfdEvents s.wakeup
  | woken now _ _ hst hdfd hh =>
      have hcfd : s.cfd ≠ -1 := fun hoff => by cases hst.symm.trans (h.off hoff).1
      exact Tidy.handled (s := s.woken now) hh hC hw hcfd (h.wake hst 0 now)
  | returned => exact ⟨h.proto, h.off, h.phase, h.nap, h.connecting, h.timeout, h.may, h.told⟩

theorem tidy_of_fresh (h : IsFresh s) : Tidy base g s := by
  obtain ⟨memory, rate, rfl⟩ := h
  exact {
    proto := init_disciplined memory.proto
    off := fun _ => ⟨rfl, rfl, rfl⟩
    phase := fun hcfd => absurd rfl hcfd
    nap := nofun
    connecting := fun _ hq => absurd rfl hq
    timeout := nofun
    may := nofun
    told := nofun }

theorem run_tidy (h : Run (runs IsFresh) (Orderly base) s g) (hC : Logged Settled s) : Tidy base g s := by
  apply runs_invariant (C := Settled) (I := fun s g => Tidy base g s) _ _ h hC
  · intro s g hs
    have htidy : Tidy base g s := tidy_of_fresh hs
    exact ⟨htidy.proto, htidy⟩
  · intro s g k t hs ⟨⟨hw, hle⟩, hp⟩ hC hstep
    exact (hs.later hle).step hw hp hC hstep

theorem Tidy.clean {status : ℤ} {l : List Seen} (h : Tidy base g s) (hl : s.log = .cmdDone 0 status :: l) :
    Clean s := by
  have hm : mayIssue s.log = true := by
    rw [hl]
    rfl
  obtain ⟨hidle, _, hph, hdfd⟩ := h.ready hm
  refine ⟨hidle, hdfd, h.told status l hl, ?_⟩
  by_contra hready
  cases (hph.asking (.inr (by simpa using hready))).1

end
end Dkftpbench.Session
