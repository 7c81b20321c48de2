import Dkftpbench.Bench
import Dkftpbench.PlatoonRoster

/-!
# What main says at the end

`main` sees the platoon only when it asks for a status, and what it prints rests on two numbers. All
users that were started are in one of them, and the number of the dead only grows, so
that the two numbers tell what has happened since the last look.
-/
namespace Dkftpbench.Bench
open CLib EventClock Faults Platoon Watch

/-- What `runAll` calls keeps the logins. -/
def Kept (b : Bench) (_ : Looks) : Act → Prop
  | .timer k => LoginsKept b.platoon k
  | _ => True

/-- The numbers are those of the platoon as it was at the last look. -/
structure Seen (b : Bench) (q : Platoon) : Prop where
  rostered : Rostered q
  ages : Ages q b.platoon
  nalive : b.nalive = q.sumInState .connect .getting
  ndead : b.ndead = q.nInState .stopped
  nonneg : 0 ≤ b.nalive ∧ 0 ≤ b.ndead

/-- The counts have been the same since a look, at which the end of the test was set. -/
def Stable (b : Bench) (n : Looks) : Prop :=
  ∃ t₀ same older, n.looks = same ++ (t₀, b.nalive, b.ndead) :: older ∧ (∀ x ∈ same, x.2 = (b.nalive, b.ndead)) ∧
    b.testEnd = t₀+b.tix

/-- What holds of the end of the test, whatever becomes of the users. -/
structure Timed (o : Options) (b : Bench) (n : Looks) : Prop where
  duration : b.duration = o.duration
  old : b.phase ≠ .failed → b.oldNalive = b.nalive ∧ b.oldNdead = b.ndead
  stable : b.phase ≠ .failed → Stable b n
  expired : b.phase = .expired → b.duration ≠ 0 ∧ eclockAfter b.now b.testEnd = true

structure Running (o : Options) (b : Bench) (n : Looks) : Prop where
  sound : Sound False none b.platoon
  rostered : Rostered b.platoon
  users : b.platoon.nuserTarget = o.users
  last : b.platoon.lastConnectingState = o.lastConnectingState
  room : (b.platoon.next : ℤ) ≤ max o.users 0
  seen : ∃ q, Seen b q
  changes : (n.changes : ℤ) ≤ b.nalive+2*b.ndead
  alive : b.phase ≠ .failed → o.lastConnectingState ≠ .stopped → b.nalive = 0 → b.ndead = 0
  failed : b.phase = .failed → b.nalive = 0 ∧ 0 < b.ndead ∧ b.platoon.deadlist = [] ∧ ∀ i, b.platoon.users i = none

section
variable {o : Options} {b t : Bench} {n : Looks} {p q : Platoon} {k : Platoon.Act} {w : World} {st : Platoon.Status}
variable {now : Clock}

/-- The steps that have a result. -/
inductive Moves (b : Bench) : Act → Bench → Prop
  | expires {now : Clock} {w : World} (hphase : b.phase = .top) (hover : b.duration ≠ 0 ∧ eclockAfter now b.testEnd = true) :
      Moves b (.top now w) { b with now := now, phase := .expired }
  | look {now : Clock} {w : World} {st : Platoon.Status} {p : Platoon} (hphase : b.phase = .top)
      (hst : b.platoon.getStatus w = .ok (st, p)) : Moves b (.top now w) ({ b with platoon := p, now := now }.look st)
  | timer {k : Platoon.Act} {p : Platoon} (hphase : b.phase = .timers) (hk : isTimer b.now k = true)
      (hp : b.platoon.step k = .ok p) : Moves b (.timer k) { b with platoon := p }
  | ran (hphase : b.phase = .timers) : Moves b .ran { b with phase := .events }
  | event {id : ℕ} {fd : ℤ} {revents : Revents} {w shutdown : World} {io : DataIo} {as : List LoopAnswers} {p q : Platoon}
      (hphase : b.phase = .events) (hp : b.platoon.step (.pipe id (.event fd revents) w io as) = .ok p)
      (hq : p.reap shutdown = .ok q) : Moves b (.event id fd revents w io as shutdown) { b with platoon := q }
  | wait (hphase : b.phase = .events) : Moves b .wait { b with phase := .top }

theorem step_moves {k : Act} (hs : b.step k = .ok t) : Moves b k t := by
  cases k with
  | top now w =>
      rw [Bench.step] at hs
      split_ifs at hs with hphase hover
      · cases hs
        exact .expires (not_not.1 hphase) hover
      · cases hst : b.platoon.getStatus w with
        | error f =>
            rw [hst] at hs
            cases hs
        | ok x =>
            rw [hst] at hs
            cases hs
            exact .look (not_not.1 hphase) hst
  | timer k =>
      rw [Bench.step] at hs
      split_ifs at hs with hk
      cases hp : b.platoon.step k with
      | error f =>
          rw [hp] at hs
          cases hs
      | ok p =>
          rw [hp] at hs
          cases hs
          exact .timer hk.1 hk.2 hp
  | ran =>
      rw [Bench.step] at hs
      split_ifs at hs with hphase
      cases hs
      exact .ran hphase
  | event id fd revents w io as shutdown =>
      rw [Bench.step] at hs
      split_ifs at hs with hphase
      cases hp : b.platoon.step (.pipe id (.event fd revents) w io as) with
      | error f =>
          rw [hp] at hs
          cases hs
      | ok p =>
          rw [hp, ok_bind] at hs
          cases hq : p.reap shutdown with
          | error f =>
              rw [hq] at hs
              cases hs
          | ok q =>
              rw [hq] at hs
              cases hs
              exact .event hphase hp hq
  | wait =>
      rw [Bench.step] at hs
      split_ifs at hs with hphase
      cases hs
      exact .wait hphase

/-- A part of the loop in which main does not look. -/
theorem Timed.quiet (h : Timed o b n) (p : Platoon) {phase : BenchPhase} (hphase : b.phase ≠ .failed)
    (hnew : phase ≠ .expired) : Timed o { b with platoon := p, phase := phase } n :=
  ⟨h.duration, fun _ => h.old hphase, fun _ => h.stable hphase, fun hx => absurd hx hnew⟩

theorem Running.quiet (h : Running o b n) {phase : BenchPhase} (hsound : Sound False none p) (hrostered : Rostered p)
    (hages : Ages b.platoon p) (hphase : b.phase ≠ .failed) (hnew : phase ≠ .failed) :
    Running o { b with platoon := p, phase := phase } n := by
  obtain ⟨q, hq⟩ := h.seen
  refine ⟨hsound, hrostered, hages.nuserTarget.trans h.users, hages.lastConnectingState.trans h.last, ?_,
    ⟨q, hq.rostered, hq.ages.trans hages, hq.nalive, hq.ndead, hq.nonneg⟩, h.changes, fun _ => h.alive hphase,
    fun hx => absurd hx hnew⟩
  have hroom := h.room
  have husers := h.users
  rcases hages.filled with heq | ⟨-, hle⟩
  · rw [heq]
    exact hroom
  · exact hle.trans (husers ▸ le_max_left _ _)

theorem isSetting_of_isTimer (h : isTimer now k = true) : isSetting k = false := by
  cases k with
  | platoonTimer | userTimer | pipe => rfl
  | setNuserTarget | setNconnectingTarget | setLastConnectingState | reap | getStatus => cases h

theorem Running.timer (h : Running o b n) (hkept : LoginsKept b.platoon k) (hphase : b.phase = .timers)
    (hk : isTimer b.now k = true) (hp : b.platoon.step k = .ok p) : Running o { b with platoon := p } n := by
  have hsound := (step_holds h.sound hkept False.elim).result hp
  obtain ⟨hrostered, hages⟩ := (step_rostered h.rostered (isSetting_of_isTimer hk)).result hp
  have hnot : b.phase ≠ .failed := by
    rw [hphase]
    decide
  exact h.quiet hsound hrostered hages hnot hnot

theorem Running.event {q : Platoon} {id : ℕ} {c : Cause} {io : DataIo} {as : List LoopAnswers} {w' : World}
    (h : Running o b n) (hphase : b.phase = .events) (hp : b.platoon.step (.pipe id c w io as) = .ok p)
    (hq : p.reap w' = .ok q) : Running o { b with platoon := q } n := by
  have hsound := (step_holds h.sound (k := .pipe id c w io as) trivial False.elim).result hp
  have hsound' := ((hsound.reap (w := w') fun _ _ => nofun).result hq).1
  obtain ⟨hrostered, hages⟩ := (step_rostered h.rostered (k := .pipe id c w io as) rfl).result hp
  obtain ⟨hrostered', hages'⟩ := (hrostered.reap (w := w')).result hq
  have hnot : b.phase ≠ .failed := by
    rw [hphase]
    decide
  exact h.quiet hsound' hrostered' (hages.trans hages') hnot hnot

/-- All that were started are alive or dead at a look, and only the second number is sure to grow. -/
theorem since_last {q : Platoon} (h : Replied b.platoon st p) (hq : Seen b q) : b.nalive+b.ndead = q.next ∧
    st.nalive+st.ndead = p.next ∧ (q.next : ℤ) ≤ p.next ∧ b.ndead ≤ st.ndead ∧
    (p.next = q.next ∨ b.ndead ≤ 0) ∧ 0 ≤ st.nalive ∧ 0 ≤ st.ndead := by
  have hages := hq.ages.trans h.ages
  have htotal := hq.rostered.counts
  have htotal' := h.rostered.counts
  rw [← hq.nalive, ← hq.ndead] at htotal
  rw [← h.nalive, ← h.ndead] at htotal'
  have hstopped := hages.stopped
  rw [← hq.ndead, ← h.ndead] at hstopped
  have hnonneg := hq.nonneg
  have hslots := h.slots
  refine ⟨htotal, htotal', Int.ofNat_le.2 hages.next, hstopped, ?_, by omega, by omega⟩
  rcases hages.filled with heq | ⟨h0, -⟩
  · exact .inl heq
  · rw [← hq.ndead] at h0
    exact .inr h0

/-- What `main` makes of a status: all are dead, something has changed, or nothing has. -/
theorem look_cases (b : Bench) (st : Platoon.Status) :
    ((st.nalive ≠ b.oldNalive ∨ st.ndead ≠ b.oldNdead) ∧ (st.ndead ≠ b.oldNdead ∧ st.nalive = 0 ∧ st.nconnecting = 0) ∧
      b.look st = { b with
        nconnecting := st.nconnecting, nalive := st.nalive, ndead := st.ndead, phase := .failed }) ∨
    ((st.nalive ≠ b.oldNalive ∨ st.ndead ≠ b.oldNdead) ∧
      ¬ (st.ndead ≠ b.oldNdead ∧ st.nalive = 0 ∧ st.nconnecting = 0) ∧ b.look st = { b with
        nconnecting := st.nconnecting, nalive := st.nalive, ndead := st.ndead, phase := .timers
        testEnd := b.now+b.tix, oldNalive := st.nalive, oldNdead := st.ndead }) ∨
    (st.nalive = b.oldNalive ∧ st.ndead = b.oldNdead) ∧ b.look st = { b with
      nconnecting := st.nconnecting, nalive := st.nalive, ndead := st.ndead, phase := .timers } := by
  unfold look
  dsimp only
  split
  · next hchange =>
    split
    · next hall => exact .inl ⟨hchange, hall, rfl⟩
    · next hall => exact .inr (.inl ⟨hchange, hall, rfl⟩)
  · next hchange =>
    rw [not_or, not_not, not_not] at hchange
    exact .inr (.inr ⟨hchange, rfl⟩)

/-- The note of a look. -/
def Looks.add (n : Looks) (b : Bench) (now : Clock) (st : Platoon.Status) : Looks :=
  { looks := (now, st.nalive, st.ndead) :: n.looks
    changes := n.changes+if st.nalive ≠ b.oldNalive ∨ st.ndead ≠ b.oldNdead then 1 else 0 }

/-- What a look makes of the end of the test. -/
theorem Timed.look (h : Timed o b n) (hphase : b.phase = .top) :
    Timed o ({ b with platoon := p, now := now }.look st) (n.add b now st) := by
  have hno : b.phase ≠ .failed := by
    rw [hphase]
    decide
  rcases look_cases { b with platoon := p, now := now } st with ⟨-, -, heq⟩ | ⟨-, -, heq⟩ | ⟨⟨hsame, hsameDead⟩, heq⟩
  · rw [heq]
    exact ⟨h.duration, fun hx => absurd rfl hx, fun hx => absurd rfl hx, nofun⟩
  · rw [heq]
    exact ⟨h.duration, fun _ => ⟨rfl, rfl⟩, fun _ => ⟨now, [], n.looks, rfl, nofun, rfl⟩, nofun⟩
  · rw [heq]
    refine ⟨h.duration, fun _ => ⟨hsame.symm, hsameDead.symm⟩, ?_, nofun⟩
    intro _
    obtain ⟨t₀, same, older, hlooks, hall, hend⟩ := h.stable hno
    obtain ⟨hold, holdDead⟩ := h.old hno
    have hnow : st.nalive = b.nalive ∧ st.ndead = b.ndead := ⟨hsame.trans hold, hsameDead.trans holdDead⟩
    refine ⟨t₀, (now, st.nalive, st.ndead) :: same, older, ?_, ?_, hend⟩
    · simp only [Looks.add, hlooks, hnow, List.cons_append]
    · intro x hx
      rcases List.mem_cons.1 hx with rfl | hx
      · rfl
      · rw [hall x hx, hnow.1, hnow.2]

/-- What a look preserves. -/
theorem Running.look (h : Running o b n) (ht : Timed o b n) (hphase : b.phase = .top) (hl : Replied b.platoon st p) :
    Running o ({ b with platoon := p, now := now }.look st) (n.add b now st) := by
  have hno : b.phase ≠ .failed := by
    rw [hphase]
    decide
  obtain ⟨q, hq⟩ := h.seen
  obtain ⟨hbefore, hafter, hnext, hdead, hfixed, hnonneg, hnonneg'⟩ := since_last hl hq
  obtain ⟨hold, holdDead⟩ := ht.old hno
  have hcount := h.changes
  have hroom : (p.next : ℤ) ≤ max o.users 0 := by
    have hroom := h.room
    rcases hl.ages.filled with heq | ⟨-, hle⟩
    · rw [heq]
      exact hroom
    · exact hle.trans (h.users ▸ le_max_left _ _)
  have husers := hl.ages.nuserTarget.trans h.users
  have hlast := hl.ages.lastConnectingState.trans h.last
  have hseen : Seen { b with platoon := p, nalive := st.nalive, ndead := st.ndead } p :=
    ⟨hl.rostered, .refl p, hl.nalive, hl.ndead, hnonneg, hnonneg'⟩
  rcases look_cases { b with platoon := p, now := now } st with
    ⟨hchange, ⟨hnew, hnone, -⟩, heq⟩ | ⟨hchange, hnot, heq⟩ | ⟨⟨hsame, hsameDead⟩, heq⟩
  · rw [heq]
    dsimp only at hnew hchange
    refine ⟨hl.sound, hl.rostered, husers, hlast, hroom, ⟨p, hseen.rostered, hseen.ages, hseen.nalive, hseen.ndead,
      hseen.nonneg⟩, ?_, fun hx => absurd rfl hx, fun _ => ⟨hnone, ?_, hl.deadlist, hl.users_eq hnone⟩⟩
    · simp only [Looks.add]
      rw [if_pos hchange]
      omega
    · dsimp only
      omega
  · rw [heq]
    refine ⟨hl.sound, hl.rostered, husers, hlast, hroom, ⟨p, hseen.rostered, hseen.ages, hseen.nalive, hseen.ndead,
      hseen.nonneg⟩, ?_, ?_, nofun⟩
    · simp only [Looks.add]
      rw [if_pos hchange]
      dsimp only at hchange
      omega
    · intro _ hk hnone
      -- somebody was started since, or nobody had been alive before
      have hconnecting := hl.nconnecting_eq (hlast ▸ hk) hnone
      have hsame : st.ndead = b.oldNdead := by
        by_contra hne
        exact hnot ⟨hne, hnone, hconnecting⟩
      have halive := h.alive hno hk
      dsimp only at hnone ⊢
      omega
  · rw [heq]
    dsimp only at hsame hsameDead
    refine ⟨hl.sound, hl.rostered, husers, hlast, hroom, ⟨p, hseen.rostered, hseen.ages, hseen.nalive, hseen.ndead,
      hseen.nonneg⟩, ?_, ?_, nofun⟩
    · simp only [Looks.add]
      rw [if_neg (by rw [hsame, hsameDead]; simp)]
      omega
    · intro _ hk hnone
      have halive := h.alive hno hk
      dsimp only at hnone ⊢
      omega

/-- A look leads on to `runAll`, or to the end. -/
theorem look_noted (b : Bench) (st : Platoon.Status) : (b.look st).phase ≠ .expired ∧ (b.look st).nalive = st.nalive ∧
    (b.look st).ndead = st.ndead := by
  rcases look_cases b st with ⟨-, -, heq⟩ | ⟨-, -, heq⟩ | ⟨-, heq⟩
  all_goals
    rw [heq]
    exact ⟨nofun, rfl, rfl⟩

/-- The end of the test after one step. -/
theorem Timed.step {k : Act} (h : Timed o b n) (hs : b.step k = .ok t) : Timed o t (note n b k t) := by
  cases step_moves hs with
  | expires hphase hover =>
      rw [note, if_pos rfl]
      have hno : b.phase ≠ .failed := by
        rw [hphase]
        decide
      exact ⟨h.duration, fun _ => h.old hno, fun _ => h.stable hno, fun _ => hover⟩
  | look hphase hst =>
      rename_i now w st p
      have hlook : Timed o ({ b with platoon := p, now := now }.look st) (n.add b now st) := h.look hphase
      obtain ⟨hnot, halive, hdead⟩ := look_noted { b with platoon := p, now := now } st
      rw [note, if_neg hnot, halive, hdead]
      exact hlook
  | timer hphase | event hphase =>
      have hnot : b.phase ≠ .failed ∧ b.phase ≠ .expired := by
        rw [hphase]
        decide
      exact h.quiet _ hnot.1 hnot.2
  | ran hphase | wait hphase => exact h.quiet b.platoon (by rw [hphase]; decide) nofun

/-- What one step preserves. -/
theorem Running.step {k : Act} (h : Running o b n) (ht : Timed o b n) (hkept : Kept b n k) (hs : b.step k = .ok t) :
    Running o t (note n b k t) := by
  cases step_moves hs with
  | expires hphase =>
      rw [note, if_pos rfl]
      obtain ⟨q, hq⟩ := h.seen
      have hno : b.phase ≠ .failed := by
        rw [hphase]
        decide
      exact ⟨h.sound, h.rostered, h.users, h.last, h.room, ⟨q, hq.rostered, hq.ages, hq.nalive, hq.ndead, hq.nonneg⟩,
        h.changes, fun _ => h.alive hno, nofun⟩
  | look hphase hst =>
      rename_i now w st p
      have hlook : Running o ({ b with platoon := p, now := now }.look st) (n.add b now st) :=
        h.look ht hphase (getStatus_answers h.sound h.rostered hst)
      obtain ⟨hnot, halive, hdead⟩ := look_noted { b with platoon := p, now := now } st
      rw [note, if_neg hnot, halive, hdead]
      exact hlook
  | timer hphase hk hp => exact h.timer hkept hphase hk hp
  | event hphase hp hq => exact h.event hphase hp hq
  | ran hphase | wait hphase => exact h.quiet h.sound h.rostered (.refl b.platoon) (by rw [hphase]; decide) nofun

/-- What holds where the loop begins. -/
theorem running_start {k₁ k₂ k₃ : Wake} (h : start o k₁ k₂ k₃ now = some b) :
    Running o b ⟨[(now, 0, 0)], 0⟩ ∧ Timed o b ⟨[(now, 0, 0)], 0⟩ := by
  rw [start] at h
  split_ifs at h
  cases h
  have hrostered := (init_rostered o.settings).of_eq (t := ((Platoon.init o.settings).setNuserTarget o.users
    k₁).setNconnectingTarget o.nconnectingTarget k₂ |>.setLastConnectingState o.lastConnectingState k₃) rfl rfl
    fun _ _ hr => hr
  exact ⟨⟨(init_sound o.settings).others .., hrostered, rfl, rfl, le_max_right _ _,
    ⟨_, hrostered, .refl _, rfl, rfl, le_rfl, le_rfl⟩, le_rfl, fun _ _ _ => rfl, nofun⟩,
    rfl, fun _ => ⟨rfl, rfl⟩, fun _ => ⟨now, [], [], rfl, nofun, rfl⟩, nofun⟩

/-- What any whole run preserves. -/
theorem timed_of_run {ok : Bench → Looks → Act → Prop} (h : Run (benches o) ok b n) : Timed o b n := by
  apply h.invariant
  · rintro b n ⟨k₁, k₂, k₃, now, hstart, rfl⟩
    exact (running_start hstart).2
  · intro b n k t hb _ hs
    exact hb.step hs

/-- What a whole run preserves in which the logins are kept. -/
theorem running_of_run (h : Run (benches o) Kept b n) : Running o b n := by
  have hboth : Running o b n ∧ Timed o b n := by
    apply h.invariant
    · rintro b n ⟨k₁, k₂, k₃, now, hstart, rfl⟩
      exact running_start hstart
    · intro b n k t ⟨hb, ht⟩ hk hs
      exact ⟨hb.step ht hk hs, ht.step hs⟩
  exact hboth.1

/-- `main` says that all users are dead when everybody that was started is dead and nobody is
left in a slot. Then nobody is started any more; and where `main` goes on and does not count the dead as
connecting, somebody was alive at the last look or nobody had died. -/
theorem all_dead_at_failure (h : Run (benches o) Kept b n) :
    (b.phase = .failed → 0 < b.platoon.next ∧ b.platoon.everDead.toFinset.card = b.platoon.next ∧
      (∀ i, b.platoon.users i = none) ∧ b.platoon.deadlist = [] ∧ b.platoon.wantsUser = false) ∧
    (b.phase ≠ .failed → o.lastConnectingState ≠ .stopped → b.nalive = 0 → b.ndead = 0) := by
  have hrun := running_of_run h
  refine ⟨?_, hrun.alive⟩
  intro hphase
  obtain ⟨-, hdead, hlist, husers⟩ := hrun.failed hphase
  obtain ⟨q, hq⟩ := hrun.seen
  have halive : b.platoon.sumInState .connect .getting = 0 := by
    rw [sumInState_eq hrun.sound (by decide), Int.natCast_eq_zero, Finset.card_eq_zero, Finset.filter_eq_empty_iff]
    rintro i - ⟨s, hroll, -⟩
    obtain ⟨id, r, hid, -⟩ := roll_eq_some hroll
    cases (husers i).symm.trans hid
  have htotal := hrun.rostered.counts
  rw [halive, zero_add, hrun.sound.ndead] at htotal
  have hstopped := hq.ages.stopped
  rw [← hq.ndead, hrun.sound.ndead, htotal] at hstopped
  refine ⟨Int.natCast_pos.1 (hdead.trans_le hstopped), Int.ofNat_inj.1 htotal, husers, hlist, ?_⟩
  rw [Bool.eq_false_iff]
  intro hwants
  have hzero := (wantsUser_iff.1 hwants).1
  rw [sumInState_dead, hrun.sound.ndead, htotal] at hzero
  omega

/-- The test is over when the counts have been the same at every look for the time asked for. -/
theorem over_when_stable {ok : Bench → Looks → Act → Prop} (h : Run (benches o) ok b n) (hover : b.phase = .expired) :
    o.duration ≠ 0 ∧ ∃ t₀ same older, n.looks = same ++ (t₀, b.nalive, b.ndead) :: older ∧
      (∀ x ∈ same, x.2 = (b.nalive, b.ndead)) ∧ eclockAfter b.now (t₀+BitVec.ofInt 64 (o.duration*eclockHertz)) = true := by
  have hrun := timed_of_run h
  obtain ⟨hduration, hafter⟩ := hrun.expired hover
  obtain ⟨t₀, same, older, hlooks, hall, hend⟩ := hrun.stable (by rw [hover]; decide)
  rw [hend, tix, hrun.duration] at hafter
  exact ⟨hrun.duration ▸ hduration, t₀, same, older, hlooks, hall, hafter⟩

/-- The end of the test is put off at most twice for each user: once when it is there, and once when it
is dead. -/
theorem changes_le_users (h : Run (benches o) Kept b n) : (n.changes : ℤ) ≤ 2*max o.users 0 := by
  have hrun := running_of_run h
  obtain ⟨q, hq⟩ := hrun.seen
  have htotal := hq.rostered.counts
  rw [← hq.nalive, ← hq.ndead] at htotal
  have hnext : (q.next : ℤ) ≤ b.platoon.next := Int.ofNat_le.2 hq.ages.next
  have hroom := hrun.room
  have hchanges := hrun.changes
  have hnonneg := hq.nonneg
  omega

end

/-- Options for a few tests. -/
def brief : Options := ⟨modest, 1, 1, .connecting, 1⟩

/-- A user is started and then cannot connect. -/
def lostUser : List Act :=
  [.top 0 (Session.calm 0 []), .timer (.platoonTimer 0 [⟨Session.blank, 0, true, prompt⟩]), .ran, .wait,
    .top 5 (Session.calm 0 []), .timer (.userTimer 0 5 [lost]), .ran, .wait, .top 9 (Session.calm 0 [])]

/-- A user is started and is alive at the end. -/
def aliveUser : List Act :=
  [.top 0 (Session.calm 0 []), .timer (.platoonTimer 0 [⟨Session.blank, 0, true, prompt⟩]), .ran, .wait,
    .top 5 (Session.calm 0 []), .ran, .wait, .top 20000 (Session.calm 0 [])]

/-- The runs of one test along a list of labels. -/
theorem run_brief {ks : List Act} {r : Bench × Looks} (hok : ∀ k ∈ ks, ∀ b n, Kept b n k)
    (h : ((start brief prompt prompt prompt 0).bind fun b =>
      follow (fun b _ k => (b.step k).toOption) note b ⟨[(0, 0, 0)], 0⟩ ks) = some r) :
    Run (benches brief) Kept r.1 r.2 := by
  obtain ⟨b, hstart, hr⟩ := Option.bind_eq_some_iff.1 h
  exact Run.follow_all (fun _ _ _ => eq_ok_of_toOption) hok
    (.start ⟨prompt, prompt, prompt, 0, hstart, rfl⟩) hr

theorem kept_lostUser : ∀ k ∈ lostUser, ∀ b n, Kept b n k := by
  intro k hk b n
  cases k with
  | timer k =>
      cases k with
      | userTimer id now as =>
          intro a ha
          simp only [lostUser, List.mem_cons, Act.timer.injEq, Platoon.Act.userTimer.injEq, reduceCtorEq,
            List.not_mem_nil, or_false, false_or] at hk
          rw [hk.2.2] at ha
          cases ha
          exact keepsLogin_calm b.platoon lost rfl
      | platoonTimer | pipe | setNuserTarget | setNconnectingTarget | setLastConnectingState | reap | getStatus => trivial
  | top | ran | event | wait => trivial

theorem kept_aliveUser : ∀ k ∈ aliveUser, ∀ b n, Kept b n k := by
  intro k hk b n
  cases k with
  | timer k =>
      simp only [aliveUser, List.mem_cons, Act.timer.injEq, reduceCtorEq, List.not_mem_nil, or_false, false_or] at hk
      rw [hk]
      trivial
  | top | ran | event | wait => trivial

/-- The only user is dead. -/
theorem all_dead_at_failure_lost : ∃ b n, Run (benches brief) Kept b n ∧ b.phase = .failed ∧
    b.platoon.everDead.toFinset.card = b.platoon.next := by
  have hfollow : ((((start brief prompt prompt prompt 0).bind fun b =>
      follow (fun b _ k => (b.step k).toOption) note b ⟨[(0, 0, 0)], 0⟩ lostUser).map
        fun r => r.1.phase) = some .failed) := by
    decide +kernel
  obtain ⟨r, hr, hphase⟩ := Option.map_eq_some_iff.1 hfollow
  have hrun := run_brief kept_lostUser hr
  exact ⟨r.1, r.2, hrun, hphase, ((all_dead_at_failure hrun).1 hphase).2.1⟩

/-- One user is left standing. -/
theorem over_when_stable_alive : ∃ b n, Run (benches brief) Kept b n ∧ b.phase = .expired ∧ b.nalive = 1 ∧
    ∃ t₀ same older, n.looks = same ++ (t₀, b.nalive, b.ndead) :: older ∧ (∀ x ∈ same, x.2 = (b.nalive, b.ndead)) ∧
      eclockAfter b.now (t₀+BitVec.ofInt 64 (1*eclockHertz)) = true := by
  have hfollow : ((((start brief prompt prompt prompt 0).bind fun b =>
      follow (fun b _ k => (b.step k).toOption) note b ⟨[(0, 0, 0)], 0⟩ aliveUser).map
        fun r => (r.1.phase, r.1.nalive)) = some (.expired, 1)) := by
    decide +kernel
  obtain ⟨r, hr, heq⟩ := Option.map_eq_some_iff.1 hfollow
  have hrun := run_brief kept_aliveUser hr
  obtain ⟨hphase, halive⟩ := Prod.mk.inj heq
  exact ⟨r.1, r.2, hrun, hphase, halive, (over_when_stable hrun hphase).2⟩

/-- Both changes of one user. -/
theorem changes_le_users_lost : ∃ b n, Run (benches brief) Kept b n ∧ n.changes = 2 ∧ (n.changes : ℤ) ≤ 2*max 1 0 := by
  have hfollow : ((((start brief prompt prompt prompt 0).bind fun b =>
      follow (fun b _ k => (b.step k).toOption) note b ⟨[(0, 0, 0)], 0⟩ lostUser).map
        fun r => r.2.changes) = some 2) := by
    decide +kernel
  obtain ⟨r, hr, htwo⟩ := Option.map_eq_some_iff.1 hfollow
  have hrun := run_brief kept_lostUser hr
  exact ⟨r.1, r.2, hrun, htwo, changes_le_users hrun⟩

end Dkftpbench.Bench
