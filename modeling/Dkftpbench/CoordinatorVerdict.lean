import Dkftpbench.Coordinator
import Dkftpbench.PlatoonRoster

/-!
# What the controller says at the end

The totals of a round are put together from answers that were given at different times, so that they need
not have been right at any time. But everybody who was started is alive or dead in the
answer of its platoon, and neither the started nor the dead become fewer, and what
the controller concludes from the totals rests on these two.
-/
namespace Dkftpbench
open CLib EventClock Faults Platoon Sweep Watch

namespace Platoon

/-- Users alive. -/
def alive (p : Platoon) : ℤ := p.sumInState .connect .getting

/-- Users dead. -/
def dead (p : Platoon) : ℤ := p.nInState .stopped

/-- Users connecting. -/
def connecting (p : Platoon) : ℤ := p.sumInState .connect p.lastConnectingState

/-- Users that were ever started. -/
def started (p : Platoon) : ℤ := p.next

section
variable {once : Prop} {p q t : Platoon}

theorem Sound.alive_nonneg (h : Sound once none p) : 0 ≤ p.alive := by
  rw [alive, sumInState_eq h (by decide)]
  exact Int.natCast_nonneg _

theorem Sound.dead_nonneg (h : Sound once none p) : 0 ≤ p.dead := by
  rw [Platoon.dead, h.ndead]
  exact Int.natCast_nonneg _

/-- Who is connecting is alive, unless the dead count as connecting. -/
theorem Sound.connecting_le (h : Sound once none p) (hlast : p.lastConnectingState ≠ .stopped) :
    0 ≤ p.connecting ∧ p.connecting ≤ p.alive := by
  rw [connecting, alive, sumInState_eq h hlast, sumInState_eq h (by decide)]
  refine ⟨Int.natCast_nonneg _, Int.ofNat_le.2 (Finset.card_le_card ?_)⟩
  intro i hi
  obtain ⟨hmem, s, hroll, hs⟩ := Finset.mem_filter.1 hi
  have hcode : p.lastConnectingState.code ≤ RobouserState.getting.code := by
    cases hstate : p.lastConnectingState with
    | stopped => exact absurd hstate hlast
    | uninit | connect | connecting | startType | finishType | get | getting => decide
  exact Finset.mem_filter.2 ⟨hmem, s, hroll, hs.trans hcode⟩

/-- Where all that were started are dead, and somebody was, they stay the only ones. -/
theorem Ages.lost (h : Ages q t) (hq : Rostered q) (ht : Rostered t) (hsound : Sound once none t) (halive : q.alive = 0)
    (hdead : 0 < q.dead) : 0 < t.next ∧ t.everDead.toFinset.card = t.next ∧ t.alive = 0 ∧ t.wantsUser = false := by
  have hbefore : q.alive+q.dead = q.next := hq.counts
  have hafter : t.alive+t.dead = t.next := ht.counts
  have hgrown : q.dead ≤ t.dead := h.stopped
  have hnonneg := hsound.alive_nonneg
  have hnext : t.next = q.next := by
    rcases h.filled with heq | ⟨h0, -⟩
    · exact heq
    · exact absurd h0 hdead.not_ge
  have hnone : t.alive = 0 := by omega
  have hall : t.dead = t.next := by omega
  have hcard := hsound.ndead
  rw [← dead, hall] at hcard
  refine ⟨by omega, (Int.ofNat_inj.1 hcard).symm, hnone, ?_⟩
  rw [Bool.eq_false_iff]
  intro hwants
  have hzero := (wantsUser_iff.1 hwants).1
  rw [sumInState_dead, ← dead] at hzero
  omega

end
end Platoon

namespace Coordinator

/-- What the platoons do keeps the logins. -/
def Kept (c : Coordinator) (_ : Survey) : Act → Prop
  | .work i k => LoginsKept (c.platoons i) k
  | _ => True

/-- How many platoons have answered in this round. -/
def reached (c : Coordinator) : ℕ := if c.phase = .asking then c.i else c.nPlatoons

/-- The platoons as they were when the controller judged the last time. -/
def heard (c : Coordinator) (n : Survey) : ℕ → Platoon := if c.phase = .asking then n.last else n.seen

/-- A platoon under these options. -/
structure Serves (o : Options) (p : Platoon) : Prop where
  sound : Sound False none p
  rostered : Rostered p
  users : p.nuserTarget = o.users
  last : p.lastConnectingState = .connecting
  room : p.started ≤ max o.users 0

/-- The totals have been the same since a round, and with its beginning the end of the test was set. -/
def Stable (c : Coordinator) (n : Survey) : Prop :=
  ∃ t₀ same older, n.looks = same ++ (t₀, c.oldNalive, c.oldNdead) :: older ∧
    (∀ x ∈ same, x.2 = (c.oldNalive, c.oldNdead)) ∧ c.testEnd = t₀+c.tix

/-- What holds of the end of the test, whatever the platoons do. -/
structure Timed (o : Options) (c : Coordinator) (n : Survey) : Prop where
  duration : c.duration = o.duration
  stable : c.phase ≠ .failed → Stable c n
  expired : c.phase = .expired → c.duration ≠ 0 ∧ eclockAfter c.now c.testEnd = true

structure Ruling (o : Options) (m : ℕ) (c : Coordinator) (n : Survey) : Prop where
  platoons : c.nPlatoons = m
  serve : ∀ i < c.nPlatoons, Serves o (c.platoons i)
  served : ∀ i < c.nPlatoons, Serves o (n.last i) ∧ Serves o (n.seen i)
  round : Asking Ages c.nPlatoons c.reached n.last n.first n.seen c.platoons
  nconnecting : c.nconnecting = total connecting c.reached n.seen
  nalive : c.nalive = total alive c.reached n.seen
  ndead : c.ndead = total dead c.reached n.seen
  changes : (n.changes : ℤ) ≤ total started c.nPlatoons (c.heard n)+total dead c.nPlatoons (c.heard n)
  oldNalive : c.phase ≠ .failed → c.oldNalive = total alive c.nPlatoons (c.heard n)
  oldNdead : c.phase ≠ .failed → c.oldNdead = total dead c.nPlatoons (c.heard n)
  alive : c.phase ≠ .failed → c.oldNalive = 0 → c.oldNdead = 0
  failed : c.phase = .failed → c.nalive = 0 ∧ 0 < c.ndead

section
variable {o : Options} {m i : ℕ} {c t : Coordinator} {n : Survey} {p q : Platoon} {k : Platoon.Act} {w : World}
variable {now : Clock} {f : Platoon → ℤ}

/-- The steps that have a result. -/
inductive Moves (c : Coordinator) : Act → Coordinator → Prop
  | expires {now : Clock} (hphase : c.phase = .top) (hover : c.duration ≠ 0 ∧ eclockAfter now c.testEnd = true) :
      Moves c (.top now) { c with now := now, phase := .expired }
  | top {now : Clock} (hphase : c.phase = .top) :
      Moves c (.top now) { c with now := now, nconnecting := 0, nalive := 0, ndead := 0, i := 0, phase := .asking }
  | ask {w : World} {st : Platoon.Status} {p : Platoon} (hphase : c.phase = .asking) (hi : c.i < c.nPlatoons)
      (hst : (c.platoons c.i).getStatus w = .ok (st, p)) : Moves c (.ask w) ((c.setPlatoon c.i p).add st)
  | judge (hphase : c.phase = .asking) (hi : ¬ c.i < c.nPlatoons) : Moves c .judge c.judge
  | wait (hphase : c.phase = .sleeping) : Moves c .wait { c with phase := .top }
  | work {i : ℕ} {k : Platoon.Act} {p : Platoon} (hi : i < c.nPlatoons) (hk : isWork k = true)
      (hp : (c.platoons i).step k = .ok p) : Moves c (.work i k) (c.setPlatoon i p)

theorem step_moves {k : Act} (hs : c.step k = .ok t) : Moves c k t := by
  cases k with
  | top now =>
      rw [Coordinator.step] at hs
      split_ifs at hs with hphase hover
      · cases hs
        exact .expires (not_not.1 hphase) hover
      · cases hs
        exact .top (not_not.1 hphase)
  | ask w =>
      rw [Coordinator.step] at hs
      split_ifs at hs with hk
      cases hst : (c.platoons c.i).getStatus w with
      | error f =>
          rw [hst] at hs
          cases hs
      | ok x =>
          rw [hst] at hs
          cases hs
          exact .ask hk.1 hk.2 hst
  | judge =>
      rw [Coordinator.step] at hs
      split_ifs at hs with hk
      cases hs
      exact .judge hk.1 hk.2
  | wait =>
      rw [Coordinator.step] at hs
      split_ifs at hs with hphase
      cases hs
      exact .wait hphase
  | work i k =>
      rw [Coordinator.step] at hs
      split_ifs at hs with hk
      cases hp : (c.platoons i).step k with
      | error f =>
          rw [hp] at hs
          cases hs
      | ok p =>
          rw [hp] at hs
          cases hs
          exact .work hk.1 hk.2 hp

theorem reached_asking (h : c.phase = .asking) : c.reached = c.i := if_pos h

theorem reached_of_ne (h : c.phase ≠ .asking) : c.reached = c.nPlatoons := if_neg h

theorem heard_asking (h : c.phase = .asking) : c.heard n = n.last := if_pos h

theorem heard_of_ne (h : c.phase ≠ .asking) : c.heard n = n.seen := if_neg h

theorem Serves.ages (h : Serves o p) (hages : Ages p q) (hsound : Sound False none q) (hrostered : Rostered q) :
    Serves o q := by
  refine ⟨hsound, hrostered, hages.nuserTarget.trans h.users, hages.lastConnectingState.trans h.last, ?_⟩
  rcases hages.filled with heq | ⟨-, hle⟩
  · rw [started, heq]
    exact h.room
  · exact hle.trans (h.users ▸ le_max_left _ _)

theorem Serves.connecting_le (h : Serves o p) : 0 ≤ p.connecting ∧ p.connecting ≤ p.alive :=
  h.sound.connecting_le (by rw [h.last]; decide)

theorem isSetting_of_isWork (h : isWork k = true) : isSetting k = false := by
  cases k with
  | platoonTimer | userTimer | pipe | reap => rfl
  | setNuserTarget | setNconnectingTarget | setLastConnectingState | getStatus => cases h

/-- A platoon works. -/
theorem Ruling.work (h : Ruling o m c n) (hi : i < c.nPlatoons) (hp : Serves o p) (hages : Ages (c.platoons i) p) :
    Ruling o m (c.setPlatoon i p) n := by
  refine ⟨h.platoons, ?_, h.served, h.round.moves (fun _ _ _ => .trans) hages, h.nconnecting, h.nalive, h.ndead,
    h.changes, h.oldNalive, h.oldNdead, h.alive, h.failed⟩
  intro j hj
  dsimp only [setPlatoon]
  by_cases hji : j = i
  · subst hji
    rw [Function.update_self]
    exact hp
  · rw [Function.update_of_ne hji]
    exact h.serve j hj

/-- A round begins. -/
theorem Ruling.top (h : Ruling o m c n) (hphase : c.phase = .top) :
    Ruling o m { c with now := now, nconnecting := 0, nalive := 0, ndead := 0, i := 0, phase := .asking }
      { n with last := n.seen, first := c.platoons } := by
  have hne : c.phase ≠ .asking := by
    rw [hphase]
    decide
  have hno : c.phase ≠ .failed := by
    rw [hphase]
    decide
  have hround := h.round
  have hchanges := h.changes
  have hold := h.oldNalive hno
  have holdDead := h.oldNdead hno
  rw [reached_of_ne hne] at hround
  rw [heard_of_ne hne] at hchanges hold holdDead
  exact ⟨h.platoons, h.serve, fun j hj => ⟨(h.served j hj).2, (h.served j hj).2⟩, hround.begins .refl, rfl, rfl, rfl,
    hchanges, fun _ => hold, fun _ => holdDead, fun _ => h.alive hno, nofun⟩

/-- A platoon answers. -/
theorem Ruling.ask {st : Platoon.Status} (h : Ruling o m c n) (hphase : c.phase = .asking) (hi : c.i < c.nPlatoons)
    (hst : (c.platoons c.i).getStatus w = .ok (st, p)) :
    Ruling o m ((c.setPlatoon c.i p).add st) { n with seen := Function.update n.seen c.i p } := by
  have hserves := h.serve c.i hi
  have hanswer := getStatus_answers hserves.sound hserves.rostered hst
  have hp := hserves.ages hanswer.ages hanswer.sound hanswer.rostered
  obtain ⟨-, heq⟩ := getStatus_eq hst
  have hround := h.round
  have hconnecting := h.nconnecting
  have halive := h.nalive
  have hdead := h.ndead
  rw [reached_asking hphase] at hround hconnecting halive hdead
  have hphase' : ((c.setPlatoon c.i p).add st).phase = .asking := hphase
  have hchanges := h.changes
  have hold := h.oldNalive (by rw [hphase]; decide)
  have holdDead := h.oldNdead (by rw [hphase]; decide)
  rw [heard_asking hphase] at hchanges hold holdDead
  have hwork := h.work hi hp hanswer.ages
  refine ⟨h.platoons, hwork.serve, ?_, ?_, ?_, ?_, ?_, ?_, fun _ => ?_, fun _ => ?_, h.alive, fun hx => ?_⟩
  · intro j hj
    refine ⟨(h.served j hj).1, ?_⟩
    dsimp only
    by_cases hji : j = c.i
    · subst hji
      rw [Function.update_self]
      exact hp
    · rw [Function.update_of_ne hji]
      exact (h.served j hj).2
  · rw [reached_asking hphase']
    exact hround.asks (fun _ _ _ => .trans) .refl hi hanswer.ages
  · rw [reached_asking hphase']
    dsimp only [add, setPlatoon]
    rw [total_answer, hconnecting, heq]
    rfl
  · rw [reached_asking hphase']
    dsimp only [add, setPlatoon]
    rw [total_answer, halive, heq]
    rfl
  · rw [reached_asking hphase']
    dsimp only [add, setPlatoon]
    rw [total_answer, hdead, heq]
    rfl
  · rw [heard_asking hphase']
    exact hchanges
  · rw [heard_asking hphase']
    exact hold
  · rw [heard_asking hphase']
    exact holdDead
  · cases hphase.symm.trans hx

/-- The totals of two rounds, one after the other. -/
structure Compared (c : Coordinator) (n : Survey) : Prop where
  nonneg : 0 ≤ c.nalive ∧ 0 ≤ c.ndead
  old : 0 ≤ c.oldNalive ∧ 0 ≤ c.oldNdead
  before : c.oldNalive+c.oldNdead = total started c.nPlatoons n.last
  after : c.nalive+c.ndead = total started c.nPlatoons n.seen
  grown : total started c.nPlatoons n.last ≤ total started c.nPlatoons n.seen
  dead : c.oldNdead ≤ c.ndead
  changes : (n.changes : ℤ) ≤ total started c.nPlatoons n.last+c.oldNdead
  connecting : c.nalive = 0 → c.nconnecting = 0

theorem counts_total {s : ℕ → Platoon} (h : ∀ i < m, Serves o (s i)) :
    total alive m s+total dead m s = total started m s := by
  rw [← total_add]
  exact total_eq_total fun i hi => (h i hi).rostered.counts

/-- All have been asked. -/
theorem Ruling.all_asked (h : Ruling o m c n) (hphase : c.phase = .asking) (hi : ¬ c.i < c.nPlatoons) :
    Asking Ages c.nPlatoons c.nPlatoons n.last n.first n.seen c.platoons ∧
      c.nconnecting = total connecting c.nPlatoons n.seen ∧ c.nalive = total Platoon.alive c.nPlatoons n.seen ∧
        c.ndead = total dead c.nPlatoons n.seen := by
  have hreached : c.reached = c.nPlatoons := by
    have hle := h.round.le
    rw [reached_asking hphase] at hle ⊢
    exact le_antisymm hle (not_lt.1 hi)
  have hall := And.intro h.round (And.intro h.nconnecting (And.intro h.nalive h.ndead))
  rw [hreached] at hall
  exact hall

theorem Ruling.compared (h : Ruling o m c n) (hphase : c.phase = .asking) (hi : ¬ c.i < c.nPlatoons) : Compared c n := by
  obtain ⟨hround, hconnecting, halive, hdead⟩ := h.all_asked hphase hi
  have hchanges := h.changes
  have hold := h.oldNalive (by rw [hphase]; decide)
  have holdDead := h.oldNdead (by rw [hphase]; decide)
  rw [heard_asking hphase] at hchanges hold holdDead
  have hfollows := hround.follows fun _ _ _ => .trans
  have hserved := h.served
  refine ⟨⟨?_, ?_⟩, ⟨?_, ?_⟩, ?_, ?_, ?_, ?_, ?_, ?_⟩
  · rw [halive]
    exact total_nonneg fun j hj => (hserved j hj).2.sound.alive_nonneg
  · rw [hdead]
    exact total_nonneg fun j hj => (hserved j hj).2.sound.dead_nonneg
  · rw [hold]
    exact total_nonneg fun j hj => (hserved j hj).1.sound.alive_nonneg
  · rw [holdDead]
    exact total_nonneg fun j hj => (hserved j hj).1.sound.dead_nonneg
  · rw [hold, holdDead]
    exact counts_total fun j hj => (hserved j hj).1
  · rw [halive, hdead]
    exact counts_total fun j hj => (hserved j hj).2
  · exact total_le_total fun j hj => Int.ofNat_le.2 (hfollows j hj).next
  · rw [holdDead, hdead]
    exact total_le_total fun j hj => (hfollows j hj).stopped
  · rw [holdDead]
    exact hchanges
  · intro h0
    rw [halive] at h0
    have hnone := eq_zero_of_total (fun j hj => (hserved j hj).2.sound.alive_nonneg) h0
    rw [hconnecting, total_eq_total (g := fun _ => 0) (t := n.seen) fun j hj => ?_]
    · exact Finset.sum_const_zero
    · have hle := (hserved j hj).2.connecting_le
      rw [hnone j hj] at hle
      exact le_antisymm hle.2 hle.1

/-- What `main` makes of the totals: all are dead, something has changed, or nothing has. -/
theorem judge_cases (c : Coordinator) :
    ((c.nalive ≠ c.oldNalive ∨ c.ndead ≠ c.oldNdead) ∧ (c.ndead ≠ c.oldNdead ∧ c.nalive = 0 ∧ c.nconnecting = 0) ∧
      c.judge = { c with phase := .failed }) ∨
    ((c.nalive ≠ c.oldNalive ∨ c.ndead ≠ c.oldNdead) ∧
      ¬ (c.ndead ≠ c.oldNdead ∧ c.nalive = 0 ∧ c.nconnecting = 0) ∧ c.judge = { c with
        phase := .sleeping, testEnd := c.now+c.tix, oldNalive := c.nalive, oldNdead := c.ndead }) ∨
    (c.nalive = c.oldNalive ∧ c.ndead = c.oldNdead) ∧ c.judge = { c with phase := .sleeping } := by
  unfold Coordinator.judge
  dsimp only
  split
  · next hchange =>
    split
    · next hall => exact .inl ⟨hchange, hall, rfl⟩
    · next hall => exact .inr (.inl ⟨hchange, hall, rfl⟩)
  · next hchange =>
    rw [not_or, not_not, not_not] at hchange
    exact .inr (.inr ⟨hchange, rfl⟩)

/-- The note of the totals. -/
def Survey.add (n : Survey) (c : Coordinator) : Survey :=
  { n with
    looks := (c.now, c.nalive, c.ndead) :: n.looks
    changes := n.changes+if c.nalive ≠ c.oldNalive ∨ c.ndead ≠ c.oldNdead then 1 else 0 }

/-- What the end of a round makes of the end of the test. -/
theorem Timed.judge (h : Timed o c n) (hphase : c.phase = .asking) : Timed o c.judge (n.add c) := by
  have hno : c.phase ≠ .failed := by
    rw [hphase]
    decide
  rcases judge_cases c with ⟨-, -, heq⟩ | ⟨-, -, heq⟩ | ⟨⟨hsame, hsameDead⟩, heq⟩
  · rw [heq]
    exact ⟨h.duration, fun hx => absurd rfl hx, nofun⟩
  · rw [heq]
    exact ⟨h.duration, fun _ => ⟨c.now, [], n.looks, rfl, nofun, rfl⟩, nofun⟩
  · rw [heq]
    refine ⟨h.duration, ?_, nofun⟩
    intro _
    obtain ⟨t₀, same, older, hlooks, hall, hend⟩ := h.stable hno
    refine ⟨t₀, (c.now, c.nalive, c.ndead) :: same, older, ?_, ?_, hend⟩
    · simp only [Survey.add, hlooks, List.cons_append]
    · intro x hx
      rcases List.mem_cons.1 hx with rfl | hx
      · exact Prod.ext hsame hsameDead
      · exact hall x hx

/-- The end of the test after one step. -/
theorem Timed.step {k : Act} (h : Timed o c n) (hs : c.step k = .ok t) : Timed o t (note n c k t) := by
  cases step_moves hs with
  | expires hphase hover =>
      rw [note, if_pos rfl]
      have hno : c.phase ≠ .failed := by
        rw [hphase]
        decide
      exact ⟨h.duration, fun _ => h.stable hno, fun _ => hover⟩
  | top hphase =>
      rw [note, if_neg CoordinatorPhase.noConfusion]
      exact ⟨h.duration, fun _ => h.stable (by rw [hphase]; decide), nofun⟩
  | ask | work => exact ⟨h.duration, h.stable, h.expired⟩
  | judge hphase => exact h.judge hphase
  | wait hphase => exact ⟨h.duration, fun _ => h.stable (by rw [hphase]; decide), nofun⟩

/-- The round is at an end. -/
theorem Ruling.judge (h : Ruling o m c n) (hphase : c.phase = .asking) (hi : ¬ c.i < c.nPlatoons) :
    Ruling o m c.judge (n.add c) := by
  obtain ⟨⟨hnonneg, hnonneg'⟩, ⟨hold₀, hold₀'⟩, hbefore, hafter, hgrown, hdead, hcount, hconnecting⟩ :=
    h.compared hphase hi
  have hno : c.phase ≠ .failed := by
    rw [hphase]
    decide
  obtain ⟨hround, htotal, htotal', htotal''⟩ := h.all_asked hphase hi
  have hold := h.alive hno
  rcases judge_cases c with ⟨hchange, ⟨hnew, hnone, -⟩, heq⟩ | ⟨hchange, hnot, heq⟩ | ⟨⟨hsame, hsameDead⟩, heq⟩
  · rw [heq]
    refine ⟨h.platoons, h.serve, h.served, hround, htotal, htotal', htotal'', ?_, fun hx => absurd rfl hx,
      fun hx => absurd rfl hx, fun hx => absurd rfl hx, fun _ => ⟨hnone, ?_⟩⟩
    · rw [heard_of_ne CoordinatorPhase.noConfusion]
      simp only [Survey.add, if_pos hchange, ← htotal'', ← hafter]
      push_cast
      omega
    · dsimp only
      omega
  · rw [heq]
    refine ⟨h.platoons, h.serve, h.served, hround, htotal, htotal', htotal'', ?_, fun _ => htotal', fun _ => htotal'',
      ?_, nofun⟩
    · rw [heard_of_ne CoordinatorPhase.noConfusion]
      simp only [Survey.add, if_pos hchange, ← htotal'', ← hafter]
      push_cast
      omega
    · intro _ h0
      -- nobody is alive, so the dead are as many as before, and nobody had been alive before either
      have hsame : c.ndead = c.oldNdead := by
        by_contra hne
        exact hnot ⟨hne, h0, hconnecting h0⟩
      dsimp only at h0 ⊢
      omega
  · rw [heq]
    refine ⟨h.platoons, h.serve, h.served, hround, htotal, htotal', htotal'', ?_, fun _ => hsame ▸ htotal',
      fun _ => hsameDead ▸ htotal'', fun _ => hold, nofun⟩
    rw [heard_of_ne CoordinatorPhase.noConfusion]
    simp only [Survey.add, if_neg (by rw [hsame, hsameDead]; simp : ¬ (c.nalive ≠ c.oldNalive ∨ c.ndead ≠ c.oldNdead)),
      ← htotal'', ← hafter]
    omega

/-- What one step preserves. -/
theorem Ruling.step {k : Act} (h : Ruling o m c n) (hkept : Kept c n k) (hs : c.step k = .ok t) :
    Ruling o m t (note n c k t) := by
  cases step_moves hs with
  | expires hphase =>
      rw [note, if_pos rfl]
      have hne : c.phase ≠ .asking ∧ c.phase ≠ .failed := by
        rw [hphase]
        decide
      obtain ⟨hplatoons, hserve, hserved, hround, htotal, htotal', htotal'', hchanges, hold, holdDead, halive, -⟩ := h
      rw [reached_of_ne hne.1] at hround htotal htotal' htotal''
      rw [heard_of_ne hne.1] at hchanges hold holdDead
      exact ⟨hplatoons, hserve, hserved, hround, htotal, htotal', htotal'', hchanges, fun _ => hold hne.2,
        fun _ => holdDead hne.2, fun _ => halive hne.2, nofun⟩
  | top hphase =>
      rw [note, if_neg CoordinatorPhase.noConfusion]
      exact h.top hphase
  | ask hphase hi hst =>
      rename_i w st p
      have hnote : ((c.setPlatoon c.i p).add st).platoons c.i = p := Function.update_self ..
      rw [note, hnote]
      exact h.ask hphase hi hst
  | judge hphase hi => exact h.judge hphase hi
  | wait hphase =>
      have hne : c.phase ≠ .asking ∧ c.phase ≠ .failed := by
        rw [hphase]
        decide
      obtain ⟨hplatoons, hserve, hserved, hround, htotal, htotal', htotal'', hchanges, hold, holdDead, halive, -⟩ := h
      rw [reached_of_ne hne.1] at hround htotal htotal' htotal''
      rw [heard_of_ne hne.1] at hchanges hold holdDead
      exact ⟨hplatoons, hserve, hserved, hround, htotal, htotal', htotal'', hchanges, fun _ => hold hne.2,
        fun _ => holdDead hne.2, fun _ => halive hne.2, nofun⟩
  | work hi hk hp =>
      rename_i i k p
      have hserves := h.serve i hi
      have hsound := (step_holds hserves.sound hkept False.elim).result hp
      obtain ⟨hrostered, hages⟩ := (step_rostered hserves.rostered (isSetting_of_isWork hk)).result hp
      exact h.work hi (hserves.ages hages hsound hrostered) hages

/-- What holds where the loop begins. -/
theorem ruling_start {k : ℕ → Wake} (h : start o m k now = some c) :
    Ruling o m c ⟨[(now, 0, 0)], 0, c.platoons, c.platoons, c.platoons⟩ := by
  rw [start] at h
  split_ifs at h
  cases h
  have hrostered : ∀ i, Rostered ((Platoon.init o.settings).setNuserTarget o.users (k i)) := fun i =>
    (init_rostered o.settings).of_eq rfl rfl fun _ _ hr => hr
  have hserves : ∀ i, Serves o ((Platoon.init o.settings).setNuserTarget o.users (k i)) := fun i =>
    ⟨(init_sound o.settings).others .., hrostered i, rfl, rfl, le_max_right _ _⟩
  have hzero : ∀ {f : Platoon → ℤ} {s : ℕ → Platoon}, (∀ i, f (s i) = 0) → total f m s = 0 := fun hf =>
    Finset.sum_eq_zero fun i _ => hf i
  refine ⟨rfl, fun i _ => hserves i, fun i _ => ⟨hserves i, hserves i⟩, .refl .refl, (hzero fun _ => rfl).symm,
    (hzero fun _ => rfl).symm, (hzero fun _ => rfl).symm, ?_, fun _ => (hzero fun _ => rfl).symm,
    fun _ => (hzero fun _ => rfl).symm, fun _ _ => rfl, nofun⟩
  rw [heard_of_ne CoordinatorPhase.noConfusion, hzero fun _ => rfl, hzero fun _ => rfl]
  rfl

theorem timed_start {k : ℕ → Wake} (h : start o m k now = some c) :
    Timed o c ⟨[(now, 0, 0)], 0, c.platoons, c.platoons, c.platoons⟩ := by
  rw [start] at h
  split_ifs at h
  cases h
  exact ⟨rfl, fun _ => ⟨now, [], [], rfl, nofun, rfl⟩, nofun⟩

/-- What any whole run preserves. -/
theorem timed_of_run {ok : Coordinator → Survey → Act → Prop} (h : Run (coordinators o m) ok c n) : Timed o c n := by
  apply h.invariant
  · rintro c n ⟨k, now, hstart, rfl⟩
    exact timed_start hstart
  · intro c n k t hc _ hs
    exact hc.step hs

/-- What a whole run preserves in which the logins are kept. -/
theorem ruling_of_run (h : Run (coordinators o m) Kept c n) : Ruling o m c n := by
  apply h.invariant
  · rintro c n ⟨k, now, hstart, rfl⟩
    exact ruling_start hstart
  · intro c n k t hc hk hs
    exact hc.step hk hs

/-- The controller says that all users are dead when some user is, and each platoon has
either started nobody when it is asked or is lost: all that it started are dead, and it starts nobody
any more. And where the controller goes on with nobody alive, nobody is dead. -/
theorem no_hope_at_failure (h : Run (coordinators o m) Kept c n) :
    (c.phase = .failed → (∃ i < m, 0 < (c.platoons i).next) ∧ ∀ i < m, (n.seen i).next = 0 ∨
      0 < (c.platoons i).next ∧ (c.platoons i).everDead.toFinset.card = (c.platoons i).next ∧
        (c.platoons i).alive = 0 ∧ (c.platoons i).wantsUser = false) ∧
    (c.phase ≠ .failed → c.oldNalive = 0 → c.oldNdead = 0) := by
  have hrun := ruling_of_run h
  refine ⟨?_, hrun.alive⟩
  intro hphase
  obtain ⟨hnone, hsome⟩ := hrun.failed hphase
  have hne : c.phase ≠ .asking := by
    rw [hphase]
    decide
  have halive := hrun.nalive
  have hdead := hrun.ndead
  have hround := hrun.round
  rw [reached_of_ne hne] at halive hdead hround
  rw [hnone] at halive
  rw [hdead] at hsome
  have hparties := hrun.platoons
  have hzero := eq_zero_of_total (fun j hj => (hrun.served j hj).2.sound.alive_nonneg) halive.symm
  -- a platoon in which a user had died
  have hlost : ∀ i < c.nPlatoons, 0 < (n.seen i).dead → 0 < (c.platoons i).next ∧
      (c.platoons i).everDead.toFinset.card = (c.platoons i).next ∧ (c.platoons i).alive = 0 ∧
        (c.platoons i).wantsUser = false := fun i hi hpos =>
    (hround.asked i hi).2.lost (hrun.served i hi).2.rostered (hrun.serve i hi).rostered (hrun.serve i hi).sound
      (hzero i hi) hpos
  obtain ⟨i, hi, hpos⟩ := exists_pos_of_total hsome
  refine ⟨⟨i, hparties ▸ hi, (hlost i hi hpos).1⟩, ?_⟩
  intro j hj
  rw [← hparties] at hj
  have hcounts : (n.seen j).alive+(n.seen j).dead = (n.seen j).next := (hrun.served j hj).2.rostered.counts
  have hnonneg := (hrun.served j hj).2.sound.dead_nonneg
  have hnobody := hzero j hj
  by_cases hj0 : (n.seen j).dead = 0
  · exact .inl (by omega)
  · exact .inr (hlost j hj (by omega))

/-- Though the totals change from round to round as they like, they do so at most twice for each user of each
platoon. -/
theorem totals_change_le (h : Run (coordinators o m) Kept c n) : (n.changes : ℤ) ≤ 2*(m*max o.users 0) := by
  have hrun := ruling_of_run h
  have hserved : ∀ i < c.nPlatoons, Serves o (c.heard n i) := by
    intro i hi
    rw [heard]
    split
    · exact (hrun.served i hi).1
    · exact (hrun.served i hi).2
  have hstarted : total started c.nPlatoons (c.heard n) ≤ c.nPlatoons*max o.users 0 :=
    total_le_mul fun i hi => (hserved i hi).room
  have hdead : total dead c.nPlatoons (c.heard n) ≤ c.nPlatoons*max o.users 0 := by
    apply total_le_mul
    intro i hi
    have hcounts : (c.heard n i).alive+(c.heard n i).dead = (c.heard n i).started := (hserved i hi).rostered.counts
    have hnonneg := (hserved i hi).sound.alive_nonneg
    have hroom := (hserved i hi).room
    omega
  have hchanges := hrun.changes
  rw [hrun.platoons] at hchanges hstarted hdead
  linarith

/-- The totals of a round may never have been true at one time, but the dead, and all who were ever
started, are at least as many as when it began and not more than now. -/
theorem totals_between (h : Run (coordinators o m) Kept c n) (hphase : c.phase ≠ .asking) :
    (total dead m n.first ≤ c.ndead ∧ c.ndead ≤ total dead m c.platoons) ∧
      total started m n.first ≤ c.nalive+c.ndead ∧ c.nalive+c.ndead ≤ total started m c.platoons := by
  have hrun := ruling_of_run h
  have hround := hrun.round
  have halive := hrun.nalive
  have hdead := hrun.ndead
  rw [reached_of_ne hphase, hrun.platoons] at hround halive hdead
  have hcounts : c.nalive+c.ndead = total started m n.seen := by
    rw [halive, hdead]
    exact counts_total fun i hi => (hrun.served i (hrun.platoons ▸ hi)).2
  rw [hcounts, hdead]
  exact ⟨hround.between fun _ _ hages => hages.stopped, hround.between fun _ _ hages => Int.ofNat_le.2 hages.next⟩

end

/-- Options for a few tests. -/
def brief : Options := ⟨modest, 1, 1⟩

/-- A round with two platoons. -/
def rounds (now : Clock) : List Act := [.top now, .ask (Session.calm 0 []), .ask (Session.calm 0 []), .judge]

/-- A platoon starts its user. -/
def startsUser : Platoon.Act := .platoonTimer 0 [⟨Session.blank, 0, true, prompt⟩]

/-- A user of one platoon cannot connect, and the other platoon has not started any. -/
def lostUser : List Act := rounds 0 ++ [.wait, .work 0 startsUser, .work 0 (.userTimer 0 5 [lost])] ++ rounds 5

/-- A user is started in each platoon, in one of them after it was asked. -/
def aliveUsers : List Act :=
  [.work 1 startsUser] ++ [.top 0, .ask (Session.calm 0 []), .work 0 startsUser, .ask (Session.calm 0 []), .judge, .wait] ++
    rounds 5 ++ [.wait, .top 20000]

/-- A test with two platoons along a list of labels. -/
def test (ks : List Act) : Option (Coordinator × Survey) :=
  (start brief 2 (fun _ => prompt) 0).bind fun c =>
    follow (fun c _ k => (c.step k).toOption) note c ⟨[(0, 0, 0)], 0, c.platoons, c.platoons, c.platoons⟩ ks

theorem run_test {ks : List Act} {r : Coordinator × Survey} (hok : ∀ k ∈ ks, ∀ c n, Kept c n k) (h : test ks = some r) :
    Run (coordinators brief 2) Kept r.1 r.2 := by
  obtain ⟨c, hstart, hr⟩ := Option.bind_eq_some_iff.1 h
  exact Run.follow_all (fun _ _ _ => eq_ok_of_toOption) hok (.start ⟨fun _ => prompt, 0, hstart, rfl⟩) hr

theorem kept_lostUser : ∀ k ∈ lostUser, ∀ c n, Kept c n k := by
  intro k hk c n
  cases k with
  | work i k =>
      simp only [lostUser, rounds, startsUser, List.cons_append, List.nil_append, List.mem_cons,
        Act.work.injEq, reduceCtorEq, List.not_mem_nil, or_false, false_or] at hk
      rcases hk with ⟨rfl, rfl⟩ | ⟨rfl, rfl⟩
      · trivial
      · intro a ha
        cases ha
        exact keepsLogin_calm (c.platoons 0) lost rfl
  | top | ask | judge | wait => trivial

theorem kept_aliveUsers : ∀ k ∈ aliveUsers, ∀ c n, Kept c n k := by
  intro k hk c n
  cases k with
  | work i k =>
      simp only [aliveUsers, rounds, startsUser, List.cons_append, List.nil_append, List.mem_cons,
        Act.work.injEq, reduceCtorEq, List.not_mem_nil, or_false, false_or] at hk
      rcases hk with ⟨rfl, rfl⟩ | ⟨rfl, rfl⟩
      · trivial
      · trivial
  | top | ask | judge | wait => trivial

/-- The verdict may come too early: the other platoon has a user to start yet. -/
theorem no_hope_at_failure_lost : ∃ c n, Run (coordinators brief 2) Kept c n ∧ c.phase = .failed ∧
    (c.platoons 1).wantsUser = true ∧ ∀ i < 2, (n.seen i).next = 0 ∨ 0 < (c.platoons i).next ∧
      (c.platoons i).everDead.toFinset.card = (c.platoons i).next ∧ (c.platoons i).alive = 0 ∧
        (c.platoons i).wantsUser = false := by
  have hfollow : (test lostUser).map (fun r => (r.1.phase, (r.1.platoons 1).wantsUser)) = some (.failed, true) := by
    decide +kernel
  obtain ⟨r, hr, heq⟩ := Option.map_eq_some_iff.1 hfollow
  have hrun := run_test kept_lostUser hr
  obtain ⟨hphase, hwants⟩ := Prod.mk.inj heq
  exact ⟨r.1, r.2, hrun, hphase, hwants, ((no_hope_at_failure hrun).1 hphase).2⟩

/-- The totals have changed twice. -/
theorem totals_change_le_alive : ∃ c n, Run (coordinators brief 2) Kept c n ∧ n.changes = 2 ∧
    (n.changes : ℤ) ≤ 2*(2*max 1 0) := by
  have hfollow : (test aliveUsers).map (fun r => r.2.changes) = some 2 := by decide +kernel
  obtain ⟨r, hr, htwo⟩ := Option.map_eq_some_iff.1 hfollow
  have hrun := run_test kept_aliveUsers hr
  exact ⟨r.1, r.2, hrun, htwo, totals_change_le hrun⟩

/-- Someone was started behind the controller's back, so that it counts one user of two. -/
theorem totals_between_alive : ∃ c n, Run (coordinators brief 2) Kept c n ∧ c.phase ≠ .asking ∧ c.nalive+c.ndead = 1 ∧
    total started 2 n.first ≤ c.nalive+c.ndead ∧ c.nalive+c.ndead ≤ total started 2 c.platoons := by
  have hfollow : (test (aliveUsers.take 6)).map (fun r => (r.1.phase, r.1.nalive+r.1.ndead)) = some (.sleeping, 1) := by
    decide +kernel
  obtain ⟨r, hr, heq⟩ := Option.map_eq_some_iff.1 hfollow
  have hrun := run_test (fun k hk => kept_aliveUsers k (List.mem_of_mem_take hk)) hr
  obtain ⟨hphase, hone⟩ := Prod.mk.inj heq
  have hne : r.1.phase ≠ .asking := by
    rw [hphase]
    decide
  exact ⟨r.1, r.2, hrun, hne, hone, (totals_between hrun hne).2⟩

end Coordinator
end Dkftpbench
