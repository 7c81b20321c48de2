import Dkftpbench.PollTable
import Dkftpbench.Round

/-!
# One round of Poller_poll

`getNextEvent` counts `m_cur_pfdnum` down, so that the slots below it are those that it
has not come to. What is due lies there. `del` moves the last slot to where a hole would
be: if the hole lies below the cursor and the last slot does not, an event that was
returned before comes up again. `add` fills the first free slot, whose `revents` nobody
has cleared: that slot lies below the cursor when `del` has freed it there.
-/
namespace Dkftpbench.PollerPoll
open CLib Watch Round
variable {Client : Type*}

/-- The table, what `poll()` reported, and the log of the round. -/
structure Notes (Client : Type*) where
  table : Table Client
  ready : Set ℤ
  log : List (Round.Act ℤ (PollEvent Client))

/-- The log after a call. -/
def logged (log : List (Round.Act ℤ (PollEvent Client))) (err : ℤ) (ev : Option (PollEvent Client)) :
    Call Client → List (Round.Act ℤ (PollEvent Client))
  | .add fd _ _ _ => if err = 0 then .entered fd :: log else log
  | .del fd => .left fd :: log
  | .getNextEvent =>
    match ev with
    | some e => .returned e.fd e :: log
    | none => .ended :: log
  | .init _ | .setMask _ _ | .orMask _ _ | .andMask _ _ | .waitForEvents _ => log

/-- What a handler and the dispatcher may call until the round is over. -/
def Notes.Allows (g : Notes Client) (c : Call Client) : Prop :=
  .ended ∉ g.log ∧ match c with
    | .init _ | .waitForEvents _ => False
    | c => g.table.Allows c

/-- The rounds that begin when `waitForEvents` has returned 0. -/
def rounds : System (PollerPoll Client) (Call Client) (Notes Client) where
  start p g := ∃ p₀ revents, Represents p₀ g.table ∧ p₀.waitForEvents (.ok revents) = (0, p) ∧
    g.ready = {fd | ∃ i, 0 ≤ i ∧ i < p₀.pfdsUsed ∧ (p₀.pfds i).fd = fd ∧ revents i ≠ 0} ∧ g.log = []
  step p c q := ∃ err ev, p.call c = some (err, ev, q)
  note g p c _ := match p.call c with
    | some (err, ev, _) => ⟨g.table.after err c, g.ready, logged g.log err ev c⟩
    | none => g

/-- Nothing that was returned comes up again, and nothing that `poll()` did not see: no
event is left, or the hole is filled with what lies on the same side of the cursor or has
no event. -/
def Clear (p : PollerPoll Client) : Call Client → Prop
  | .del fd => p.rfds < 1 ∨ p.curPfdnum ≤ p.fd2pfdnum fd ∨ p.pfdsUsed ≤ p.curPfdnum ∨
      (p.pfds (p.pfdsUsed-1)).revents = 0
  | .add _ _ _ _ => p.rfds < 1 ∨ p.curPfdnum ≤ p.pfdsUsed ∨ (p.pfds p.pfdsUsed).revents = 0
  | _ => True

/-- The cursor has not come to the event of this descriptor. -/
def Pending (p : PollerPoll Client) (fd : ℤ) : Prop :=
  ∃ i, 0 ≤ i ∧ i < p.curPfdnum ∧ i < p.pfdsUsed ∧ (p.pfds i).fd = fd ∧ (p.pfds i).revents ≠ 0

/-- As long as `m_rfds` lasts, what is due is what is pending, and it lasts for all that
is due. -/
structure Live (p : PollerPoll Client) (D : Set ℤ) : Prop where
  cursor : 0 ≤ p.curPfdnum ∧ p.curPfdnum ≤ p.pfdsAlloc
  pending : 1 ≤ p.rfds → ∀ fd, fd ∈ D ↔ p.Pending fd
  count : AtMost D p.rfds

structure InRound (p : PollerPoll Client) (g : Notes Client) : Prop where
  table : Represents p g.table
  kept : Kept g.ready g.log
  live : .ended ∉ g.log → Live p (due g.ready g.log)

/-- The round stands as it stood. -/
structure Still (p q : PollerPoll Client) : Prop where
  cursor : q.curPfdnum = p.curPfdnum
  rfds : q.rfds = p.rfds
  used : q.pfdsUsed = p.pfdsUsed
  alloc : p.pfdsAlloc ≤ q.pfdsAlloc
  slot : ∀ i, i < p.pfdsAlloc → (q.pfds i).fd = (p.pfds i).fd ∧ (q.pfds i).revents = (p.pfds i).revents

section
variable {p q q' : PollerPoll Client} {m : Table Client} {D : Set ℤ} {fd : ℤ}

theorem Still.rfl' : Still p p := ⟨rfl, rfl, rfl, le_rfl, fun _ _ => ⟨rfl, rfl⟩⟩

theorem Still.trans (h : Still p q) (h' : Still q q') : Still p q' where
  cursor := h'.cursor.trans h.cursor
  rfds := h'.rfds.trans h.rfds
  used := h'.used.trans h.used
  alloc := h.alloc.trans h'.alloc
  slot i hi := by
    obtain ⟨hfd, hrev⟩ := h.slot i hi
    obtain ⟨hfd', hrev'⟩ := h'.slot i (hi.trans_le h.alloc)
    exact ⟨hfd'.trans hfd, hrev'.trans hrev⟩

theorem Live.still (h : Live p D) (hle : p.pfdsUsed ≤ p.pfdsAlloc) (hs : Still p q) : Live q D where
  cursor := by
    have hc := h.cursor
    have ha := hs.alloc
    rw [hs.cursor]
    omega
  pending hr fd := by
    rw [hs.rfds] at hr
    rw [h.pending hr fd, Pending, Pending, hs.cursor, hs.used]
    apply exists_congr
    intro i
    constructor
    · intro ⟨h0, hcur, hi, hat⟩
      obtain ⟨hfd, hrev⟩ := hs.slot i (hi.trans_le hle)
      rw [hfd, hrev]
      exact ⟨h0, hcur, hi, hat⟩
    · intro ⟨h0, hcur, hi, hat⟩
      obtain ⟨hfd, hrev⟩ := hs.slot i (hi.trans_le hle)
      rw [hfd, hrev] at hat
      exact ⟨h0, hcur, hi, hat⟩
  count := by
    rw [hs.rfds]
    exact h.count

/-- What `poll()` counts is enough for what is ready. -/
theorem waitForEvents_live {p₀ : PollerPoll Client} {revents : ℤ → Revents} {err : ℤ} (h : Represents p₀ m)
    (hp : p₀.waitForEvents (.ok revents) = (err, p)) :
    Live p {fd | ∃ i, 0 ≤ i ∧ i < p₀.pfdsUsed ∧ (p₀.pfds i).fd = fd ∧ revents i ≠ 0} := by
  simp only [waitForEvents, Prod.mk.injEq] at hp
  rw [← hp.2]
  have hused := h.compact.nonneg
  have hslot : ∀ i, 0 ≤ i → i < p₀.pfdsUsed → (if 0 ≤ i ∧ i < p₀.pfdsUsed then
      { p₀.pfds i with revents := revents i } else p₀.pfds i) = { p₀.pfds i with revents := revents i } :=
    fun i h0 hi => if_pos ⟨h0, hi⟩
  constructor
  · exact ⟨hused, h.pfdsAlloc.1⟩
  · intro _ fd
    simp only [Set.mem_ofPred_eq, Pending]
    apply exists_congr
    intro i
    constructor
    · rintro ⟨h0, hi, hat⟩
      refine ⟨h0, hi, hi, ?_⟩
      rw [hslot i h0 hi]
      exact hat
    · rintro ⟨h0, hi, _, hat⟩
      rw [hslot i h0 hi] at hat
      exact ⟨h0, hi, hat⟩
  · apply ((atMost_countP (fun i => revents i != 0) p₀.pfdsUsed).image fun i => (p₀.pfds i).fd).mono
    rintro fd ⟨i, h0, hi, hat, hrev⟩
    exact ⟨i, ⟨h0, hi, bne_iff_ne.2 hrev⟩, hat⟩

/-- `seek` finds the highest event below the cursor, if there is one. -/
theorem seek_spec (pfds : ℤ → Pollfd) (n : ℕ) :
    (seek pfds n = -1 ∧ ∀ i : ℤ, 0 ≤ i → i < n → (pfds i).revents = 0) ∨
      (0 ≤ seek pfds n ∧ seek pfds n < n ∧ (pfds (seek pfds n)).revents ≠ 0 ∧
        ∀ i : ℤ, seek pfds n < i → i < n → (pfds i).revents = 0) := by
  induction n with
  | zero => exact .inl ⟨rfl, fun i h0 hi => absurd h0 (not_le.2 hi)⟩
  | succ n ih =>
      unfold seek
      split
      · next hrev =>
        refine .inr ⟨by omega, by omega, hrev, fun i hlt hi => ?_⟩
        omega
      · next hrev =>
        have hrev : (pfds n).revents = 0 := not_not.1 hrev
        rcases ih with ⟨heq, hall⟩ | ⟨h0, hlt, hne, hall⟩
        · refine .inl ⟨heq, fun i h0 hi => ?_⟩
          by_cases hin : i = n
          · rw [hin]
            exact hrev
          · exact hall i h0 (by omega)
        · refine .inr ⟨h0, by omega, hne, fun i hlt' hi => ?_⟩
          by_cases hin : i = n
          · rw [hin]
            exact hrev
          · exact hall i hlt' (by omega)

/-- The event lies at the cursor, at the slot of its descriptor. -/
theorem getNextEvent_at {err : ℤ} {e : PollEvent Client} (hq : p.getNextEvent = some (err, some e, q)) :
    e.revents = (p.pfds (p.fd2pfdnum e.fd)).revents ∧ q.pfds = p.pfds ∧ q.fd2pfdnum = p.fd2pfdnum ∧
      q.curPfdnum = q.fd2pfdnum e.fd := by
  unfold getNextEvent at hq
  generalize p.nextPfdnum = cur at hq
  dsimp only at hq
  split at hq
  · cases hq
  · split at hq
    · cases hq
    · split at hq
      · cases hq
      · next hassert =>
        obtain ⟨-, -, hcur⟩ := not_not.1 hassert
        cases hq
        refine ⟨?_, rfl, rfl, hcur.symm⟩
        dsimp only
        rw [hcur]

/-- The assertions hold; the event is of a descriptor that is due, with its own client, or
nothing is due. -/
theorem getNextEvent_live (h : Represents p m) (hl : Live p D) :
    ∃ err ev q, p.getNextEvent = some (err, ev, q) ∧
      (∀ e, ev = some e → e.fd ∈ D ∧ (∃ eventmask, m e.fd = some (e.client, eventmask)) ∧
        Live q (D \ {e.fd})) ∧
      (ev = none → D = ∅) := by
  have hcur := hl.cursor
  have hused := h.compact.nonneg
  unfold getNextEvent
  split
  · next hr => exact ⟨_, _, _, rfl, nofun, fun _ => hl.count.eq_empty hr⟩
  · next hr =>
    have hpending := hl.pending (not_lt.1 hr)
    have hseek : p.nextPfdnum = seek p.pfds (min p.curPfdnum p.pfdsUsed).toNat := by
      have hmin : (if p.curPfdnum > p.pfdsUsed then p.pfdsUsed else p.curPfdnum) =
          min p.curPfdnum p.pfdsUsed := by
        split <;> omega
      rw [nextPfdnum, hmin]
      exact if_neg (by omega)
    rcases seek_spec p.pfds (min p.curPfdnum p.pfdsUsed).toNat with ⟨heq, hall⟩ | ⟨h0, hlt, hrev, hall⟩
    · rw [← hseek] at heq
      dsimp only
      rw [if_pos heq]
      refine ⟨_, _, _, rfl, nofun, fun _ => Set.eq_empty_of_forall_notMem fun fd hfd => ?_⟩
      obtain ⟨i, hi0, hicur, hiused, _, hne⟩ := (hpending fd).1 hfd
      exact hne (hall i hi0 (by omega))
    · rw [← hseek] at h0 hlt hrev hall
      generalize p.nextPfdnum = cur at h0 hlt hrev hall
      dsimp only
      obtain ⟨hmem, hindex⟩ := h.compact.own cur h0 (by omega)
      obtain ⟨hfd0, hfdlt⟩ := h.fds _ hmem
      obtain ⟨e, he⟩ := Option.ne_none_iff_exists'.1 hmem
      have hentry := h.entry _ e he
      rw [if_neg (by omega), if_neg (by omega)]
      refine ⟨_, _, _, rfl, fun ev hev => ?_, nofun⟩
      cases hev
      refine ⟨?_, ⟨e.2, ?_⟩, ?_⟩
      · exact (hpending _).2 ⟨cur, h0, by omega, by omega, rfl, hrev⟩
      · rw [he, ← hentry]
        rfl
      · constructor
        · exact ⟨h0, by dsimp only; omega⟩
        · intro _ fd
          rw [Set.mem_sdiff, Set.mem_singleton_iff, hpending fd]
          constructor
          · intro ⟨⟨i, hi0, hicur, hiused, hat, hne⟩, hother⟩
            refine ⟨i, hi0, ?_, hiused, hat, hne⟩
            by_contra hge
            have hi : i ≠ cur := by
              intro heq
              rw [← hat, heq] at hother
              exact hother rfl
            exact hne (hall i (by dsimp only at hge; omega) (by omega))
          · intro ⟨i, hi0, hicur, hiused, hat, hne⟩
            dsimp only at hicur hiused hat hne
            refine ⟨⟨i, hi0, by omega, hiused, hat, hne⟩, fun heq => ?_⟩
            have hi := (h.compact.own i hi0 hiused).2
            rw [hat, heq, hindex] at hi
            omega
        · exact hl.count.diff ((hpending _).2 ⟨cur, h0, by omega, by omega, rfl, hrev⟩)

/-- Of what is pending `del` takes out just the one descriptor, if it is `Clear`. -/
theorem without_live (h : Represents p m) (hl : Live p D) (hfd : fd ∈ m.monitored) (hc : Clear p (.del fd)) :
    Live (p.without fd) (D \ {fd}) := by
  obtain ⟨h0, hlt, hat⟩ := h.compact.slot fd hfd
  have hcur := hl.cursor
  constructor
  · exact hcur
  · intro hr fd'
    rw [Set.mem_sdiff, Set.mem_singleton_iff, hl.pending hr fd']
    constructor
    · rintro ⟨⟨i, hi0, hicur, hiused, hfd', hrev⟩, hne⟩
      have his : i ≠ p.fd2pfdnum fd := by
        intro heq
        rw [heq, hat] at hfd'
        exact hne hfd'.symm
      by_cases hlast : i = p.pfdsUsed-1
      · rw [hlast] at hfd' hrev his
        refine ⟨p.fd2pfdnum fd, h0, ?_, ?_, ?_⟩
        · simp only [without]
          omega
        · simp only [without]
          omega
        · simp only [without]
          rw [Function.update_of_ne (Ne.symm his), Function.update_self]
          exact ⟨hfd', hrev⟩
      · refine ⟨i, hi0, hicur, ?_, ?_⟩
        · simp only [without]
          omega
        · simp only [without]
          rw [Function.update_of_ne hlast, Function.update_of_ne his]
          exact ⟨hfd', hrev⟩
    · rintro ⟨i, hi0, hicur, hiused, hrest⟩
      simp only [without] at hicur hiused hrest
      rw [Function.update_of_ne hiused.ne] at hrest
      by_cases his : i = p.fd2pfdnum fd
      · rw [his, Function.update_self] at hrest
        obtain ⟨hfd', hrev⟩ := hrest
        have hlast : p.pfdsUsed-1 < p.curPfdnum := by
          rcases hc with hover | hle | hle | hzero
          · exact absurd hover (not_lt.2 hr)
          · omega
          · omega
          · exact absurd hzero hrev
        refine ⟨⟨p.pfdsUsed-1, by omega, hlast, by omega, hfd', hrev⟩, fun heq => ?_⟩
        have hown := (h.compact.own (p.pfdsUsed-1) (by omega) (by omega)).2
        rw [hfd', heq] at hown
        omega
      · rw [Function.update_of_ne his] at hrest
        refine ⟨⟨i, hi0, hicur, by omega, hrest⟩, fun heq => ?_⟩
        have hown := (h.compact.own i hi0 (by omega)).2
        rw [hrest.1, heq] at hown
        exact his hown.symm
  · exact hl.count.mono Set.sdiff_subset

theorem updateMask_still {f : Revents → Revents} {err : ℤ} (hq : p.updateMask fd f = some (err, q)) :
    Still p q := by
  unfold updateMask at hq
  dsimp only at hq
  split at hq
  · cases hq
  · cases hq
    refine ⟨rfl, rfl, rfl, le_rfl, fun i _ => ?_⟩
    simp only [Function.update_apply]
    split
    · next hi => simp [hi]
    · exact ⟨rfl, rfl⟩

theorem growFds_still {heap : Heap Client} (hq : p.growFds fd heap = .ok q) : Still p q := by
  unfold growFds at hq
  split at hq
  · dsimp only at hq
    split at hq
    · cases hq
    · cases hq
      exact ⟨rfl, rfl, rfl, le_rfl, fun _ _ => ⟨rfl, rfl⟩⟩
  · cases hq
    exact .rfl'

theorem growPfds_still {heap : Heap Client} (h : Represents p m) (hq : p.growPfds heap = .ok q) :
    Still p q := by
  unfold growPfds at hq
  split at hq
  · split at hq
    · cases hq
    · dsimp only at hq
      split at hq
      · cases hq
      · cases hq
        have halloc := h.pfdsAlloc
        refine ⟨rfl, rfl, rfl, by dsimp only; omega, fun i hi => ?_⟩
        simp only [realloc_of_lt hi, and_self]
  · cases hq
    exact .rfl'

theorem growPfds_error_still {heap : Heap Client} {r : ℤ × PollerPoll Client} (hr : p.growPfds heap = .error r) :
    r.1 = ENOMEM ∧ Still p r.2 := by
  unfold growPfds at hr
  split at hr
  · split at hr
    · cases hr
      exact ⟨rfl, .rfl'⟩
    · dsimp only at hr
      split at hr
      · cases hr
        exact ⟨rfl, rfl, rfl, rfl, le_rfl, fun _ _ => ⟨rfl, rfl⟩⟩
      · cases hr
  · cases hr

/-- A new slot below the cursor is not taken for an event. -/
theorem insert_live {client : Option Client} {eventmask : Revents} (hl : Live p D)
    (hc : p.rfds < 1 ∨ p.curPfdnum ≤ p.pfdsUsed ∨ (p.pfds p.pfdsUsed).revents = 0) :
    Live (p.insert fd client eventmask) D where
  cursor := hl.cursor
  pending hr fd' := by
    rw [hl.pending hr fd']
    constructor
    · rintro ⟨i, hi0, hicur, hiused, hat⟩
      refine ⟨i, hi0, hicur, by simp only [insert]; omega, ?_⟩
      simp only [insert, Function.update_of_ne hiused.ne]
      exact hat
    · rintro ⟨i, hi0, hicur, hiused, hfd', hrev⟩
      simp only [insert] at hicur hiused hfd' hrev
      by_cases hlast : i = p.pfdsUsed
      · rw [hlast, Function.update_self] at hrev
        rcases hc with hover | hle | hzero
        · exact absurd hover (not_lt.2 hr)
        · omega
        · exact absurd hzero hrev
      · rw [Function.update_of_ne hlast] at hfd' hrev
        exact ⟨i, hi0, hicur, by omega, hfd', hrev⟩
  count := hl.count

theorem add_live {client : Option Client} {eventmask : Revents} {heap : Heap Client} (h : Represents p m)
    (hl : Live p D) (hc : Clear p (.add fd client eventmask heap)) :
    Live (p.add fd client eventmask heap).2 D := by
  have hle := h.pfdsAlloc
  have hcur := hl.cursor
  unfold add
  split
  · next r hr =>
    rw [growFds_error hr]
    exact hl
  · next q hq =>
    have hs := growFds_still hq
    have hq' := (growFds_represents h hq).1
    split
    · next r hr => exact hl.still hle.1 (hs.trans (growPfds_error_still hr).2)
    · next q' hgrow =>
      have hss := hs.trans (growPfds_still hq' hgrow)
      apply insert_live (hl.still hle.1 hss)
      rw [hss.cursor, hss.used, hss.rfds]
      rcases hc with hover | hbelow | hzero
      · exact .inl hover
      · exact .inr (.inl hbelow)
      · by_cases hfull : p.pfdsUsed < p.pfdsAlloc
        · obtain ⟨_, hrev⟩ := hss.slot p.pfdsUsed hfull
          exact .inr (.inr (hrev.trans hzero))
        · exact .inr (.inl (by omega))

theorem step_inRound {g : Notes Client} {c : Call Client} {err : ℤ} {ev : Option (PollEvent Client)}
    (h : InRound p g) (hg : g.Allows c) (hc : Clear p c) (hq : p.call c = some (err, ev, q)) :
    InRound q ⟨g.table.after err c, g.ready, logged g.log err ev c⟩ := by
  obtain ⟨hover, hallows⟩ := hg
  have hl := h.live hover
  have hle := h.table.pfdsAlloc
  cases c with
  | init | waitForEvents => exact hallows.elim
  | add fd client eventmask heap =>
      have hr := step_represents h.table hallows hq
      cases hq
      have hl' := add_live h.table hl hc
      have hnew : fd ∉ due g.ready g.log := by
        intro hdue
        by_cases hr : p.rfds < 1
        · rw [hl.count.eq_empty hr] at hdue
          exact hdue
        · obtain ⟨i, h0, _, hi, hat, _⟩ := (hl.pending (not_lt.1 hr) fd).1 hdue
          exact (hat ▸ (h.table.compact.own i h0 hi).1) hallows.2
      simp only [logged]
      split
      · exact ⟨hr, .entered h.kept hnew, fun _ => hl'⟩
      · exact ⟨hr, h.kept, fun _ => hl'⟩
  | del fd =>
      have hr := step_represents h.table hallows hq
      simp only [call, del_eq h.table hallows] at hq
      cases hq
      exact ⟨hr, .left fd h.kept, fun _ => without_live h.table hl hallows hc⟩
  | setMask fd eventmask =>
      have hr := step_represents h.table hallows hq
      obtain ⟨e, he⟩ := Option.ne_none_iff_exists'.1 hallows
      obtain ⟨h0, _, _⟩ := h.table.compact.slot fd hallows
      have hset : p.setMask fd eventmask = p.updateMask fd fun _ => eventmask := if_neg (by omega)
      obtain ⟨⟨_, _⟩, hu, heq⟩ := Option.map_eq_some_iff.1 hq
      rw [hset] at hu
      cases heq
      exact ⟨hr, h.kept, fun _ => hl.still hle.1 (updateMask_still hu)⟩
  | orMask | andMask =>
      have hr := step_represents h.table hallows hq
      obtain ⟨⟨_, _⟩, hu, heq⟩ := Option.map_eq_some_iff.1 hq
      cases heq
      exact ⟨hr, h.kept, fun _ => hl.still hle.1 (updateMask_still hu)⟩
  | getNextEvent =>
      have hr := getNextEvent_represents h.table hq
      obtain ⟨err', ev', q', hq', hsome, hnone⟩ := getNextEvent_live h.table hl
      rw [call, hq'] at hq
      cases hq
      cases ev with
      | some e =>
          obtain ⟨hdue, _, hl'⟩ := hsome e rfl
          exact ⟨hr, .returned e h.kept hdue, fun _ => hl'⟩
      | none => exact ⟨hr, .ended h.kept (hnone rfl), fun hno => absurd (List.mem_cons_self ..) hno⟩

theorem rounds_inRound {g : Notes Client} (h : Run rounds (fun p g c => g.Allows c ∧ Clear p c) p g) :
    InRound p g := by
  apply h.invariant
  · rintro p g ⟨p₀, revents, hr, hp, hready, hlog⟩
    have hr' := waitForEvents_represents hr (.ok revents)
    rw [hp] at hr'
    refine ⟨hr', hlog ▸ .start, fun _ => ?_⟩
    rw [hlog, due, hready]
    exact waitForEvents_live hr hp
  · rintro p g c q hin ⟨hg, hc⟩ ⟨err, ev, hq⟩
    simp only [rounds, hq]
    exact step_inRound hin hg hc hq

/-- As long as the calls are `Clear`, a round is fair, its assertions hold and each event
comes with its own client. -/
theorem poll_round {g : Notes Client} (h : Run rounds (fun p g c => g.Allows c ∧ Clear p c) p g) :
    Fair g.ready g.log ∧ (.ended ∉ g.log → ∃ err ev q, p.getNextEvent = some (err, ev, q) ∧
      ∀ e, ev = some e → ∃ eventmask, g.table e.fd = some (e.client, eventmask)) := by
  have hin := rounds_inRound h
  refine ⟨hin.kept.fair, fun hover => ?_⟩
  obtain ⟨err, ev, q, hq, hsome, _⟩ := getNextEvent_live hin.table (hin.live hover)
  exact ⟨err, ev, q, hq, fun e he => (hsome e he).2.1⟩

instance (g : Notes Client) : (c : Call Client) → Decidable (g.Allows c)
  | .init _ | .waitForEvents _ => inferInstanceAs (Decidable (.ended ∉ g.log ∧ False))
  | .add fd client mask heap => inferInstanceAs (Decidable (.ended ∉ g.log ∧ g.table.Allows (.add fd client mask heap)))
  | .del fd => inferInstanceAs (Decidable (.ended ∉ g.log ∧ g.table.Allows (.del fd)))
  | .setMask fd mask => inferInstanceAs (Decidable (.ended ∉ g.log ∧ g.table.Allows (.setMask fd mask)))
  | .orMask fd mask => inferInstanceAs (Decidable (.ended ∉ g.log ∧ g.table.Allows (.orMask fd mask)))
  | .andMask fd mask => inferInstanceAs (Decidable (.ended ∉ g.log ∧ g.table.Allows (.andMask fd mask)))
  | .getNextEvent => inferInstanceAs (Decidable (.ended ∉ g.log ∧ g.table.Allows .getNextEvent))

instance (p : PollerPoll Client) : (c : Call Client) → Decidable (Clear p c)
  | .del fd => inferInstanceAs (Decidable (p.rfds < 1 ∨ p.curPfdnum ≤ p.fd2pfdnum fd ∨ p.pfdsUsed ≤ p.curPfdnum ∨
      (p.pfds (p.pfdsUsed-1)).revents = 0))
  | .add _ _ _ _ => inferInstanceAs (Decidable (p.rfds < 1 ∨ p.curPfdnum ≤ p.pfdsUsed ∨ (p.pfds p.pfdsUsed).revents = 0))
  | .init _ | .setMask _ _ | .orMask _ _ | .andMask _ _ | .waitForEvents _ | .getNextEvent =>
    inferInstanceAs (Decidable True)

end

/-- Descriptors 3, 4 and 5 are monitored. -/
def three : PollerPoll ℕ where
  fd2clientUsed := 6
  fd2clientAlloc := 16
  pfds i := ⟨i+3, POLLIN, 0⟩
  clients i := some i.toNat
  pfdsUsed := 3
  pfdsAlloc := 16
  fd2pfdnum fd := fd-3
  rfds := 0
  curPfdnum := 0

def threeTable : Table ℕ := fun fd =>
  if 3 ≤ fd ∧ fd < 6 then some (some (fd-3).toNat, POLLIN) else none

theorem three_represents : Represents three threeTable := by
  have hmem : ∀ fd, fd ∈ threeTable.monitored ↔ 3 ≤ fd ∧ fd < 6 := by
    intro fd
    simp only [Table.monitored, threeTable, Set.mem_ofPred_eq]
    split
    · simp [*]
    · simp [*]
  constructor
  · constructor
    · decide
    · intro fd hfd
      have hfd := (hmem fd).1 hfd
      simp only [three]
      omega
    · intro i h0 hi
      rw [hmem]
      simp only [three] at hi ⊢
      omega
  · intro fd e he
    unfold threeTable at he
    split at he
    · cases he
      rfl
    · cases he
  · intro fd hfd
    have hfd := (hmem fd).1 hfd
    simp only [three]
    omega
  · decide
  · decide

/-- All three are ready. -/
def threeReady : PollerPoll ℕ := (three.waitForEvents (.ok fun _ => POLLIN)).2

def threeNotes : Notes ℕ :=
  ⟨threeTable, {fd | ∃ i, 0 ≤ i ∧ i < three.pfdsUsed ∧ (three.pfds i).fd = fd ∧ POLLIN ≠ 0}, []⟩

theorem three_start : rounds.start threeReady threeNotes :=
  ⟨three, fun _ => POLLIN, three_represents, rfl, rfl, rfl⟩

/-- The handler of 5 takes out 5 and 3, and the round goes on with 4 alone. -/
theorem poll_round_three : ∃ (p : PollerPoll ℕ) (g : Notes ℕ),
    Run rounds (fun p g c => g.Allows c ∧ Clear p c) p g ∧ g.log =
      [.ended, .entered 9, .returned 4 ⟨4, POLLIN, some 1⟩, .left 3, .left 5,
        .returned 5 ⟨5, POLLIN, some 2⟩] ∧ Fair g.ready g.log := by
  have hfollow : ((follow (guarded (fun p g c => g.Allows c ∧ Clear p c) run) rounds.note
      threeReady threeNotes [.getNextEvent, .del 5, .del 3, .getNextEvent, .add 9 (some 9) POLLOUT sevens,
        .getNextEvent]).map fun r => r.2.log) = some [.ended, .entered 9,
          .returned 4 ⟨4, POLLIN, some 1⟩, .left 3, .left 5, .returned 5 ⟨5, POLLIN, some 2⟩] := by
    decide +kernel
  obtain ⟨⟨p, g⟩, hr, hlog⟩ := Option.map_eq_some_iff.1 hfollow
  have hrun : Run rounds (fun p g c => g.Allows c ∧ Clear p c) p g :=
    Run.follow_guarded (fun _ _ _ => exists_of_map_snd) (.start three_start) hr
  exact ⟨p, g, hrun, hlog, (poll_round hrun).1⟩

/-- The handler of 5 takes out 3, whose slot 5 moves to; 5 is returned again. -/
theorem poll_round_repeats : ¬ ∀ (p : PollerPoll ℕ) (g : Notes ℕ),
    Run rounds (fun _ g c => g.Allows c) p g → Fair g.ready g.log := by
  intro hall
  have hfollow : ((follow (guarded (fun _ g c => g.Allows c) run) rounds.note threeReady threeNotes
      [.getNextEvent, .del 3, .getNextEvent, .getNextEvent]).map fun r => r.2.log) = some
        [.returned 5 ⟨5, POLLIN, some 2⟩, .returned 4 ⟨4, POLLIN, some 1⟩, .left 3,
          .returned 5 ⟨5, POLLIN, some 2⟩] := by
    decide +kernel
  obtain ⟨⟨p, g⟩, hr, hlog⟩ := Option.map_eq_some_iff.1 hfollow
  have hrun : Run rounds (fun _ g c => g.Allows c) p g :=
    Run.follow_guarded (fun _ _ _ => exists_of_map_snd) (.start three_start) hr
  have hfair := hall p g hrun
  rw [hlog] at hfair
  obtain ⟨_, _, _, honce⟩ := hfair.returned 5 _ _ (List.suffix_refl _)
  exact honce ⟨5, POLLIN, some 2⟩ (by decide)

end Dkftpbench.PollerPoll
