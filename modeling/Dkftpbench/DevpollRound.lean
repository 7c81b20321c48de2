import Dkftpbench.PollerDevpoll
import Dkftpbench.Round
import Dkftpbench.Watch
import Mathlib.Data.Int.Range

/-!
# One round of Poller_devpoll

`getNextEvent` counts `m_rfds` down and passes over the descriptors that have no client any
more. An event that is due lies below `m_rfds`, and what lies there and is not due is of a
descriptor without a client: until one is added for it again, which then gets the event.
-/
namespace Dkftpbench.DevpollWorld
open CLib Watch Round
variable {Client : Type*}

/-- The client of each descriptor that is monitored, what the driver reported at the last
wait, and the log of the round since. -/
structure Notes (Client : Type*) where
  owner : ℤ → Option Client
  reported : List (ℤ × Revents)
  log : List (Round.Act ℤ (PollEvent Client))

def Notes.ready (g : Notes Client) : Set ℤ := {fd | ∃ revents, (fd, revents) ∈ g.reported}

def Notes.due (g : Notes Client) : Set ℤ := Round.due g.ready g.log

/-- The notes after a call that returned `err` and maybe an event. -/
def Notes.after (g : Notes Client) (err : ℤ) (ev : Option (PollEvent Client)) : Call Client → Notes Client
  | .add fd client _ _ _ =>
    if err = 0 then { g with owner := Function.update g.owner fd client, log := .entered fd :: g.log } else g
  | .del fd _ =>
    if err = 0 then { g with owner := Function.update g.owner fd none, log := .left fd :: g.log } else g
  | .setMask _ _ _ | .orMask _ _ _ | .andMask _ _ _ => g
  | .waitForEvents (.ok l) => { g with reported := l, log := [] }
  | .waitForEvents (.error _) => { g with reported := [], log := [] }
  | .getNextEvent =>
    match ev with
    | some e => { g with log := .returned e.fd e :: g.log }
    | none => { g with log := .ended :: g.log }

/-- What the driver may report: descriptors that it has, each once, and events. -/
structure Reports (w : DevpollWorld Client) (l : List (ℤ × Revents)) : Prop where
  once : (l.map Prod.fst).Nodup
  room : l.length ≤ w.poller.pfdsUsed
  known : ∀ e ∈ l, w.driver e.1 = true
  event : ∀ e ∈ l, 0 < e.2.toInt

/-- `add` is for descriptors that are not monitored, and has a client; `del` and the masks
are for those that are. -/
def Notes.Allows (w : DevpollWorld Client) (g : Notes Client) : Call Client → Prop
  | .add fd client _ _ _ => g.owner fd = none ∧ client ≠ none
  | .del fd _ | .setMask fd _ _ | .orMask fd _ _ | .andMask fd _ _ => g.owner fd ≠ none
  | .waitForEvents (.ok l) => Reports w l
  | .waitForEvents (.error err) => err ≠ 0
  | .getNextEvent => True

/-- The runs from `init` on, with a new round at each wait. -/
def devpolls (solaris : Bool) : System (DevpollWorld Client) (Call Client) (Notes Client) where
  start w g := (∃ (p : PollerDevpoll Client) (heap : DevpollHeap Client), p.init heap true = (0, w.poller)) ∧
    (∀ fd, w.driver fd = false) ∧ g = ⟨fun _ => none, [], []⟩
  step w c w' := ∃ err ev, w.call solaris c = some (err, ev, w')
  note g w c _ := match w.call solaris c with
    | some (err, ev, _) => g.after err ev c
    | none => g

/-- No event that is left is of a descriptor that is added. -/
def Clear (w : DevpollWorld Client) : Call Client → Prop
  | .add fd _ _ _ _ => ∀ i, 0 ≤ i → i < w.poller.rfds → (w.poller.pfds i).fd ≠ fd
  | _ => True

/-- The poller keeps the clients, and counts them; the driver has no other descriptors. -/
structure Table (w : DevpollWorld Client) (owner : ℤ → Option Client) : Prop where
  client : ∀ fd c, owner fd = some c →
    0 ≤ fd ∧ fd < w.poller.cliventAlloc ∧ (w.poller.clivents fd).client = some c
  driver : ∀ fd, w.driver fd = true → owner fd ≠ none
  used : ∃ F : Finset ℤ, (∀ fd, fd ∈ F ↔ owner fd ≠ none) ∧ (F.card : ℤ) = w.poller.pfdsUsed
  alloc : w.poller.pfdsUsed ≤ w.poller.pfdsAlloc ∧ 0 < w.poller.pfdsAlloc

/-- Below `n` lie events that were reported, of each descriptor at most one. -/
structure Filled (p : PollerDevpoll Client) (reported : List (ℤ × Revents)) (n : ℤ) : Prop where
  event : ∀ i, 0 ≤ i → i < n → 0 < (p.pfds i).revents.toInt
  known : ∀ i, 0 ≤ i → i < n → 0 ≤ (p.pfds i).fd ∧ (p.pfds i).fd < p.cliventAlloc
  reported : ∀ i, 0 ≤ i → i < n → ((p.pfds i).fd, (p.pfds i).revents) ∈ reported
  once : ∀ i j, 0 ≤ i → i < n → 0 ≤ j → j < n → (p.pfds i).fd = (p.pfds j).fd → i = j

/-- Below `n` lies what is due, and what has no client. -/
structure Pending (p : PollerDevpoll Client) (owner : ℤ → Option Client) (reported : List (ℤ × Revents)) (D : Set ℤ)
    (n : ℤ) : Prop where
  filled : Filled p reported n
  due : ∀ fd ∈ D, owner fd ≠ none ∧ ∃ i, 0 ≤ i ∧ i < n ∧ (p.pfds i).fd = fd
  gone : ∀ i, 0 ≤ i → i < n → (p.clivents (p.pfds i).fd).client ≠ none → (p.pfds i).fd ∈ D

structure InRound (w : DevpollWorld Client) (g : Notes Client) : Prop where
  table : Table w g.owner
  kept : Kept g.ready g.log
  pending : Pending w.poller g.owner g.reported g.due w.poller.rfds
  room : w.poller.rfds ≤ w.poller.pfdsAlloc

/-- Clients and results stand as they stood. -/
structure Still (p q : PollerDevpoll Client) : Prop where
  client : ∀ i, i < p.cliventAlloc → (q.clivents i).client = (p.clivents i).client
  pfd : ∀ i, i < p.pfdsAlloc → q.pfds i = p.pfds i
  cliventAlloc : p.cliventAlloc ≤ q.cliventAlloc
  pfdsAlloc : p.pfdsAlloc ≤ q.pfdsAlloc
  used : q.pfdsUsed = p.pfdsUsed
  rfds : q.rfds = p.rfds

section
variable {w w' : DevpollWorld Client} {p q r : PollerDevpoll Client} {g : Notes Client} {owner : ℤ → Option Client}
variable {reported : List (ℤ × Revents)} {D : Set ℤ} {fd err : ℤ} {n taken : ℕ} {heap : DevpollHeap Client}
variable {client : Option Client} {eventmask : Revents} {entries : List (ℤ × Revents)}

/-! ## getNextEvent -/

/-- What the loop finds: an event that is due, or nothing is due. -/
structure Found (owner : ℤ → Option Client) (reported : List (ℤ × Revents)) (D : Set ℤ) (p : PollerDevpoll Client)
    (err : ℤ) (ev : Option (PollEvent Client)) (q : PollerDevpoll Client) : Prop where
  event : ∀ e, ev = some e → e.fd ∈ D ∧ owner e.fd = e.client ∧ (e.fd, e.revents) ∈ reported ∧
    Pending q owner reported (D \ {e.fd}) q.rfds
  ended : ev = none → err = EWOULDBLOCK ∧ D = ∅ ∧ Pending q owner reported D q.rfds
  frame : ∃ k ≤ p.rfds, q = { p with rfds := k }

theorem Filled.mono {k m : ℤ} (h : Filled p reported m) (hle : k ≤ m) : Filled p reported k where
  event i h0 hi := h.event i h0 (hi.trans_le hle)
  known i h0 hi := h.known i h0 (hi.trans_le hle)
  reported i h0 hi := h.reported i h0 (hi.trans_le hle)
  once i j h0 hi h0' hj := h.once i j h0 (hi.trans_le hle) h0' (hj.trans_le hle)

/-- The results stand, and the array of clients does not get shorter. -/
theorem Filled.congr {k : ℤ} (h : Filled p reported k) (hpfd : ∀ i, i < k → q.pfds i = p.pfds i)
    (halloc : p.cliventAlloc ≤ q.cliventAlloc) : Filled q reported k where
  event i h0 hi := by
    rw [hpfd i hi]
    exact h.event i h0 hi
  known i h0 hi := by
    rw [hpfd i hi]
    exact ⟨(h.known i h0 hi).1, (h.known i h0 hi).2.trans_le halloc⟩
  reported i h0 hi := by
    rw [hpfd i hi]
    exact h.reported i h0 hi
  once i j h0 hi h0' hj := by
    rw [hpfd i hi, hpfd j hj]
    exact h.once i j h0 hi h0' hj

/-- Nothing is left, and nothing is due. -/
theorem Pending.nothing {k : ℤ} (hk : k ≤ 0) (hD : ∀ fd, fd ∉ D) : Pending p owner reported D k := by
  have hover : ∀ i, 0 ≤ i → ¬i < k := fun i h0 => not_lt.2 (hk.trans h0)
  refine ⟨⟨?_, ?_, ?_, ?_⟩, fun fd hd => absurd hd (hD fd), ?_⟩
  · exact fun i h0 hi => absurd hi (hover i h0)
  · exact fun i h0 hi => absurd hi (hover i h0)
  · exact fun i h0 hi => absurd hi (hover i h0)
  · exact fun i j h0 hi => absurd hi (hover i h0)
  · exact fun i h0 hi => absurd hi (hover i h0)

theorem Pending.below (h : Pending p owner reported D (n+1)) (hfd : (p.pfds n).fd ∉ D) :
    Pending p owner reported D n where
  filled := h.filled.mono (by omega)
  due fd hd := by
    obtain ⟨howner, i, h0, hi, hat⟩ := h.due fd hd
    refine ⟨howner, i, h0, ?_, hat⟩
    have hne : i ≠ n := by
      rintro rfl
      exact hfd (hat ▸ hd)
    omega
  gone i h0 hi := h.gone i h0 (by omega)

/-- The topmost event is taken out of what is due. -/
theorem Pending.returned (h : Pending p owner reported D (n+1)) : Pending p owner reported (D \ {(p.pfds n).fd}) n where
  filled := h.filled.mono (by omega)
  due := by
    rintro fd ⟨hd, hne⟩
    obtain ⟨howner, i, h0, hi, hat⟩ := h.due fd hd
    refine ⟨howner, i, h0, ?_, hat⟩
    have hin : i ≠ n := by
      rintro rfl
      exact hne hat.symm
    omega
  gone i h0 hi hclient := by
    refine ⟨h.gone i h0 (by omega) hclient, fun heq => ?_⟩
    have hin := h.filled.once i n h0 (by omega) (by omega) (by omega) heq
    omega

theorem Pending.setRfds {k m : ℤ} (h : Pending p owner reported D k) :
    Pending { p with rfds := m } owner reported D k where
  filled := h.filled.congr (fun _ _ => rfl) le_rfl
  due := h.due
  gone := h.gone

/-- The loop holds its assertions, and passes over what has no client. -/
theorem nextEvent_spec (hclient : ∀ fd c, owner fd = some c → (p.clivents fd).client = some c)
    (h : Pending p owner reported D n) (hn : n ≤ p.rfds) :
    ∃ err ev q, p.nextEvent n = some (err, ev, q) ∧ Found owner reported D p err ev q := by
  induction n with
  | zero =>
      have hempty : D = ∅ := by
        refine Set.eq_empty_of_forall_notMem fun fd hd => ?_
        obtain ⟨-, i, h0, hi, -⟩ := h.due fd hd
        omega
      exact ⟨_, _, _, rfl, nofun, fun _ => ⟨rfl, hempty, h.setRfds⟩, 0, hn, rfl⟩
  | succ n ih =>
      rw [Nat.cast_succ] at h hn
      have hevent := h.filled.event n (by omega) (by omega)
      have hknown := h.filled.known n (by omega) (by omega)
      rw [PollerDevpoll.nextEvent]
      rw [if_neg (not_not.2 hevent), if_neg (not_not.2 hknown)]
      split
      · next hnone =>
        have hnot : (p.pfds n).fd ∉ D := by
          intro hd
          obtain ⟨c, hc⟩ := Option.ne_none_iff_exists'.1 (h.due _ hd).1
          cases hnone.symm.trans (hclient _ c hc)
        exact ih (h.below hnot) (by omega)
      · next c hc =>
        have hd := h.gone n (by omega) (by omega) (by rw [hc]; nofun)
        obtain ⟨c', hc'⟩ := Option.ne_none_iff_exists'.1 (h.due _ hd).1
        refine ⟨_, _, _, rfl, ?_, nofun, n, by omega, rfl⟩
        intro e he
        cases he
        refine ⟨hd, ?_, h.filled.reported n (by omega) (by omega), h.returned.setRfds⟩
        rw [hc', ← hclient _ c' hc', hc]

theorem getNextEvent_spec (hclient : ∀ fd c, owner fd = some c → (p.clivents fd).client = some c)
    (h : Pending p owner reported D p.rfds) :
    ∃ err ev q, p.getNextEvent = some (err, ev, q) ∧ Found owner reported D p err ev q := by
  unfold PollerDevpoll.getNextEvent
  split
  · next hlt =>
    have hempty : D = ∅ := by
      refine Set.eq_empty_of_forall_notMem fun fd hd => ?_
      obtain ⟨-, i, h0, hi, -⟩ := h.due fd hd
      omega
    exact ⟨_, _, _, rfl, nofun, fun _ => ⟨rfl, hempty, h⟩, p.rfds, le_rfl, rfl⟩
  · next hge =>
    have hcast : (p.rfds.toNat : ℤ) = p.rfds := Int.toNat_of_nonneg (by omega)
    rw [← hcast] at h
    exact nextEvent_spec hclient h hcast.le

/-! ## The other calls -/

theorem Still.rfl' : Still p p := ⟨fun _ _ => rfl, fun _ _ => rfl, le_rfl, le_rfl, rfl, rfl⟩

theorem Still.trans (h : Still p q) (h' : Still q r) : Still p r where
  client i hi := (h'.client i (hi.trans_le h.cliventAlloc)).trans (h.client i hi)
  pfd i hi := (h'.pfd i (hi.trans_le h.pfdsAlloc)).trans (h.pfd i hi)
  cliventAlloc := h.cliventAlloc.trans h'.cliventAlloc
  pfdsAlloc := h.pfdsAlloc.trans h'.pfdsAlloc
  used := h'.used.trans h.used
  rfds := h'.rfds.trans h.rfds

theorem growClivents_still (h : p.growClivents fd heap = .ok q) : Still p q ∧ fd < q.cliventAlloc := by
  unfold PollerDevpoll.growClivents at h
  split at h
  · next hge =>
    dsimp only at h
    split at h
    · cases h
    · cases h
      refine ⟨⟨fun i hi => ?_, fun _ _ => rfl, ?_, le_rfl, rfl, rfl⟩, ?_⟩
      · dsimp only
        rw [clearNew_of_lt hi, realloc, if_pos hi]
      · dsimp only
        split <;> omega
      · dsimp only
        split <;> omega
  · next hlt =>
    cases h
    exact ⟨.rfl', not_le.1 hlt⟩

theorem growClivents_error {e : ℤ × PollerDevpoll Client} (h : p.growClivents fd heap = .error e) : e = (ENOMEM, p) := by
  unfold PollerDevpoll.growClivents at h
  split at h
  · dsimp only at h
    split at h
    · cases h
      rfl
    · cases h
  · cases h

theorem growPfds_still (h : p.growPfds heap = .ok q) (halloc : p.pfdsUsed ≤ p.pfdsAlloc ∧ 0 < p.pfdsAlloc) :
    Still p q ∧ q.pfdsUsed < q.pfdsAlloc ∧ q.cliventAlloc = p.cliventAlloc := by
  unfold PollerDevpoll.growPfds at h
  split at h
  · split at h
    · cases h
    · cases h
      refine ⟨⟨fun _ _ => rfl, fun i hi => ?_, le_rfl, ?_, rfl, rfl⟩, ?_, rfl⟩
      · exact if_pos hi
      · dsimp only
        omega
      · dsimp only
        omega
  · cases h
    exact ⟨.rfl', by omega, rfl⟩

theorem growPfds_error {e : ℤ × PollerDevpoll Client} (h : p.growPfds heap = .error e) : e = (ENOMEM, p) := by
  unfold PollerDevpoll.growPfds at h
  split at h
  · split at h
    · cases h
      rfl
    · cases h
  · cases h

theorem Table.still (h : Table w owner) (hs : Still w.poller q) : Table (w.setPoller q) owner where
  client fd c hc := by
    obtain ⟨h0, hlt, hat⟩ := h.client fd c hc
    exact ⟨h0, hlt.trans_le hs.cliventAlloc, (hs.client fd hlt).trans hat⟩
  driver := h.driver
  used := by
    rw [setPoller, hs.used]
    exact h.used
  alloc := by
    rw [setPoller, hs.used]
    exact ⟨h.alloc.1.trans hs.pfdsAlloc, h.alloc.2.trans_le hs.pfdsAlloc⟩

theorem Pending.still {k : ℤ} (h : Pending p owner reported D k) (hk : k ≤ p.pfdsAlloc) (hs : Still p q) :
    Pending q owner reported D k := by
  have hpfd : ∀ i, i < k → q.pfds i = p.pfds i := fun i hi => hs.pfd i (hi.trans_le hk)
  refine ⟨h.filled.congr hpfd hs.cliventAlloc, ?_, ?_⟩
  · intro fd hd
    obtain ⟨howner, i, h0, hi, hat⟩ := h.due fd hd
    exact ⟨howner, i, h0, hi, by rw [hpfd i hi, hat]⟩
  · intro i h0 hi
    rw [hpfd i hi, hs.client _ (h.filled.known i h0 hi).2]
    exact h.gone i h0 hi

theorem InRound.still (h : InRound w g) (hs : Still w.poller q) : InRound (w.setPoller q) g where
  table := h.table.still hs
  kept := h.kept
  pending := by
    rw [setPoller, hs.rfds]
    exact h.pending.still h.room hs
  room := by
    rw [setPoller, hs.rfds]
    exact h.room.trans hs.pfdsAlloc

/-- What is written for a descriptor leaves the others in the driver as they are. -/
theorem foldl_enter_of_ne {driver : ℤ → Bool} {fd' : ℤ} (hfd : ∀ e ∈ entries, e.1 = fd) (hne : fd' ≠ fd) :
    entries.foldl enter driver fd' = driver fd' := by
  induction entries generalizing driver with
  | nil => rfl
  | cons e entries ih =>
      have hat := hfd e List.mem_cons_self
      rw [List.foldl_cons, ih fun e' he' => hfd e' (.tail _ he')]
      exact Function.update_of_ne (fun heq => hne (heq.trans hat)) _ _

theorem write_driver_of_ne {fd' : ℤ} (hfd : ∀ e ∈ entries, e.1 = fd) (hne : fd' ≠ fd) :
    (w.write entries taken).2.driver fd' = w.driver fd' :=
  foldl_enter_of_ne (fun e he => hfd e (List.mem_of_mem_take he)) hne

/-- Of one entry nothing is taken, or all. -/
theorem write_one (w : DevpollWorld Client) (e : ℤ × Revents) (taken : ℕ) :
    w.write [e] taken = (false, w) ∨ w.write [e] taken = (true, { w with driver := enter w.driver e }) := by
  cases taken with
  | zero => exact .inl rfl
  | succ n => exact .inr (by simp [write])

theorem Table.wrote (h : Table w owner) (hfd : ∀ e ∈ entries, e.1 = fd) (howner : owner fd ≠ none) :
    Table (w.write entries taken).2 owner where
  client := h.client
  driver fd' hd := by
    by_cases heq : fd' = fd
    · rw [heq]
      exact howner
    · rw [write_driver_of_ne hfd heq] at hd
      exact h.driver fd' hd
  used := h.used
  alloc := h.alloc

/-- The masks. -/
theorem InRound.updateMask {f : Revents → Revents} {entries : Revents → List (ℤ × Revents)} (h : InRound w g)
    (howner : g.owner fd ≠ none) (hfd : ∀ events, ∀ e ∈ entries events, e.1 = fd) :
    InRound (w.updateMask fd f entries taken).2 g := by
  unfold DevpollWorld.updateMask
  split
  · exact h
  · split
    · exact h
    · generalize f (w.poller.clivents fd).events = events
      have hs : Still w.poller (w.poller.putClivent fd { w.poller.clivents fd with events := events }) := by
        refine ⟨fun i _ => ?_, fun _ _ => rfl, le_rfl, le_rfl, rfl, rfl⟩
        simp only [PollerDevpoll.putClivent, Function.update_apply]
        split
        · next hi => rw [hi]
        · rfl
      have hround := h.still hs
      have hwrote : InRound ((w.setPoller (w.poller.putClivent fd { w.poller.clivents fd with events := events })).write
          (entries events) taken).2 g :=
        ⟨hround.table.wrote (hfd events) howner, hround.kept, hround.pending, hround.room⟩
      dsimp only
      split
      · exact hwrote
      · exact hwrote

theorem replacing_fd {solaris : Bool} {events : Revents} : ∀ e ∈ replacing solaris fd events, e.1 = fd := by
  cases solaris <;> simp [replacing]

/-- A descriptor is taken out. -/
theorem Table.left {cv : Clivent Client} (h : Table w owner) (howner : owner fd ≠ none) :
    Table ⟨{ w.poller.putClivent fd cv with pfdsUsed := w.poller.pfdsUsed-1 }, enter w.driver (fd, POLLREMOVE)⟩
      (Function.update owner fd none) where
  client fd' c hc := by
    have hne : fd' ≠ fd := by
      rintro rfl
      rw [Function.update_self] at hc
      cases hc
    rw [Function.update_of_ne hne] at hc
    simp only [PollerDevpoll.putClivent, Function.update_of_ne hne]
    exact h.client fd' c hc
  driver fd' hd := by
    have hne : fd' ≠ fd := by
      rintro rfl
      simp only [enter, Function.update_self] at hd
      exact absurd hd (by decide)
    simp only [enter, Function.update_of_ne hne] at hd
    rw [Function.update_of_ne hne]
    exact h.driver fd' hd
  used := by
    obtain ⟨F, hF, hcard⟩ := h.used
    have hmem : fd ∈ F := (hF fd).2 howner
    refine ⟨F.erase fd, fun fd' => ?_, ?_⟩
    · rw [Finset.mem_erase, hF fd', Function.update_apply]
      split
      · next heq => simp [heq]
      · next hne => simp [hne]
    · have hone := Finset.card_erase_add_one hmem
      dsimp only
      omega
  alloc := by
    have halloc := h.alloc
    refine ⟨?_, halloc.2⟩
    simp only [PollerDevpoll.putClivent]
    omega

theorem Pending.left {k used : ℤ} {cv : Clivent Client} (h : Pending p owner reported D k) (hcv : cv.client = none) :
    Pending { p.putClivent fd cv with pfdsUsed := used } (Function.update owner fd none) reported (D \ {fd}) k where
  filled := h.filled.congr (fun _ _ => rfl) le_rfl
  due fd' hd := by
    rw [Function.update_of_ne hd.2]
    exact h.due fd' hd.1
  gone i h0 hi hclient := by
    have hne : (p.pfds i).fd ≠ fd := by
      intro heq
      simp only [PollerDevpoll.putClivent, heq, Function.update_self] at hclient
      exact hclient hcv
    simp only [PollerDevpoll.putClivent, Function.update_of_ne hne] at hclient
    exact ⟨h.gone i h0 hi hclient, hne⟩

theorem InRound.del (h : InRound w g) (howner : g.owner fd ≠ none) (taken : ℕ) :
    ∃ err w', w.del fd taken = some (err, w') ∧ InRound w' (g.after err none (.del fd taken)) := by
  obtain ⟨c, hc⟩ := Option.ne_none_iff_exists'.1 howner
  obtain ⟨h0, hlt, hclient⟩ := h.table.client fd c hc
  obtain ⟨F, hF, hcard⟩ := h.table.used
  have hpos := Finset.card_pos.2 ⟨fd, (hF fd).2 howner⟩
  unfold DevpollWorld.del
  rw [if_neg (by omega)]
  rw [if_neg (by rw [hclient]; nofun)]
  rw [if_neg (by omega)]
  rcases write_one w (fd, POLLREMOVE) taken with heq | heq
  · rw [heq]
    exact ⟨_, _, rfl, h⟩
  · rw [heq]
    exact ⟨_, _, rfl, h.table.left howner, .left fd h.kept, h.pending.left rfl, h.room⟩

/-- What has no client is put in, at first without counting it. -/
theorem Table.put {cv : Clivent Client} (h : Table w owner) (howner : owner fd = none) :
    Table (w.setPoller (w.poller.putClivent fd cv)) owner where
  client fd' c hc := by
    have hne : fd' ≠ fd := by
      rintro rfl
      cases howner.symm.trans hc
    simp only [setPoller, PollerDevpoll.putClivent, Function.update_of_ne hne]
    exact h.client fd' c hc
  driver := h.driver
  used := h.used
  alloc := h.alloc

theorem Table.entered {client : Option Client} (h : Table w owner) (howner : owner fd = none) (hclient : client ≠ none)
    (hfd : 0 ≤ fd ∧ fd < w.poller.cliventAlloc) (hat : (w.poller.clivents fd).client = client)
    (hroom : w.poller.pfdsUsed < w.poller.pfdsAlloc) :
    Table ⟨{ w.poller with pfdsUsed := w.poller.pfdsUsed+1 }, enter w.driver (fd, eventmask)⟩
      (Function.update owner fd client) where
  client fd' c hc := by
    by_cases heq : fd' = fd
    · rw [heq, Function.update_self] at hc
      rw [heq]
      exact ⟨hfd.1, hfd.2, hat.trans hc⟩
    · rw [Function.update_of_ne heq] at hc
      exact h.client fd' c hc
  driver fd' hd := by
    by_cases heq : fd' = fd
    · rw [heq, Function.update_self]
      exact hclient
    · simp only [enter, Function.update_of_ne heq] at hd
      rw [Function.update_of_ne heq]
      exact h.driver fd' hd
  used := by
    obtain ⟨F, hF, hcard⟩ := h.used
    have hmem : fd ∉ F := fun hin => (hF fd).1 hin howner
    refine ⟨insert fd F, fun fd' => ?_, ?_⟩
    · rw [Finset.mem_insert, hF fd', Function.update_apply]
      split
      · next heq => simp [heq, hclient]
      · next hne => simp [hne]
    · rw [Finset.card_insert_of_notMem hmem]
      push_cast
      rw [hcard]
  alloc := ⟨by dsimp only; omega, h.alloc.2⟩

theorem Pending.put {k : ℤ} {cv : Clivent Client} (h : Pending p owner reported D k)
    (hclear : ∀ i, 0 ≤ i → i < k → (p.pfds i).fd ≠ fd) : Pending (p.putClivent fd cv) owner reported D k where
  filled := h.filled.congr (fun _ _ => rfl) le_rfl
  due := h.due
  gone i h0 hi hclient := by
    simp only [PollerDevpoll.putClivent, Function.update_of_ne (hclear i h0 hi)] at hclient
    exact h.gone i h0 hi hclient

theorem Pending.entered {k used : ℤ} (h : Pending p owner reported D k) (howner : owner fd = none) :
    Pending { p with pfdsUsed := used } (Function.update owner fd client) reported D k where
  filled := h.filled.congr (fun _ _ => rfl) le_rfl
  due fd' hd := by
    obtain ⟨howner', hat⟩ := h.due fd' hd
    have hne : fd' ≠ fd := by
      rintro rfl
      exact howner' howner
    rw [Function.update_of_ne hne]
    exact ⟨howner', hat⟩
  gone := h.gone

theorem InRound.put {cv : Clivent Client} (h : InRound w g) (howner : g.owner fd = none)
    (hclear : ∀ i, 0 ≤ i → i < w.poller.rfds → (w.poller.pfds i).fd ≠ fd) :
    InRound (w.setPoller (w.poller.putClivent fd cv)) g :=
  ⟨h.table.put howner, h.kept, h.pending.put hclear, h.room⟩

theorem InRound.add (h : InRound w g) (howner : g.owner fd = none) (hclient : client ≠ none)
    (hclear : Clear w (.add fd client eventmask heap taken)) :
    InRound (w.add fd client eventmask heap taken).2
      (g.after (w.add fd client eventmask heap taken).1 none (.add fd client eventmask heap taken)) := by
  unfold DevpollWorld.add
  split
  · exact h
  · next hneg =>
    split
    · exact h
    · split
      · next hgrow =>
        rw [growClivents_error hgrow]
        exact h
      · next q hgrow =>
        obtain ⟨hq, hlt⟩ := growClivents_still hgrow
        have hround := h.still hq
        split
        · next hgrow =>
          rw [growPfds_error hgrow]
          exact hround
        · next r hgrow =>
          obtain ⟨hr, hroom, halloc⟩ := growPfds_still hgrow hround.table.alloc
          have hs := hq.trans hr
          have hfar : ∀ i, 0 ≤ i → i < r.rfds → (r.pfds i).fd ≠ fd := by
            intro i h0 hi
            rw [hs.rfds] at hi
            rw [hs.pfd i (hi.trans_le h.room)]
            exact hclear i h0 hi
          have hput : InRound (w.setPoller (r.putClivent fd ⟨client, eventmask⟩)) g := (h.still hs).put howner hfar
          rcases write_one (w.setPoller (r.putClivent fd ⟨client, eventmask⟩)) (fd, eventmask) taken with heq | heq
          · dsimp only
            rw [heq]
            exact hput
          · dsimp only
            rw [heq]
            have hrange : 0 ≤ fd ∧ fd < r.cliventAlloc := ⟨not_lt.1 hneg, halloc ▸ hlt⟩
            have hat : ((r.putClivent fd ⟨client, eventmask⟩).clivents fd).client = client := by
              simp only [PollerDevpoll.putClivent, Function.update_self]
            have hnot : fd ∉ g.due := fun hd => (h.pending.due fd hd).1 howner
            exact ⟨hput.table.entered howner hclient hrange hat hroom, .entered h.kept hnot,
              hput.pending.entered howner, hput.room⟩

theorem InRound.failed (h : InRound w g) :
    InRound (w.setPoller (w.poller.waitForEvents (.error err)).2) (g.after err none (.waitForEvents (.error err))) where
  table := ⟨h.table.client, h.table.driver, h.table.used, h.table.alloc⟩
  kept := .start
  pending := by
    apply Pending.nothing
    · simp only [setPoller, PollerDevpoll.waitForEvents]
      omega
    · rintro fd ⟨revents, hmem⟩
      cases hmem
  room := by
    have halloc := h.table.alloc
    simp only [setPoller, PollerDevpoll.waitForEvents]
    omega

/-- What the driver reports is due, and lies below `m_rfds`. -/
theorem InRound.waited {l : List (ℤ × Revents)} (h : InRound w g) (hl : Reports w l) :
    InRound (w.setPoller (w.poller.waitForEvents (.ok l)).2) (g.after err none (.waitForEvents (.ok l))) where
  table := ⟨h.table.client, h.table.driver, h.table.used, h.table.alloc⟩
  kept := .start
  pending := by
    have hat : ∀ (i : ℤ), 0 ≤ i → i < l.length → ∃ hi : i.toNat < l.length,
        (w.poller.waitForEvents (.ok l)).2.pfds i =
          { w.poller.pfds i with fd := l[i.toNat].1, revents := l[i.toNat].2 } := by
      intro i h0 hi
      have hi : i.toNat < l.length := by omega
      refine ⟨hi, ?_⟩
      simp only [PollerDevpoll.waitForEvents, if_pos h0, List.getElem?_eq_getElem hi]
    refine ⟨⟨?_, ?_, ?_, ?_⟩, ?_, ?_⟩
    · intro i h0 hi
      obtain ⟨hlt, heq⟩ := hat i h0 hi
      simp only [setPoller, heq]
      exact hl.event _ (List.getElem_mem hlt)
    · intro i h0 hi
      obtain ⟨hlt, heq⟩ := hat i h0 hi
      obtain ⟨c, hc⟩ := Option.ne_none_iff_exists'.1 (h.table.driver _ (hl.known _ (List.getElem_mem hlt)))
      obtain ⟨hfd, hfd', -⟩ := h.table.client _ c hc
      simp only [setPoller, heq]
      exact ⟨hfd, hfd'⟩
    · intro i h0 hi
      obtain ⟨hlt, heq⟩ := hat i h0 hi
      simp only [setPoller, heq]
      exact List.getElem_mem hlt
    · intro i j h0 hi h0' hj hfd
      obtain ⟨hlt, heq⟩ := hat i h0 hi
      obtain ⟨hlt', heq'⟩ := hat j h0' hj
      simp only [setPoller, heq, heq'] at hfd
      have hsame := List.inj_on_of_nodup_map hl.once (List.getElem_mem hlt) (List.getElem_mem hlt') hfd
      have hij := (hl.once.of_map _).getElem_inj_iff.1 hsame
      omega
    · rintro fd ⟨revents, (hmem : (fd, revents) ∈ l)⟩
      refine ⟨h.table.driver fd (hl.known _ hmem), ?_⟩
      obtain ⟨k, hk, hget⟩ := List.mem_iff_getElem.1 hmem
      obtain ⟨hlt, heq⟩ := hat k (by omega) (by omega)
      refine ⟨k, by omega, Int.ofNat_lt.2 hk, ?_⟩
      simp only [setPoller, heq, Int.toNat_natCast, hget]
    · intro i h0 hi hclient
      obtain ⟨hlt, heq⟩ := hat i h0 hi
      simp only [setPoller, heq]
      exact ⟨_, List.getElem_mem hlt⟩
  room := by
    have halloc := h.table.alloc
    have hroom := hl.room
    simp only [setPoller, PollerDevpoll.waitForEvents]
    omega

theorem start_inRound {solaris : Bool} (h : (devpolls solaris).start w g) : InRound w g := by
  obtain ⟨⟨p, heap, hinit⟩, hdriver, rfl⟩ := h
  obtain ⟨hrfds, hused, halloc⟩ : w.poller.rfds = 0 ∧ w.poller.pfdsUsed = 0 ∧ w.poller.pfdsAlloc = 16 := by
    unfold PollerDevpoll.init at hinit
    dsimp only at hinit
    split at hinit
    · cases (Prod.mk.inj hinit).1
    · split at hinit
      · cases (Prod.mk.inj hinit).1
      · rw [← (Prod.mk.inj hinit).2]
        exact ⟨rfl, rfl, rfl⟩
  refine ⟨⟨nofun, ?_, ⟨∅, by simp, by simp [hused]⟩, by omega⟩, .start, ?_, by omega⟩
  · intro fd hd
    cases (hdriver fd).symm.trans hd
  · apply Pending.nothing hrfds.le
    rintro fd ⟨revents, hmem⟩
    cases hmem

theorem step_inRound {solaris : Bool} {c : Call Client} (h : InRound w g) (hallow : g.Allows w c) (hc : Clear w c)
    (hs : (devpolls solaris).step w c w') : InRound w' ((devpolls solaris).note g w c w') := by
  obtain ⟨err, ev, hcall⟩ := hs
  simp only [devpolls, hcall]
  cases c with
  | add fd client eventmask heap taken =>
      cases hcall
      exact h.add hallow.1 hallow.2 hc
  | del fd taken =>
      obtain ⟨err', w₁, hdel, hround⟩ := h.del hallow taken
      simp only [call, hdel, Option.map_some] at hcall
      cases hcall
      exact hround
  | setMask fd eventmask taken =>
      cases hcall
      exact h.updateMask hallow fun _ => replacing_fd
  | orMask fd eventmask taken =>
      cases hcall
      exact h.updateMask hallow fun _ => by simp
  | andMask fd eventmask taken =>
      cases hcall
      exact h.updateMask hallow fun _ => replacing_fd
  | waitForEvents ioctl =>
      cases hcall
      cases ioctl with
      | ok l => exact h.waited hallow
      | error err => exact h.failed
  | getNextEvent =>
      obtain ⟨err', ev', q, hnext, hfound⟩ := getNextEvent_spec (fun fd c hc => (h.table.client fd c hc).2.2) h.pending
      simp only [call, hnext, Option.map_some] at hcall
      cases hcall
      obtain ⟨k, hk, hq⟩ := hfound.frame
      have htable : Table (w.setPoller q) g.owner := by
        rw [hq]
        exact ⟨h.table.client, h.table.driver, h.table.used, h.table.alloc⟩
      have hroom : q.rfds ≤ q.pfdsAlloc := by
        rw [hq]
        exact hk.trans h.room
      cases ev with
      | some e =>
          obtain ⟨hdue, -, -, hpending⟩ := hfound.event e rfl
          exact ⟨htable, .returned e h.kept hdue, hpending, hroom⟩
      | none =>
          obtain ⟨-, hempty, hpending⟩ := hfound.ended rfl
          exact ⟨htable, .ended h.kept hempty, hpending, hroom⟩

theorem devpolls_inRound {solaris : Bool} (h : Run (devpolls solaris) (fun w g c => g.Allows w c ∧ Clear w c) w g) :
    InRound w g := by
  apply h.invariant
  · exact fun w g => start_inRound
  · intro w g c w' hin ⟨hallow, hc⟩ hs
    exact step_inRound hin hallow hc hs

/-- As long as the calls are `Clear`, a round is fair, its assertions hold and each event
that was reported comes with its own client. -/
theorem devpoll_round {solaris : Bool} (h : Run (devpolls solaris) (fun w g c => g.Allows w c ∧ Clear w c) w g) :
    Fair g.ready g.log ∧ ∃ err ev w', w.call solaris .getNextEvent = some (err, ev, w') ∧
      (ev = none → err = EWOULDBLOCK) ∧
      ∀ e, ev = some e → g.owner e.fd = e.client ∧ (e.fd, e.revents) ∈ g.reported := by
  have hin := devpolls_inRound h
  obtain ⟨err, ev, q, hnext, hfound⟩ := getNextEvent_spec (fun fd c hc => (hin.table.client fd c hc).2.2) hin.pending
  refine ⟨hin.kept.fair, err, ev, w.setPoller q, ?_, fun hev => (hfound.ended hev).1, fun e he => ?_⟩
  · rw [call, hnext, Option.map_some]
  · obtain ⟨-, howner, hreported, -⟩ := hfound.event e he
    exact ⟨howner, hreported⟩

/-! ## Runs -/

instance (w : DevpollWorld Client) (l : List (ℤ × Revents)) : Decidable (Reports w l) :=
  decidable_of_iff ((l.map Prod.fst).Nodup ∧ l.length ≤ w.poller.pfdsUsed ∧ (∀ e ∈ l, w.driver e.1 = true) ∧
    ∀ e ∈ l, 0 < e.2.toInt) ⟨fun ⟨h₁, h₂, h₃, h₄⟩ => ⟨h₁, h₂, h₃, h₄⟩, fun h => ⟨h.once, h.room, h.known, h.event⟩⟩

instance (w : DevpollWorld Client) (g : Notes Client) : (c : Call Client) → Decidable (g.Allows w c)
  | .add fd client _ _ _ => inferInstanceAs (Decidable (g.owner fd = none ∧ client ≠ none))
  | .del fd _ | .setMask fd _ _ | .orMask fd _ _ | .andMask fd _ _ => inferInstanceAs (Decidable (g.owner fd ≠ none))
  | .waitForEvents (.ok l) => inferInstanceAs (Decidable (Reports w l))
  | .waitForEvents (.error err) => inferInstanceAs (Decidable (err ≠ 0))
  | .getNextEvent => inferInstanceAs (Decidable True)

instance (w : DevpollWorld Client) : (c : Call Client) → Decidable (Clear w c)
  | .add fd _ _ _ _ => inferInstanceAs (Decidable (∀ i, 0 ≤ i → i < w.poller.rfds → (w.poller.pfds i).fd ≠ fd))
  | .del _ _ | .setMask _ _ _ | .orMask _ _ _ | .andMask _ _ _ | .waitForEvents _ | .getNextEvent =>
    inferInstanceAs (Decidable True)

def run (solaris : Bool) (w : DevpollWorld Client) (c : Call Client) : Option (DevpollWorld Client) :=
  (w.call solaris c).map fun r => r.2.2

end

/-- Memory that holds sevens. -/
def sevens : DevpollHeap ℕ := ⟨some fun _ => ⟨some 7, 7⟩, some fun _ => ⟨7, 7, 7⟩⟩

def opened : DevpollWorld ℕ :=
  ⟨((⟨fun _ => ⟨some 7, 7⟩, fun _ => ⟨7, 7, 7⟩, 7, 7, 7, 7⟩ : PollerDevpoll ℕ).init sevens true).2, fun _ => false⟩

theorem opened_start {solaris : Bool} : (devpolls solaris).start opened ⟨fun _ => none, [], []⟩ :=
  ⟨⟨_, sevens, rfl⟩, fun _ => rfl, rfl⟩

/-- The handler of 5 takes out 3, whose event is left, and 5 itself, and puts 5 in again. -/
theorem devpoll_round_three : ∃ (w : DevpollWorld ℕ) (g : Notes ℕ),
    Run (devpolls true) (fun w g c => g.Allows w c ∧ Clear w c) w g ∧ g.log =
      [.ended, .returned 4 ⟨4, POLLIN, some 40⟩, .entered 5, .left 5, .left 3, .returned 5 ⟨5, POLLIN, some 50⟩] ∧
      Fair g.ready g.log := by
  have hfollow : ((follow (guarded (fun w g c => g.Allows w c ∧ Clear w c) (run true)) (devpolls true).note
      opened ⟨fun _ => none, [], []⟩
      [.add 3 (some 30) POLLIN sevens 1, .add 4 (some 40) POLLIN sevens 1, .add 5 (some 50) POLLIN sevens 1,
        .waitForEvents (.ok [(3, POLLIN), (4, POLLIN), (5, POLLIN)]), .getNextEvent, .del 3 1, .del 5 1,
        .add 5 (some 51) POLLIN sevens 1, .getNextEvent, .getNextEvent]).map fun r => r.2.log) = some
      [.ended, .returned 4 ⟨4, POLLIN, some 40⟩, .entered 5, .left 5, .left 3,
        .returned 5 ⟨5, POLLIN, some 50⟩] := by
    decide +kernel
  obtain ⟨⟨w, g⟩, hr, hlog⟩ := Option.map_eq_some_iff.1 hfollow
  have hrun : Run (devpolls true) (fun w g c => g.Allows w c ∧ Clear w c) w g :=
    Run.follow_guarded (fun _ _ _ => exists_of_map_snd) (.start opened_start) hr
  exact ⟨w, g, hrun, hlog, (devpoll_round hrun).1⟩

/-- The handler of 4 takes out 3 and puts it in for another client, which gets the event
that was reported before. -/
theorem devpoll_round_reused : ¬ ∀ (w : DevpollWorld ℕ) (g : Notes ℕ),
    Run (devpolls false) (fun w g c => g.Allows w c) w g → Fair g.ready g.log := by
  intro hall
  have hfollow : ((follow (guarded (fun w g c => g.Allows w c) (run false)) (devpolls false).note
      opened ⟨fun _ => none, [], []⟩
      [.add 3 (some 30) POLLIN sevens 1, .add 4 (some 40) POLLIN sevens 1,
        .waitForEvents (.ok [(3, POLLIN), (4, POLLIN)]), .getNextEvent, .del 3 1, .add 3 (some 31) POLLIN sevens 1,
        .getNextEvent]).map fun r => r.2.log) = some
      [.returned 3 ⟨3, POLLIN, some 31⟩, .entered 3, .left 3, .returned 4 ⟨4, POLLIN, some 40⟩] := by
    decide +kernel
  obtain ⟨⟨w, g⟩, hr, hlog⟩ := Option.map_eq_some_iff.1 hfollow
  have hrun : Run (devpolls false) (fun w g c => g.Allows w c) w g :=
    Run.follow_guarded (fun _ _ _ => exists_of_map_snd) (.start opened_start) hr
  have hfair := hall w g hrun
  rw [hlog] at hfair
  obtain ⟨_, hleft, _, _⟩ := hfair.returned 3 _ _ (List.suffix_refl _)
  exact hleft (by decide)

end Dkftpbench.DevpollWorld
