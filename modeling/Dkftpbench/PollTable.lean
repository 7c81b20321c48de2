import Dkftpbench.Compact
import Dkftpbench.PollerPoll
import Dkftpbench.Watch

/-!
# Poller_poll is a table

Seen from outside the poller keeps a table, from descriptors to a client and a mask. The
slots in use are a compact array of the descriptors monitored, `m_fd2pfdnum` is its index,
and what the table has for a descriptor lies at its slot.
-/
namespace Dkftpbench.PollerPoll
open CLib Watch
variable {Client : Type*}

/-- The client and the mask of each descriptor that is monitored. -/
abbrev Table (Client : Type*) := ℤ → Option (Option Client × Revents)

def Table.monitored (m : Table Client) : Set ℤ := {fd | m fd ≠ none}

/-- What lies at the slot of a descriptor. -/
def entry (p : PollerPoll Client) (fd : ℤ) : Option Client × Revents :=
  (p.clients (p.fd2pfdnum fd), (p.pfds (p.fd2pfdnum fd)).events)

structure Represents (p : PollerPoll Client) (m : Table Client) : Prop where
  compact : Compact (fun i => (p.pfds i).fd) p.fd2pfdnum p.pfdsUsed m.monitored
  entry : ∀ fd e, m fd = some e → p.entry fd = e
  fds : ∀ fd ∈ m.monitored, 0 ≤ fd ∧ fd < p.fd2clientUsed
  fdsAlloc : 0 ≤ p.fd2clientUsed ∧ p.fd2clientUsed ≤ p.fd2clientAlloc
  pfdsAlloc : p.pfdsUsed ≤ p.pfdsAlloc ∧ 0 < p.pfdsAlloc

/-- What a call that returned `err` makes of the table. -/
def Table.after (m : Table Client) (err : ℤ) : Call Client → Table Client
  | .init _ => fun _ => none
  | .add fd client eventmask _ => if err = 0 then Function.update m fd (some (client, eventmask)) else m
  | .del fd => Function.update m fd none
  | .setMask fd eventmask => Function.update m fd ((m fd).map fun e => (e.1, eventmask))
  | .orMask fd eventmask => Function.update m fd ((m fd).map fun e => (e.1, e.2 ||| eventmask))
  | .andMask fd eventmask => Function.update m fd ((m fd).map fun e => (e.1, e.2 &&& eventmask))
  | .waitForEvents _ | .getNextEvent => m

/-- `init` finds memory, `add` is for descriptors that are not monitored and the others
are for those that are. -/
def Table.Allows (m : Table Client) : Call Client → Prop
  | .init heap => heap.fd2pfdnum ≠ none ∧ heap.clients ≠ none ∧ heap.pfds ≠ none
  | .add fd _ _ _ => 0 ≤ fd ∧ m fd = none
  | .del fd | .setMask fd _ | .orMask fd _ | .andMask fd _ => m fd ≠ none
  | .waitForEvents _ | .getNextEvent => True

/-- The descriptor that a call is about. -/
def Call.fd : Call Client → Option ℤ
  | .add fd _ _ _ | .del fd | .setMask fd _ | .orMask fd _ | .andMask fd _ => some fd
  | .init _ | .waitForEvents _ | .getNextEvent => none

section
variable {p q : PollerPoll Client} {m : Table Client} {fd : ℤ} {client : Option Client} {eventmask : Revents}
variable {heap : Heap Client} {e : Option Client × Revents} {r : ℤ × PollerPoll Client}

theorem Table.after_of_ne {c : Call Client} {err fd' : ℤ} (hc : c.fd = some fd) (hne : fd' ≠ fd) :
    m.after err c fd' = m fd' := by
  cases c with
  | init | waitForEvents | getNextEvent => cases hc
  | add =>
      cases hc
      rw [Table.after]
      split
      · exact Function.update_of_ne hne _ _
      · rfl
  | del | setMask | orMask | andMask =>
      cases hc
      exact Function.update_of_ne hne _ _

theorem mem_monitored (he : m fd = some e) : fd ∈ m.monitored := by
  intro hnone
  rw [hnone] at he
  cases he

theorem monitored_update_some :
    Table.monitored (Function.update m fd (some e)) = Insert.insert fd m.monitored := by
  ext x
  by_cases hx : x = fd
  · simp [Table.monitored, hx]
  · simp [Table.monitored, hx]

theorem monitored_update_none : Table.monitored (Function.update m fd none) = m.monitored \ {fd} := by
  ext x
  by_cases hx : x = fd
  · simp [Table.monitored, hx]
  · simp [Table.monitored, hx]

theorem init_represents (h : p.init heap = (0, q)) : Represents q fun _ => none := by
  have hempty : Table.monitored (fun _ => none : Table Client) = ∅ := by
    simp [Table.monitored]
  unfold init at h
  dsimp only at h
  split at h
  · cases h
  · split at h
    · cases h
    · split at h
      · cases h
      · cases h
        constructor
        · exact hempty ▸ Compact.empty
        · nofun
        · exact fun fd hfd => absurd rfl hfd
        · dsimp only
          omega
        · dsimp only
          omega

/-- The cells below the old size of an array keep their contents. -/
theorem realloc_of_lt {α : Type*} {old cells : ℤ → α} {alloc i : ℤ} (h : i < alloc) :
    realloc old alloc cells i = old i := if_pos h

/-- Nothing that the table speaks of has changed. -/
theorem Represents.congr (h : Represents p m) (hpfds : ∀ i, 0 ≤ i → i < p.pfdsUsed → q.pfds i = p.pfds i)
    (hclients : ∀ i, 0 ≤ i → i < p.pfdsUsed → q.clients i = p.clients i)
    (hindex : ∀ fd ∈ m.monitored, q.fd2pfdnum fd = p.fd2pfdnum fd)
    (hused : q.pfdsUsed = p.pfdsUsed ∧ q.fd2clientUsed = p.fd2clientUsed)
    (hfds : p.fd2clientAlloc ≤ q.fd2clientAlloc) (halloc : p.pfdsAlloc ≤ q.pfdsAlloc) : Represents q m := by
  obtain ⟨hpused, hfused⟩ := hused
  constructor
  · rw [hpused]
    exact h.compact.congr (fun i h0 hi => congrArg Pollfd.fd (hpfds i h0 hi)) hindex
  · intro fd e he
    have hfd : fd ∈ m.monitored := mem_monitored he
    obtain ⟨h0, hlt, _⟩ := h.compact.slot fd hfd
    rw [← h.entry fd e he, PollerPoll.entry, PollerPoll.entry, hindex fd hfd, hpfds _ h0 hlt,
      hclients _ h0 hlt]
  · rw [hfused]
    exact h.fds
  · rw [hfused]
    exact ⟨h.fdsAlloc.1, h.fdsAlloc.2.trans hfds⟩
  · rw [hpused]
    exact ⟨h.pfdsAlloc.1.trans halloc, h.pfdsAlloc.2.trans_le halloc⟩

theorem growFds_represents (h : Represents p m) (hq : p.growFds fd heap = .ok q) :
    Represents q m ∧ fd < q.fd2clientAlloc := by
  unfold growFds at hq
  split at hq
  · dsimp only at hq
    split at hq
    · cases hq
    · cases hq
      have hle := h.fdsAlloc
      constructor
      · refine h.congr (fun _ _ _ => rfl) (fun _ _ _ => rfl) ?_ ⟨rfl, rfl⟩ ?_ le_rfl
        · intro fd' hfd'
          have hlt : fd' < p.fd2clientAlloc := (h.fds fd' hfd').2.trans_le hle.2
          dsimp only
          rw [clearNew_of_lt hlt, realloc_of_lt hlt]
        · dsimp only
          split <;> omega
      · dsimp only
        split <;> omega
  · next hfd =>
    cases hq
    exact ⟨h, not_le.1 hfd⟩

theorem growFds_error (h : p.growFds fd heap = .error r) : r = (ENOMEM, p) := by
  unfold growFds at h
  split at h
  · dsimp only at h
    split at h
    · cases h
      rfl
    · cases h
  · cases h

theorem growPfds_represents (h : Represents p m) (hq : p.growPfds heap = .ok q) :
    Represents q m ∧ q.pfdsUsed < q.pfdsAlloc ∧ q.fd2clientAlloc = p.fd2clientAlloc := by
  have hle := h.pfdsAlloc
  unfold growPfds at hq
  split at hq
  · next hfull =>
    split at hq
    · cases hq
    · dsimp only at hq
      split at hq
      · cases hq
      · cases hq
        refine ⟨h.congr ?_ ?_ (fun _ _ => rfl) ⟨rfl, rfl⟩ le_rfl ?_, ?_, rfl⟩
        · exact fun i _ hi => realloc_of_lt (hi.trans_le hle.1)
        · exact fun i _ hi => realloc_of_lt (hi.trans_le hle.1)
        · dsimp only
          omega
        · dsimp only
          omega
  · next hfree =>
    cases hq
    exact ⟨h, by omega, rfl⟩

/-- Half-way through, only the array of clients has grown. -/
theorem growPfds_error (h : Represents p m) (hr : p.growPfds heap = .error r) :
    r.1 = ENOMEM ∧ Represents r.2 m := by
  unfold growPfds at hr
  split at hr
  · split at hr
    · cases hr
      exact ⟨rfl, h⟩
    · dsimp only at hr
      split at hr
      · cases hr
        refine ⟨rfl, h.congr (fun _ _ _ => rfl) ?_ (fun _ _ => rfl) ⟨rfl, rfl⟩ le_rfl le_rfl⟩
        exact fun i _ hi => realloc_of_lt (hi.trans_le h.pfdsAlloc.1)
      · cases hr
  · cases hr

theorem insert_represents (h : Represents p m) (h0 : 0 ≤ fd) (hnone : m fd = none)
    (hfd : fd < p.fd2clientAlloc) (hfree : p.pfdsUsed < p.pfdsAlloc) :
    Represents (p.insert fd client eventmask) (Function.update m fd (some (client, eventmask))) := by
  have hnew : fd ∉ m.monitored := fun hmem => hmem hnone
  constructor
  · rw [monitored_update_some]
    apply (h.compact.insert hnew).congr _ (fun _ _ => rfl)
    intro i _ _
    simp only [insert, Function.update_apply]
    split
    · rfl
    · rfl
  · intro fd' e he
    by_cases heq : fd' = fd
    · rw [heq, Function.update_self] at he
      cases he
      simp only [PollerPoll.entry, insert, heq, Function.update_self]
    · rw [Function.update_of_ne heq] at he
      have hmem : fd' ∈ m.monitored := mem_monitored he
      rw [← h.entry fd' e he]
      simp only [PollerPoll.entry, insert]
      rw [h.compact.insert_data hnew hmem, h.compact.insert_data hnew hmem]
  · intro fd' hfd'
    rw [monitored_update_some] at hfd'
    have hbound := h.fdsAlloc
    simp only [insert]
    rcases Set.mem_insert_iff.1 hfd' with rfl | hmem
    · split <;> omega
    · have hold := h.fds fd' hmem
      split <;> omega
  · have hbound := h.fdsAlloc
    simp only [insert]
    split <;> omega
  · have hbound := h.pfdsAlloc
    simp only [insert]
    omega

theorem add_represents (h : Represents p m) (h0 : 0 ≤ fd) (hnone : m fd = none)
    (client : Option Client) (eventmask : Revents) (heap : Heap Client) :
    ((p.add fd client eventmask heap).1 = 0 ∧ Represents (p.add fd client eventmask heap).2
        (Function.update m fd (some (client, eventmask)))) ∨
      ((p.add fd client eventmask heap).1 = ENOMEM ∧ Represents (p.add fd client eventmask heap).2 m) := by
  unfold add
  split
  · next r hr =>
    rw [growFds_error hr]
    exact .inr ⟨rfl, h⟩
  · next q hq =>
    obtain ⟨hq, hfd⟩ := growFds_represents h hq
    split
    · next r hr => exact .inr (growPfds_error hq hr)
    · next q' hq' =>
      obtain ⟨hq', hfree, halloc⟩ := growPfds_represents hq hq'
      exact .inl ⟨rfl, insert_represents hq' h0 hnone (halloc ▸ hfd) hfree⟩

theorem trim_spec (fd2pfdnum : ℤ → ℤ) (n : ℕ) :
    trim fd2pfdnum n ≤ n ∧ ∀ i : ℤ, 0 ≤ i → i < n → fd2pfdnum i ≠ -1 → i < trim fd2pfdnum n := by
  induction n with
  | zero => exact ⟨le_rfl, fun i h0 hi => absurd h0 (not_le.2 hi)⟩
  | succ n ih =>
      unfold trim
      split
      · next hlast =>
        refine ⟨ih.1.trans (Nat.le_succ n), fun i h0 hi hne => ih.2 i h0 ?_ hne⟩
        by_contra hge
        have hin : i = n := by omega
        rw [hin] at hne
        exact hne hlast
      · exact ⟨le_rfl, fun i _ hi _ => hi⟩

/-- The last slot can be said to move in any case. -/
theorem closeUp_eq (h : Represents p m) (hfd : fd ∈ m.monitored) :
    p.closeUp (p.fd2pfdnum fd) = { p with
      clients := Function.update p.clients (p.fd2pfdnum fd) (p.clients (p.pfdsUsed-1))
      pfds := Function.update p.pfds (p.fd2pfdnum fd) (p.pfds (p.pfdsUsed-1))
      fd2pfdnum := Function.update p.fd2pfdnum (p.pfds (p.pfdsUsed-1)).fd (p.fd2pfdnum fd) } := by
  unfold closeUp
  dsimp only
  split
  · rfl
  · next hlast =>
    have hlast : p.fd2pfdnum fd = p.pfdsUsed-1 := not_not.1 hlast
    have hat : (p.pfds (p.pfdsUsed-1)).fd = fd := by
      rw [← hlast]
      exact (h.compact.slot fd hfd).2.2
    rw [hat, Function.update_eq_self, ← hlast, Function.update_eq_self, Function.update_eq_self]

/-- What `del` leaves of a poller. -/
def without (p : PollerPoll Client) (fd : ℤ) : PollerPoll Client :=
  let last := p.pfdsUsed-1
  let fd2pfdnum := Function.update (Function.update p.fd2pfdnum (p.pfds last).fd (p.fd2pfdnum fd)) fd (-1)
  { p with
    clients := Function.update (Function.update p.clients (p.fd2pfdnum fd) (p.clients last)) last none
    pfds := Function.update (Function.update p.pfds (p.fd2pfdnum fd) (p.pfds last)) last
      { (Function.update p.pfds (p.fd2pfdnum fd) (p.pfds last)) last with fd := -1 }
    fd2pfdnum := fd2pfdnum
    fd2clientUsed := trim fd2pfdnum p.fd2clientUsed.toNat
    pfdsUsed := last }

theorem del_eq (h : Represents p m) (hfd : fd ∈ m.monitored) : p.del fd = some (0, p.without fd) := by
  obtain ⟨h0, hlt, hat⟩ := h.compact.slot fd hfd
  obtain ⟨hfd0, hfdlt⟩ := h.fds fd hfd
  unfold del
  rw [if_neg (by omega), if_neg (by omega)]
  dsimp only
  rw [if_neg (by omega), if_neg (by omega), closeUp_eq h hfd]
  rfl

theorem without_represents (h : Represents p m) (hfd : fd ∈ m.monitored) :
    Represents (p.without fd) (Function.update m fd none) := by
  obtain ⟨h0, hlt, hat⟩ := h.compact.slot fd hfd
  have hused := h.fdsAlloc
  have hremoved := h.compact.remove hfd
  have hindex : ∀ fd' ∈ m.monitored \ {fd}, (p.without fd).fd2pfdnum fd' =
      Function.update p.fd2pfdnum (p.pfds (p.pfdsUsed-1)).fd (p.fd2pfdnum fd) fd' :=
    fun fd' hmem => Function.update_of_ne hmem.2 _ _
  constructor
  · rw [monitored_update_none]
    apply hremoved.congr _ hindex
    intro i _ hi
    simp only [without, Function.update_of_ne hi.ne, Function.update_apply]
    split
    · rfl
    · rfl
  · intro fd' e he
    have hne : fd' ≠ fd := by
      intro heq
      rw [heq, Function.update_self] at he
      cases he
    rw [Function.update_of_ne hne] at he
    have hmem : fd' ∈ m.monitored := mem_monitored he
    have hslot := (hremoved.slot fd' ⟨hmem, hne⟩).2.1
    rw [← h.entry fd' e he, PollerPoll.entry, hindex fd' ⟨hmem, hne⟩]
    simp only [without]
    rw [Function.update_of_ne hslot.ne, Function.update_of_ne hslot.ne,
      h.compact.remove_data hfd hmem hne, h.compact.remove_data hfd hmem hne, PollerPoll.entry]
  · intro fd' hfd'
    rw [monitored_update_none] at hfd'
    obtain ⟨hfd'0, hfd'lt⟩ := h.fds fd' hfd'.1
    refine ⟨hfd'0, (trim_spec _ _).2 fd' hfd'0 (by omega) ?_⟩
    have hslot := (hremoved.slot fd' hfd').1
    have hsame := hindex fd' hfd'
    simp only [without] at hsame
    omega
  · have hle := (trim_spec (p.without fd).fd2pfdnum p.fd2clientUsed.toNat).1
    simp only [without] at hle ⊢
    omega
  · have hle := h.pfdsAlloc
    simp only [without]
    omega

theorem updateMask_represents (h : Represents p m) (he : m fd = some e) (f : Revents → Revents) :
    ∃ q, p.updateMask fd f = some (0, q) ∧ Represents q (Function.update m fd (some (e.1, f e.2))) := by
  have hfd : fd ∈ m.monitored := mem_monitored he
  obtain ⟨h0, hlt, hat⟩ := h.compact.slot fd hfd
  have hentry := h.entry fd e he
  unfold updateMask
  dsimp only
  rw [if_neg (by omega)]
  refine ⟨_, rfl, ?_⟩
  have hmonitored : Table.monitored (Function.update m fd (some (e.1, f e.2))) = m.monitored := by
    rw [monitored_update_some, Set.insert_eq_of_mem hfd]
  constructor
  · rw [hmonitored]
    apply h.compact.congr _ (fun _ _ => rfl)
    intro i _ _
    simp only [Function.update_apply]
    split
    · next hi => rw [hi]
    · rfl
  · intro fd' e' he'
    by_cases heq : fd' = fd
    · rw [heq, Function.update_self] at he'
      cases he'
      simp only [PollerPoll.entry, heq, Function.update_self, ← hentry]
    · rw [Function.update_of_ne heq] at he'
      have hne := h.compact.index_ne hfd (mem_monitored he') heq
      rw [← h.entry fd' e' he']
      simp only [PollerPoll.entry, Function.update_of_ne hne]
  · rw [hmonitored]
    exact h.fds
  · exact h.fdsAlloc
  · exact h.pfdsAlloc

theorem setMask_represents (h : Represents p m) (he : m fd = some e) (eventmask : Revents) :
    ∃ q, p.setMask fd eventmask = some (0, q) ∧
      Represents q (Function.update m fd (some (e.1, eventmask))) := by
  obtain ⟨h0, _, _⟩ := h.compact.slot fd (mem_monitored he)
  unfold setMask
  rw [if_neg (by omega)]
  exact updateMask_represents h he fun _ => eventmask

theorem waitForEvents_represents (h : Represents p m) (poll : Except ℤ (ℤ → Revents)) :
    Represents (p.waitForEvents poll).2 m := by
  unfold waitForEvents
  split
  · exact ⟨h.compact, h.entry, h.fds, h.fdsAlloc, h.pfdsAlloc⟩
  · next revents =>
    have hcell : ∀ i, ((p.waitForEvents (.ok revents)).2.pfds i).fd = (p.pfds i).fd ∧
        ((p.waitForEvents (.ok revents)).2.pfds i).events = (p.pfds i).events := by
      intro i
      simp only [waitForEvents]
      split
      · exact ⟨rfl, rfl⟩
      · exact ⟨rfl, rfl⟩
    constructor
    · exact h.compact.congr (fun i _ _ => (hcell i).1) fun _ _ => rfl
    · intro fd e he
      rw [← h.entry fd e he]
      exact congrArg (Prod.mk _) (hcell _).2
    · exact h.fds
    · exact h.fdsAlloc
    · exact h.pfdsAlloc

theorem getNextEvent_represents {err : ℤ} {ev : Option (PollEvent Client)} (h : Represents p m)
    (hq : p.getNextEvent = some (err, ev, q)) : Represents q m := by
  have hsame : ∀ rfds cur, Represents { p with rfds := rfds, curPfdnum := cur } m :=
    fun _ _ => ⟨h.compact, h.entry, h.fds, h.fdsAlloc, h.pfdsAlloc⟩
  unfold getNextEvent at hq
  generalize p.nextPfdnum = cur at hq
  dsimp only at hq
  split at hq
  · cases hq
    exact h
  · split at hq
    · cases hq
      exact hsame _ _
    · split at hq
      · cases hq
      · cases hq
        exact hsame _ _

/-- A call that is about a descriptor has a result, and keeps to the table. -/
theorem call_represents {c : Call Client} (h : Represents p m) (hc : c.fd = some fd) (hm : m.Allows c) :
    ∃ err q, p.call c = some (err, none, q) ∧ (err = 0 ∨ err = ENOMEM ∧ m.after err c = m) ∧
      Represents q (m.after err c) := by
  cases c with
  | init | waitForEvents | getNextEvent => cases hc
  | add fd client eventmask heap =>
      refine ⟨_, _, rfl, ?_⟩
      rcases add_represents h hm.1 hm.2 client eventmask heap with
        ⟨herr, hq⟩ | ⟨herr, hq⟩
      · refine ⟨.inl herr, ?_⟩
        simp only [Table.after, herr, if_true]
        exact hq
      · have hne : ENOMEM ≠ 0 := by decide
        refine ⟨.inr ⟨herr, ?_⟩, ?_⟩
        · simp only [Table.after, herr, hne, if_false]
        · simp only [Table.after, herr, hne, if_false]
          exact hq
  | del fd =>
      refine ⟨0, p.without fd, ?_, .inl rfl, without_represents h hm⟩
      rw [call, del_eq h hm]
      rfl
  | setMask fd eventmask =>
      obtain ⟨e, he⟩ := Option.ne_none_iff_exists'.1 hm
      obtain ⟨q, hq, hr⟩ := setMask_represents h he eventmask
      refine ⟨0, q, ?_, .inl rfl, ?_⟩
      · rw [call, hq]
        rfl
      · rw [Table.after, he]
        exact hr
  | orMask fd eventmask =>
      obtain ⟨e, he⟩ := Option.ne_none_iff_exists'.1 hm
      obtain ⟨q, hq, hr⟩ := updateMask_represents h he fun events => events ||| eventmask
      refine ⟨0, q, ?_, .inl rfl, ?_⟩
      · rw [call, orMask, hq]
        rfl
      · rw [Table.after, he]
        exact hr
  | andMask fd eventmask =>
      obtain ⟨e, he⟩ := Option.ne_none_iff_exists'.1 hm
      obtain ⟨q, hq, hr⟩ := updateMask_represents h he fun events => events &&& eventmask
      refine ⟨0, q, ?_, .inl rfl, ?_⟩
      · rw [call, andMask, hq]
        rfl
      · rw [Table.after, he]
        exact hr

theorem init_of_memory (p : PollerPoll Client) (hm : heap.fd2pfdnum ≠ none ∧ heap.clients ≠ none ∧ heap.pfds ≠ none) :
    p.init heap = (0, (p.init heap).2) := by
  obtain ⟨hfds, hclients, hpfds⟩ := hm
  obtain ⟨_, hfds⟩ := Option.ne_none_iff_exists'.1 hfds
  obtain ⟨_, hclients⟩ := Option.ne_none_iff_exists'.1 hclients
  obtain ⟨_, hpfds⟩ := Option.ne_none_iff_exists'.1 hpfds
  simp only [init, hfds, hclients, hpfds]

theorem add_of_memory (p : PollerPoll Client) (fd : ℤ) (client : Option Client) (eventmask : Revents)
    (hm : heap.fd2pfdnum ≠ none ∧ heap.clients ≠ none ∧ heap.pfds ≠ none) : (p.add fd client eventmask heap).1 = 0 := by
  obtain ⟨fd2pfdnum, hfd2pfdnum⟩ := Option.ne_none_iff_exists'.1 hm.1
  obtain ⟨clients, hclients⟩ := Option.ne_none_iff_exists'.1 hm.2.1
  obtain ⟨pfds, hpfds⟩ := Option.ne_none_iff_exists'.1 hm.2.2
  have hfds : ∃ q, p.growFds fd heap = .ok q := by
    unfold growFds
    rw [hfd2pfdnum]
    split
    · exact ⟨_, rfl⟩
    · exact ⟨_, rfl⟩
  obtain ⟨q, hq⟩ := hfds
  have hslots : ∃ q', q.growPfds heap = .ok q' := by
    unfold growPfds
    rw [hclients, hpfds]
    split
    · exact ⟨_, rfl⟩
    · exact ⟨_, rfl⟩
  obtain ⟨q', hq'⟩ := hslots
  unfold add
  rw [hq]
  dsimp only
  rw [hq']

theorem step_represents {c : Call Client} {err : ℤ} {ev : Option (PollEvent Client)} (h : Represents p m)
    (hm : m.Allows c) (hq : p.call c = some (err, ev, q)) : Represents q (m.after err c) := by
  cases hc : c.fd with
  | some fd =>
      obtain ⟨err', q', hq', _, hr⟩ := call_represents h hc hm
      rw [hq] at hq'
      cases hq'
      exact hr
  | none =>
      cases c with
      | init heap =>
          cases hq
          exact init_represents (init_of_memory p hm)
      | waitForEvents poll =>
          cases hq
          exact waitForEvents_represents h poll
      | getNextEvent => exact getNextEvent_represents h hq
      | add | del | setMask | orMask | andMask => cases hc

end

/-- The runs from `init` on, with the table that they amount to. -/
def tables : System (PollerPoll Client) (Call Client) (Table Client) where
  start p m := ∃ p₀ heap, init p₀ heap = (0, p) ∧ m = fun _ => none
  step p c q := ∃ err ev, p.call c = some (err, ev, q)
  note m p c _ := match p.call c with
    | some (err, _, _) => m.after err c
    | none => m

section
variable {p : PollerPoll Client} {m : Table Client}

theorem tables_represents (h : Run tables (fun _ m c => m.Allows c) p m) : Represents p m := by
  apply h.invariant
  · intro p m ⟨p₀, heap, hp, hm⟩
    rw [hm]
    exact init_represents hp
  · intro p m c q hr hc ⟨err, ev, hq⟩
    simp only [tables, hq]
    exact step_represents hr hc hq

/-- In every run the poller represents its table, lists each descriptor once, and a call
changes the table for its own descriptor only. -/
theorem poll_table (h : Run tables (fun _ m c => m.Allows c) p m) :
    Represents p m ∧
    (∀ fd, fd ∈ m.monitored ↔ ∃! i, (0 ≤ i ∧ i < p.pfdsUsed) ∧ (p.pfds i).fd = fd) ∧
    ∀ c fd, c.fd = some fd → m.Allows c → ∃ err q, p.call c = some (err, none, q) ∧
      (err = 0 ∨ err = ENOMEM ∧ m.after err c = m) ∧ Represents q (m.after err c) ∧
      ∀ fd' ∈ m.monitored, fd' ≠ fd ∨ err ≠ 0 → q.entry fd' = p.entry fd' := by
  have hr := tables_represents h
  refine ⟨hr, fun fd => hr.compact.mem_iff, fun c fd hfd hm => ?_⟩
  obtain ⟨err, q, hq, herr, hr'⟩ := call_represents hr hfd hm
  refine ⟨err, q, hq, herr, hr', fun fd' hfd' hother => ?_⟩
  obtain ⟨e, he⟩ := Option.ne_none_iff_exists'.1 hfd'
  have hsame : m.after err c fd' = some e := by
    rw [← he]
    rcases hother with hne | hfail
    · exact Table.after_of_ne hfd hne
    · rw [(herr.resolve_left hfail).2]
  rw [hr'.entry fd' e hsame, hr.entry fd' e he]

instance (m : Table Client) : (c : Call Client) → Decidable (m.Allows c)
  | .init heap => inferInstanceAs (Decidable (heap.fd2pfdnum ≠ none ∧ heap.clients ≠ none ∧ heap.pfds ≠ none))
  | .add fd _ _ _ => inferInstanceAs (Decidable (0 ≤ fd ∧ m fd = none))
  | .del fd | .setMask fd _ | .orMask fd _ | .andMask fd _ => inferInstanceAs (Decidable (m fd ≠ none))
  | .waitForEvents _ | .getNextEvent => inferInstanceAs (Decidable True)

end

/-- The poller after a call, if no assertion fails. -/
def run (p : PollerPoll Client) (c : Call Client) : Option (PollerPoll Client) := (p.call c).map fun r => r.2.2

/-- Memory that holds sevens. -/
def sevens : Heap ℕ := ⟨some fun _ => 7, some fun _ => some 7, some fun _ => ⟨7, 7, 7⟩⟩

/-- Before `init`. -/
def raw : PollerPoll ℕ := ⟨7, 7, fun _ => ⟨7, 7, 7⟩, fun _ => none, 7, 7, fun _ => 7, 7, 7⟩

/-- The lookup table grows, then cannot grow, and the last slot is moved to the first. -/
theorem poll_table_moved : ∃ p m, Run tables (fun _ m c => m.Allows c) p m ∧ (p.fd2pfdnum 40 = 0 ∧
    p.pfdsUsed = 1) ∧ p.entry 40 = (some 1, POLLIN ||| POLLOUT) := by
  have hfollow : ((follow (guarded (fun _ m c => m.Allows c) run) tables.note
      (init raw sevens).2 (fun _ => none)
      [.add 5 (some 0) POLLIN sevens, .add 40 (some 1) POLLIN sevens,
        .add 100 (some 2) POLLIN ⟨none, none, none⟩, .orMask 40 POLLOUT, .del 5]).map fun r =>
        (r.1.fd2pfdnum 40, r.1.pfdsUsed, r.2 40)) = some (0, 1, some (some 1, POLLIN ||| POLLOUT)) := by
    decide +kernel
  obtain ⟨⟨p, m⟩, hr, heq⟩ := Option.map_eq_some_iff.1 hfollow
  rw [Prod.mk.injEq, Prod.mk.injEq] at heq
  obtain ⟨hslot, hused, hentry⟩ := heq
  have hrun : Run tables (fun _ m c => m.Allows c) p m :=
    Run.follow_guarded (fun _ _ _ => exists_of_map_snd) (.start ⟨raw, sevens, rfl, rfl⟩) hr
  exact ⟨p, m, hrun, ⟨hslot, hused⟩, (poll_table hrun).1.entry 40 _ hentry⟩

end Dkftpbench.PollerPoll
