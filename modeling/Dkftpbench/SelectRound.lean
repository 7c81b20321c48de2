import Dkftpbench.PollerSelect
import Dkftpbench.Round
import Dkftpbench.Watch

/-!
# One round of Poller_select

`getNextEvent` counts `m_cur_fd` up through the test sets. A bit of a test set is of a
descriptor that was monitored at the wait and is still the same: `del` clears its bits,
and `add` sets none. So what is due are the bits above the cursor. They do not lie above
`m_max_fd`, and `m_rbits` lasts for them.
-/
namespace Dkftpbench.PollerSelect
open CLib Watch Round
variable {Client : Type*} {urgent : Bool}

/-- The client of each descriptor that is monitored. -/
abbrev Table (Client : Type*) := ℤ → Option Client

/-- What a call that returned `err` makes of the table. -/
def Table.after (m : Table Client) (err : ℤ) : Call Client → Table Client
  | .add fd client _ => if err = 0 then Function.update m fd client else m
  | .del fd => if err = 0 then Function.update m fd none else m
  | .setMask _ _ | .orMask _ _ | .andMask _ _ | .waitForEvents _ | .getNextEvent => m

/-- All runs from `init` on, with any arguments. -/
def tables (urgent : Bool) : System (PollerSelect Client) (Call Client) (Table Client) where
  start p m := ∃ p₀, init urgent p₀ = (0, p) ∧ m = fun _ => none
  step p c q := ∃ err ev, p.call urgent c = some (err, ev, q)
  note m p c _ := match p.call urgent c with
    | some (err, _, _) => m.after err c
    | none => m

/-- Only what is monitored is asked for, and it is not above `m_max_fd`. -/
structure Monitors (urgent : Bool) (p : PollerSelect Client) (m : Table Client) : Prop where
  clients : p.clients = m
  range : ∀ fd, m fd ≠ none → 0 ≤ fd ∧ fd ≤ p.maxFd
  max : -1 ≤ p.maxFd ∧ p.maxFd < FD_SETSIZE
  requested : ∀ fd, (p.readfds fd || p.writefds fd || (urgent && p.exceptfds fd)) = true → m fd ≠ none

/-- The rest is as it was, and so is what lies in the sets of other descriptors. -/
structure Masked (p q : PollerSelect Client) (fd : ℤ) : Prop where
  rest : q = { p with readfds := q.readfds, writefds := q.writefds, exceptfds := q.exceptfds }
  others : ∀ x, x ≠ fd → q.readfds x = p.readfds x ∧ q.writefds x = p.writefds x ∧ q.exceptfds x = p.exceptfds x

section
variable {p q : PollerSelect Client} {m : Table Client} {fd : ℤ} {eventmask : Revents} {s : FdSet} {b : Bool}

theorem fdSet_of_ne {x : ℤ} (h : x ≠ fd) : fdSet s fd x = s x := Function.update_of_ne h _ _

theorem fdClr_of_ne {x : ℤ} (h : x ≠ fd) : fdClr s fd x = s x := Function.update_of_ne h _ _

theorem fdClr_self : fdClr s fd fd = false := Function.update_self _ _ _

/-- The check fails, or the descriptor is monitored. -/
theorem check_cases (h : Monitors urgent p m) (fd : ℤ) :
    (∃ err, p.check fd = some err ∧ err ≠ 0) ∨
      (p.check fd = none ∧ m fd ≠ none ∧ 0 ≤ fd ∧ fd < FD_SETSIZE ∧ fd ≤ p.maxFd) := by
  unfold check
  rw [h.clients]
  split
  · exact .inl ⟨EINVAL, rfl, by decide⟩
  · next hrange =>
    split
    · exact .inl ⟨EALREADY, rfl, by decide⟩
    · next hm =>
      obtain ⟨h0, hle⟩ := h.range fd hm
      exact .inr ⟨rfl, hm, h0, by omega, hle⟩

theorem Masked.refl (p : PollerSelect Client) (fd : ℤ) : Masked p p fd := ⟨rfl, fun _ _ => ⟨rfl, rfl, rfl⟩⟩

theorem Masked.monitors (h : Masked p q fd) (hp : Monitors urgent p m) (hfd : m fd ≠ none) : Monitors urgent q m where
  clients := by
    rw [h.rest]
    exact hp.clients
  range := by
    rw [h.rest]
    exact hp.range
  max := by
    rw [h.rest]
    exact hp.max
  requested x hx := by
    by_cases heq : x = fd
    · rw [heq]
      exact hfd
    · obtain ⟨hr, hw, he⟩ := h.others x heq
      rw [hr, hw, he] at hx
      exact hp.requested x hx

/-- A mask function fails and does nothing, or sets the bits of its descriptor. -/
def MaskSpec (p : PollerSelect Client) (m : Table Client) (fd : ℤ) (r : Option (ℤ × PollerSelect Client)) : Prop :=
  ∃ err q, r = some (err, q) ∧ ((err ≠ 0 ∧ q = p) ∨ (err = 0 ∧ m fd ≠ none ∧ Masked p q fd))

/-- What the three mask functions have in common. -/
theorem maskSpec_of_masked (h : Monitors urgent p m) (hq : Masked p q fd) :
    MaskSpec p m fd (match p.check fd with
      | some err => some (err, p)
      | none => if ¬p.maxFd ≥ fd then none else some (0, q)) := by
  rcases check_cases h fd with ⟨err, hc, herr⟩ | ⟨hc, hm, _, _, hle⟩
  · rw [hc]
    exact ⟨err, p, rfl, .inl ⟨herr, rfl⟩⟩
  · rw [hc]
    dsimp only
    rw [if_neg (not_not.2 hle)]
    exact ⟨0, q, rfl, .inr ⟨rfl, hm, hq⟩⟩

theorem setMask_spec (h : Monitors urgent p m) (fd : ℤ) (eventmask : Revents) :
    MaskSpec p m fd (p.setMask urgent fd eventmask) := by
  refine maskSpec_of_masked h ⟨rfl, fun x hx => ?_⟩
  simp only [apply_ite (fun s : FdSet => s x), fdSet_of_ne hx, fdClr_of_ne hx, ite_self, and_self]

theorem orMask_spec (h : Monitors urgent p m) (fd : ℤ) (eventmask : Revents) :
    MaskSpec p m fd (p.orMask urgent fd eventmask) := by
  refine maskSpec_of_masked h ⟨rfl, fun x hx => ?_⟩
  simp only [apply_ite (fun s : FdSet => s x), fdSet_of_ne hx, ite_self, and_self]

theorem andMask_spec (h : Monitors urgent p m) (fd : ℤ) (eventmask : Revents) :
    MaskSpec p m fd (p.andMask urgent fd eventmask) := by
  refine maskSpec_of_masked h ⟨rfl, fun x hx => ?_⟩
  simp only [apply_ite (fun s : FdSet => s x), fdClr_of_ne hx, ite_self, and_self]

theorem MaskSpec.monitors {r : Option (ℤ × PollerSelect Client)} (h : MaskSpec p m fd r) (hp : Monitors urgent p m) :
    ∃ err q, r = some (err, q) ∧ Masked p q fd ∧ Monitors urgent q m := by
  obtain ⟨err, q, hr, ⟨_, hq⟩ | ⟨_, hm, hmasked⟩⟩ := h
  · rw [hq] at hr
    exact ⟨err, p, hr, .refl p fd, hp⟩
  · exact ⟨err, q, hr, hmasked, hmasked.monitors hp hm⟩

/-- The round stands as it stood. -/
structure Still (p q : PollerSelect Client) : Prop where
  testrfds : q.testrfds = p.testrfds
  testwfds : q.testwfds = p.testwfds
  testefds : q.testefds = p.testefds
  rbits : q.rbits = p.rbits
  curFd : q.curFd = p.curFd

theorem Masked.still (h : Masked p q fd) : Still p q := by
  rw [h.rest]
  exact ⟨rfl, rfl, rfl, rfl, rfl⟩

theorem setMask_bits (urgent : Bool) (eventmask : Revents) (hm : p.check fd = none) (hle : fd ≤ p.maxFd) :
    ∃ q, p.setMask urgent fd eventmask = some (0, q) ∧ q.readfds fd = eventmask.has POLLIN ∧
      q.writefds fd = eventmask.has POLLOUT ∧
      (urgent && q.exceptfds fd) = (urgent && eventmask.has POLLPRI) := by
  unfold setMask
  rw [hm]
  dsimp only
  rw [if_neg (not_not.2 hle)]
  refine ⟨_, rfl, ?_, ?_, ?_⟩
  · cases eventmask.has POLLIN <;> simp [fdSet, fdClr]
  · cases eventmask.has POLLOUT <;> simp [fdSet, fdClr]
  · cases urgent <;> cases eventmask.has POLLPRI <;> simp [fdSet, fdClr]

theorem add_spec (h : Monitors urgent p m) (fd : ℤ) (client : Option Client) (eventmask : Revents) :
    ∃ err q, p.add urgent fd client eventmask = some (err, q) ∧ Still p q ∧
      ((err ≠ 0 ∧ q = p) ∨ (err = 0 ∧ m fd = none ∧ Monitors urgent q (Function.update m fd client))) := by
  unfold add
  rw [h.clients]
  have hmax := h.max
  split
  · exact ⟨EINVAL, p, rfl, ⟨rfl, rfl, rfl, rfl, rfl⟩, .inl ⟨by decide, rfl⟩⟩
  · split
    · exact ⟨EALREADY, p, rfl, ⟨rfl, rfl, rfl, rfl, rfl⟩, .inl ⟨by decide, rfl⟩⟩
    · next hrange hm =>
      have hm : m fd = none := not_not.1 hm
      have hp : Monitors urgent { p with
          maxFd := if fd > p.maxFd then fd else p.maxFd
          clients := Function.update m fd client } (Function.update m fd client) := by
        constructor
        · rfl
        · intro x hx
          dsimp only
          by_cases heq : x = fd
          · rw [heq]
            split <;> omega
          · rw [Function.update_of_ne heq] at hx
            have hold := h.range x hx
            split <;> omega
        · dsimp only
          split <;> omega
        · intro x hx
          have hold := h.requested x hx
          have hne : x ≠ fd := by
            intro heq
            rw [heq] at hold
            exact hold hm
          rwa [Function.update_of_ne hne]
      obtain ⟨err, q, hq, hmasked, hmon⟩ := (setMask_spec hp fd eventmask).monitors hp
      dsimp only
      rw [hq]
      have hs := hmasked.still
      exact ⟨0, q, rfl, ⟨hs.testrfds, hs.testwfds, hs.testefds, hs.rbits, hs.curFd⟩, .inr ⟨rfl, hm, hmon⟩⟩

theorem trim_spec (clients : ℤ → Option Client) (n : ℕ) :
    -1 ≤ trim clients n ∧ trim clients n < n ∧
      ∀ x : ℤ, 0 ≤ x → x < n → clients x ≠ none → x ≤ trim clients n := by
  induction n with
  | zero =>
      have hlt : (-1 : ℤ) < (0 : ℕ) := by decide
      exact ⟨le_rfl, hlt, fun x h0 hx => absurd h0 (not_le.2 hx)⟩
  | succ n ih =>
      unfold trim
      split
      · next hnone =>
        refine ⟨ih.1, by omega, fun x h0 hx hne => ih.2.2 x h0 ?_ hne⟩
        by_contra hge
        have hxn : x = n := by omega
        rw [hxn] at hne
        exact hne hnone
      · exact ⟨by omega, by omega, fun x _ hx _ => by omega⟩

/-- `del` takes out the descriptor and clears its bits. -/
theorem del_spec (h : Monitors urgent p m) (fd : ℤ) :
    ∃ err q, p.del urgent fd = some (err, q) ∧
      ((err ≠ 0 ∧ q = p) ∨ (err = 0 ∧ m fd ≠ none ∧ Monitors urgent q (Function.update m fd none) ∧
        q.testrfds = fdClr p.testrfds fd ∧ q.testwfds = fdClr p.testwfds fd ∧
        q.testefds = (if urgent then fdClr p.testefds fd else p.testefds) ∧
        q.rbits = p.rbits ∧ q.curFd = p.curFd)) := by
  unfold del
  rcases check_cases h fd with ⟨err, hc, herr⟩ | ⟨hc, hm, h0, hlt, hle⟩
  · rw [hc]
    exact ⟨err, p, rfl, .inl ⟨herr, rfl⟩⟩
  · rw [hc]
    dsimp only
    rw [if_neg (not_not.2 hle)]
    obtain ⟨q, hq, hr, hw, he⟩ := setMask_bits urgent 0 hc hle
    obtain ⟨_, q', hq', hmasked, hmon⟩ := (setMask_spec h fd 0).monitors h
    rw [hq] at hq'
    cases hq'
    have hs := hmasked.still
    have hmax := hmon.max
    rw [hq]
    have htrim := trim_spec (Function.update q.clients fd none) (q.maxFd+1).toNat
    refine ⟨_, _, rfl, .inr ⟨rfl, hm, ?_, ?_, ?_, ?_, hs.rbits, hs.curFd⟩⟩
    · constructor
      · exact congrArg (fun clients => Function.update clients fd none) hmon.clients
      · intro x hx
        have hne : x ≠ fd := by
          intro heq
          rw [heq, Function.update_self] at hx
          exact hx rfl
        rw [Function.update_of_ne hne] at hx
        obtain ⟨hx0, hxle⟩ := hmon.range x hx
        refine ⟨hx0, htrim.2.2 x hx0 (by omega) ?_⟩
        rwa [Function.update_of_ne hne, hmon.clients]
      · dsimp only
        omega
      · intro x hx
        dsimp only at hx
        by_cases heq : x = fd
        · have hcleared : ((0 : Revents).has POLLIN || ((0 : Revents).has POLLOUT ||
              (urgent && (0 : Revents).has POLLPRI))) = false := by
            cases urgent <;> decide
          rw [heq, hr, hw, Bool.or_assoc, he, hcleared] at hx
          cases hx
        · rw [Function.update_of_ne heq]
          exact hmon.requested x hx
    · exact congrArg (fun s => fdClr s fd) hs.testrfds
    · exact congrArg (fun s => fdClr s fd) hs.testwfds
    · dsimp only
      rw [hs.testefds]

theorem bits_eq_zero : p.bits urgent fd = 0 ↔
    p.testrfds fd = false ∧ p.testwfds fd = false ∧ (urgent && p.testefds fd) = false := by
  unfold bits
  cases p.testrfds fd <;> cases p.testwfds fd <;> cases (urgent && p.testefds fd) <;> decide

theorem bits_has : (p.bits urgent fd).has POLLIN = p.testrfds fd ∧
    (p.bits urgent fd).has POLLOUT = p.testwfds fd ∧
    (p.bits urgent fd).has POLLPRI = (urgent && p.testefds fd) := by
  unfold bits
  cases p.testrfds fd <;> cases p.testwfds fd <;> cases (urgent && p.testefds fd) <;> decide

theorem Still.bits (h : Still p q) : q.bits urgent fd = p.bits urgent fd := by
  unfold PollerSelect.bits
  rw [h.testrfds, h.testwfds, h.testefds]

end

/-- The bits of a set above the cursor. -/
def Ahead (p : PollerSelect Client) (s : FdSet) : Set ℤ := {fd | p.curFd < fd ∧ s fd = true}

/-- `m_rbits` lasts for the bits above the cursor. -/
structure Enough (urgent : Bool) (p : PollerSelect Client) (a b c : ℤ) : Prop where
  testrfds : AtMost (p.Ahead p.testrfds) a
  testwfds : AtMost (p.Ahead p.testwfds) b
  testefds : AtMost (p.Ahead fun fd => urgent && p.testefds fd) c
  sum : a+b+c ≤ p.rbits

/-- The table, the bits of the test sets at the wait, and the log of the round. -/
structure Notes (Client : Type*) where
  table : Table Client
  bits : ℤ → Revents
  log : List (Round.Act ℤ (PollEvent Client))

def Notes.ready (g : Notes Client) : Set ℤ := {fd | g.bits fd ≠ 0}

/-- The log after a call. -/
def logged (log : List (Round.Act ℤ (PollEvent Client))) (err : ℤ) (ev : Option (PollEvent Client)) :
    Call Client → List (Round.Act ℤ (PollEvent Client))
  | .add fd _ _ => if err = 0 then .entered fd :: log else log
  | .del fd => if err = 0 then .left fd :: log else log
  | .getNextEvent =>
    match ev with
    | some e => .returned e.fd e :: log
    | none => .ended :: log
  | .setMask _ _ | .orMask _ _ | .andMask _ _ | .waitForEvents _ => log

/-- The events were returned in the order of their descriptors. -/
def Ascending (log : List (Round.Act ℤ (PollEvent Client))) : Prop :=
  ∀ i d l, .returned i d :: l <:+ log → ∀ j d', .returned j d' ∈ l → j < i

/-- What is due lies above the cursor, with the bits of the wait. -/
structure Live (urgent : Bool) (p : PollerSelect Client) (g : Notes Client) (D : Set ℤ) : Prop where
  tested : ∀ fd, p.bits urgent fd ≠ 0 → g.table fd ≠ none ∧ p.bits urgent fd = g.bits fd
  due : ∀ fd, fd ∈ D ↔ p.curFd < fd ∧ p.bits urgent fd ≠ 0
  enough : ∃ a b c, Enough urgent p a b c
  behind : ∀ fd d, .returned fd d ∈ g.log → fd ≤ p.curFd

structure InRound (urgent : Bool) (p : PollerSelect Client) (g : Notes Client) : Prop where
  monitors : Monitors urgent p g.table
  kept : Kept g.ready g.log
  ascending : Ascending g.log
  live : .ended ∉ g.log → Live urgent p g (Round.due g.ready g.log)

/-- The handler takes out what is monitored and puts in what is not, and may change masks. -/
def Notes.Allows (g : Notes Client) (c : Call Client) : Prop :=
  .ended ∉ g.log ∧ match c with
    | .add fd _ _ => g.table fd = none
    | .del fd => g.table fd ≠ none
    | .waitForEvents _ => False
    | .setMask _ _ | .orMask _ _ | .andMask _ _ | .getNextEvent => True

/-- The rounds that begin when `waitForEvents` has returned 0. -/
def rounds (urgent : Bool) : System (PollerSelect Client) (Call Client) (Notes Client) where
  start p g := ∃ p₀ ready, Run (tables urgent) (fun _ _ _ => True) p₀ g.table ∧
    p₀.waitForEvents urgent (.ok ready) = (0, p) ∧ g.bits = p.bits urgent ∧ g.log = []
  step p c q := ∃ err ev, p.call urgent c = some (err, ev, q)
  note g p c _ := match p.call urgent c with
    | some (err, ev, _) => ⟨g.table.after err c, g.bits, logged g.log err ev c⟩
    | none => g

section
variable {p q : PollerSelect Client} {m : Table Client} {g : Notes Client} {D : Set ℤ} {fd : ℤ}
variable {s : FdSet} {ready : Selected} {a b c n : ℤ}

theorem waitForEvents_monitors (h : Monitors urgent p m) (select : Except ℤ Selected) :
    Monitors urgent (p.waitForEvents urgent select).2 m := by
  unfold waitForEvents
  dsimp only
  split
  · exact ⟨h.clients, h.range, h.max, h.requested⟩
  · exact ⟨h.clients, h.range, h.max, h.requested⟩

theorem getNextEvent_monitors (h : Monitors urgent p m) : Monitors urgent (p.getNextEvent urgent).2.2 m := by
  unfold getNextEvent
  split
  · exact h
  · dsimp only
    split
    · exact ⟨h.clients, h.range, h.max, h.requested⟩
    · exact ⟨h.clients, h.range, h.max, h.requested⟩

theorem step_monitors {call : Call Client} {err : ℤ} {ev : Option (PollEvent Client)} (h : Monitors urgent p m)
    (hq : p.call urgent call = some (err, ev, q)) : Monitors urgent q (m.after err call) := by
  cases call with
  | add fd client eventmask =>
      obtain ⟨err', q', hq', _, hspec⟩ := add_spec h fd client eventmask
      rw [PollerSelect.call, hq'] at hq
      cases hq
      rcases hspec with ⟨herr, hsame⟩ | ⟨herr, _, hmon⟩
      · rw [Table.after, if_neg herr, hsame]
        exact h
      · rw [Table.after, if_pos herr]
        exact hmon
  | del fd =>
      obtain ⟨err', q', hq', hspec⟩ := del_spec h fd
      rw [PollerSelect.call, hq'] at hq
      cases hq
      rcases hspec with ⟨herr, hsame⟩ | ⟨herr, _, hmon, _⟩
      · rw [Table.after, if_neg herr, hsame]
        exact h
      · rw [Table.after, if_pos herr]
        exact hmon
  | setMask fd eventmask =>
      obtain ⟨err', q', hq', _, hmon⟩ := (setMask_spec h fd eventmask).monitors h
      rw [PollerSelect.call, hq'] at hq
      cases hq
      exact hmon
  | orMask fd eventmask =>
      obtain ⟨err', q', hq', _, hmon⟩ := (orMask_spec h fd eventmask).monitors h
      rw [PollerSelect.call, hq'] at hq
      cases hq
      exact hmon
  | andMask fd eventmask =>
      obtain ⟨err', q', hq', _, hmon⟩ := (andMask_spec h fd eventmask).monitors h
      rw [PollerSelect.call, hq'] at hq
      cases hq
      exact hmon
  | waitForEvents select =>
      cases hq
      exact waitForEvents_monitors h select
  | getNextEvent =>
      have hmon : Monitors urgent (p.getNextEvent urgent).2.2 m := getNextEvent_monitors h
      rw [Option.some.inj hq] at hmon
      exact hmon

theorem tables_monitors (h : Run (tables urgent) (fun _ _ _ => True) p m) : Monitors urgent p m := by
  apply h.invariant
  · intro p m ⟨p₀, hp, hm⟩
    cases hp
    rw [hm]
    constructor
    · rfl
    · exact fun fd hfd => absurd rfl hfd
    · have hlt : (-1 : ℤ) < FD_SETSIZE := by decide
      exact ⟨le_rfl, hlt⟩
    · intro fd hfd
      cases urgent with
      | false => cases hfd
      | true => cases hfd
  · intro p m c q h _ ⟨err, ev, hq⟩
    simp only [tables, hq]
    exact step_monitors h hq

theorem count_atMost (hmax : ∀ fd, s fd = true → 0 ≤ fd ∧ fd < n) : AtMost (p.Ahead s) (count s n) := by
  apply (atMost_countP s n).mono
  intro fd ⟨_, hfd⟩
  obtain ⟨h0, hlt⟩ := hmax fd hfd
  exact ⟨h0, hlt, hfd⟩

/-- The bits of the test sets were asked for. -/
theorem requested_of_bits (h : Monitors urgent p m) (hq : p.waitForEvents urgent (.ok ready) = (0, q))
    (hfd : (q.testrfds fd || q.testwfds fd || (urgent && q.testefds fd)) = true) : m fd ≠ none := by
  apply h.requested fd
  simp only [waitForEvents, Prod.mk.injEq] at hq
  have hr : q.testrfds fd = (p.readfds fd && ready.readfds fd) := by rw [← hq.2]
  have hw : q.testwfds fd = (p.writefds fd && ready.writefds fd) := by rw [← hq.2]
  have he : (urgent && q.testefds fd) = (urgent && p.exceptfds fd && ready.exceptfds fd) := by
    rw [← hq.2]
    cases urgent with
    | false => rfl
    | true => rfl
  rw [hr, hw, he] at hfd
  clear hq hr hw he
  grind

theorem waitForEvents_live (h : Monitors urgent p g.table) (hq : p.waitForEvents urgent (.ok ready) = (0, q))
    (hbits : g.bits = q.bits urgent) (hlog : g.log = []) : Live urgent q g (Round.due g.ready g.log) := by
  have hsome : ∀ fd, (q.testrfds fd || q.testwfds fd || (urgent && q.testefds fd)) = true →
      g.table fd ≠ none := fun fd => requested_of_bits h hq
  have hrange : ∀ fd, (q.testrfds fd || q.testwfds fd || (urgent && q.testefds fd)) = true →
      0 ≤ fd ∧ fd < p.maxFd+1 := by
    intro fd hfd
    have hle := h.range fd (hsome fd hfd)
    omega
  have hnonzero : ∀ fd, q.bits urgent fd ≠ 0 →
      (q.testrfds fd || q.testwfds fd || (urgent && q.testefds fd)) = true := by
    intro fd
    rw [Ne, bits_eq_zero]
    cases q.testrfds fd <;> cases q.testwfds fd <;> cases (urgent && q.testefds fd) <;> simp
  have hcur : q.curFd = -1 := by
    simp only [waitForEvents, Prod.mk.injEq] at hq
    rw [← hq.2]
  have hrbits : q.rbits = count q.testrfds (p.maxFd+1)+count q.testwfds (p.maxFd+1)+
      (if urgent then count q.testefds (p.maxFd+1) else 0) := by
    simp only [waitForEvents, Prod.mk.injEq] at hq
    rw [← hq.2]
  constructor
  · intro fd hfd
    exact ⟨hsome fd (hnonzero fd hfd), congrFun hbits.symm fd⟩
  · intro fd
    rw [hlog, Round.due, Notes.ready, Set.mem_ofPred_eq, hbits, hcur]
    constructor
    · intro hfd
      have h0 := (hrange fd (hnonzero fd hfd)).1
      exact ⟨by omega, hfd⟩
    · rintro ⟨_, hfd⟩
      exact hfd
  · refine ⟨_, _, (if urgent then count q.testefds (p.maxFd+1) else 0), ?_, ?_, ?_, hrbits.ge⟩
    · apply count_atMost
      intro fd hfd
      exact hrange fd (by rw [hfd]; rfl)
    · apply count_atMost
      intro fd hfd
      exact hrange fd (by rw [hfd, Bool.or_true]; rfl)
    · cases urgent with
      | false =>
          apply atMost_empty.mono
          rintro fd ⟨_, hfd⟩
          cases hfd
      | true =>
          apply count_atMost
          intro fd hfd
          exact hrange fd (by rw [hfd, Bool.or_true])
  · rw [hlog]
    intro i d hmem
    cases hmem

/-- Where the loop of `getNextEvent` ends. -/
theorem seek_spec (bits : ℤ → Revents) (n : ℕ) (cur : ℤ) :
    ((seek bits n cur).2 = 0 ∧ ∀ fd, cur < fd → fd ≤ cur+n → bits fd = 0) ∨
      ((seek bits n cur).2 ≠ 0 ∧ (seek bits n cur).2 = bits (seek bits n cur).1 ∧ cur < (seek bits n cur).1 ∧
        ∀ fd, cur < fd → fd < (seek bits n cur).1 → bits fd = 0) := by
  induction n generalizing cur with
  | zero => exact .inl ⟨rfl, fun fd hlt hle => by omega⟩
  | succ n ih =>
      unfold seek
      split
      · next hbits => exact .inr ⟨hbits, rfl, by omega, fun fd hlt hlt' => by omega⟩
      · next hbits =>
        have hzero : bits (cur+1) = 0 := not_not.1 hbits
        have hfirst : ∀ fd, cur < fd → ¬cur+1 < fd → bits fd = 0 := by
          intro fd hlt hle
          have hfd : fd = cur+1 := by omega
          rw [hfd]
          exact hzero
        rcases ih (cur+1) with ⟨heq, hall⟩ | ⟨hne, heq, hlt, hall⟩
        · refine .inl ⟨heq, fun fd hlt hle => ?_⟩
          by_cases hfd : cur+1 < fd
          · exact hall fd hfd (by omega)
          · exact hfirst fd hlt hfd
        · refine .inr ⟨hne, heq, by omega, fun fd hlt' hlt'' => ?_⟩
          by_cases hfd : cur+1 < fd
          · exact hall fd hfd hlt''
          · exact hfirst fd hlt' hfd

/-- One bit less for each that is returned. -/
theorem ahead_next {cur : ℤ} (hs : AtMost (p.Ahead s) a) (hcur : p.curFd < cur) (hq : q.curFd = cur) :
    AtMost (q.Ahead s) (if s cur then a-1 else a) := by
  have hsub : q.Ahead s ⊆ p.Ahead s \ {cur} := by
    intro fd ⟨hlt, hfd⟩
    rw [hq] at hlt
    exact ⟨⟨by omega, hfd⟩, hlt.ne'⟩
  split
  · next hbit => exact (hs.diff ⟨hcur, hbit⟩).mono hsub
  · exact hs.mono (hsub.trans Set.sdiff_subset)

theorem Enough.zero (h : Enough urgent p a b c) (hr : p.rbits < 1) (hcur : p.curFd < fd) :
    p.bits urgent fd = 0 := by
  have ha := h.testrfds.nonneg
  have hb := h.testwfds.nonneg
  have hc := h.testefds.nonneg
  have hsum := h.sum
  have hempty : ∀ {s n}, AtMost (p.Ahead s) n → n < 1 → s fd = false := by
    intro s n hs hn
    by_contra hset
    have hmem : fd ∈ p.Ahead s := ⟨hcur, Bool.of_not_eq_false hset⟩
    rw [hs.eq_empty hn] at hmem
    exact hmem
  exact bits_eq_zero.2 ⟨hempty h.testrfds (by omega), hempty h.testwfds (by omega),
    hempty h.testefds (by omega)⟩

/-- The next event is the lowest one due, with its bits and its client; or nothing is due. -/
theorem getNextEvent_live (h : Monitors urgent p g.table) (hl : Live urgent p g D) :
    ∃ err ev q, p.getNextEvent urgent = (err, ev, q) ∧
      (∀ e, ev = some e → e.fd ∈ D ∧ e.revents = g.bits e.fd ∧ e.client = g.table e.fd ∧ p.curFd < e.fd ∧
        Live urgent q { g with log := .returned e.fd e :: g.log } (D \ {e.fd})) ∧
      (ev = none → D = ∅) := by
  obtain ⟨a, b, c, henough⟩ := hl.enough
  unfold getNextEvent
  split
  · next hr =>
    refine ⟨_, _, _, rfl, nofun, fun _ => Set.eq_empty_of_forall_notMem fun fd hfd => ?_⟩
    obtain ⟨hlt, hbits⟩ := (hl.due fd).1 hfd
    exact hbits (henough.zero hr hlt)
  · rcases seek_spec (p.bits urgent) (p.maxFd-p.curFd).toNat p.curFd with ⟨heq, hall⟩ | ⟨hne, heq, hlt, hall⟩
    · dsimp only
      rw [if_pos heq]
      refine ⟨_, _, _, rfl, nofun, fun _ => Set.eq_empty_of_forall_notMem fun fd hfd => ?_⟩
      obtain ⟨hlt, hbits⟩ := (hl.due fd).1 hfd
      have hle := (h.range fd (hl.tested fd hbits).1).2
      exact hbits (hall fd hlt (by omega))
    · dsimp only
      rw [if_neg hne]
      generalize seek (p.bits urgent) (p.maxFd-p.curFd).toNat p.curFd = r at heq hne hlt hall
      obtain ⟨cur, revents⟩ := r
      dsimp only at heq hne hlt hall
      obtain ⟨hin, hout, hpri⟩ := @bits_has _ urgent p cur
      rw [heq] at hne
      have hdue : cur ∈ D := (hl.due cur).2 ⟨hlt, hne⟩
      refine ⟨_, _, _, rfl, fun e he => ?_, nofun⟩
      cases he
      refine ⟨hdue, heq.trans (hl.tested cur hne).2, congrFun h.clients cur, hlt, ?_⟩
      constructor
      · exact hl.tested
      · intro fd
        rw [Set.mem_sdiff, Set.mem_singleton_iff, hl.due fd]
        constructor
        · intro ⟨⟨hlt', hbits⟩, hother⟩
          refine ⟨?_, hbits⟩
          by_contra hge
          have hlt'' : fd < cur := by
            dsimp only at hge hother
            omega
          exact hbits (hall fd hlt' hlt'')
        · intro ⟨hlt', hbits⟩
          dsimp only at hlt'
          exact ⟨⟨by omega, hbits⟩, hlt'.ne'⟩
      · refine ⟨_, _, _, ahead_next henough.testrfds hlt rfl, ahead_next henough.testwfds hlt rfl,
          ahead_next henough.testefds hlt rfl, ?_⟩
        have hsum := henough.sum
        have hpri' : (urgent && (p.bits urgent cur).has POLLPRI) = (urgent && p.testefds cur) := by
          rw [hpri]
          cases urgent <;> rfl
        rw [heq, hin, hout, hpri']
        dsimp only
        split <;> split <;> split <;> omega
      · intro fd d hmem
        dsimp only
        rcases List.mem_cons.1 hmem with hfirst | hrest
        · cases hfirst
          exact le_rfl
        · have hle := hl.behind fd d hrest
          omega

theorem Live.still {table : Table Client} {log : List (Round.Act ℤ (PollEvent Client))} (hl : Live urgent p g D)
    (hs : Still p q) (htable : ∀ fd, g.table fd ≠ none → table fd ≠ none)
    (hlog : ∀ fd d, .returned fd d ∈ log → .returned fd d ∈ g.log) : Live urgent q ⟨table, g.bits, log⟩ D where
  tested fd hfd := by
    rw [hs.bits] at hfd ⊢
    obtain ⟨hm, hbits⟩ := hl.tested fd hfd
    exact ⟨htable fd hm, hbits⟩
  due fd := by
    rw [hs.bits, hs.curFd]
    exact hl.due fd
  enough := by
    obtain ⟨a, b, c, h⟩ := hl.enough
    refine ⟨a, b, c, ?_, ?_, ?_, ?_⟩
    · rw [Ahead, hs.curFd, hs.testrfds]
      exact h.testrfds
    · rw [Ahead, hs.curFd, hs.testwfds]
      exact h.testwfds
    · rw [Ahead, hs.curFd, hs.testefds]
      exact h.testefds
    · rw [hs.rbits]
      exact h.sum
  behind fd d hmem := by
    rw [hs.curFd]
    exact hl.behind fd d (hlog fd d hmem)

/-- `del` clears the bits of its descriptor. -/
theorem del_live (hl : Live urgent p g D) (hr : q.testrfds = fdClr p.testrfds fd) (hw : q.testwfds = fdClr p.testwfds fd)
    (he : q.testefds = if urgent then fdClr p.testefds fd else p.testefds) (hb : q.rbits = p.rbits)
    (hc : q.curFd = p.curFd) :
    Live urgent q ⟨Function.update g.table fd none, g.bits, .left fd :: g.log⟩ (D \ {fd}) := by
  have hself : q.bits urgent fd = 0 := by
    rw [bits_eq_zero, hr, hw, he, fdClr_self, fdClr_self]
    cases urgent with
    | false => exact ⟨rfl, rfl, rfl⟩
    | true => exact ⟨rfl, rfl, fdClr_self⟩
  have hother : ∀ x, x ≠ fd → q.bits urgent x = p.bits urgent x := by
    intro x hx
    rw [bits, bits, hr, hw, he, fdClr_of_ne hx, fdClr_of_ne hx]
    cases urgent with
    | false => rfl
    | true => rw [if_pos rfl, fdClr_of_ne hx]
  have hclr : ∀ {s : FdSet} x, fdClr s fd x = true → s x = true := by
    intro s x hx
    by_cases heq : x = fd
    · rw [heq, fdClr_self] at hx
      cases hx
    · rwa [fdClr_of_ne heq] at hx
  constructor
  · intro x hx
    have hne : x ≠ fd := by
      intro heq
      rw [heq] at hx
      exact hx hself
    rw [hother x hne] at hx ⊢
    dsimp only
    rw [Function.update_of_ne hne]
    exact hl.tested x hx
  · intro x
    rw [Set.mem_sdiff, Set.mem_singleton_iff, hl.due x, hc]
    constructor
    · intro ⟨⟨hlt, hx⟩, hne⟩
      rw [hother x hne]
      exact ⟨hlt, hx⟩
    · intro ⟨hlt, hx⟩
      have hne : x ≠ fd := by
        intro heq
        rw [heq] at hx
        exact hx hself
      rw [hother x hne] at hx
      exact ⟨⟨hlt, hx⟩, hne⟩
  · obtain ⟨a, b, c, h⟩ := hl.enough
    refine ⟨a, b, c, h.testrfds.mono ?_, h.testwfds.mono ?_, h.testefds.mono ?_, hb ▸ h.sum⟩
    · intro x ⟨hlt, hx⟩
      rw [hr] at hx
      exact ⟨hc ▸ hlt, hclr x hx⟩
    · intro x ⟨hlt, hx⟩
      rw [hw] at hx
      exact ⟨hc ▸ hlt, hclr x hx⟩
    · intro x ⟨hlt, hx⟩
      refine ⟨hc ▸ hlt, ?_⟩
      rw [he] at hx
      revert hx
      cases urgent with
      | false => exact id
      | true => exact hclr x
  · intro x d hmem
    rw [hc]
    rcases List.mem_cons.1 hmem with hfirst | hrest
    · cases hfirst
    · exact hl.behind x d hrest

theorem Ascending.cons {act : Round.Act ℤ (PollEvent Client)} {log : List (Round.Act ℤ (PollEvent Client))}
    (h : Ascending log) (hnew : ∀ i d, act = .returned i d → ∀ j d', .returned j d' ∈ log → j < i) :
    Ascending (act :: log) := by
  intro i d l hl
  rcases List.suffix_cons_iff.1 hl with heq | hl
  · cases heq
    exact hnew i d rfl
  · exact h i d l hl

/-- Nothing is returned. -/
theorem Ascending.silent {act : Round.Act ℤ (PollEvent Client)} {log : List (Round.Act ℤ (PollEvent Client))}
    (h : Ascending log) (hact : ∀ i d, act ≠ .returned i d) : Ascending (act :: log) :=
  h.cons fun i d heq => absurd heq (hact i d)

theorem step_inRound {c : Call Client} {err : ℤ} {ev : Option (PollEvent Client)} (h : InRound urgent p g)
    (hg : g.Allows c) (hq : p.call urgent c = some (err, ev, q)) :
    InRound urgent q ⟨g.table.after err c, g.bits, logged g.log err ev c⟩ := by
  obtain ⟨hover, hallows⟩ := hg
  have hl := h.live hover
  have hmon := step_monitors h.monitors hq
  cases c with
  | waitForEvents => exact hallows.elim
  | add fd client eventmask =>
      obtain ⟨err', q', hq', hs, hspec⟩ := add_spec h.monitors fd client eventmask
      rw [call, hq'] at hq
      cases hq
      rcases hspec with ⟨herr, _⟩ | ⟨herr, _, _⟩
      · simp only [Table.after, logged, if_neg herr] at hmon ⊢
        exact ⟨hmon, h.kept, h.ascending, fun _ => hl.still hs (fun _ => id) fun _ _ => id⟩
      · have hnew : fd ∉ Round.due g.ready g.log := by
          intro hdue
          exact (hl.tested fd ((hl.due fd).1 hdue).2).1 hallows
        simp only [Table.after, logged, if_pos herr] at hmon ⊢
        refine ⟨hmon, .entered h.kept hnew, h.ascending.silent (by simp), fun _ => hl.still hs ?_ ?_⟩
        · intro x hx
          have hne : x ≠ fd := by
            intro heq
            rw [heq] at hx
            exact hx hallows
          rwa [Function.update_of_ne hne]
        · intro x d hmem
          exact (List.mem_cons.1 hmem).resolve_left (by simp)
  | del fd =>
      obtain ⟨err', q', hq', hspec⟩ := del_spec h.monitors fd
      rw [call, hq'] at hq
      cases hq
      rcases hspec with ⟨herr, hsame⟩ | ⟨herr, _, _, hr, hw, he, hb, hc⟩
      · simp only [Table.after, logged, if_neg herr] at hmon ⊢
        have hs : Still p q' := by
          rw [hsame]
          exact ⟨rfl, rfl, rfl, rfl, rfl⟩
        exact ⟨hmon, h.kept, h.ascending, fun _ => hl.still hs (fun _ => id) fun _ _ => id⟩
      · simp only [Table.after, logged, if_pos herr] at hmon ⊢
        exact ⟨hmon, .left fd h.kept, h.ascending.silent (by simp), fun _ => del_live hl hr hw he hb hc⟩
  | setMask fd eventmask =>
      obtain ⟨err', q', hq', hmasked, _⟩ := (setMask_spec h.monitors fd eventmask).monitors h.monitors
      rw [call, hq'] at hq
      cases hq
      exact ⟨hmon, h.kept, h.ascending, fun _ => hl.still hmasked.still (fun _ => id) fun _ _ => id⟩
  | orMask fd eventmask =>
      obtain ⟨err', q', hq', hmasked, _⟩ := (orMask_spec h.monitors fd eventmask).monitors h.monitors
      rw [call, hq'] at hq
      cases hq
      exact ⟨hmon, h.kept, h.ascending, fun _ => hl.still hmasked.still (fun _ => id) fun _ _ => id⟩
  | andMask fd eventmask =>
      obtain ⟨err', q', hq', hmasked, _⟩ := (andMask_spec h.monitors fd eventmask).monitors h.monitors
      rw [call, hq'] at hq
      cases hq
      exact ⟨hmon, h.kept, h.ascending, fun _ => hl.still hmasked.still (fun _ => id) fun _ _ => id⟩
  | getNextEvent =>
      obtain ⟨err', ev', q', hq', hsome, hnone⟩ := getNextEvent_live h.monitors hl
      rw [call, hq'] at hq
      cases hq
      cases ev with
      | some e =>
          obtain ⟨hdue, _, _, hlt, hl'⟩ := hsome e rfl
          refine ⟨hmon, .returned e h.kept hdue, h.ascending.cons fun i d heq j d' hmem => ?_, fun _ => hl'⟩
          cases heq
          have hle := hl.behind j d' hmem
          omega
      | none =>
          exact ⟨hmon, .ended h.kept (hnone rfl), h.ascending.silent (by simp),
            fun hno => absurd (List.mem_cons_self ..) hno⟩

theorem rounds_inRound (h : Run (rounds urgent) (fun _ g c => g.Allows c) p g) : InRound urgent p g := by
  apply h.invariant
  · intro p g ⟨p₀, ready, hrun, hp, hbits, hlog⟩
    have hmon := tables_monitors hrun
    have hmon' := waitForEvents_monitors hmon (.ok ready)
    rw [hp] at hmon'
    refine ⟨hmon', hlog ▸ .start, ?_, fun _ => waitForEvents_live hmon hp hbits hlog⟩
    rw [hlog]
    intro i d l hl
    cases List.suffix_nil.1 hl
  · intro p g c q hin hg ⟨err, ev, hq⟩
    simp only [rounds, hq]
    exact step_inRound hin hg hq

/-- A round is fair and ascending; each event has the bits of the wait, and its own
client. -/
theorem select_round (h : Run (rounds urgent) (fun _ g c => g.Allows c) p g) :
    Fair g.ready g.log ∧ Ascending g.log ∧ (.ended ∉ g.log → ∀ err e q, p.getNextEvent urgent = (err, some e, q) →
      e.revents = g.bits e.fd ∧ e.client = g.table e.fd ∧ e.client ≠ none) := by
  have hin := rounds_inRound h
  refine ⟨hin.kept.fair, hin.ascending, fun hover err e q hq => ?_⟩
  have hl := hin.live hover
  obtain ⟨err', ev, q', hq', hsome, _⟩ := getNextEvent_live hin.monitors hl
  rw [hq] at hq'
  cases hq'
  obtain ⟨hdue, hrev, hclient, _⟩ := hsome e rfl
  refine ⟨hrev, hclient, ?_⟩
  rw [hclient]
  exact (hl.tested e.fd ((hl.due e.fd).1 hdue).2).1

end

instance (g : Notes Client) : (c : Call Client) → Decidable (g.Allows c)
  | .add fd _ _ => inferInstanceAs (Decidable (.ended ∉ g.log ∧ g.table fd = none))
  | .del fd => inferInstanceAs (Decidable (.ended ∉ g.log ∧ g.table fd ≠ none))
  | .waitForEvents _ => inferInstanceAs (Decidable (.ended ∉ g.log ∧ False))
  | .setMask _ _ | .orMask _ _ | .andMask _ _ | .getNextEvent => inferInstanceAs (Decidable (.ended ∉ g.log ∧ True))

/-- The poller after a call, if no assertion fails. -/
def run (urgent : Bool) (p : PollerSelect Client) (c : Call Client) : Option (PollerSelect Client) :=
  (p.call urgent c).map fun r => r.2.2

/-- Before `init`. -/
def raw : PollerSelect ℕ :=
  ⟨fun _ => none, 7, 7, 7, fun _ => true, fun _ => true, fun _ => true, fun _ => true, fun _ => true, fun _ => true⟩

/-- The handler of 4 takes out 7 and puts it in again: its old bits are gone. -/
theorem select_round_again : ∃ (p : PollerSelect ℕ) (g : Notes ℕ),
    Run (rounds false) (fun _ g c => g.Allows c) p g ∧ g.log =
      [.ended, .returned 8 ⟨8, POLLIN ||| POLLOUT, some 2⟩, .entered 7, .left 7,
        .returned 4 ⟨4, POLLIN, some 0⟩] ∧ Fair g.ready g.log := by
  have hfollow : ((follow (guarded (fun _ _ _ => True) (run false)) (tables false).note
      (init false raw).2 (fun _ => none) [.add 4 (some 0) POLLIN, .add 7 (some 1) POLLIN,
        .add 8 (some 2) (POLLIN ||| POLLOUT)]).bind fun r =>
      let p := (r.1.waitForEvents false (.ok ⟨fun _ => true, fun _ => true, fun _ => true⟩))
      if p.1 = 0 then
        follow (guarded (fun _ g c => g.Allows c) (run false)) (rounds false).note p.2
          ⟨r.2, p.2.bits false, []⟩
          [.getNextEvent, .del 7, .add 7 (some 9) POLLIN, .getNextEvent, .getNextEvent]
      else none).map (fun r => r.2.log) = some [.ended, .returned 8 ⟨8, POLLIN ||| POLLOUT, some 2⟩,
        .entered 7, .left 7, .returned 4 ⟨4, POLLIN, some 0⟩] := by
    decide +kernel
  obtain ⟨⟨p, g⟩, hr, hlog⟩ := Option.map_eq_some_iff.1 hfollow
  obtain ⟨⟨p₀, m⟩, hm, hr⟩ := Option.bind_eq_some_iff.1 hr
  dsimp only at hr
  split at hr
  · next herr =>
    have hreached : Run (tables false) (fun _ _ _ => True) p₀ m :=
      Run.follow_guarded (fun _ _ _ => exists_of_map_snd) (.start ⟨raw, rfl, rfl⟩) hm
    have hrun : Run (rounds false) (fun _ g c => g.Allows c) p g :=
      Run.follow_guarded (fun _ _ _ => exists_of_map_snd)
        (.start ⟨p₀, _, hreached, Prod.ext herr rfl, rfl, rfl⟩) hr
    exact ⟨p, g, hrun, hlog, (select_round hrun).1⟩
  · cases hr

end Dkftpbench.PollerSelect
