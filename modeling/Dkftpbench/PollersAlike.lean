import Dkftpbench.Drain
import Dkftpbench.PollRound
import Dkftpbench.Pollers

/-!
# It does not matter which poller it is

Both pollers keep the map that the requests define, each in its own way, and one round of either is taking what is
due: Poller_poll counts its slots down and moves one when a client fails, Poller_select counts the
descriptors up and clears bits. So both hand out the same events, if in different orders, and both have
the same map afterwards.
-/
namespace Dkftpbench
open CLib Drain FuelLoop PollerSelect Round Watch
variable {Client : Type*} {urgent : Bool}

/-- The map as Poller_poll has it. -/
def PollerSelect.Registry.table (m : Registry Client) : PollerPoll.Table Client :=
  fun fd => (m fd).map fun e => (some e.1, e.2)

/-- The map when these have got their events. -/
def PollerSelect.Registry.without (m : Registry Client) (ready : ℤ → Revents) (notify : PollEvent Client → ℤ)
    (l : List ℤ) : Registry Client :=
  fun fd => if fd ∈ l ∧ notify (m.event ready fd) ≠ 0 then none else m fd

section
variable {m : Registry Client} {ready : ℤ → Revents} {notify : PollEvent Client → ℤ} {l : List ℤ} {fd : ℤ}
variable {o : Option (Client × Revents)} {D : Set ℤ}

theorem table_update :
    Registry.table (Function.update m fd o) = Function.update m.table fd (o.map fun e => (some e.1, e.2)) := by
  funext x
  unfold Registry.table
  by_cases hx : x = fd
  · rw [hx, Function.update_self, Function.update_self]
  · rw [Function.update_of_ne hx, Function.update_of_ne hx]

theorem table_ne_none : m.table fd ≠ none ↔ m fd ≠ none := not_congr Option.map_eq_none_iff

theorem without_nil : m.without ready notify [] = m := by
  funext x
  exact if_neg fun h => absurd h.1 List.not_mem_nil

theorem without_of_notMem (h : fd ∉ l) : m.without ready notify l fd = m fd := if_neg fun h' => h h'.1

theorem without_succeeded (h : notify (m.event ready fd) = 0) :
    m.without ready notify (l ++ [fd]) = m.without ready notify l := by
  funext x
  unfold Registry.without
  by_cases hx : x = fd
  · rw [hx, if_neg fun h' => h'.2 h, if_neg fun h' => h'.2 h]
  · simp [hx]

theorem without_failed (h : notify (m.event ready fd) ≠ 0) :
    m.without ready notify (l ++ [fd]) = Function.update (m.without ready notify l) fd none := by
  funext x
  by_cases hx : x = fd
  · rw [hx, Function.update_self]
    exact if_pos ⟨by simp, h⟩
  · rw [Function.update_of_ne hx]
    unfold Registry.without
    simp [hx]

theorem without_dispatched (h : ∀ fd, fd ∈ l ↔ fd ∈ m.due ready) :
    m.without ready notify l = m.dispatched ready notify := by
  funext fd
  exact if_congr (and_congr_left' (h fd)) rfl rfl

theorem ne_none_of_due (h : fd ∈ m.due ready) : m fd ≠ none := by
  intro hnone
  apply h
  rw [Registry.mask, hnone]
  exact BitVec.and_zero

theorem mem_nil_iff_due (h : m.due ready = ∅) (fd : ℤ) : fd ∈ [] ↔ fd ∈ m.due ready := by
  rw [h]
  exact iff_of_false List.not_mem_nil (Set.notMem_empty fd)

theorem reportable_and (x : Revents) : x &&& reportable urgent =
    (if x.has POLLIN then POLLIN else 0) ||| (if x.has POLLOUT then POLLOUT else 0) |||
      (if urgent && x.has POLLPRI then POLLPRI else 0) := by
  have hsingle : ∀ b : Revents, b.Single → x &&& b = if x.has b then b else 0 := by
    rintro _ ⟨i, hi, rfl⟩
    rw [Revents.has_twoPow hi, BitVec.and_twoPow]
    rfl
  unfold reportable
  rw [BitVec.and_or_distrib_left, BitVec.and_or_distrib_left, hsingle _ Revents.single_in, hsingle _ Revents.single_out]
  cases urgent with
  | false => simp
  | true =>
      rw [if_pos rfl, hsingle _ single_pri, Bool.true_and]

/-- What one round hands out, by whatever poller, and what it returns. -/
structure Dispatches (m : Registry Client) (ready : ℤ → Revents) (err : ℤ) (evs : List (PollEvent Client)) : Prop where
  err : err = 0 ∧ evs ≠ [] ∨ err = EWOULDBLOCK ∧ evs = []
  once : (evs.map PollEvent.fd).Nodup
  events : ∀ e, e ∈ evs ↔ e.fd ∈ m.due ready ∧ e = m.event ready e.fd

theorem dispatches_of_emptied {is : List ℤ} {err : ℤ} (hnodup : is.Nodup) (hmem : ∀ fd, fd ∈ is ↔ fd ∈ m.due ready)
    (herr : err = 0 ∧ is ≠ [] ∨ err = EWOULDBLOCK ∧ is = []) : Dispatches m ready err (is.map (m.event ready)) := by
  refine ⟨?_, ?_, ?_⟩
  · rcases herr with ⟨h0, hne⟩ | ⟨hblock, rfl⟩
    · exact .inl ⟨h0, fun hnil => hne (List.map_eq_nil_iff.1 hnil)⟩
    · exact .inr ⟨hblock, rfl⟩
  · have hfds : (is.map (m.event ready)).map PollEvent.fd = is := by
      rw [List.map_map]
      exact List.map_id is
    rw [hfds]
    exact hnodup
  · intro e
    rw [List.mem_map]
    constructor
    · rintro ⟨fd, hfd, rfl⟩
      exact ⟨(hmem fd).1 hfd, rfl⟩
    · rintro ⟨hdue, he⟩
      exact ⟨e.fd, (hmem e.fd).2 hdue, he.symm⟩

/-- The same is due in both, so that the events are the same. -/
theorem Dispatches.alike {err err' : ℤ} {evs evs' : List (PollEvent Client)} (h : Dispatches m ready err evs)
    (h' : Dispatches m ready err' evs') : err = err' ∧ evs.Perm evs' := by
  have hperm : evs.Perm evs' := by
    rw [List.perm_ext_iff_of_nodup (.of_map _ h.once) (.of_map _ h'.once)]
    intro e
    rw [h.events e, h'.events e]
  refine ⟨?_, hperm⟩
  rcases h.err with ⟨h0, hne⟩ | ⟨hblock, rfl⟩
  · rcases h'.err with ⟨h0', -⟩ | ⟨-, rfl⟩
    · rw [h0, h0']
    · exact absurd (List.perm_nil.1 hperm) hne
  · rcases h'.err with ⟨-, hne⟩ | ⟨hblock', -⟩
    · exact absurd (List.nil_perm.1 hperm) hne
    · rw [hblock, hblock']

end

namespace PollerPoll
variable {p q : PollerPoll Client} {m : Registry Client} {ready : ℤ → Revents} {notify : PollEvent Client → ℤ}
variable {heap : Heap Client} {c : PollerSelect.Request Client} {err : ℤ} {e : PollEvent Client} {fd : ℤ} {l : List ℤ} {D : Set ℤ}

/-- A request that is accepted, and does not run out of memory. -/
theorem perform_represents (h : Represents p m.table) (hc : m.accepts c = true) (hq : p.perform heap c = some (0, q)) :
    Represents q (m.next c).table := by
  have hcall : ∀ ca : Call Client, (∃ fd, ca.fd = some fd) → m.table.Allows ca → p.call ca = some (0, none, q) →
      Represents q (m.table.after 0 ca) := by
    rintro ca ⟨fd, hfd⟩ hallows hca
    obtain ⟨err, q', hq', -, hr⟩ := call_represents h hfd hallows
    rw [hca] at hq'
    cases hq'
    exact hr
  have hsome : ∀ fd, (m fd).isSome = true → m.table fd ≠ none := fun fd hfd =>
    table_ne_none.2 (Option.isSome_iff_ne_none.1 hfd)
  have hmask : ∀ fd f, Registry.table (m.remask fd f) = Function.update m.table fd ((m.table fd).map fun e => (e.1, f e.2)) := by
    intro fd f
    rw [Registry.remask, table_update, Registry.table, Option.map_map, Option.map_map]
    rfl
  rw [Registry.next, if_pos hc]
  cases c with
  | init => exact init_represents (Option.some.inj hq)
  | add fd client eventmask =>
      rw [Registry.accepts, Bool.and_eq_true, decide_eq_true_iff, Option.isNone_iff_eq_none] at hc
      have hnone : m.table fd = none := Option.map_eq_none_iff.2 hc.2
      have hr := hcall (.add fd (some client) eventmask heap) ⟨fd, rfl⟩ ⟨hc.1.1, hnone⟩
        (congrArg (Option.map code) hq)
      rw [Registry.apply, table_update]
      exact hr
  | del fd =>
      have hr := hcall (.del fd) ⟨fd, rfl⟩ (hsome fd hc) (congrArg (Option.map code) hq)
      rw [Registry.apply, table_update]
      exact hr
  | setMask fd eventmask =>
      have hr := hcall (.setMask fd eventmask) ⟨fd, rfl⟩ (hsome fd hc) (congrArg (Option.map code) hq)
      rw [Registry.apply, hmask]
      exact hr
  | orMask fd eventmask =>
      have hr := hcall (.orMask fd eventmask) ⟨fd, rfl⟩ (hsome fd hc) (congrArg (Option.map code) hq)
      rw [Registry.apply, hmask]
      exact hr
  | andMask fd eventmask =>
      have hr := hcall (.andMask fd eventmask) ⟨fd, rfl⟩ (hsome fd hc) (congrArg (Option.map code) hq)
      rw [Registry.apply, hmask]
      exact hr

/-- Taking out a descriptor does not touch what lies at the slots of the others. -/
theorem without_slot {t : Table Client} {x : ℤ} (h : Represents p t) (hfd : fd ∈ t.monitored) (hx : x ∈ t.monitored)
    (hne : x ≠ fd) : (p.without fd).pfds ((p.without fd).fd2pfdnum x) = p.pfds (p.fd2pfdnum x) := by
  have hremoved := h.compact.remove hfd
  have hindex : (p.without fd).fd2pfdnum x =
      Function.update p.fd2pfdnum (p.pfds (p.pfdsUsed-1)).fd (p.fd2pfdnum fd) x := Function.update_of_ne hne _ _
  rw [hindex]
  have hslot := (hremoved.slot x ⟨hx, hne⟩).2.1
  simp only [without]
  rw [Function.update_of_ne hslot.ne, h.compact.remove_data hfd hx hne]

/-- In the loop: the map without those that have failed, and what is due with its events. -/
structure Serving (m : Registry Client) (ready : ℤ → Revents) (notify : PollEvent Client → ℤ) (l : List ℤ) (D : Set ℤ)
    (p : PollerPoll Client) : Prop where
  table : Represents p (m.without ready notify l).table
  live : Live p D
  due : ∀ fd ∈ D, fd ∉ l ∧ m fd ≠ none ∧ (p.pfds (p.fd2pfdnum fd)).revents = ready fd &&& m.mask fd

theorem serving_drains : Drains (dispatch notify) (m.event ready) (Serving m ready notify)
    fun l p => Represents p (m.without ready notify l).table := by
  intro l D p h
  by_cases hrfds : p.rfds > 0
  · obtain ⟨err, ev, q, hq, hsome, hnone⟩ := getNextEvent_live h.table h.live
    have hrepr := getNextEvent_represents h.table hq
    cases ev with
    | none =>
        refine .inl ⟨hnone rfl, q, hrepr, fun fuel => ?_⟩
        rw [dispatch, if_neg (not_not.2 hrfds), hq]
        rfl
    | some e =>
        obtain ⟨hdue, ⟨eventmask, htable⟩, hlive⟩ := hsome e rfl
        obtain ⟨hrevents, hpfds, hindex, hcursor⟩ := getNextEvent_at hq
        obtain ⟨hnot, hmem, hat⟩ := h.due e.fd hdue
        have hclient : e.client = m.clients e.fd := by
          rw [Registry.table, without_of_notMem hnot] at htable
          obtain ⟨x, hx, hxe⟩ := Option.map_eq_some_iff.1 htable
          rw [Registry.clients, hx]
          exact (congrArg Prod.fst hxe).symm
        have hevent : e = m.event ready e.fd := by
          rw [Registry.event, ← hat, ← hrevents, ← hclient]
        have hothers : ∀ fd ∈ D \ {e.fd}, fd ∉ l ++ [e.fd] ∧ m fd ≠ none ∧
            (p.pfds (p.fd2pfdnum fd)).revents = ready fd &&& m.mask fd := by
          rintro fd ⟨hfd, hne⟩
          obtain ⟨hfdl, hrest⟩ := h.due fd hfd
          refine ⟨?_, hrest⟩
          rw [List.mem_append, List.mem_singleton]
          exact not_or.2 ⟨hfdl, hne⟩
        refine .inr ⟨e.fd, hdue, ?_⟩
        by_cases hnotify : notify e = 0
        · refine ⟨q, ⟨?_, hlive, ?_⟩, fun fuel => ?_⟩
          · rw [without_succeeded (hevent ▸ hnotify)]
            exact hrepr
          · rw [hpfds, hindex]
            exact hothers
          · rw [dispatch, if_neg (not_not.2 hrfds), hq, ← hevent]
            simp [hnotify]
        · have hmonitored : e.fd ∈ (m.without ready notify l).table.monitored :=
            table_ne_none.2 (by rwa [without_of_notMem hnot])
          have hdel := del_eq hrepr hmonitored
          refine ⟨q.without e.fd, ⟨?_, ?_, ?_⟩, fun fuel => ?_⟩
          · rw [without_failed (hevent ▸ hnotify), table_update]
            exact without_represents hrepr hmonitored
          · have hgone := without_live hrepr hlive hmonitored (.inr (.inl hcursor.le))
            rwa [sdiff_idem] at hgone
          · rintro fd ⟨hfd, hne⟩
            obtain ⟨hfdl, hfdm, hrev⟩ := hothers fd ⟨hfd, hne⟩
            refine ⟨hfdl, hfdm, ?_⟩
            have hfdl' : fd ∉ l := fun hin => hfdl (List.mem_append_left _ hin)
            rw [without_slot hrepr hmonitored (table_ne_none.2 (by rwa [without_of_notMem hfdl'])) hne, hpfds, hindex]
            exact hrev
          · rw [dispatch, if_neg (not_not.2 hrfds), hq, ← hevent]
            simp [hnotify, hdel]
  · have hD := h.live.count.eq_empty (by omega : p.rfds < 1)
    refine .inl ⟨hD, p, h.table, fun fuel => ?_⟩
    rw [dispatch, if_pos hrfds]

/-- The slot of a descriptor asks for its mask. -/
theorem events_eq (h : Represents p m.table) (hfd : m fd ≠ none) :
    (p.pfds (p.fd2pfdnum fd)).fd = fd ∧ p.answers ready (p.fd2pfdnum fd) = ready fd &&& m.mask fd := by
  obtain ⟨e, he⟩ := Option.ne_none_iff_exists'.1 hfd
  have htable : m.table fd = some (some e.1, e.2) := by
    rw [Registry.table, he]
    rfl
  obtain ⟨-, -, hat⟩ := h.compact.slot fd (mem_monitored htable)
  have hentry := congrArg Prod.snd (h.entry fd _ htable)
  refine ⟨hat, ?_⟩
  rw [answers, hat, mask_of_some he]
  exact congrArg (ready fd &&& ·) hentry

/-- What `poll()` answers for some slot is due. -/
theorem due_eq (h : Represents p m.table) :
    {fd | ∃ i, 0 ≤ i ∧ i < p.pfdsUsed ∧ (p.pfds i).fd = fd ∧ p.answers ready i ≠ 0} = m.due ready := by
  ext fd
  constructor
  · rintro ⟨i, h0, hi, rfl, hne⟩
    obtain ⟨hmem, hindex⟩ := h.compact.own i h0 hi
    have hat : p.answers ready (p.fd2pfdnum (p.pfds i).fd) = _ := (events_eq h (table_ne_none.1 hmem)).2
    rw [hindex] at hat
    rwa [hat] at hne
  · intro hdue
    have hmem := ne_none_of_due hdue
    obtain ⟨h0, hlt, hat⟩ := h.compact.slot fd (table_ne_none.2 hmem)
    refine ⟨p.fd2pfdnum fd, h0, hlt, hat, ?_⟩
    rw [(events_eq h hmem).2]
    exact hdue

theorem waited_serving (h : Represents p m.table) :
    Serving m ready notify [] (m.due ready) (p.waitForEvents (.ok (p.answers ready))).2 := by
  refine ⟨?_, ?_, ?_⟩
  · rw [without_nil]
    exact waitForEvents_represents h _
  · rw [← due_eq h]
    exact waitForEvents_live h rfl
  · intro fd hfd
    have hmem := ne_none_of_due hfd
    obtain ⟨h0, hlt, -⟩ := h.compact.slot fd (table_ne_none.2 hmem)
    refine ⟨List.not_mem_nil, hmem, ?_⟩
    rw [← (events_eq h hmem).2]
    simp only [waitForEvents]
    rw [if_pos ⟨h0, hlt⟩]

/-- `poll()` has counted something, or nothing is due. -/
theorem waitForEvents_code (h : Represents p m.table) :
    ((p.waitForEvents (.ok (p.answers ready))).1 = 0 ∧ (m.due ready).Nonempty) ∨
      ((p.waitForEvents (.ok (p.answers ready))).1 = EWOULDBLOCK ∧ m.due ready = ∅) := by
  rw [← due_eq h]
  simp only [waitForEvents]
  by_cases hcount : (List.range p.pfdsUsed.toNat).countP (fun i : ℕ => p.answers ready i != 0) = 0
  · right
    rw [if_neg (by omega)]
    refine ⟨rfl, Set.eq_empty_of_forall_notMem ?_⟩
    rintro fd ⟨i, h0, hi, -, hne⟩
    have hnot := List.countP_eq_zero.1 hcount i.toNat (List.mem_range.2 (by omega))
    rw [Int.toNat_of_nonneg h0] at hnot
    exact hnot (bne_iff_ne.2 hne)
  · left
    rw [if_pos (by omega)]
    obtain ⟨i, hi, hne⟩ := List.countP_pos_iff.1 (Nat.pos_of_ne_zero hcount)
    have hlt := List.mem_range.1 hi
    exact ⟨rfl, (p.pfds i).fd, i, by omega, by omega, rfl, bne_iff_ne.1 hne⟩

theorem waitAndDispatchEvents_eq (poll : Except ℤ (ℤ → Revents)) (fuel : ℕ) :
    p.waitAndDispatchEvents notify poll fuel = if (p.waitForEvents poll).1 ≠ 0 then
      some ((p.waitForEvents poll).1, [], (p.waitForEvents poll).2)
    else (dispatch notify fuel (p.waitForEvents poll).2).map fun r => (0, r) := rfl

/-- One round: it ends, hands out what is due, and takes out those that fail. -/
theorem dispatches_round {n : ℕ} (h : Represents p m.table) (ready : ℤ → Revents) (notify : PollEvent Client → ℤ)
    (hn : AtMost (m.due ready) n) : ∃ err evs q,
      (∀ fuel, n < fuel → p.waitAndDispatchEvents notify (.ok (p.answers ready)) fuel = some (err, evs, q)) ∧
        Dispatches m ready err evs ∧ Represents q (m.dispatched ready notify).table := by
  have hserving : Serving m ready notify [] (m.due ready) (p.waitForEvents (.ok (p.answers ready))).2 :=
    waited_serving h
  rcases waitForEvents_code h with ⟨hzero, fd, hfd⟩ | ⟨hblock, hempty⟩
  · obtain ⟨is, q, hloop, hnodup, hmem, hq⟩ := serving_drains.emptied hserving hn
    rw [List.nil_append, without_dispatched hmem] at hq
    refine ⟨0, is.map (m.event ready), q, fun fuel hfuel => ?_, ?_, hq⟩
    · rw [waitAndDispatchEvents_eq, hzero, if_neg (not_not.2 rfl), hloop fuel hfuel]
      rfl
    · exact dispatches_of_emptied hnodup hmem (.inl ⟨rfl, List.ne_nil_of_mem ((hmem fd).2 hfd)⟩)
  · have hnone := mem_nil_iff_due hempty
    refine ⟨EWOULDBLOCK, [], (p.waitForEvents (.ok (p.answers ready))).2, fun fuel _ => ?_, ?_, ?_⟩
    · rw [waitAndDispatchEvents_eq, hblock, if_pos (by decide)]
    · exact dispatches_of_emptied .nil hnone (.inr ⟨rfl, rfl⟩)
    · rw [← without_dispatched hnone]
      exact hserving.table

/-- The fuel does not matter. -/
theorem waitAndDispatchEvents_of_le {fuel fuel' : ℕ} {r : ℤ × List (PollEvent Client) × PollerPoll Client}
    (h : Represents p m.table) (hr : p.waitAndDispatchEvents notify (.ok (p.answers ready)) fuel = some r)
    (hle : fuel ≤ fuel') : p.waitAndDispatchEvents notify (.ok (p.answers ready)) fuel' = some r := by
  rw [waitAndDispatchEvents_eq] at hr ⊢
  split at hr
  · next hcode =>
    rw [if_pos hcode]
    exact hr
  · next hcode =>
    rw [if_neg hcode]
    obtain ⟨x, hx, rfl⟩ := Option.map_eq_some_iff.1 hr
    rw [serving_drains.eq_of_le (fun _ => rfl) (waited_serving h) hx hle]
    rfl

end PollerPoll

namespace PollerSelect
variable {p q : PollerSelect Client} {m : Registry Client} {ready : ℤ → Revents} {notify : PollEvent Client → ℤ}
variable {fd : ℤ} {l : List ℤ} {D : Set ℤ}

theorem Mirrors.of_eq (h : Mirrors urgent p m) (hmonitors : Monitors urgent q m.clients) (hmax : q.maxFd = p.maxFd)
    (hr : q.readfds = p.readfds) (hw : q.writefds = p.writefds) (he : q.exceptfds = p.exceptfds) : Mirrors urgent q m := by
  refine ⟨hmonitors, hmax ▸ h.maxFd, fun fd => (h.bits fd).of_eq ?_ ?_ ?_⟩
  · rw [hr]
  · rw [hw]
  · rw [he]

theorem waitForEvents_mirrors (h : Mirrors urgent p m) (select : Except ℤ Selected) :
    Mirrors urgent (p.waitForEvents urgent select).2 m := by
  have hmonitors := waitForEvents_monitors h.monitors select
  cases select with
  | error err => exact h.of_eq hmonitors rfl rfl rfl rfl
  | ok ready => exact h.of_eq hmonitors rfl rfl rfl rfl

theorem getNextEvent_mirrors (h : Mirrors urgent p m) : Mirrors urgent (p.getNextEvent urgent).2.2 m := by
  have hmonitors := getNextEvent_monitors h.monitors
  have hframe : ∃ rbits cur, (p.getNextEvent urgent).2.2 = { p with rbits := rbits, curFd := cur } := by
    unfold getNextEvent
    dsimp only
    split
    · exact ⟨p.rbits, p.curFd, rfl⟩
    · split
      · exact ⟨p.rbits, _, rfl⟩
      · exact ⟨_, _, rfl⟩
  obtain ⟨rbits, cur, heq⟩ := hframe
  rw [heq] at hmonitors ⊢
  exact h.of_eq hmonitors rfl rfl rfl rfl

/-- In the loop: the map without those that have failed, and what is due with its events. -/
structure Serving (urgent : Bool) (m : Registry Client) (ready : ℤ → Revents) (notify : PollEvent Client → ℤ) (l : List ℤ)
    (D : Set ℤ) (p : PollerSelect Client) : Prop where
  mirrors : Mirrors urgent p (m.without ready notify l)
  live : ∃ log, Live urgent p ⟨(m.without ready notify l).clients, fun fd => ready fd &&& m.mask fd, log⟩ D
  due : ∀ fd ∈ D, fd ∉ l ∧ m fd ≠ none

/-- A descriptor is taken out, with its bits. -/
theorem del_serving {log : List (Round.Act ℤ (PollEvent Client))} (h : Mirrors urgent p (m.without ready notify l))
    (hl : Live urgent p ⟨(m.without ready notify l).clients, fun fd => ready fd &&& m.mask fd, log⟩ D) (hfd : m fd ≠ none)
    (hnot : fd ∉ l) (hnotify : notify (m.event ready fd) ≠ 0) : ∃ q, p.del urgent fd = some (0, q) ∧
      Mirrors urgent q (m.without ready notify (l ++ [fd])) ∧ ∃ log,
        Live urgent q ⟨(m.without ready notify (l ++ [fd])).clients, fun fd => ready fd &&& m.mask fd, log⟩ (D \ {fd}) := by
  have haccepts : (m.without ready notify l).accepts (.del fd) = true := by
    rw [Registry.accepts, without_of_notMem hnot]
    exact Option.isSome_iff_ne_none.2 hfd
  obtain ⟨err, q, hq, herr, -, hmirrors⟩ := serves_del h fd
  obtain rfl := herr.2 haccepts
  rw [Registry.next, if_pos haccepts, Registry.apply, ← without_failed hnotify] at hmirrors
  obtain ⟨err, q', hq', hcases⟩ := del_spec h.monitors fd
  cases hq.symm.trans hq'
  rcases hcases with ⟨h0, -⟩ | ⟨-, -, -, hr, hw, he, hb, hc⟩
  · exact absurd rfl h0
  · have hlive := del_live hl hr hw he hb hc
    refine ⟨q, hq, hmirrors, .left fd :: log, ?_⟩
    rw [without_failed hnotify, clients_update]
    exact hlive

theorem serving_drains : Drains (dispatch urgent notify) (m.event ready) (Serving urgent m ready notify)
    fun l p => Mirrors urgent p (m.without ready notify l) := by
  intro l D p h
  obtain ⟨log, hl⟩ := h.live
  obtain ⟨err, ev, q, hq, hsome, hnone⟩ := getNextEvent_live h.mirrors.monitors hl
  have hmirrors := getNextEvent_mirrors h.mirrors
  rw [hq] at hmirrors
  by_cases hrbits : p.rbits > 0
  · cases ev with
    | none =>
        refine .inl ⟨hnone rfl, q, hmirrors, fun fuel => ?_⟩
        rw [dispatch, if_neg (not_not.2 hrbits), hq]
    | some e =>
        obtain ⟨hdue, hrevents, hclient, -, hlive⟩ := hsome e rfl
        obtain ⟨hnot, hmem⟩ := h.due e.fd hdue
        have hevent : e = m.event ready e.fd := by
          dsimp only at hrevents hclient
          rw [Registry.clients, without_of_notMem hnot] at hclient
          rw [Registry.event, ← hrevents, Registry.clients, ← hclient]
        have hothers : ∀ fd ∈ D \ {e.fd}, fd ∉ l ++ [e.fd] ∧ m fd ≠ none := by
          rintro fd ⟨hfd, hne⟩
          obtain ⟨hfdl, hfdm⟩ := h.due fd hfd
          refine ⟨?_, hfdm⟩
          rw [List.mem_append, List.mem_singleton]
          exact not_or.2 ⟨hfdl, hne⟩
        refine .inr ⟨e.fd, hdue, ?_⟩
        by_cases hnotify : notify e = 0
        · have hsame := without_succeeded (l := l) (hevent ▸ hnotify : notify (m.event ready e.fd) = 0)
          refine ⟨q, ⟨?_, ?_, hothers⟩, fun fuel => ?_⟩
          · rw [hsame]
            exact hmirrors
          · rw [hsame]
            exact ⟨_, hlive⟩
          · rw [dispatch, if_neg (not_not.2 hrbits), hq, ← hevent]
            simp [hnotify]
        · obtain ⟨q', hdel, hmirrors', log', hlive'⟩ := del_serving hmirrors hlive hmem hnot (hevent ▸ hnotify)
          rw [sdiff_idem] at hlive'
          refine ⟨q', ⟨hmirrors', ⟨log', hlive'⟩, hothers⟩, fun fuel => ?_⟩
          rw [dispatch, if_neg (not_not.2 hrbits), hq, ← hevent]
          simp [hnotify, hdel]
  · have hover : p.getNextEvent urgent = (EWOULDBLOCK, none, p) := if_pos (by omega)
    rw [hq] at hover
    cases hover
    refine .inl ⟨hnone rfl, p, h.mirrors, fun fuel => ?_⟩
    rw [dispatch, if_pos hrbits]

theorem count_pos_iff {s : FdSet} {n : ℤ} : 0 < count s n ↔ ∃ fd, 0 ≤ fd ∧ fd < n ∧ s fd = true := by
  unfold count
  rw [Int.natCast_pos, List.countP_pos_iff]
  constructor
  · rintro ⟨i, hi, hs⟩
    have hlt := List.mem_range.1 hi
    exact ⟨i, by omega, by omega, hs⟩
  · rintro ⟨fd, h0, hlt, hs⟩
    refine ⟨fd.toNat, List.mem_range.2 (by omega), ?_⟩
    rwa [Int.toNat_of_nonneg h0]

/-- The bits that `select()` leaves are what is ready of the mask. -/
theorem waited_bits (h : Mirrors urgent p m) (hready : ready fd &&& ~~~reportable urgent = 0) :
    (p.waitForEvents urgent (.ok (selected ready))).2.bits urgent fd = ready fd &&& m.mask fd := by
  have hall : ready fd &&& m.mask fd = ready fd &&& m.mask fd &&& reportable urgent := by
    have hsplit : ready fd = ready fd &&& reportable urgent := by
      calc
        ready fd = ready fd &&& (reportable urgent ||| ~~~reportable urgent) := by
          rw [BitVec.or_not_self, BitVec.and_allOnes]
        _ = ready fd &&& reportable urgent := by
          rw [BitVec.and_or_distrib_left, hready]
          exact BitVec.or_zero
    rw [BitVec.and_assoc, BitVec.and_comm (m.mask fd), ← BitVec.and_assoc, ← hsplit]
  have hbits := h.bits fd
  rw [hall, reportable_and, Revents.single_in.has_and, Revents.single_out.has_and, single_pri.has_and,
    ← hbits.readfds, ← hbits.writefds]
  have hpri : (urgent && ((ready fd).has POLLPRI && (m.mask fd).has POLLPRI)) =
      (urgent && p.exceptfds fd && (ready fd).has POLLPRI) := by
    rw [hbits.exceptfds, Bool.and_comm ((ready fd).has POLLPRI), Bool.and_assoc]
  rw [hpri]
  cases urgent with
  | false => simp [bits, waitForEvents, selected, Bool.and_comm]
  | true => simp [bits, waitForEvents, selected, Bool.and_comm]

/-- What is due has a bit below `m_max_fd`, and nothing else has. -/
theorem due_iff (h : Mirrors urgent p m) (hready : ∀ fd, ready fd &&& ~~~reportable urgent = 0) : fd ∈ m.due ready ↔
    0 ≤ fd ∧ fd < p.maxFd+1 ∧ (p.waitForEvents urgent (.ok (selected ready))).2.bits urgent fd ≠ 0 := by
  rw [waited_bits h (hready fd)]
  constructor
  · intro hdue
    have hrange := h.monitors.range fd (mt clients_eq_none.1 (ne_none_of_due hdue))
    exact ⟨hrange.1, by omega, hdue⟩
  · exact fun hdue => hdue.2.2

/-- `select()` has counted something, or nothing is due. -/
theorem waitForEvents_code (h : Mirrors urgent p m) (hready : ∀ fd, ready fd &&& ~~~reportable urgent = 0) :
    ((p.waitForEvents urgent (.ok (selected ready))).1 = 0 ∧ (m.due ready).Nonempty) ∨
      ((p.waitForEvents urgent (.ok (selected ready))).1 = EWOULDBLOCK ∧ m.due ready = ∅) := by
  have hdue : ∀ fd, fd ∈ m.due ready ↔ _ := fun _ => due_iff h hready
  generalize hq : (p.waitForEvents urgent (.ok (selected ready))).2 = q at hdue
  have hthird : (if urgent then count q.testefds (p.maxFd+1) else 0) =
      count (fun fd => urgent && q.testefds fd) (p.maxFd+1) := by
    cases urgent with
    | false => simp [count]
    | true => rfl
  have hrbits : q.rbits = count q.testrfds (p.maxFd+1)+count q.testwfds (p.maxFd+1)+
      count (fun fd => urgent && q.testefds fd) (p.maxFd+1) := by
    rw [← hthird, ← hq]
    rfl
  have hnonneg : ∀ s, 0 ≤ count s (p.maxFd+1) := fun s => Int.natCast_nonneg _
  have hcode : (p.waitForEvents urgent (.ok (selected ready))).1 = if q.rbits ≠ 0 then 0 else EWOULDBLOCK := by
    rw [← hq]
    rfl
  rw [hcode]
  by_cases h0 : q.rbits = 0
  · right
    rw [if_neg (not_not.2 h0)]
    refine ⟨rfl, Set.eq_empty_of_forall_notMem fun fd hfd => ?_⟩
    obtain ⟨hlo, hhi, hbits⟩ := (hdue fd).1 hfd
    have hno : ∀ s : FdSet, count s (p.maxFd+1) ≤ 0 → s fd = false := fun s hs =>
      Bool.eq_false_of_not_eq_true fun hset => hs.not_gt (count_pos_iff.2 ⟨fd, hlo, hhi, hset⟩)
    have h1 := hnonneg q.testrfds
    have h2 := hnonneg q.testwfds
    have h3 := hnonneg fun fd => urgent && q.testefds fd
    exact hbits (bits_eq_zero.2 ⟨hno q.testrfds (by omega), hno q.testwfds (by omega),
      hno (fun fd => urgent && q.testefds fd) (by omega)⟩)
  · left
    rw [if_pos h0]
    refine ⟨rfl, ?_⟩
    have hsome : ∀ s : FdSet, (∀ fd, s fd = true → q.bits urgent fd ≠ 0) → 0 < count s (p.maxFd+1) →
        (m.due ready).Nonempty := by
      intro s hs hpos
      obtain ⟨fd, hlo, hhi, hset⟩ := count_pos_iff.1 hpos
      exact ⟨fd, (hdue fd).2 ⟨hlo, hhi, hs fd hset⟩⟩
    have hbits : ∀ fd, q.bits urgent fd = 0 → _ := fun fd => bits_eq_zero.1
    by_cases h1 : 0 < count q.testrfds (p.maxFd+1)
    · exact hsome _ (fun fd hset hzero => Bool.false_ne_true ((hbits fd hzero).1.symm.trans hset)) h1
    · by_cases h2 : 0 < count q.testwfds (p.maxFd+1)
      · exact hsome _ (fun fd hset hzero => Bool.false_ne_true ((hbits fd hzero).2.1.symm.trans hset)) h2
      · have h1' := hnonneg q.testrfds
        have h2' := hnonneg q.testwfds
        have h3' := hnonneg fun fd => urgent && q.testefds fd
        exact hsome (fun fd => urgent && q.testefds fd)
          (fun fd hset hzero => Bool.false_ne_true ((hbits fd hzero).2.2.symm.trans hset)) (by omega)

theorem waited_serving (h : Mirrors urgent p m) (hready : ∀ fd, ready fd &&& ~~~reportable urgent = 0)
    (hcode : (p.waitForEvents urgent (.ok (selected ready))).1 = 0) :
    Serving urgent m ready notify [] (m.due ready) (p.waitForEvents urgent (.ok (selected ready))).2 := by
  refine ⟨?_, ⟨[], ?_⟩, fun fd hfd => ⟨List.not_mem_nil, ne_none_of_due hfd⟩⟩
  · rw [without_nil]
    exact waitForEvents_mirrors h _
  · rw [without_nil]
    exact waitForEvents_live (g := ⟨m.clients, fun fd => ready fd &&& m.mask fd, []⟩) h.monitors (Prod.ext hcode rfl)
      (funext fun fd => (waited_bits h (hready fd)).symm) rfl

theorem waitAndDispatchEvents_eq (select : Except ℤ Selected) (fuel : ℕ) :
    p.waitAndDispatchEvents urgent notify select fuel = if (p.waitForEvents urgent select).1 ≠ 0 then
      some ((p.waitForEvents urgent select).1, [], (p.waitForEvents urgent select).2)
    else (dispatch urgent notify fuel (p.waitForEvents urgent select).2).map fun r => (0, r) := rfl

/-- One round: it ends, hands out what is due, and takes out those that fail. -/
theorem dispatches_round {n : ℕ} (h : Mirrors urgent p m) (hready : ∀ fd, ready fd &&& ~~~reportable urgent = 0)
    (notify : PollEvent Client → ℤ) (hn : AtMost (m.due ready) n) : ∃ err evs q,
      (∀ fuel, n < fuel → p.waitAndDispatchEvents urgent notify (.ok (selected ready)) fuel = some (err, evs, q)) ∧
        Dispatches m ready err evs ∧ Mirrors urgent q (m.dispatched ready notify) := by
  rcases waitForEvents_code h hready with ⟨hzero, fd, hfd⟩ | ⟨hblock, hempty⟩
  · have hserving : Serving urgent m ready notify [] (m.due ready) (p.waitForEvents urgent (.ok (selected ready))).2 :=
      waited_serving h hready hzero
    obtain ⟨is, q, hloop, hnodup, hmem, hq⟩ := serving_drains.emptied hserving hn
    rw [List.nil_append, without_dispatched hmem] at hq
    refine ⟨0, is.map (m.event ready), q, fun fuel hfuel => ?_, ?_, hq⟩
    · rw [waitAndDispatchEvents_eq, hzero, if_neg (not_not.2 rfl), hloop fuel hfuel]
      rfl
    · exact dispatches_of_emptied hnodup hmem (.inl ⟨rfl, List.ne_nil_of_mem ((hmem fd).2 hfd)⟩)
  · have hnone := mem_nil_iff_due hempty
    refine ⟨EWOULDBLOCK, [], (p.waitForEvents urgent (.ok (selected ready))).2, fun fuel _ => ?_, ?_, ?_⟩
    · rw [waitAndDispatchEvents_eq, hblock, if_pos (by decide)]
    · exact dispatches_of_emptied .nil hnone (.inr ⟨rfl, rfl⟩)
    · rw [← without_dispatched hnone, without_nil]
      exact waitForEvents_mirrors h _

/-- The fuel does not matter. -/
theorem waitAndDispatchEvents_of_le {fuel fuel' : ℕ} {r : ℤ × List (PollEvent Client) × PollerSelect Client}
    (h : Mirrors urgent p m) (hready : ∀ fd, ready fd &&& ~~~reportable urgent = 0)
    (hr : p.waitAndDispatchEvents urgent notify (.ok (selected ready)) fuel = some r) (hle : fuel ≤ fuel') :
    p.waitAndDispatchEvents urgent notify (.ok (selected ready)) fuel' = some r := by
  rw [waitAndDispatchEvents_eq] at hr ⊢
  split at hr
  · next hcode =>
    rw [if_pos hcode]
    exact hr
  · next hcode =>
    rw [if_neg hcode]
    obtain ⟨x, hx, rfl⟩ := Option.map_eq_some_iff.1 hr
    rw [serving_drains.eq_of_le (fun _ => rfl) (waited_serving h hready (not_not.1 hcode)) hx hle]
    rfl

end PollerSelect

namespace Pollers
variable {b b' : Pollers Client} {m : Registry Client} {ready : ℤ → Revents} {notify : PollEvent Client → ℤ}

/-- Each has the map in its own way. -/
structure Alike (urgent : Bool) (b : Pollers Client) (m : Registry Client) : Prop where
  poll : PollerPoll.Represents b.poll m.table
  select : Mirrors urgent b.select m

/-- One round of both. -/
theorem Alike.round (h : Alike urgent b m) (hready : ∀ fd, ready fd &&& ~~~reportable urgent = 0)
    (notify : PollEvent Client → ℤ) : ∃ n err evs evs' p s,
      (∀ fuel, n < fuel → b.poll.waitAndDispatchEvents notify (.ok (b.poll.answers ready)) fuel = some (err, evs, p)) ∧
      (∀ fuel, n < fuel →
        b.select.waitAndDispatchEvents urgent notify (.ok (selected ready)) fuel = some (err, evs', s)) ∧
      Dispatches m ready err evs ∧ evs.Perm evs' ∧ Alike urgent ⟨p, s⟩ (m.dispatched ready notify) := by
  have hserving : PollerPoll.Serving m ready notify [] (m.due ready) _ := PollerPoll.waited_serving h.poll
  have hcount := hserving.live.count
  obtain ⟨n, hn⟩ := Int.eq_ofNat_of_zero_le hcount.nonneg
  rw [hn] at hcount
  obtain ⟨err, evs, p, hp, hevs, hp'⟩ := PollerPoll.dispatches_round h.poll ready notify hcount
  obtain ⟨err', evs', s, hs, hevs', hs'⟩ := PollerSelect.dispatches_round h.select hready notify hcount
  obtain ⟨rfl, hperm⟩ := hevs.alike hevs'
  exact ⟨n, err, evs, evs', p, s, hp, hs, hevs, hperm, hp', hs'⟩

/-- What one step preserves. -/
theorem step_alike {k : Act Client} (h : Alike urgent b m) (hk : Proper urgent m k) (hb : b.step urgent k = some b') :
    Alike urgent b' (note m k) := by
  cases k with
  | request c heap =>
      obtain ⟨⟨err, p⟩, hp, hrest⟩ := Option.bind_eq_some_iff.1 hb
      obtain ⟨⟨err', s⟩, hs, hsome⟩ := Option.bind_eq_some_iff.1 hrest
      dsimp only at hsome
      split at hsome
      · next h0 =>
        obtain ⟨rfl, rfl⟩ := h0
        cases hsome
        obtain ⟨_, s', hs', -, -, hmirrors⟩ := perform_serves h.select c
        cases hs.symm.trans hs'
        exact ⟨PollerPoll.perform_represents h.poll hk hp, hmirrors⟩
      · cases hsome
  | wait poll select =>
      cases hb
      exact ⟨PollerPoll.waitForEvents_represents h.poll poll, waitForEvents_mirrors h.select select⟩
  | next =>
      obtain ⟨⟨err, ev, p⟩, hp, hb⟩ := Option.bind_eq_some_iff.1 hb
      cases hb
      exact ⟨PollerPoll.getNextEvent_represents h.poll hp, getNextEvent_mirrors h.select⟩
  | dispatch ready notify fuel =>
      obtain ⟨⟨err, evs, p⟩, hp, hb⟩ := Option.bind_eq_some_iff.1 hb
      obtain ⟨⟨err', evs', s⟩, hs, hb⟩ := Option.bind_eq_some_iff.1 hb
      cases hb
      obtain ⟨n, _, _, _, p', s', hp', hs', -, -, hround⟩ := h.round hk notify
      have hpn := PollerPoll.waitAndDispatchEvents_of_le h.poll hp (Nat.le_add_right fuel (n+1))
      have hsn := PollerSelect.waitAndDispatchEvents_of_le h.select hk hs (Nat.le_add_right fuel (n+1))
      rw [hp' _ (by omega)] at hpn
      rw [hs' _ (by omega)] at hsn
      cases hpn
      cases hsn
      exact hround

theorem run_alike (h : Run (pollers urgent) (fun _ m k => Proper urgent m k) b m) : Alike urgent b m := by
  apply h.invariant
  · rintro b m ⟨⟨p₀, heap, hp⟩, ⟨s₀, hs⟩, rfl⟩
    have hselect : b.select = (PollerSelect.init urgent s₀).2 := by rw [hs]
    exact ⟨PollerPoll.init_represents hp, hselect ▸ init_mirrors s₀⟩
  · intro b m k b' hb hk hstep
    exact step_alike hb hk hstep

/-- Whichever poller it is, `waitAndDispatchEvents` returns, with the same result, and the same
events come to the same clients: what is ready of each mask, each once. And the map is the same again. -/
theorem same_events (h : Run (pollers urgent) (fun _ m k => Proper urgent m k) b m)
    (hready : ∀ fd, ready fd &&& ~~~reportable urgent = 0) (notify : PollEvent Client → ℤ) :
    ∃ n err evs evs' p s,
      (∀ fuel, n < fuel → b.poll.waitAndDispatchEvents notify (.ok (b.poll.answers ready)) fuel = some (err, evs, p)) ∧
      (∀ fuel, n < fuel →
        b.select.waitAndDispatchEvents urgent notify (.ok (selected ready)) fuel = some (err, evs', s)) ∧
      evs.Perm evs' ∧ (evs.map PollEvent.fd).Nodup ∧ (∀ e, e ∈ evs ↔ e.fd ∈ m.due ready ∧ e = m.event ready e.fd) ∧
      PollerPoll.Represents p (m.dispatched ready notify).table ∧ Refines urgent s (m.dispatched ready notify) := by
  obtain ⟨n, err, evs, evs', p, s, hp, hs, hevs, hperm, halike⟩ := (run_alike h).round hready notify
  exact ⟨n, err, evs, evs', p, s, hp, hs, hperm, hevs.once, hevs.events, halike.poll, halike.select.refines⟩

/-- A request, if it is accepted. -/
def accepted (b : Pollers ℕ) (m : Registry ℕ) : Act ℕ → Option (Pollers ℕ)
  | .request c heap => if m.accepts c = true then b.step false (.request c heap) else none
  | .wait _ _ | .next | .dispatch _ _ _ => none

/-- One descriptor can be read, and one can be written. -/
def readyTwo (fd : ℤ) : Revents := if fd = 4 then POLLIN else if fd = 7 then POLLOUT else 0

/-- Three are monitored, two are due, and one of these fails. -/
theorem same_events_two : ∃ b m, Run (pollers false : System (Pollers ℕ) _ _) (fun _ m k => Proper false m k) b m ∧
    4 ∈ m.due readyTwo ∧ 7 ∈ m.due readyTwo ∧ ∃ n err evs evs' p s,
      (∀ fuel, n < fuel → b.poll.waitAndDispatchEvents (fun e => e.fd-4) (.ok (b.poll.answers readyTwo)) fuel =
        some (err, evs, p)) ∧
      (∀ fuel, n < fuel → b.select.waitAndDispatchEvents false (fun e => e.fd-4) (.ok (selected readyTwo)) fuel =
        some (err, evs', s)) ∧
      evs.Perm evs' ∧ (evs.map PollEvent.fd).Nodup ∧ (∀ e, e ∈ evs ↔ e.fd ∈ m.due readyTwo ∧ e = m.event readyTwo e.fd) ∧
      PollerPoll.Represents p (m.dispatched readyTwo fun e => e.fd-4).table ∧
      Refines false s (m.dispatched readyTwo fun e => e.fd-4) := by
  have hfollow : (follow accepted (fun m _ k _ => note m k)
      ⟨(PollerPoll.raw.init PollerPoll.sevens).2, (PollerSelect.init false PollerSelect.raw).2⟩ (fun _ => none)
      [.request (.add 4 0 POLLIN) PollerPoll.sevens, .request (.add 7 1 0) PollerPoll.sevens,
        .request (.add 5 2 POLLIN) PollerPoll.sevens, .request (.orMask 7 POLLOUT) PollerPoll.sevens]).map
        (fun r => (readyTwo 4 &&& r.2.mask 4, readyTwo 7 &&& r.2.mask 7)) = some (POLLIN, POLLOUT) := by
    decide +kernel
  obtain ⟨⟨b, m⟩, hr, hdue⟩ := Option.map_eq_some_iff.1 hfollow
  obtain ⟨hin, hout⟩ := Prod.mk.inj hdue
  have hrun : Run (pollers false) (fun _ m k => Proper false m k) b m := by
    refine Run.follow (S := pollers false) ?_
      (.start ⟨⟨PollerPoll.raw, PollerPoll.sevens, rfl⟩, ⟨PollerSelect.raw, rfl⟩, rfl⟩) hr
    intro b m k b' hk
    cases k with
    | request c heap =>
        rw [accepted] at hk
        split at hk
        · next haccepts => exact ⟨haccepts, hk⟩
        · cases hk
    | wait | next | dispatch => cases hk
  have hready : ∀ fd, readyTwo fd &&& ~~~reportable false = 0 := by
    intro fd
    unfold readyTwo
    split
    · decide
    · split
      · decide
      · decide
  have hset : ∀ {x y : Revents}, x = y → y ≠ 0 → x ≠ 0 := fun h hne => h ▸ hne
  exact ⟨b, m, hrun, hset hin (by decide), hset hout (by decide), same_events hrun hready fun e => e.fd-4⟩

end Pollers
end Dkftpbench
