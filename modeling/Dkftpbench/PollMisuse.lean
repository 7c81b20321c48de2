import Dkftpbench.PollTable

/-!
# What Poller_poll makes of misuse

`add` never looks whether its descriptor is monitored, and `orMask` and `andMask` assert
that theirs is. `del` and `setMask` look for the mark -1 in `m_fd2pfdnum`, which `init`
does not write. So a misuse is rejected where that mark happens to be found, or where
something else goes wrong first.
-/
namespace Dkftpbench.PollerPoll
open CLib Watch
variable {Client : Type*}

/-- `add` of a descriptor that is monitored, or another call for one that is not. The
descriptor is one that the lookup table has room for. -/
def Misuse (p : PollerPoll Client) (m : Table Client) : Call Client → Prop
  | .add fd _ _ _ => (0 ≤ fd ∧ fd < p.fd2clientAlloc) ∧ m fd ≠ none
  | .del fd | .setMask fd _ | .orMask fd _ | .andMask fd _ => (0 ≤ fd ∧ fd < p.fd2clientAlloc) ∧ m fd = none
  | .init _ | .waitForEvents _ | .getNextEvent => False

/-- The call fails, with no assertion, and the table is as it was. -/
def Rejects (p : PollerPoll Client) (m : Table Client) (c : Call Client) : Prop :=
  ∃ err q, p.call c = some (err, none, q) ∧ err ≠ 0 ∧ Represents q m

/-- `add` runs out of memory, `del` finds the descriptor out of range or marked as absent,
and so does `setMask`. -/
def Caught (p : PollerPoll Client) : Call Client → Prop
  | .add _ _ _ heap => p.pfdsUsed = p.pfdsAlloc ∧ (heap.clients = none ∨ heap.pfds = none)
  | .del fd => fd ≥ p.fd2clientUsed ∨ 0 < p.pfdsUsed ∧ p.fd2pfdnum fd = -1
  | .setMask fd _ => p.fd2pfdnum fd = -1
  | _ => False

/-- Calls that the table allows, and misuse that is caught. -/
def Careful (p : PollerPoll Client) (m : Table Client) (c : Call Client) : Prop := m.Allows c ∨ Misuse p m c ∧ Caught p c

section
variable {p q : PollerPoll Client} {m : Table Client} {fd : ℤ} {client : Option Client} {eventmask : Revents}
variable {heap : Heap Client} {c : Call Client}

theorem growPfds_error_iff :
    (∃ r, p.growPfds heap = .error r) ↔ p.pfdsUsed = p.pfdsAlloc ∧ (heap.clients = none ∨ heap.pfds = none) := by
  unfold growPfds
  split
  · next hfull =>
    cases hclients : heap.clients with
    | none => simp [hfull]
    | some clients =>
        cases hpfds : heap.pfds with
        | none => simp [hfull]
        | some pfds => simp
  · next hfree => simp [hfree]

/-- The lookup table has room. -/
theorem growFds_of_lt (hfd : fd < p.fd2clientAlloc) : p.growFds fd heap = .ok p := if_neg (not_le.2 hfd)

theorem add_rejects_iff (h : Represents p m) (hfd : fd < p.fd2clientAlloc) :
    Rejects p m (.add fd client eventmask heap) ↔ Caught p (.add fd client eventmask heap) := by
  rw [Caught, ← growPfds_error_iff]
  unfold Rejects
  simp only [call, add, growFds_of_lt hfd]
  cases hgrow : p.growPfds heap with
  | error r =>
      obtain ⟨herr, hr⟩ := growPfds_error h hgrow
      refine iff_of_true ⟨r.1, r.2, rfl, ?_, hr⟩ ⟨r, rfl⟩
      rw [herr]
      decide
  | ok q =>
      refine iff_of_false ?_ ?_
      · intro hrejects
        obtain ⟨err, q', heq, herr, _⟩ := hrejects
        cases heq
        exact herr rfl
      · intro hcaught
        obtain ⟨r, heq⟩ := hcaught
        cases heq

theorem del_rejects_iff (h : Represents p m) (h0 : 0 ≤ fd) : Rejects p m (.del fd) ↔ Caught p (.del fd) := by
  unfold Rejects Caught
  simp only [call, del]
  split
  · next hout =>
    refine iff_of_true ⟨EINVAL, p, rfl, by decide, h⟩ (.inl ?_)
    exact hout.resolve_left (not_lt.2 h0)
  · next hout =>
    have hlt : ¬ fd ≥ p.fd2clientUsed := fun hge => hout (.inr hge)
    split
    · next hempty =>
      refine iff_of_false ?_ ?_
      · intro hrejects
        obtain ⟨err, q, heq, _⟩ := hrejects
        cases heq
      · intro hcaught
        exact hempty (hcaught.resolve_left hlt).1
    · next hused =>
      split
      · next hmark => exact iff_of_true ⟨ENOENT, p, rfl, by decide, h⟩ (.inr ⟨not_not.1 hused, hmark⟩)
      · next hmark =>
        refine iff_of_false ?_ fun hcaught => hmark (hcaught.resolve_left hlt).2
        intro hrejects
        obtain ⟨err, q, heq, herr, _⟩ := hrejects
        -- the index is that of another slot, or an assertion fails
        split at heq
        · cases heq
        · cases heq
          exact herr rfl

theorem updateMask_not_rejected {f : Revents → Revents} {err : ℤ} (h : p.updateMask fd f = some (err, q)) : err = 0 := by
  unfold updateMask at h
  dsimp only at h
  split at h
  · cases h
  · cases h
    rfl

theorem setMask_rejects_iff (h : Represents p m) : Rejects p m (.setMask fd eventmask) ↔ Caught p (.setMask fd eventmask) := by
  unfold Rejects Caught
  simp only [call, setMask]
  split
  · next hmark => exact iff_of_true ⟨ENOENT, p, rfl, by decide, h⟩ hmark
  · next hmark =>
    refine iff_of_false ?_ hmark
    intro hrejects
    obtain ⟨err, q, heq, herr, _⟩ := hrejects
    obtain ⟨r, hr, heq⟩ := Option.map_eq_some_iff.1 heq
    cases heq
    exact herr (updateMask_not_rejected hr)

theorem rejects_iff (h : Represents p m) (hc : Misuse p m c) : Rejects p m c ↔ Caught p c := by
  cases c with
  | init | waitForEvents | getNextEvent => cases hc
  | add fd client eventmask heap => exact add_rejects_iff h hc.1.2
  | del fd => exact del_rejects_iff h hc.1.1
  | setMask fd eventmask => exact setMask_rejects_iff h
  | orMask fd eventmask | andMask fd eventmask =>
      refine iff_of_false ?_ id
      intro ⟨err, q, heq, herr, _⟩
      obtain ⟨r, hr, heq⟩ := Option.map_eq_some_iff.1 heq
      cases heq
      exact herr (updateMask_not_rejected hr)

/-- A call that is rejected does not change the table. -/
theorem after_of_misuse {err : ℤ} (hc : Misuse p m c) (herr : err ≠ 0) : m.after err c = m := by
  cases c with
  | init | waitForEvents | getNextEvent => cases hc
  | add => exact if_neg herr
  | del fd =>
      have hnone : m fd = none := hc.2
      rw [Table.after, ← hnone, Function.update_eq_self]
  | setMask fd | orMask fd | andMask fd =>
      have hnone : m fd = none := hc.2
      rw [Table.after, hnone, Option.map_none, ← hnone, Function.update_eq_self]

/-- In every run in which a misuse comes only where it is caught, the poller represents its
table, and a misuse is rejected if and only if it is caught. -/
theorem poll_misuse_iff (h : Run tables Careful p m) :
    Represents p m ∧ ∀ c, Misuse p m c → (Rejects p m c ↔ Caught p c) := by
  have hr : Represents p m := by
    apply h.invariant
    · intro p m ⟨p₀, heap, hp, hm⟩
      rw [hm]
      exact init_represents hp
    · intro p m c q hr hok ⟨err, ev, hq⟩
      simp only [tables, hq]
      rcases hok with hallowed | ⟨hmisuse, hcaught⟩
      · exact step_represents hr hallowed hq
      · obtain ⟨err', q', hq', herr, hr'⟩ := (rejects_iff hr hmisuse).2 hcaught
        rw [hq] at hq'
        cases hq'
        rw [after_of_misuse hmisuse herr]
        exact hr'
  exact ⟨hr, fun c hc => rejects_iff hr hc⟩

instance (p : PollerPoll Client) (m : Table Client) : (c : Call Client) → Decidable (Misuse p m c)
  | .add fd _ _ _ => inferInstanceAs (Decidable ((0 ≤ fd ∧ fd < p.fd2clientAlloc) ∧ m fd ≠ none))
  | .del fd | .setMask fd _ | .orMask fd _ | .andMask fd _ =>
    inferInstanceAs (Decidable ((0 ≤ fd ∧ fd < p.fd2clientAlloc) ∧ m fd = none))
  | .init _ | .waitForEvents _ | .getNextEvent => inferInstanceAs (Decidable False)

instance (p : PollerPoll Client) : (c : Call Client) → Decidable (Caught p c)
  | .add _ _ _ heap => inferInstanceAs (Decidable (p.pfdsUsed = p.pfdsAlloc ∧ (heap.clients = none ∨ heap.pfds = none)))
  | .del fd => inferInstanceAs (Decidable (fd ≥ p.fd2clientUsed ∨ 0 < p.pfdsUsed ∧ p.fd2pfdnum fd = -1))
  | .setMask fd _ => inferInstanceAs (Decidable (p.fd2pfdnum fd = -1))
  | .init _ | .orMask _ _ | .andMask _ _ | .waitForEvents _ | .getNextEvent => inferInstanceAs (Decidable False)

instance (p : PollerPoll Client) (m : Table Client) (c : Call Client) : Decidable (Careful p m c) :=
  inferInstanceAs (Decidable (m.Allows c ∨ Misuse p m c ∧ Caught p c))

end

/-- A second `del` comes where the first has left the mark. -/
theorem poll_misuse_del : ∃ (p : PollerPoll ℕ) (m : Table ℕ), Run tables Careful p m ∧
    Misuse p m (.setMask 5 POLLIN) ∧ (Rejects p m (.setMask 5 POLLIN) ↔ Caught p (.setMask 5 POLLIN)) := by
  have hfollow : ((follow (guarded Careful run) tables.note
      (init raw sevens).2 (fun _ => none)
      [.add 5 (some 0) POLLIN sevens, .add 6 (some 1) POLLIN sevens, .del 5, .del 5]).map fun r =>
        decide (Misuse r.1 r.2 (.setMask 5 POLLIN))) = some true := by
    decide +kernel
  obtain ⟨⟨p, m⟩, hr, heq⟩ := Option.map_eq_some_iff.1 hfollow
  have hrun : Run tables Careful p m :=
    Run.follow_guarded (fun _ _ _ => exists_of_map_snd) (.start ⟨raw, sevens, rfl, rfl⟩) hr
  have hmisuse := of_decide_eq_true heq
  exact ⟨p, m, hrun, hmisuse, (poll_misuse_iff hrun).2 _ hmisuse⟩

/-- A second `add` succeeds, and lists the descriptor twice. -/
theorem poll_added_twice : ¬ ∀ (p : PollerPoll ℕ) (m : Table ℕ) (c : Call ℕ),
    Run tables (fun _ m c => m.Allows c) p m → Misuse p m c → Rejects p m c := by
  intro hall
  have hfollow : ((follow (guarded (fun _ m c => m.Allows c) run) tables.note (init raw sevens).2 (fun _ => none)
      [.add 5 (some 0) POLLIN sevens]).map fun r => (decide (Misuse r.1 r.2 (.add 5 (some 1) POLLIN sevens)),
        (r.1.add 5 (some 1) POLLIN sevens).1)) = some (true, 0) := by
    decide +kernel
  obtain ⟨⟨p, m⟩, hr, heq⟩ := Option.map_eq_some_iff.1 hfollow
  rw [Prod.mk.injEq] at heq
  have hrun : Run tables (fun _ m c => m.Allows c) p m :=
    Run.follow_guarded (fun _ _ _ => exists_of_map_snd) (.start ⟨raw, sevens, rfl, rfl⟩) hr
  obtain ⟨err, q, hcall, herr, _⟩ := hall p m _ hrun (of_decide_eq_true heq.1)
  cases hcall
  exact herr heq.2

end Dkftpbench.PollerPoll
