import Dkftpbench.PollTable
import Dkftpbench.SigioBackup
import Dkftpbench.SigioSound

/-!
# What Poller_sigio makes of misuse

The mask functions look whether their descriptor is in use. `add` and `del` do not, and
change `m_fds_used`, which counts the descriptors and guards every operation. The backup
does look, so `add` and `del` return its error after they changed everything else.
-/
namespace Dkftpbench.PollerSigio
open CLib
variable {Client : Type*}

section
variable {s t : PollerSigio Client} {M : Finset ℤ} {L : List ℤ} {fd : ℤ}
variable {fcntl : Fcntl → Option ℤ}

theorem linkLast_fdsUsed : (s.linkLast fd).fdsUsed = s.fdsUsed := by
  unfold linkLast
  split
  · rfl
  · rfl

theorem readyListUpdate_fdsUsed (h : s.readyListUpdate fd = some t) : t.fdsUsed = s.fdsUsed := by
  unfold readyListUpdate at h
  split at h
  · split at h
    · unfold readyListDel at h
      dsimp only at h
      split at h
      · cases h
      · split at h
        · split at h
          · cases h
          · cases h
            rfl
        · cases h
          rfl
    · cases h
      rfl
  · split at h
    · unfold readyListAdd at h
      split at h
      · cases h
      · cases h
        exact linkLast_fdsUsed
    · cases h
      rfl

/-- A descriptor that is added again is counted again, if no assertion fails. -/
theorem add_fdsUsed {client : Option Client} {eventmask : Revents} {ans : Answers Client} {r : ℤ × PollerSigio Client}
    (hfd : fd < s.fdsAlloc) (hfcntl : addFcntls.findSome? ans.fcntl = none)
    (h : s.add fd client eventmask ans = some r) : r.2.fdsUsed = s.fdsUsed+1 := by
  have hgrow : s.grow fd ans.memory = some s := if_neg (not_le.2 hfd)
  have hfcntl' : [Fcntl.getfl, .setfl, .setsig, .setown].findSome? ans.fcntl = none := hfcntl
  unfold add at h
  rw [hgrow] at h
  dsimp only at h
  rw [hfcntl'] at h
  obtain ⟨t, ht, rfl⟩ := Option.map_eq_some_iff.1 h
  exact readyListUpdate_fdsUsed ht

/-- A descriptor that is not monitored is counted off. -/
theorem del_unmonitored (backup : ℤ) (h : Sound s M L) (h0 : 0 ≤ fd) (hlt : fd < s.fdsAlloc) (hfd : fd ∉ M)
    (hfcntl : delFcntls.findSome? fcntl = none) (hused : s.fdsUsed ≠ 0) :
    ∃ t, s.del fd fcntl backup = some (backup, t) ∧ t.fdsUsed = s.fdsUsed-1 := by
  have hclear : s.fds fd = .clear := h.clear fd h0 hlt hfd
  have hfcntl' : [Fcntl.getfl, .setfl].findSome? fcntl = none := hfcntl
  have hoff : (s.fds fd).isOnReadyList = false := by
    rw [hclear]
    rfl
  unfold del
  rw [if_neg (by omega), hfcntl']
  dsimp only
  rw [hoff]
  exact ⟨_, rfl, rfl⟩

theorem outside_of_notMem (h : Sound s M L) (hfd : fd ∉ M) : s.outside fd = true := by
  rw [← Bool.not_eq_false]
  exact hfd ∘ h.outside_iff.1

end

end Dkftpbench.PollerSigio

namespace Dkftpbench.BackedSigio
open CLib Watch PollerSigio
variable {Client : Type*}

/-- What a well-behaved user calls. -/
def Allows (M : Finset ℤ) (c : Call Client) : Prop := PollerSigio.Allows M (c.plain 0 [])

/-- The runs from `init` on, with the descriptors that are monitored. -/
def backedSigios : System (BackedSigio Client) (Call Client) (Finset ℤ) where
  start w M := ∃ w₀ cells heap, w = (init w₀ (some cells) heap).2 ∧ M = ∅
  step w c t := ∃ err ev, w.call c = some (err, ev, t)
  note M w c _ := PollerSigio.monitors M w.poller (c.plain 0 [])

/-- `add` of a descriptor that is monitored, or another call for one that is not. The
descriptor is one that the array has room for, and is open, so that `fcntl` succeeds. -/
def Misuse (w : BackedSigio Client) (M : Finset ℤ) : Call Client → Prop
  | .add fd _ _ _ fcntl _ => (0 ≤ fd ∧ fd < w.poller.fdsAlloc) ∧ fd ∈ M ∧ addFcntls.findSome? fcntl = none
  | .del fd fcntl => (0 ≤ fd ∧ fd < w.poller.fdsAlloc) ∧ fd ∉ M ∧ delFcntls.findSome? fcntl = none
  | .setMask fd _ | .orMask fd _ | .andMask fd _ => (0 ≤ fd ∧ fd < w.poller.fdsAlloc) ∧ fd ∉ M
  | .init .. | .clearReadiness .. | .waitForEvents .. | .getNextEvent => False

/-- The descriptors, the ready list and the count are as they were. -/
structure Unchanged (s t : PollerSigio Client) : Prop where
  fds : t.fds = s.fds
  readyHead : t.readyHead = s.readyHead
  readyNext : t.readyNext = s.readyNext
  readyCount : t.readyCount = s.readyCount
  fdsUsed : t.fdsUsed = s.fdsUsed

/-- The call fails, with no assertion, and changes nothing. -/
def Rejects (w : BackedSigio Client) (c : Call Client) : Prop :=
  ∃ err t, w.call c = some (err, none, t) ∧ err ≠ 0 ∧ Unchanged w.poller t.poller

/-- A mask function, or `del` while nothing is monitored. -/
def Caught (w : BackedSigio Client) : Call Client → Prop
  | .setMask .. | .orMask .. | .andMask .. => True
  | .del .. => w.poller.fdsUsed = 0
  | _ => False

/-- Calls that are allowed, and misuse that is caught. -/
def Careful (w : BackedSigio Client) (M : Finset ℤ) (c : Call Client) : Prop :=
  Allows M c ∨ Misuse w M c ∧ Caught w c

section
variable {w t : BackedSigio Client} {M : Finset ℤ} {L : List ℤ} {c : Call Client}

theorem Unchanged.rfl' {s : PollerSigio Client} : Unchanged s s := ⟨rfl, rfl, rfl, rfl, rfl⟩

/-- What the backup returns does not matter to the user. -/
theorem Allows.plain (h : Allows M c) (backup : ℤ) (events : List (PollEvent Client)) :
    PollerSigio.Allows M (c.plain backup events) := by
  cases c with
  | init | add | del | setMask | orMask | andMask | clearReadiness => exact h
  | waitForEvents | getNextEvent => trivial

theorem monitors_plain (s : PollerSigio Client) (backup : ℤ) (events : List (PollEvent Client)) :
    PollerSigio.monitors M s (c.plain backup events) = PollerSigio.monitors M s (c.plain 0 []) := by
  cases c with
  | init | add | del | setMask | orMask | andMask | clearReadiness | waitForEvents | getNextEvent => rfl

/-- A misuse that is caught leaves the poller and the backup as they were. -/
theorem caught_call (h : Sound w.poller M L) (hc : Misuse w M c) (hcaught : Caught w c) :
    (∃ err, err ≠ 0 ∧ w.call c = some (err, none, w)) ∧ PollerSigio.monitors M w.poller (c.plain 0 []) = M := by
  cases c with
  | init | clearReadiness | waitForEvents | getNextEvent => cases hc
  | add => cases hcaught
  | del fd fcntl =>
      constructor
      · refine ⟨EINVAL, by decide, ?_⟩
        have hguard : fd < 0 ∨ fd ≥ w.poller.fdsAlloc ∨ w.poller.fdsUsed = 0 := .inr (.inr hcaught)
        rw [call, del, if_pos (.inl hguard), PollerSigio.del, if_pos hguard]
        rfl
      · rw [Call.plain, monitors, if_pos hc.2.2]
        exact Finset.erase_eq_of_notMem hc.2.1
  | setMask fd eventmask | orMask fd eventmask | andMask fd eventmask =>
      refine ⟨⟨ENOENT, by decide, ?_⟩, rfl⟩
      have hout := outside_of_notMem h hc.2
      simp only [call, PollerSigio.call, setMask, orMask, andMask, updateMask, hout, if_true, Option.map_some]
      rfl

theorem rejects_iff (h : Sound w.poller M L) (hc : Misuse w M c) : Rejects w c ↔ Caught w c := by
  refine ⟨?_, ?_⟩
  · intro ⟨err, t, heq, _, hsame⟩
    obtain ⟨backup, events, hcall⟩ := call_plain heq
    cases c with
    | init | clearReadiness | waitForEvents | getNextEvent => cases hc
    | add fd client eventmask memory fcntl heap =>
        obtain ⟨r, hr, heq⟩ := Option.map_eq_some_iff.1 hcall
        have hused := add_fdsUsed hc.1.2 hc.2.2 hr
        have hkept := hsame.fdsUsed
        have hres : r.2 = t.poller := congrArg (fun q => q.2.2) heq
        rw [hres] at hused
        omega
    | del fd fcntl =>
        by_contra hused
        obtain ⟨u, hu, hless⟩ := del_unmonitored backup h hc.1.1 hc.1.2 hc.2.1 hc.2.2 hused
        rw [Call.plain, PollerSigio.call, hu] at hcall
        have hres : u = t.poller := congrArg (fun q => q.2.2) (Option.some.inj hcall)
        have hkept := hsame.fdsUsed
        rw [hres] at hless
        have hused' : w.poller.fdsUsed ≠ 0 := hused
        omega
    | setMask | orMask | andMask => trivial
  · intro hcaught
    obtain ⟨⟨err, herr, hcall⟩, _⟩ := caught_call h hc hcaught
    exact ⟨err, w, hcall, herr, .rfl'⟩

theorem allowed_call (h : Sound w.poller M L) (hc : Allows M c) {err : ℤ} {ev : Option (PollEvent Client)}
    (hcall : w.call c = some (err, ev, t)) :
    ∃ L', Sound t.poller (PollerSigio.monitors M w.poller (c.plain 0 [])) L' := by
  obtain ⟨backup, events, hplain⟩ := call_plain hcall
  obtain ⟨r, hr, L', hL'⟩ := call_sound h (hc.plain backup events)
  rw [hplain] at hr
  cases hr
  rw [monitors_plain] at hL'
  exact ⟨L', hL'⟩

/-- A well-behaved user's run with the backup is one of the poller alone, and what holds of
these whatever the backup returns holds of it. -/
theorem sigios_of_backed (h : Run backedSigios (fun _ M c => Allows M c) w M) :
    Run sigios (fun _ M c => PollerSigio.Allows M c) w.poller M := by
  induction h with
  | start hstart =>
      obtain ⟨w₀, cells, heap, rfl, rfl⟩ := hstart
      exact .start ⟨w₀.poller, cells, (w₀.backup.init heap).1, rfl, rfl⟩
  | @next w t M c _ hc hs ih =>
      obtain ⟨err, ev, hcall⟩ := hs
      obtain ⟨backup, events, hplain⟩ := call_plain hcall
      have hnext := ih.next (hc.plain backup events) ⟨err, ev, hplain⟩
      have hnote : sigios.note M w.poller (c.plain backup events) t.poller = backedSigios.note M w c t :=
        monitors_plain w.poller backup events
      rwa [hnote] at hnext

/-- In every run in which a misuse comes only where it is caught, the count and the ready
list are right, no operation finds a monitored descriptor outside, and a misuse is rejected
if and only if it is caught. -/
theorem sigio_misuse_iff (h : Run backedSigios Careful w M) :
    (∃ L, Sound w.poller M L) ∧ (∀ fd ∈ M, w.poller.outside fd = false) ∧
      ∀ c, Misuse w M c → (Rejects w c ↔ Caught w c) := by
  have hsound : ∃ L, Sound w.poller M L := by
    apply h.invariant
    · intro w M ⟨w₀, cells, heap, hw, hM⟩
      rw [hw, hM]
      exact ⟨[], init_sound (w₀.backup.init heap).1 cells⟩
    · intro w M c t ⟨L, hsound⟩ hok ⟨err, ev, ht⟩
      rcases hok with hallowed | ⟨hmisuse, hcaught⟩
      · exact allowed_call hsound hallowed ht
      · obtain ⟨⟨err', _, hcall⟩, hsame⟩ := caught_call hsound hmisuse hcaught
        rw [ht] at hcall
        cases hcall
        refine ⟨L, ?_⟩
        simp only [backedSigios, hsame]
        exact hsound
  obtain ⟨L, hL⟩ := hsound
  exact ⟨⟨L, hL⟩, fun fd hfd => hL.outside_iff.2 hfd, fun c hc => rejects_iff hL hc⟩

instance (w : BackedSigio Client) (M : Finset ℤ) : (c : Call Client) → Decidable (Misuse w M c)
  | .add fd _ _ _ fcntl _ =>
    inferInstanceAs (Decidable ((0 ≤ fd ∧ fd < w.poller.fdsAlloc) ∧ fd ∈ M ∧ addFcntls.findSome? fcntl = none))
  | .del fd fcntl =>
    inferInstanceAs (Decidable ((0 ≤ fd ∧ fd < w.poller.fdsAlloc) ∧ fd ∉ M ∧ delFcntls.findSome? fcntl = none))
  | .setMask fd _ | .orMask fd _ | .andMask fd _ =>
    inferInstanceAs (Decidable ((0 ≤ fd ∧ fd < w.poller.fdsAlloc) ∧ fd ∉ M))
  | .init .. | .clearReadiness .. | .waitForEvents .. | .getNextEvent => inferInstanceAs (Decidable False)

instance (w : BackedSigio Client) : (c : Call Client) → Decidable (Caught w c)
  | .setMask .. | .orMask .. | .andMask .. => inferInstanceAs (Decidable True)
  | .del .. => inferInstanceAs (Decidable (w.poller.fdsUsed = 0))
  | .init .. | .add .. | .clearReadiness .. | .waitForEvents .. | .getNextEvent => inferInstanceAs (Decidable False)

instance (M : Finset ℤ) (c : Call Client) : Decidable (Allows M c) :=
  inferInstanceAs (Decidable (PollerSigio.Allows M (c.plain 0 [])))

instance (w : BackedSigio Client) (M : Finset ℤ) (c : Call Client) : Decidable (Careful w M c) :=
  inferInstanceAs (Decidable (Allows M c ∨ Misuse w M c ∧ Caught w c))

end

/-- Before `init`. -/
def raw : BackedSigio ℕ := ⟨PollerSigio.raw, PollerPoll.raw⟩

/-- After `init`, which succeeds. -/
def opened : BackedSigio ℕ := (raw.init (some fun _ => .clear) PollerPoll.sevens).2

theorem opened_start : backedSigios.start opened ∅ := ⟨raw, _, PollerPoll.sevens, rfl, rfl⟩

/-- `add` with all the memory, and every `fcntl` succeeds. -/
def Call.willing (fd : ℤ) (client : ℕ) : Call ℕ :=
  .add fd (some client) POLLIN (some fun _ => .clear) (fun _ => none) PollerPoll.sevens

/-- An extra `del` while nothing is monitored, and a mask for a descriptor that is not. -/
theorem sigio_misuse_late : ∃ (w : BackedSigio ℕ) (M : Finset ℤ), Run backedSigios Careful w M ∧ M = {6} ∧
    (Rejects w (.setMask 5 POLLIN) ↔ Caught w (.setMask 5 POLLIN)) := by
  have hfollow : ((follow (guarded Careful run) backedSigios.note opened ∅
      [.willing 5 0, .del 5 fun _ => none, .del 5 fun _ => none, .willing 6 1, .orMask 5 POLLOUT]).map fun r =>
        (decide (Misuse r.1 r.2 (.setMask 5 POLLIN)), r.2)) = some (true, {6}) := by
    decide +kernel
  obtain ⟨⟨w, M⟩, hr, heq⟩ := Option.map_eq_some_iff.1 hfollow
  rw [Prod.mk.injEq] at heq
  have hrun : Run backedSigios Careful w M :=
    Run.follow_guarded (fun _ _ _ => exists_of_map_snd) (.start opened_start) hr
  exact ⟨w, M, hrun, heq.2, (sigio_misuse_iff hrun).2.2 _ (of_decide_eq_true heq.1)⟩

/-- An extra `del` returns the backup's error but lowers the count, and then a mask is
refused to a descriptor that is still monitored. -/
theorem sigio_deleted_twice : (¬ ∀ (w : BackedSigio ℕ) (M : Finset ℤ) (c : Call ℕ),
    Run backedSigios (fun _ M c => Allows M c) w M → Misuse w M c → Rejects w c) ∧
    ((follow (fun w _ c => run w c) backedSigios.note opened ∅
      [.willing 5 0, .willing 6 1, .del 5 fun _ => none, .del 5 fun _ => none]).map fun r =>
        ((r.1.poller.setMask 6 POLLIN).map Prod.fst, r.2)) = some (some ENOENT, {6}) := by
  refine ⟨?_, by decide +kernel⟩
  intro hall
  have hfollow : ((follow (guarded (fun _ M c => Allows M c) run) backedSigios.note opened ∅
      [.willing 5 0, .willing 6 1, .del 5 fun _ => none]).map fun r =>
        (decide (Misuse r.1 r.2 (.del 5 fun _ => none)), r.1.poller.fdsUsed,
          (r.1.del 5 fun _ => none).map fun q => (q.1, q.2.poller.fdsUsed))) =
      some (true, 1, some (ENOENT, 0)) := by
    decide +kernel
  obtain ⟨⟨w, M⟩, hr, heq⟩ := Option.map_eq_some_iff.1 hfollow
  rw [Prod.mk.injEq, Prod.mk.injEq, Option.map_eq_some_iff] at heq
  obtain ⟨hmisuse, hone, r, hdel, hzero⟩ := heq
  have hrun : Run backedSigios (fun _ M c => Allows M c) w M :=
    Run.follow_guarded (fun _ _ _ => exists_of_map_snd) (.start opened_start) hr
  obtain ⟨err, t, hcall, _, hsame⟩ := hall w M _ hrun (of_decide_eq_true hmisuse)
  rw [call, hdel] at hcall
  cases hcall
  have hkept : r.2.poller.fdsUsed = w.poller.fdsUsed := hsame.fdsUsed
  have hone' : w.poller.fdsUsed = 1 := hone
  have hzero' : r.2.poller.fdsUsed = 0 := (Prod.mk.inj hzero).2
  omega

end Dkftpbench.BackedSigio
