import Dkftpbench.WakeUpPipe

/-!
# No wake-up is lost

A byte in the pipe makes its descriptor readable, and what is readable Poller_sigio knows or
will be told, as long as its user clears readiness only after a read that would have
blocked. The client of the pipe stops reading when its buffer is not filled. Then the pipe was empty,
and what is written since is signalled again.
-/
namespace Dkftpbench
open CLib Watch

namespace PollerSigio
variable {Client : Type*} {s t u : PollerSigio Client} {fd x : ℤ}

theorem linkLast_relinked (s : PollerSigio Client) (fd : ℤ) : Relinked s (s.linkLast fd) := by
  unfold linkLast
  split
  · have h : Relinked s ((s.setNext fd fd).setPrev fd fd) := (Relinked.rfl'.setNext fd).setPrev fd
    exact ⟨h.alloc, h.used, h.state⟩
  · exact (((Relinked.rfl'.setPrev _).setNext _).setNext _).setPrev _

theorem readyListDel_relinked (h : s.readyListDel fd = some t) : Relinked s t := by
  unfold readyListDel at h
  dsimp only at h
  split at h
  · cases h
  · split at h
    · split at h
      · cases h
      · cases h
        have hrest : Relinked s { s with readyHead := -1, readyNext := -1 } := ⟨rfl, rfl, fun _ => ⟨rfl, rfl, rfl⟩⟩
        exact hrest.unlinked
    · cases h
      exact (Relinked.splice _ _).unlinked

theorem readyListUpdate_relinked (h : s.readyListUpdate fd = some t) : Relinked s t := by
  unfold readyListUpdate at h
  split at h
  · split at h
    · exact readyListDel_relinked h
    · cases h
      exact .rfl'
  · split at h
    · unfold readyListAdd at h
      split at h
      · cases h
      · cases h
        have hlinks := linkLast_relinked s fd
        exact ⟨hlinks.alloc, hlinks.used, hlinks.state⟩
    · cases h
      exact .rfl'

/-- The mask functions leave the clients alone, and the masks of the other descriptors. -/
theorem updateMask_entry {f : Revents → Revents} {r : ℤ × PollerSigio Client} (h : s.updateMask fd f = some r) (x : ℤ) :
    (r.2.fds x).client = (s.fds x).client ∧ (x ≠ fd → (r.2.fds x).mask = (s.fds x).mask) := by
  unfold updateMask at h
  split at h
  · cases h
    exact ⟨rfl, fun _ => rfl⟩
  · obtain ⟨t, ht, rfl⟩ := Option.map_eq_some_iff.1 h
    obtain ⟨hclient, hmask, -⟩ := (readyListUpdate_relinked ht).state x
    rw [hclient, hmask]
    by_cases hx : x = fd
    · rw [hx, modify_self]
      exact ⟨rfl, fun hne => absurd rfl hne⟩
    · rw [modify_of_ne hx]
      exact ⟨rfl, fun _ => rfl⟩

/-- What changes readiness leaves the clients and the masks alone. -/
theorem updateReady_entry {f : Revents → Revents} (h : s.updateReady fd f = some t) (x : ℤ) :
    (t.fds x).client = (s.fds x).client ∧ (t.fds x).mask = (s.fds x).mask := by
  unfold updateReady at h
  split at h
  · cases h
    exact ⟨rfl, rfl⟩
  · obtain ⟨hclient, hmask, -⟩ := (readyListUpdate_relinked h).state x
    rw [hclient, hmask]
    by_cases hx : x = fd
    · rw [hx, modify_self]
      exact ⟨rfl, rfl⟩
    · rw [modify_of_ne hx]
      exact ⟨rfl, rfl⟩

theorem takeBackup_entry {event : PollEvent Client} (h : s.takeBackup event = some t) (x : ℤ) :
    (t.fds x).client = (s.fds x).client ∧ (t.fds x).mask = (s.fds x).mask := by
  unfold takeBackup at h
  split at h
  · cases h
    exact ⟨rfl, rfl⟩
  · split at h
    · cases h
      exact ⟨rfl, rfl⟩
    · exact updateReady_entry h x

theorem grow_entry {memory : Option (ℤ → FdState Client)} (h : s.grow fd memory = some u) (hx : x < s.fdsAlloc) :
    u.fds x = s.fds x := by
  unfold grow at h
  split at h
  · obtain ⟨cells, -, rfl⟩ := Option.map_eq_some_iff.1 h
    dsimp only
    rw [clearNew_of_lt hx, if_pos hx]
  · cases h
    rfl

/-- An `add` that is not refused gives its descriptor the client and the mask, and leaves
the others alone. -/
theorem add_entry {client : Option Client} {mask : Revents} {ans : Answers Client} {r : ℤ × PollerSigio Client}
    (h : s.add fd client mask ans = some r) (hx : x < s.fdsAlloc) (hne : x ≠ fd) :
    (r.2.fds x).client = (s.fds x).client ∧ (r.2.fds x).mask = (s.fds x).mask := by
  unfold add at h
  split at h
  · cases h
    exact ⟨rfl, rfl⟩
  · next u hu =>
    have hgrow := grow_entry hu hx
    split at h
    · cases h
      dsimp only
      rw [hgrow]
      exact ⟨rfl, rfl⟩
    · obtain ⟨t, ht, rfl⟩ := Option.map_eq_some_iff.1 h
      obtain ⟨hclient, hmask, -⟩ := (readyListUpdate_relinked ht).state x
      rw [modify_of_ne hne] at hclient hmask
      dsimp only
      rw [modify_of_ne hne, hclient, hmask, hgrow]
      exact ⟨rfl, rfl⟩

theorem add_entry_self {client : Option Client} {mask : Revents} {ans : Answers Client} {r : ℤ × PollerSigio Client}
    (h : s.add fd client mask ans = some r) (hgrow : (s.grow fd ans.memory).isSome = true)
    (hfcntl : addFcntls.findSome? ans.fcntl = none) : (r.2.fds fd).client = client ∧ (r.2.fds fd).mask = mask := by
  obtain ⟨u, hu⟩ := Option.isSome_iff_exists.1 hgrow
  unfold add at h
  rw [hu] at h
  dsimp only at h
  rw [show [Fcntl.getfl, .setfl, .setsig, .setown].findSome? ans.fcntl = none from hfcntl] at h
  obtain ⟨t, ht, rfl⟩ := Option.map_eq_some_iff.1 h
  obtain ⟨-, hmask, -⟩ := (readyListUpdate_relinked ht).state fd
  rw [modify_self] at hmask ⊢
  exact ⟨rfl, hmask⟩

theorem del_entry {fcntl : Fcntl → Option ℤ} {backup : ℤ} {r : ℤ × PollerSigio Client}
    (h : s.del fd fcntl backup = some r) (hne : x ≠ fd) :
    (r.2.fds x).client = (s.fds x).client ∧ (r.2.fds x).mask = (s.fds x).mask := by
  unfold del at h
  split at h
  · cases h
    exact ⟨rfl, rfl⟩
  · split at h
    · cases h
      exact ⟨rfl, rfl⟩
    · obtain ⟨t, ht, rfl⟩ := Option.map_eq_some_iff.1 h
      have hsame : (t.modify fd fun _ => .clear).fds x = t.fds x := modify_of_ne hne
      dsimp only
      rw [hsame]
      split at ht
      · obtain ⟨hclient, hmask, -⟩ := (readyListDel_relinked ht).state x
        exact ⟨hclient, hmask⟩
      · cases ht
        exact ⟨rfl, rfl⟩

end PollerSigio

namespace SigioWorld
variable {Client : Type*} {w w' : SigioWorld Client} {g : Notes Client} {k : Happening Client} {x : ℤ}

theorem edge_ready (s : Signals) (fd : ℤ) (bits band : Revents) (delivery : Delivery) :
    (s.edge fd bits band delivery).ready = Function.update s.ready fd (s.ready fd ||| bits) := by
  cases delivery with
  | queued | overflow | discarded => rfl

/-- What happens to other descriptors. -/
theorem step_ready (hw : w.step k = some w') (hx : k.fd ≠ some x) : w'.kernel.ready x = w.kernel.ready x := by
  cases k with
  | edge fd bits band delivery =>
      have hne : x ≠ fd := fun heq => hx (congrArg some heq.symm)
      cases hw
      dsimp only
      rw [edge_ready, Function.update_of_ne hne]
  | drain fd bits =>
      have hne : x ≠ fd := fun heq => hx (congrArg some heq.symm)
      cases hw
      exact Function.update_of_ne hne _ _
  | wouldBlock =>
      obtain ⟨-, hw⟩ := Option.ite_none_right_eq_some.1 hw
      cases hw
      rfl
  | add fd client mask memory heap =>
      obtain ⟨-, hw⟩ := Option.ite_none_right_eq_some.1 hw
      rw [SigioWorld.add_eq] at hw
      split at hw
      · cases hw
        rfl
      · obtain ⟨r, -, rfl⟩ := Option.map_eq_some_iff.1 hw
        rfl
  | del fd =>
      obtain ⟨-, hw⟩ := Option.ite_none_right_eq_some.1 hw
      rw [SigioWorld.del_eq] at hw
      split at hw
      · cases hw
        rfl
      · obtain ⟨b, -, hw⟩ := Option.bind_eq_some_iff.1 hw
        obtain ⟨r, -, rfl⟩ := Option.map_eq_some_iff.1 hw
        rfl
  | setMask | orMask | andMask | clearReadiness =>
      obtain ⟨-, hw⟩ := Option.ite_none_right_eq_some.1 hw
      obtain ⟨r, -, rfl⟩ := Option.map_eq_some_iff.1 hw
      rfl
  | getNextEvent | waitForEvents | pullSigio | pullNone | ignore | restore | poll =>
      obtain ⟨-, hw⟩ := Option.ite_none_right_eq_some.1 hw
      cases hw
      rfl
  | pullSignal =>
      obtain ⟨-, info, queue, s, -, -, rfl⟩ := pullSignal_step hw
      rfl
  | takeBackup =>
      obtain ⟨-, err, q, ⟨-, rfl⟩ | ⟨e, s, -, -, rfl⟩⟩ := takeBackup_step hw
      · rfl
      · rfl

theorem add_self {fd : ℤ} {client : Option Client} {mask : Revents} {memory : Option (ℤ → FdState Client)}
    {heap : Heap Client} (hw : w.add fd client mask memory heap = some w') (hgrow : (w.poller.grow fd memory).isSome = true) :
    (w'.poller.fds fd).client = client ∧ (w'.poller.fds fd).mask = mask ∧ w'.kernel = w.kernel := by
  obtain ⟨u, hu⟩ := Option.isSome_iff_exists.1 hgrow
  rw [SigioWorld.add_eq] at hw
  rw [hu] at hw
  obtain ⟨r, hr, rfl⟩ := Option.map_eq_some_iff.1 hw
  obtain ⟨hclient, hmask⟩ := PollerSigio.add_entry_self hr hgrow rfl
  exact ⟨hclient, hmask, rfl⟩

theorem add_other {fd : ℤ} {client : Option Client} {mask : Revents} {memory : Option (ℤ → FdState Client)}
    {heap : Heap Client} (hw : w.add fd client mask memory heap = some w') (hx : x < w.poller.fdsAlloc) (hne : x ≠ fd) :
    (w'.poller.fds x).client = (w.poller.fds x).client ∧ (w'.poller.fds x).mask = (w.poller.fds x).mask := by
  rw [SigioWorld.add_eq] at hw
  split at hw
  · cases hw
    exact ⟨rfl, rfl⟩
  · obtain ⟨r, hr, rfl⟩ := Option.map_eq_some_iff.1 hw
    exact PollerSigio.add_entry hr hx hne

/-- Only `add` and `del` change whom a descriptor belongs to. -/
theorem step_entry (hw : w.step k = some w') (hx : x < w.poller.fdsAlloc)
    (hadd : ∀ client mask memory heap, k ≠ .add x client mask memory heap) (hdel : k ≠ .del x) :
    (w'.poller.fds x).client = (w.poller.fds x).client ∧
      (k.fd ≠ some x → (w'.poller.fds x).mask = (w.poller.fds x).mask) := by
  cases k with
  | edge | drain =>
      cases hw
      exact ⟨rfl, fun _ => rfl⟩
  | wouldBlock =>
      obtain ⟨-, hw⟩ := Option.ite_none_right_eq_some.1 hw
      cases hw
      exact ⟨rfl, fun _ => rfl⟩
  | add fd client mask memory heap =>
      have hne : x ≠ fd := fun heq => hadd client mask memory heap (heq ▸ rfl)
      obtain ⟨-, hw⟩ := Option.ite_none_right_eq_some.1 hw
      obtain ⟨hclient, hmask⟩ := add_other hw hx hne
      exact ⟨hclient, fun _ => hmask⟩
  | del fd =>
      have hne : x ≠ fd := fun heq => hdel (heq ▸ rfl)
      obtain ⟨-, hw⟩ := Option.ite_none_right_eq_some.1 hw
      rw [SigioWorld.del_eq] at hw
      split at hw
      · cases hw
        exact ⟨rfl, fun _ => rfl⟩
      · obtain ⟨b, -, hw⟩ := Option.bind_eq_some_iff.1 hw
        obtain ⟨r, hr, rfl⟩ := Option.map_eq_some_iff.1 hw
        obtain ⟨hclient, hmask⟩ := PollerSigio.del_entry hr hne
        exact ⟨hclient, fun _ => hmask⟩
  | setMask fd | orMask fd | andMask fd =>
      obtain ⟨-, hw⟩ := Option.ite_none_right_eq_some.1 hw
      obtain ⟨r, hr, rfl⟩ := Option.map_eq_some_iff.1 hw
      obtain ⟨hclient, hmask⟩ := PollerSigio.updateMask_entry hr x
      exact ⟨hclient, fun hne => hmask fun heq => hne (congrArg some heq.symm)⟩
  | clearReadiness =>
      obtain ⟨-, hw⟩ := Option.ite_none_right_eq_some.1 hw
      obtain ⟨s, hs, rfl⟩ := Option.map_eq_some_iff.1 hw
      obtain ⟨hclient, hmask⟩ := PollerSigio.updateReady_entry hs x
      exact ⟨hclient, fun _ => hmask⟩
  | getNextEvent =>
      obtain ⟨-, hw⟩ := Option.ite_none_right_eq_some.1 hw
      cases hw
      dsimp only
      rw [PollerSigio.getNextEvent_fds]
      exact ⟨rfl, fun _ => rfl⟩
  | waitForEvents | pullSigio | pullNone | ignore | restore | poll =>
      obtain ⟨-, hw⟩ := Option.ite_none_right_eq_some.1 hw
      cases hw
      exact ⟨rfl, fun _ => rfl⟩
  | pullSignal =>
      obtain ⟨-, info, queue, s, -, hs, rfl⟩ := pullSignal_step hw
      obtain ⟨hclient, hmask⟩ := PollerSigio.updateReady_entry hs x
      exact ⟨hclient, fun _ => hmask⟩
  | takeBackup =>
      obtain ⟨-, err, q, ⟨-, rfl⟩ | ⟨e, s, -, hs, rfl⟩⟩ := takeBackup_step hw
      · exact ⟨rfl, fun _ => rfl⟩
      · obtain ⟨hclient, hmask⟩ := PollerSigio.takeBackup_entry hs x
        exact ⟨hclient, fun _ => hmask⟩

/-- And only these change whether it is monitored. -/
theorem mem_monitored_after (hadd : ∀ client mask memory heap, k ≠ .add x client mask memory heap) (hdel : k ≠ .del x) :
    x ∈ (g.after w k).monitored ↔ x ∈ g.monitored := by
  cases k with
  | add fd client mask memory heap =>
      have hne : x ≠ fd := fun heq => hadd client mask memory heap (heq ▸ rfl)
      rw [Notes.after]
      split
      · simp [hne]
      · rfl
  | del fd =>
      have hne : x ≠ fd := fun heq => hdel (heq ▸ rfl)
      simp [Notes.after, hne]
  | pullSignal =>
      rw [Notes.after]
      split
      · rfl
      · rfl
  | takeBackup =>
      rw [Notes.after]
      split
      · rfl
      · rfl
  | edge | drain | wouldBlock | setMask | orMask | andMask | clearReadiness | getNextEvent | waitForEvents
  | pullSigio | pullNone | ignore | restore | poll => rfl

end SigioWorld

namespace WakeUpPipe
open SigioWorld (Holds)
variable {Client : Type*} {w w' : WakeUpPipe Client} {n : Calls Client} {room : ℕ} {fd x : ℤ}

/-- The poller monitors the pipe for its client, and the kernel knows whether there are bytes in it. -/
structure Monitored (world : SigioWorld (PipeOwner Client)) (g : SigioWorld.Notes (PipeOwner Client)) (fd : ℤ) (bytes : ℕ) :
    Prop where
  mem : fd ∈ g.monitored
  client : (world.poller.fds fd).client = some .pipeClient
  mask : (world.poller.fds fd).mask = POLLIN
  ready : (world.kernel.ready fd).has POLLIN = true ↔ 0 < bytes

/-- The pipe's client is at its own descriptor, and clears the readiness only after the pipe was empty. -/
def AtPipe (w : WakeUpPipe Client) (n : Calls Client) : Prop :=
  match w.notified with
  | .away => True
  | .reading fd => w.world.phase = .idle ∧ n.pipe = true ∧ fd = w.wakeupPipe
  | .clearing fd => w.world.phase = .idle ∧ n.pipe = true ∧ fd = w.wakeupPipe ∧ POLLIN &&& ~~~n.sigio.fresh fd = 0

structure Attended (w : WakeUpPipe Client) (n : Calls Client) : Prop where
  holds : ∃ D, Holds w.world n.sigio D
  owner : ∀ x ∈ n.sigio.monitored, (w.world.poller.fds x).client = some .pipeClient → n.pipe = true ∧ x = w.wakeupPipe
  pipe : n.pipe = true → Monitored w.world n.sigio w.wakeupPipe w.bytes
  pending : n.pending = true → n.pipe = true ∧ 0 < w.bytes
  atPipe : AtPipe w n

theorem atPipe_away (h : w.notified = .away) : AtPipe w n := by
  unfold AtPipe
  rw [h]
  trivial

theorem Attended.range (h : Attended w n) (hx : x ∈ n.sigio.monitored) : x < w.world.poller.fdsAlloc := by
  obtain ⟨D, hholds⟩ := h.holds
  obtain ⟨L, hsound⟩ := hholds.sound
  exact (hsound.range x hx).2

/-- What happens to the poller, and not to the pipe. -/
theorem Attended.happen {k : SigioWorld.Happening (PipeOwner Client)} {world : SigioWorld (PipeOwner Client)}
    (h : Attended w n) (hk : Proper w n (.happen k)) (hwhen : w.notified = .away ∨ isKernel k = true)
    (hw : w.world.step k = some world) :
    Attended { w with world := world } { n with sigio := n.sigio.after w.world k } := by
  obtain ⟨⟨hallows, hfresh⟩, hother, hnew⟩ := hk
  obtain ⟨D, hholds⟩ := h.holds
  refine ⟨SigioWorld.step_holds hholds hallows hfresh hw, ?_, ?_, h.pending, ?_⟩
  · intro x hx hclient
    by_cases hadd : ∃ client mask memory heap, k = .add x client mask memory heap
    · obtain ⟨client, mask, memory, heap, rfl⟩ := hadd
      rw [SigioWorld.Notes.after] at hx
      split at hx
      · next hgrow =>
        obtain ⟨-, hadd⟩ := Option.ite_none_right_eq_some.1 hw
        rw [(SigioWorld.add_self hadd hgrow).1] at hclient
        rw [hclient] at hnew
        cases hnew
      · exact absurd hx hallows.1.2
    · have hnot : k ≠ .del x := by
        rintro rfl
        exact Finset.notMem_erase x _ hx
      have hadd' : ∀ client mask memory heap, k ≠ .add x client mask memory heap := by
        intro client mask memory heap heq
        exact hadd ⟨client, mask, memory, heap, heq⟩
      have hmem := (SigioWorld.mem_monitored_after hadd' hnot).1 hx
      rw [(SigioWorld.step_entry hw (h.range hmem) hadd' hnot).1] at hclient
      exact h.owner x hmem hclient
  · intro hpipe
    have hold := h.pipe hpipe
    have hfd := hother hpipe
    have hadd : ∀ client mask memory heap, k ≠ .add w.wakeupPipe client mask memory heap := by
      rintro client mask memory heap rfl
      exact hfd rfl
    have hdel : k ≠ .del w.wakeupPipe := by
      rintro rfl
      exact hfd rfl
    obtain ⟨hclient, hmask⟩ := SigioWorld.step_entry hw (h.range hold.mem) hadd hdel
    refine ⟨(SigioWorld.mem_monitored_after hadd hdel).2 hold.mem, hclient.trans hold.client, (hmask hfd).trans hold.mask, ?_⟩
    rw [SigioWorld.step_ready hw hfd]
    exact hold.ready
  · rcases hwhen with haway | hkernel
    · exact atPipe_away haway
    · cases k with
      | edge | drain =>
          cases hw
          exact h.atPipe
      | _ => cases hkernel

/-- What is drained is not readable any more. -/
theorem drained_ready {bits : Revents} (k : Signals) (fd : ℤ) (h : bits.has POLLIN = true) :
    ((k.drain fd bits).ready fd).has POLLIN = false := by
  unfold Signals.drain
  dsimp only
  rw [Function.update_self, Revents.single_in.has_and, Revents.single_in.has_not, h, Bool.not_true, Bool.and_false]

/-- An event for the mask of the pipe is no error. -/
theorem masked_not_err (r : Revents) : (r &&& POLLIN).has POLLERR = false := by
  have hnone : r &&& POLLIN &&& POLLERR = 0 := by
    rw [BitVec.and_assoc]
    exact BitVec.and_zero
  unfold Revents.has
  rw [hnone]
  rfl

theorem Attended.initWakeUpPipe {pipe : Except ℤ ℤ} {fcntl : Option ℤ} {memory : Option (ℤ → FdState (PipeOwner Client))}
    {heap : Heap (PipeOwner Client)} (h : Attended w n) (hk : Proper w n (.initWakeUpPipe pipe fcntl memory heap))
    (hw : w.step room (.initWakeUpPipe pipe fcntl memory heap) = some w') :
    Attended w' (note n w (.initWakeUpPipe pipe fcntl memory heap)) := by
  obtain ⟨D, hholds⟩ := h.holds
  obtain ⟨⟨haway, hidle⟩, hw⟩ := Option.ite_none_right_eq_some.1 hw
  cases pipe with
  | error err =>
      cases hw
      exact h
  | ok fd =>
      have hdrained := SigioWorld.drain_holds hholds fd (-1)
      cases fcntl with
      | some err =>
          have hno : n.pipe ≠ true := Bool.eq_false_iff.1 hk
          cases hw
          refine ⟨⟨D, hdrained⟩, ?_, fun hp => absurd hp hno, fun hp => absurd (h.pending hp).1 hno, atPipe_away haway⟩
          intro x hx hclient
          exact absurd (h.owner x hx hclient).1 hno
      | none =>
          obtain ⟨hclosed, hallows, hgrow⟩ := hk
          have hno : n.pipe ≠ true := Bool.eq_false_iff.1 hclosed
          obtain ⟨r, hr, rfl⟩ := Option.map_eq_some_iff.1 hw
          obtain ⟨world, hworld, rfl⟩ := Option.map_eq_some_iff.1 hr
          obtain ⟨hclient, hmask, hkernel⟩ := SigioWorld.add_self hworld hgrow
          have hmem : ∀ x, x ∈ (n.sigio.after w.world (.add fd (some .pipeClient) POLLIN memory heap)).monitored ↔
              x = fd ∨ x ∈ n.sigio.monitored := by
            intro x
            rw [SigioWorld.Notes.after, if_pos hgrow]
            exact Finset.mem_insert
          have hadded := SigioWorld.add_holds hdrained hidle hallows hworld
          refine ⟨⟨D, hadded⟩, ?_, fun _ => ?_, fun hp => absurd hp Bool.false_ne_true, atPipe_away haway⟩
          · intro x hx hmine
            refine ⟨rfl, ?_⟩
            by_contra hne
            have hold := ((hmem x).1 hx).resolve_left hne
            rw [(SigioWorld.add_other hworld (h.range hold) hne).1] at hmine
            exact hno (h.owner x hold hmine).1
          · refine ⟨(hmem fd).2 (.inl rfl), hclient, hmask, ?_⟩
            dsimp only
            rw [hkernel, drained_ready _ _ (by decide)]
            decide

/-- `wakeUp` leaves a byte in the pipe, if it has room for one at all. -/
theorem Attended.wakeUp {signal : Option (Revents × Delivery)} (h : Attended w n) (hroom : 0 < room)
    (hk : Proper w n (.wakeUp signal)) : Attended (w.wakeUp room signal).2 (note n w (.wakeUp signal)) := by
  obtain ⟨D, hholds⟩ := h.holds
  unfold WakeUpPipe.wakeUp
  split
  · next hclosed =>
    refine ⟨⟨D, hholds⟩, h.owner, h.pipe, fun hp => ?_, h.atPipe⟩
    obtain ⟨L, hsound⟩ := hholds.sound
    have hrange := hsound.range _ (h.pipe hp).mem
    omega
  · split
    · cases signal with
      | none =>
          refine ⟨⟨D, hholds⟩, h.owner, fun hp => ?_, fun hp => ⟨hp, Nat.succ_pos _⟩, h.atPipe⟩
          have hold := h.pipe hp
          have hready := hold.ready.2 (Nat.pos_of_ne_zero hk)
          exact ⟨hold.mem, hold.client, hold.mask, iff_of_true hready (Nat.succ_pos _)⟩
      | some sent =>
          obtain ⟨band, delivery⟩ := sent
          have hsent := SigioWorld.edge_holds hholds hk
          refine ⟨⟨D, hsent⟩, h.owner, fun hp => ?_, fun hp => ⟨hp, Nat.succ_pos _⟩, h.atPipe⟩
          have hold := h.pipe hp
          have hready : ((w.world.kernel.edge w.wakeupPipe POLLIN band delivery).ready w.wakeupPipe).has POLLIN = true := by
            rw [SigioWorld.edge_ready, Function.update_self, Revents.single_in.has_or]
            exact Bool.or_eq_true_iff.2 (.inr (by decide))
          exact ⟨hold.mem, hold.client, hold.mask, iff_of_true hready (Nat.succ_pos _)⟩
    · next hfull =>
      exact ⟨⟨D, hholds⟩, h.owner, h.pipe, fun hp => ⟨hp, hroom.trans_le (not_lt.1 hfull)⟩, h.atPipe⟩

/-- An event is of a descriptor that is monitored, and shows only what its mask asks for. -/
theorem Attended.next_event {e : PollEvent (PipeOwner Client)} {err : ℤ} {s : PollerSigio (PipeOwner Client)}
    (h : Attended w n) (hnext : w.world.poller.getNextEvent = (err, some e, s)) : e.fd ∈ n.sigio.monitored ∧
      e.client = (w.world.poller.fds e.fd).client ∧
      e.revents = (w.world.poller.fds e.fd).readybits &&& (w.world.poller.fds e.fd).mask := by
  obtain ⟨D, hholds⟩ := h.holds
  obtain ⟨L, hsound⟩ := hholds.sound
  unfold PollerSigio.getNextEvent at hnext
  split at hnext
  · cases hnext
  · next hcursor =>
    cases hnext
    exact ⟨hsound.mem _ (hsound.cursor.resolve_left (by omega)), rfl, rfl⟩

/-- The next event is taken. -/
theorem Attended.next {s : PollerSigio (PipeOwner Client)} (h : Attended w n) (hs : w.world.poller.getNextEvent.2.2 = s) :
    Attended { w with world.poller := s } n := by
  obtain ⟨D, hholds⟩ := h.holds
  have hfds : s.fds = w.world.poller.fds := by
    rw [← hs]
    exact PollerSigio.getNextEvent_fds
  have hnext := SigioWorld.getNextEvent_holds hholds
  rw [hs] at hnext
  refine ⟨⟨D, hnext⟩, ?_, fun hp => ?_, h.pending, h.atPipe⟩
  · intro x hx
    rw [show (({ w.world with poller := s } : SigioWorld (PipeOwner Client)).poller.fds x).client = _ from
      congrArg (fun fds : ℤ → FdState (PipeOwner Client) => (fds x).client) hfds]
    exact h.owner x hx
  · have hold := h.pipe hp
    refine ⟨hold.mem, ?_, ?_, hold.ready⟩
    · exact (congrArg (fun fds : ℤ → FdState (PipeOwner Client) => (fds w.wakeupPipe).client) hfds).trans hold.client
    · exact (congrArg (fun fds : ℤ → FdState (PipeOwner Client) => (fds w.wakeupPipe).mask) hfds).trans hold.mask

/-- The pipe's client is called for its own descriptor only, and its assertion holds. -/
theorem Attended.dispatch (h : Attended w n) (hidle : w.world.phase = .idle) :
    ∃ w', w.dispatch = some w' ∧ Attended w' n := by
  unfold WakeUpPipe.dispatch
  cases hnext : w.world.poller.getNextEvent with
  | mk err rest =>
      obtain ⟨ev, s⟩ := rest
      have htaken := h.next (s := s) (by rw [hnext])
      cases ev with
      | none => exact ⟨_, rfl, htaken⟩
      | some e =>
          obtain ⟨hmem, hclient, hrevents⟩ := h.next_event hnext
          dsimp only
          cases howner : e.client with
          | none => exact ⟨_, rfl, htaken⟩
          | some owner =>
              cases owner with
              | program client => exact ⟨_, rfl, htaken⟩
              | pipeClient =>
                  obtain ⟨hpipe, hfd⟩ := h.owner e.fd hmem (hclient.symm.trans howner)
                  have hnoerr : e.revents.has POLLERR = false := by
                    rw [hrevents, hfd, (h.pipe hpipe).mask]
                    exact masked_not_err _
                  refine ⟨_, if_neg (by rw [hnoerr]; decide), htaken.holds, htaken.owner, htaken.pipe, htaken.pending, ?_⟩
                  unfold AtPipe
                  dsimp only
                  split
                  · trivial
                  · next fd heq =>
                    split at heq
                    · cases heq
                      exact ⟨hidle, hpipe, hfd⟩
                    · cases heq
                  · next fd heq =>
                    split at heq
                    · cases heq
                    · cases heq

/-- A read that does not fill the buffer has emptied the pipe. -/
theorem Attended.read (h : Attended w n) (hreading : w.notified = .reading fd) :
    fd = w.wakeupPipe ∧ Attended (w.read fd) (note n w .read) := by
  have hat := h.atPipe
  unfold AtPipe at hat
  rw [hreading] at hat
  obtain ⟨hidle, hpipe, rfl⟩ := hat
  obtain ⟨D, hholds⟩ := h.holds
  have hold := h.pipe hpipe
  refine ⟨rfl, ?_⟩
  have hkernel : Holds { w.world with kernel := (w.read w.wakeupPipe).world.kernel } n.sigio D := by
    unfold WakeUpPipe.read
    dsimp only
    split
    · exact SigioWorld.drain_holds hholds w.wakeupPipe POLLIN
    · exact hholds
  have hready : ((w.read w.wakeupPipe).world.kernel.ready w.wakeupPipe).has POLLIN = true ↔ 0 < (w.read w.wakeupPipe).bytes := by
    unfold WakeUpPipe.read
    dsimp only
    split
    · next hzero =>
      have hempty := drained_ready w.world.kernel w.wakeupPipe (show POLLIN.has POLLIN = true by decide)
      rw [hzero, hempty]
      exact iff_of_false Bool.false_ne_true (lt_irrefl 0)
    · next hmore => exact iff_of_true (hold.ready.2 (by omega)) (by omega)
  by_cases hfull : min w.bytes bufLen = bufLen
  · rw [note, if_pos hfull]
    refine ⟨⟨D, hkernel⟩, h.owner, fun _ => ⟨hold.mem, hold.client, hold.mask, hready⟩,
      fun hp => absurd hp Bool.false_ne_true, ?_⟩
    unfold AtPipe WakeUpPipe.read
    dsimp only
    rw [if_pos hfull]
    exact ⟨hidle, hpipe, rfl⟩
  · have hempty : w.bytes-min w.bytes bufLen = 0 := by omega
    rw [note, if_neg hfull]
    have hblocked : (w.read w.wakeupPipe).world.kernel.ready w.wakeupPipe &&& POLLIN = 0 := by
      unfold WakeUpPipe.read Signals.drain
      dsimp only
      rw [if_pos hempty]
      dsimp only
      rw [Function.update_self, BitVec.and_assoc, BitVec.not_and_self]
      exact BitVec.and_zero
    refine ⟨⟨D, SigioWorld.wouldBlock_holds hkernel hblocked⟩, h.owner,
      fun _ => ⟨hold.mem, hold.client, hold.mask, hready⟩, fun hp => absurd hp Bool.false_ne_true, ?_⟩
    unfold AtPipe WakeUpPipe.read
    dsimp only
    rw [if_neg hfull]
    refine ⟨hidle, hpipe, rfl, ?_⟩
    have hfresh : (n.sigio.after w.world (.wouldBlock w.wakeupPipe POLLIN)).fresh w.wakeupPipe =
        n.sigio.fresh w.wakeupPipe ||| POLLIN := Function.update_self _ _ _
    rw [hfresh, BitVec.not_or, BitVec.and_comm (~~~_), ← BitVec.and_assoc, BitVec.and_not_self]
    exact BitVec.zero_and

/-- The readiness is cleared, and what was written since the last read is still signalled. -/
theorem Attended.clearReadiness (h : Attended w n) (hclearing : w.notified = .clearing fd) : ∃ s,
    w.world.poller.clearReadiness fd POLLIN = some s ∧ Attended { w with world.poller := s, notified := .away } n := by
  have hat := h.atPipe
  unfold AtPipe at hat
  rw [hclearing] at hat
  obtain ⟨hidle, hpipe, rfl, hfresh⟩ := hat
  obtain ⟨D, hholds⟩ := h.holds
  obtain ⟨L, hsound⟩ := hholds.sound
  obtain ⟨s, L', hs, -⟩ := PollerSigio.updateReady_bits hsound w.wakeupPipe fun bits => bits &&& ~~~POLLIN
  have hentry := PollerSigio.updateReady_entry hs
  have hold := h.pipe hpipe
  have hcleared := SigioWorld.clearReadiness_holds hholds hidle hfresh hs
  refine ⟨s, hs, ⟨D, hcleared⟩, ?_, fun _ => ?_, h.pending, atPipe_away rfl⟩
  · intro x hx hclient
    exact h.owner x hx ((hentry x).1.symm.trans hclient)
  · exact ⟨hold.mem, (hentry w.wakeupPipe).1.trans hold.client, (hentry w.wakeupPipe).2.trans hold.mask, hold.ready⟩

/-- What one step preserves. -/
theorem Attended.step {k : Act Client} (h : Attended w n) (hroom : 0 < room) (hk : Proper w n k)
    (hw : w.step room k = some w') : Attended w' (note n w k) := by
  cases k with
  | initWakeUpPipe => exact h.initWakeUpPipe hk hw
  | wakeUp signal =>
      cases hw
      exact h.wakeUp hroom hk
  | dispatch =>
      obtain ⟨⟨-, hidle⟩, hw⟩ := Option.ite_none_right_eq_some.1 hw
      obtain ⟨u, hu, hattended⟩ := h.dispatch hidle
      rw [hw] at hu
      cases hu
      exact hattended
  | read =>
      unfold WakeUpPipe.step at hw
      dsimp only at hw
      split at hw
      · next fd hreading =>
        obtain ⟨-, hw⟩ := Option.ite_none_right_eq_some.1 hw
        cases hw
        exact (h.read hreading).2
      · cases hw
      · cases hw
  | clearReadiness =>
      unfold WakeUpPipe.step at hw
      dsimp only at hw
      split at hw
      · next fd hclearing =>
        obtain ⟨s, hs, hattended⟩ := h.clearReadiness hclearing
        rw [hs] at hw
        cases hw
        exact hattended
      · cases hw
      · cases hw
  | happen k =>
      obtain ⟨hwhen, hw⟩ := Option.ite_none_right_eq_some.1 hw
      obtain ⟨world, hworld, rfl⟩ := Option.map_eq_some_iff.1 hw
      exact h.happen hk hwhen hworld

/-- A byte in the pipe is known, or its signal is still to come. -/
theorem Attended.known (h : Attended w n) (hpending : n.pending = true)
    (hphase : w.world.phase = .idle ∨ w.world.phase = .pulling) :
    ((w.world.poller.fds w.wakeupPipe).isOnReadyList = true ∧ 0 ≤ w.world.poller.readyHead) ∨
      w.world.Signalled w.wakeupPipe POLLIN := by
  obtain ⟨hpipe, hbytes⟩ := h.pending hpending
  obtain ⟨D, hholds⟩ := h.holds
  obtain ⟨L, hsound⟩ := hholds.sound
  have hold := h.pipe hpipe
  have hD : D = ∅ := by
    apply hholds.none
    rcases hphase with hphase | hphase
    · rw [hphase]
      decide
    · rw [hphase]
      decide
  have hlearned := hholds.learned (hphase.imp_right .inl) w.wakeupPipe hold.mem POLLIN (.inl rfl) (hold.ready.2 hbytes)
  rcases hlearned.1 with hcoming | ⟨-, hknown⟩
  · right
    apply hcoming.resolve_right
    rw [hD]
    exact fun hmem => hmem.1
  · left
    have hready : (w.world.poller.fds w.wakeupPipe).isReady = true := by
      unfold FdState.isReady
      rw [hold.mask, BitVec.and_comm]
      exact hknown
    have hlisted : w.wakeupPipe ∈ L := (hsound.ready _ hold.mem).2 hready
    refine ⟨(hsound.isOnReadyList hold.mem).2 hlisted, ?_⟩
    rw [hsound.head_eq (List.ne_nil_of_mem hlisted)]
    exact hsound.nonneg (List.head_mem _)

instance (w : WakeUpPipe Client) (n : Calls Client) : (k : Act Client) → Decidable (Proper w n k)
  | .initWakeUpPipe (.ok _) none _ _ => inferInstanceAs (Decidable (_ ∧ _ ∧ _))
  | .initWakeUpPipe (.ok _) (some _) _ _ | .initWakeUpPipe (.error _) _ _ _ => inferInstanceAs (Decidable (_ = _))
  | .wakeUp none => inferInstanceAs (Decidable (_ ≠ _))
  | .wakeUp (some (band, delivery)) =>
    inferInstanceAs (Decidable (n.sigio.Allows w.world (.edge w.wakeupPipe POLLIN band delivery)))
  | .happen _ => inferInstanceAs (Decidable ((_ ∧ _) ∧ (_ → _) ∧ _))
  | .dispatch | .read | .clearReadiness => inferInstanceAs (Decidable True)

/-- A poller to start with. -/
def quiet : WakeUpPipe ℕ := init
  { poller := (PollerSigio.init ⟨7, 7, 7, fun _ => .clear, 7, 7⟩ (some fun _ => .clear) 0).2
    backup := (PollerPoll.init ⟨7, 7, fun _ => ⟨7, 7, 7⟩, fun _ => none, 7, 7, fun _ => 7, 7, 7⟩ memory).2
    kernel := ⟨fun _ => 0, [], false⟩
    phase := .idle }
where
  memory : Heap (PipeOwner ℕ) := ⟨some fun _ => 7, some fun _ => none, some fun _ => ⟨7, 7, 7⟩⟩

end WakeUpPipe
end Dkftpbench
