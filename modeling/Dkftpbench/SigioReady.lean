import Dkftpbench.PollRound
import Dkftpbench.SigioKernel
import Dkftpbench.SigioSound

/-!
# What Poller_sigio knows of readiness

What the kernel holds ready is in the readiness bits, or a signal is on its way, or the
backup still has an event for it. The user may take a bit away when an I/O call would
have blocked, but not after the poller has learned something newer about it.
-/
namespace Dkftpbench.SigioWorld
open CLib Watch Round PollerSigio
variable {Client : Type*}

/-- The descriptors monitored; the I/O calls that would have blocked, all of them and those
since which nothing was learned; and what `waitForEvents` has taken in since it was called. -/
structure Notes (Client : Type*) where
  monitored : Finset ℤ
  blocked : ℤ → Revents
  fresh : ℤ → Revents
  since : PollerSigio Client
  signals : List (ℤ × Revents)
  events : Option (List (PollEvent Client))

/-- Something is learned about these bits. -/
def Notes.learn (g : Notes Client) (fd : ℤ) (bits : Revents) : Notes Client :=
  { g with fresh := Function.update g.fresh fd (g.fresh fd &&& ~~~bits) }

def Notes.after (g : Notes Client) (w : SigioWorld Client) : Happening Client → Notes Client
  | .wouldBlock fd bits =>
    { g with
      blocked := Function.update g.blocked fd (g.blocked fd ||| bits)
      fresh := Function.update g.fresh fd (g.fresh fd ||| bits) }
  | .add fd _ _ memory _ =>
    if (w.poller.grow fd memory).isSome then { g.learn fd (-1) with monitored := insert fd g.monitored } else g
  | .del fd => { g with monitored := g.monitored.erase fd }
  | .waitForEvents => { g with since := w.poller, signals := [], events := none }
  | .pullSignal =>
    match w.kernel.queue with
    | info :: _ => { g.learn info.1 info.2 with signals := g.signals ++ [info] }
    | [] => g
  | .pullSigio => { g with events := some [] }
  | .takeBackup =>
    match w.backup.getNextEvent with
    | some (_, some e, _) => { g.learn e.fd e.revents with events := g.events.map fun l => l ++ [e] }
    | _ => g
  | .edge .. | .drain .. | .setMask .. | .orMask .. | .andMask .. | .clearReadiness .. | .getNextEvent
  | .pullNone | .ignore | .restore | .poll .. => g

/-- A signal carries the bits that it is sent for, and is lost only while signals are
ignored; `add` is for descriptors that are not monitored, and finds memory for the backup,
and `del` is for those that are. -/
def Notes.Allows (w : SigioWorld Client) (g : Notes Client) : Happening Client → Prop
  | .edge fd bits band delivery =>
    bits &&& ~~~band = 0 ∧ (fd ∈ g.monitored → delivery = .discarded → w.phase = .ignoring)
  | .add fd _ _ _ heap =>
    (0 ≤ fd ∧ fd ∉ g.monitored) ∧ heap.fd2pfdnum ≠ none ∧ heap.clients ≠ none ∧ heap.pfds ≠ none
  | .del fd => fd ∈ g.monitored
  | _ => True

/-- `clearReadiness` is called for bits for which an I/O call would have blocked. -/
def Notes.Blocked (g : Notes Client) : Happening Client → Prop
  | .clearReadiness fd eventmask => eventmask &&& ~~~g.blocked fd = 0
  | _ => True

/-- Moreover the poller has learned nothing about them since. -/
def Notes.Fresh (g : Notes Client) : Happening Client → Prop
  | .clearReadiness fd eventmask => eventmask &&& ~~~g.fresh fd = 0
  | _ => True

/-- The runs from `init` on. -/
def worlds : System (SigioWorld Client) (Happening Client) (Notes Client) where
  start w g := (∃ s₀ cells, w.poller = (PollerSigio.init s₀ (some cells) 0).2) ∧
    (∃ p₀ heap, PollerPoll.init p₀ heap = (0, w.backup)) ∧ w.phase = .idle ∧
    g.monitored = ∅ ∧ g.blocked = 0 ∧ g.fresh = 0
  step w k w' := w.step k = some w'
  note g w k _ := g.after w k

/-- A signal with the bit is queued, or a SIGIO is pending. -/
def Signalled (w : SigioWorld Client) (fd : ℤ) (bit : Revents) : Prop :=
  (∃ band, (fd, band) ∈ w.kernel.queue ∧ band.has bit = true) ∨ w.kernel.sigio = true

/-- What the backup found for a descriptor. -/
def polled (w : SigioWorld Client) (fd : ℤ) : Revents := (w.backup.pfds (w.backup.fd2pfdnum fd)).revents

def known (w : SigioWorld Client) (fd : ℤ) : Revents := (w.poller.fds fd).readybits

/-- The poller will get to know of the bit, by a signal or by an event of the backup that
is due. -/
def Coming (w : SigioWorld Client) (D : Set ℤ) (fd : ℤ) (bit : Revents) : Prop :=
  w.Signalled fd bit ∨ fd ∈ D ∧ (w.polled fd).has bit = true

/-- The kernel does not hold the bit ready, or the poller knows it or will; and if an I/O
call would have blocked the poller will. -/
def Learned (w : SigioWorld Client) (g : Notes Client) (D : Set ℤ) (fd : ℤ) (bit : Revents) : Prop :=
  (w.kernel.ready fd).has bit = true →
    (w.Coming D fd bit ∨ fd ∉ D ∧ (w.known fd).has bit = true) ∧ ((g.fresh fd).has bit = true → w.Coming D fd bit)

/-- Not between a SIGIO and the answer of the backup. -/
def Settled (w : SigioWorld Client) : Prop := w.phase = .idle ∨ w.phase = .pulling ∨ w.phase = .polled

/-- The bits that the kernel signals. -/
def Signal (bit : Revents) : Prop := bit = POLLIN ∨ bit = POLLOUT

/-- The backup monitors the same descriptors for all that can be signalled. -/
structure Backed (p : PollerPoll Client) (M : Finset ℤ) (m : PollerPoll.Table Client) : Prop where
  represents : PollerPoll.Represents p m
  monitored : ∀ fd, m fd ≠ none ↔ fd ∈ M
  mask : ∀ fd e, m fd = some e → e.2 = BackedSigio.allBits

structure Holds (w : SigioWorld Client) (g : Notes Client) (D : Set ℤ) : Prop where
  sound : ∃ L, Sound w.poller g.monitored L
  backed : ∃ m, Backed w.backup g.monitored m
  live : w.phase = .polled → PollerPoll.Live w.backup D
  none : w.phase ≠ .polled → D = ∅
  learned : w.Settled → ∀ fd ∈ g.monitored, ∀ bit, Signal bit → w.Learned g D fd bit

section
variable {w w' : SigioWorld Client} {g g' : Notes Client} {D D' : Set ℤ} {fd : ℤ} {bit bits band mask : Revents}

theorem Signal.single (h : Signal bit) : bit.Single := by
  rcases h with rfl | rfl
  · exact Revents.single_in
  · exact Revents.single_out

theorem learn_self : (g.learn fd bits).fresh fd = g.fresh fd &&& ~~~bits := Function.update_self _ _ _

theorem learn_of_ne {x : ℤ} (h : x ≠ fd) : (g.learn fd bits).fresh x = g.fresh x := Function.update_of_ne h _ _

theorem learn_has {x : ℤ} (hbit : Signal bit) (h : ((g.learn fd bits).fresh x).has bit = true) :
    (g.fresh x).has bit = true := by
  by_cases heq : x = fd
  · rw [heq, learn_self, hbit.single.has_and, Bool.and_eq_true] at h
    rw [heq]
    exact h.1
  · rwa [learn_of_ne heq] at h

/-- What is learned is not fresh. -/
theorem learned_not_fresh (hbit : Signal bit) (h : bits.has bit = true) : ((g.learn fd bits).fresh fd).has bit = false := by
  rw [learn_self, hbit.single.has_and, hbit.single.has_not, h, Bool.not_true, Bool.and_false]

/-- Both bits that the kernel signals are there. -/
theorem Signal.has_of (h : Signal bit) (hin : bits.has POLLIN = true) (hout : bits.has POLLOUT = true) :
    bits.has bit = true := by
  rcases h with rfl | rfl
  · exact hin
  · exact hout

/-- A bit of a part is a bit of the whole. -/
theorem has_of_part (hbit : Signal bit) (hpart : bits &&& ~~~band = 0) (h : bits.has bit = true) : band.has bit = true := by
  have hnone := hbit.single.has_zero
  rw [← hpart, hbit.single.has_and, hbit.single.has_not, h, Bool.true_and] at hnone
  rwa [Bool.not_eq_false'] at hnone

/-- Where nothing becomes ready and nothing is forgotten, what was learned stays. -/
theorem Learned.mono (h : w.Learned g D fd bit)
    (hready : (w'.kernel.ready fd).has bit = true → (w.kernel.ready fd).has bit = true)
    (hsignal : w.Signalled fd bit → w'.Signalled fd bit) (hD : fd ∈ D' ↔ fd ∈ D)
    (hpolled : fd ∈ D → w'.polled fd = w.polled fd) (hbits : (w.known fd).has bit = true → (w'.known fd).has bit = true)
    (hfresh : (g'.fresh fd).has bit = true → (g.fresh fd).has bit = true) : w'.Learned g' D' fd bit := by
  intro hr
  obtain ⟨hknown, hcoming⟩ := h (hready hr)
  have hmono : w.Coming D fd bit → w'.Coming D' fd bit := by
    intro hc
    apply hc.imp hsignal
    intro ⟨hmem, hhas⟩
    rw [hpolled hmem]
    exact ⟨hD.2 hmem, hhas⟩
  rw [hD]
  exact ⟨hknown.imp hmono fun ⟨hnot, hin⟩ => ⟨hnot, hbits hin⟩, fun hf => hmono (hcoming (hfresh hf))⟩

theorem Coming.learned (h : w.Coming D fd bit) : w.Learned g D fd bit := fun _ => ⟨.inl h, fun _ => h⟩

/-- The poller knows, and nothing would have blocked since. -/
theorem learned_of_known (hD : fd ∉ D) (hin : (w.known fd).has bit = true) (hfresh : (g.fresh fd).has bit = false) :
    w.Learned g D fd bit := by
  intro _
  refine ⟨.inr ⟨hD, hin⟩, fun hf => ?_⟩
  rw [hfresh] at hf
  cases hf

/-- A call of the user for another descriptor, while the backup has nothing due. -/
theorem Learned.others (h : w.Learned g ∅ fd bit) (hkernel : w'.kernel = w.kernel) (hknown : w'.known fd = w.known fd)
    (hfresh : g'.fresh fd = g.fresh fd) : w'.Learned g' ∅ fd bit := by
  apply h.mono
  · rw [hkernel]
    exact id
  · unfold Signalled
    rw [hkernel]
    exact id
  · exact .rfl
  · exact False.elim
  · rw [hknown]
    exact id
  · rw [hfresh]
    exact id

theorem Signalled.queue {k : Signals} (h : w.Signalled fd bit) (hqueue : ∀ x ∈ w.kernel.queue, x ∈ k.queue)
    (hsigio : w.kernel.sigio = true → k.sigio = true) : SigioWorld.Signalled { w with kernel := k } fd bit := by
  apply h.imp _ hsigio
  intro ⟨band, hmem, hhas⟩
  exact ⟨band, hqueue _ hmem, hhas⟩

theorem edge_holds {delivery : Delivery} (h : Holds w g D) (hc : g.Allows w (.edge fd bits band delivery)) :
    Holds { w with kernel := w.kernel.edge fd bits band delivery } g D := by
  refine ⟨h.sound, h.backed, h.live, h.none, ?_⟩
  intro hs x hx bit hbit
  have hold := h.learned hs x hx bit hbit
  have hsignal : w.Signalled x bit → SigioWorld.Signalled { w with kernel := w.kernel.edge fd bits band delivery } x bit := by
    intro hsignalled
    cases delivery with
    | queued => exact hsignalled.queue (fun _ hm => List.mem_append_left _ hm) id
    | overflow => exact hsignalled.queue (fun _ hm => hm) fun _ => rfl
    | discarded => exact hsignalled.queue (fun _ hm => hm) id
  have hready : (w.kernel.edge fd bits band delivery).ready = Function.update w.kernel.ready fd (w.kernel.ready fd ||| bits) := by
    cases delivery with
    | queued | overflow | discarded => rfl
  by_cases heq : x = fd ∧ bits.has bit = true
  · obtain ⟨rfl, hhas⟩ := heq
    apply Coming.learned
    left
    cases delivery with
    | queued =>
        left
        exact ⟨band, List.mem_append_right _ List.mem_cons_self, has_of_part hbit hc.1 hhas⟩
    | overflow =>
        right
        rfl
    | discarded =>
        have hphase := hc.2 hx rfl
        unfold Settled at hs
        rw [show w.phase = .ignoring from hphase] at hs
        simp at hs
  · apply hold.mono _ hsignal .rfl (fun _ => rfl) id id
    intro hr
    rw [show (w.kernel.edge fd bits band delivery).ready x = _ from congrFun hready x] at hr
    by_cases hxfd : x = fd
    · rw [hxfd, Function.update_self, hbit.single.has_or, Bool.or_eq_true] at hr
      rw [hxfd]
      exact hr.resolve_right fun hhas => heq ⟨hxfd, hhas⟩
    · rwa [Function.update_of_ne hxfd] at hr

theorem drain_holds (h : Holds w g D) (fd : ℤ) (bits : Revents) :
    Holds { w with kernel := w.kernel.drain fd bits } g D := by
  refine ⟨h.sound, h.backed, h.live, h.none, ?_⟩
  intro hs x hx bit hbit
  refine (h.learned hs x hx bit hbit).mono ?_ id .rfl (fun _ => rfl) id id
  intro hr
  change (Function.update w.kernel.ready fd (w.kernel.ready fd &&& ~~~bits) x).has bit = true at hr
  by_cases heq : x = fd
  · rw [heq, Function.update_self, hbit.single.has_and, Bool.and_eq_true] at hr
    rw [heq]
    exact hr.1
  · rwa [Function.update_of_ne heq] at hr

theorem wouldBlock_holds (h : Holds w g D) (hready : w.kernel.ready fd &&& bits = 0) :
    Holds w (g.after w (.wouldBlock fd bits)) D := by
  refine ⟨h.sound, h.backed, h.live, h.none, ?_⟩
  intro hs x hx bit hbit hr
  obtain ⟨hknown, hcoming⟩ := h.learned hs x hx bit hbit hr
  refine ⟨hknown, fun hf => hcoming ?_⟩
  by_cases heq : x = fd
  · rw [heq] at hr hf ⊢
    rw [show (g.after w (.wouldBlock fd bits)).fresh fd = g.fresh fd ||| bits from Function.update_self _ _ _,
      hbit.single.has_or, Bool.or_eq_true] at hf
    apply hf.resolve_right
    intro hhas
    have hboth := hbit.single.has_and (a := w.kernel.ready fd) (b := bits)
    rw [hready, hbit.single.has_zero, hr, hhas] at hboth
    cases hboth
  · rwa [show (g.after w (.wouldBlock fd bits)).fresh x = g.fresh x from Function.update_of_ne heq _ _] at hf

/-- The user calls the poller for what keeps the readiness bits. -/
theorem Holds.kept {s : PollerSigio Client} (h : Holds w g D) (hsound : ∃ L, Sound s g.monitored L)
    (hbits : ∀ x ∈ g.monitored, (s.fds x).readybits = (w.poller.fds x).readybits) : Holds { w with poller := s } g D := by
  refine ⟨hsound, h.backed, h.live, h.none, ?_⟩
  intro hs x hx bit hbit
  exact (h.learned hs x hx bit hbit).mono id id .rfl (fun _ => rfl) (fun hin => (congrArg (·.has bit) (hbits x hx)).trans hin) id

theorem mask_holds (h : Holds w g D) (f : Revents → Revents) (hw : w.result (w.poller.updateMask fd f) = some w') :
    Holds w' g D := by
  obtain ⟨L, hsound⟩ := h.sound
  obtain ⟨err, t, L', ht, hsound', hbits⟩ := updateMask_bits hsound fd f
  rw [ht] at hw
  cases hw
  exact h.kept ⟨L', hsound'⟩ fun x _ => hbits x

/-- A bit is taken away only where a signal for it is on its way if it is ready. -/
theorem clearReadiness_holds {s : PollerSigio Client} (h : Holds w g D) (hidle : w.phase = .idle)
    (hfresh : mask &&& ~~~g.fresh fd = 0) (hs : w.poller.clearReadiness fd mask = some s) :
    Holds { w with poller := s } g D := by
  obtain ⟨L, hsound⟩ := h.sound
  obtain ⟨t, L', ht, hsound', hself, hother⟩ := updateReady_bits hsound fd fun b => b &&& ~~~mask
  have heq : s = t := Option.some.inj (hs.symm.trans ht)
  rw [heq]
  refine ⟨⟨L', hsound'⟩, h.backed, h.live, h.none, ?_⟩
  intro hset x hx bit hbit
  have hold := h.learned (.inl hidle) x hx bit hbit
  by_cases hxfd : x = fd
  · rw [hxfd] at hx hold ⊢
    by_cases hhas : mask.has bit = true
    · intro hr
      have hcoming := (hold hr).2 (has_of_part hbit hfresh hhas)
      exact ⟨.inl hcoming, fun _ => hcoming⟩
    · intro hr
      obtain ⟨hknown, hcoming⟩ := hold hr
      refine ⟨hknown.imp_right fun ⟨hD, hin⟩ => ⟨hD, ?_⟩, hcoming⟩
      change (t.fds fd).readybits.has bit = true
      rw [hself hx, hbit.single.has_and, hbit.single.has_not, Bool.eq_false_iff.2 hhas, Bool.not_false, Bool.and_true]
      exact hin
  · exact hold.mono id id .rfl (fun _ => rfl)
      (fun hin => (congrArg (·.has bit) (hother x hxfd)).trans hin) id

variable {m : PollerPoll.Table Client} {p q : PollerPoll Client}

theorem Backed.insert {client : Option Client} {M : Finset ℤ} (h : Backed p M m)
    (hq : PollerPoll.Represents q (Function.update m fd (some (client, BackedSigio.allBits)))) :
    Backed q (insert fd M) (Function.update m fd (some (client, BackedSigio.allBits))) := by
  refine ⟨hq, fun x => ?_, fun x e he => ?_⟩
  · rw [Finset.mem_insert, ← h.monitored x]
    by_cases heq : x = fd
    · rw [heq, Function.update_self]
      exact iff_of_true nofun (.inl rfl)
    · rw [Function.update_of_ne heq, or_iff_right heq]
  · by_cases heq : x = fd
    · rw [heq, Function.update_self] at he
      cases he
      rfl
    · rw [Function.update_of_ne heq] at he
      exact h.mask x e he

theorem Backed.erase {M : Finset ℤ} (h : Backed p M m) (hq : PollerPoll.Represents q (Function.update m fd none)) :
    Backed q (M.erase fd) (Function.update m fd none) := by
  refine ⟨hq, fun x => ?_, fun x e he => ?_⟩
  · rw [Finset.mem_erase, ← h.monitored x]
    by_cases heq : x = fd
    · rw [heq, Function.update_self]
      exact iff_of_false (fun hne => hne rfl) fun hne => hne.1 rfl
    · rw [Function.update_of_ne heq]
      exact (and_iff_right heq).symm
  · by_cases heq : x = fd
    · rw [heq, Function.update_self] at he
      cases he
    · rw [Function.update_of_ne heq] at he
      exact h.mask x e he

/-- A descriptor that is added counts as ready, and nothing is fresh for it. -/
theorem add_holds {client : Option Client} {memory : Option (ℤ → FdState Client)} {heap : Heap Client}
    (h : Holds w g D) (hidle : w.phase = .idle) (hc : g.Allows w (.add fd client mask memory heap))
    (hw : w.add fd client mask memory heap = some w') : Holds w' (g.after w (.add fd client mask memory heap)) D := by
  obtain rfl : D = ∅ := h.none (by rw [hidle]; nofun)
  rw [SigioWorld.add_eq] at hw
  cases hu : w.poller.grow fd memory with
  | none =>
      rw [hu] at hw
      cases hw
      rw [Notes.after, hu]
      exact h
  | some u =>
      rw [hu] at hw
      obtain ⟨⟨h0, hfd⟩, hheap⟩ := hc
      obtain ⟨L, hsound⟩ := h.sound
      obtain ⟨m, hbacked⟩ := h.backed
      have hnone : m fd = none := not_not.1 (hfd ∘ (hbacked.monitored fd).1)
      have hzero := PollerPoll.add_of_memory w.backup fd client BackedSigio.allBits hheap
      have hfcntl : addFcntls.findSome?
          (Answers.fcntl ⟨memory, fun _ => none, (w.backup.add fd client BackedSigio.allBits heap).1⟩) = none := rfl
      obtain ⟨t, L', ht, hsound', -, hself, hother⟩ := add_registered client mask hsound h0 hfd hu hfcntl
      rcases PollerPoll.add_represents hbacked.represents h0 hnone client BackedSigio.allBits heap with ⟨-, hq⟩ | ⟨herr, -⟩
      · dsimp only at hw
        rw [ht] at hw
        cases hw
        rw [Notes.after, hu, if_pos (show (some u).isSome = true from rfl)]
        refine ⟨⟨L', hsound'⟩, ⟨_, hbacked.insert hq⟩, ?_, fun _ => rfl, ?_⟩
        · intro hphase
          cases hidle.symm.trans hphase
        · intro _ x hx bit hbit
          by_cases heq : x = fd
          · rw [heq]
            have hknown : (t.fds fd).readybits.has bit = true := by
              rw [hself]
              exact hbit.has_of (by decide) (by decide)
            exact learned_of_known (Set.notMem_empty fd) hknown
              (learned_not_fresh hbit (hbit.has_of (by decide) (by decide)))
          · have hxM : x ∈ g.monitored := (Finset.mem_insert.1 hx).resolve_left heq
            exact (h.learned (.inl hidle) x hxM bit hbit).others rfl (hother x hxM) (learn_of_ne heq)
      · rw [hzero] at herr
        cases herr

theorem del_holds (h : Holds w g D) (hidle : w.phase = .idle) (hfd : fd ∈ g.monitored) (hw : w.del fd = some w') :
    Holds w' (g.after w (.del fd)) D := by
  obtain rfl : D = ∅ := h.none (by rw [hidle]; nofun)
  obtain ⟨L, hsound⟩ := h.sound
  obtain ⟨m, hbacked⟩ := h.backed
  have hmem : fd ∈ PollerPoll.Table.monitored m := (hbacked.monitored fd).2 hfd
  have hfcntl : delFcntls.findSome? (fun _ => (none : Option ℤ)) = none := rfl
  obtain ⟨t, L', ht, hsound', -, -, hother⟩ := del_done 0 hsound hfd hfcntl
  rw [SigioWorld.del_eq] at hw
  rw [if_neg (hsound.toListed.inRange hfd), PollerPoll.del_eq hbacked.represents hmem, Option.bind_some] at hw
  dsimp only at hw
  rw [ht] at hw
  cases hw
  refine ⟨⟨L', hsound'⟩, ⟨_, hbacked.erase (PollerPoll.without_represents hbacked.represents hmem)⟩, ?_, fun _ => rfl, ?_⟩
  · intro hphase
    cases hidle.symm.trans hphase
  · intro _ x hx bit hbit
    obtain ⟨hne, hxM⟩ := Finset.mem_erase.1 hx
    exact (h.learned (.inl hidle) x hxM bit hbit).others rfl (hother x hne) rfl

/-- A signal is pulled; what it carries is known now, and the others are still queued. -/
theorem pullSignal_holds {info : ℤ × Revents} {queue : List (ℤ × Revents)} {s : PollerSigio Client} (h : Holds w g D)
    (hphase : w.phase = .pulling) (hqueue : w.kernel.queue = info :: queue) (hs : w.poller.takeSignal info = some s) :
    Holds { w with poller := s, kernel := { w.kernel with queue := queue } } (g.after w .pullSignal) D := by
  have hD : D = ∅ := h.none (by rw [hphase]; nofun)
  obtain ⟨L, hsound⟩ := h.sound
  obtain ⟨t, L', ht, hsound', hself, hother⟩ := updateReady_bits hsound info.1 fun b => b ||| (info.2 &&& bandBits)
  have heq : s = t := Option.some.inj (hs.symm.trans ht)
  rw [heq, Notes.after, hqueue]
  refine ⟨⟨L', hsound'⟩, h.backed, h.live, h.none, ?_⟩
  intro _ x hx bit hbit
  have hold := h.learned (.inr (.inl hphase)) x hx bit hbit
  by_cases hin : x = info.1 ∧ info.2.has bit = true
  · obtain ⟨rfl, hhas⟩ := hin
    have hband : bandBits.has bit = true := hbit.has_of (by decide) (by decide)
    have hknown : (t.fds info.1).readybits.has bit = true := by
      rw [hself hx, hbit.single.has_or, hbit.single.has_and, hhas, hband, Bool.and_self, Bool.or_true]
    exact learned_of_known (hD ▸ Set.notMem_empty info.1) hknown (learned_not_fresh hbit hhas)
  · have hsignal : w.Signalled x bit →
        SigioWorld.Signalled { w with poller := t, kernel := { w.kernel with queue := queue } } x bit := by
      intro hsignalled
      apply hsignalled.imp_left
      intro ⟨band, hmem, hhas⟩
      rw [hqueue] at hmem
      rcases List.mem_cons.1 hmem with heq | hmem
      · rw [← heq] at hin
        exact absurd ⟨rfl, hhas⟩ hin
      · exact ⟨band, hmem, hhas⟩
    refine hold.mono id hsignal .rfl (fun _ => rfl) ?_ ?_
    · intro hknown
      change (t.fds x).readybits.has bit = true
      by_cases heq : x = info.1
      · rw [heq] at hx hknown ⊢
        rw [hself hx, hbit.single.has_or]
        exact Bool.or_eq_true_iff.2 (.inl hknown)
      · exact (congrArg (·.has bit) (hother x heq)).trans hknown
    · exact learn_has hbit

/-- What the backup is answered about a descriptor. -/
theorem answer_has (h : Backed w.backup g.monitored m) (hfd : fd ∈ g.monitored) (hbit : Signal bit)
    (others : ℤ → Revents) : (w.answer others (w.backup.fd2pfdnum fd)).has bit = (w.kernel.ready fd).has bit := by
  obtain ⟨e, he⟩ := Option.ne_none_iff_exists'.1 ((h.monitored fd).2 hfd)
  obtain ⟨h0, hlt, hat⟩ := h.represents.compact.slot fd (PollerPoll.mem_monitored he)
  have hevents : (w.backup.pfds (w.backup.fd2pfdnum fd)).events = BackedSigio.allBits := by
    rw [← h.mask fd e he, ← h.represents.entry fd e he]
    rfl
  have hboth : BackedSigio.allBits.has bit = true ∧ (POLLIN ||| POLLOUT).has bit = true :=
    ⟨hbit.has_of (by decide) (by decide), hbit.has_of (by decide) (by decide)⟩
  unfold answer
  rw [hat, hevents, hbit.single.has_or, hbit.single.has_and, hbit.single.has_and, hbit.single.has_not, hboth.1, hboth.2,
    Bool.and_true, Bool.not_true, Bool.and_false, Bool.or_false]

/-- With the answer of the backup all that is ready is on its way. -/
theorem poll_holds (h : Holds w g D) (others : ℤ → Revents) :
    ∃ D', Holds { w with backup := (w.backup.waitForEvents (.ok (w.answer others))).2, phase := .polled } g D' := by
  obtain ⟨m, hbacked⟩ := h.backed
  have hrep := hbacked.represents
  refine ⟨_, h.sound, ⟨m, PollerPoll.waitForEvents_represents hrep _, hbacked.monitored, hbacked.mask⟩,
    fun _ => PollerPoll.waitForEvents_live hrep rfl, fun hne => absurd rfl hne, ?_⟩
  intro _ fd hfd bit hbit hr
  have hhas : (w.answer others (w.backup.fd2pfdnum fd)).has bit = true := (answer_has hbacked hfd hbit others).trans hr
  obtain ⟨e, he⟩ := Option.ne_none_iff_exists'.1 ((hbacked.monitored fd).2 hfd)
  obtain ⟨h0, hlt, hat⟩ := hrep.compact.slot fd (PollerPoll.mem_monitored he)
  have hne : w.answer others (w.backup.fd2pfdnum fd) ≠ 0 := by
    intro hzero
    rw [hzero, hbit.single.has_zero] at hhas
    cases hhas
  refine Coming.learned (.inr ⟨⟨w.backup.fd2pfdnum fd, h0, hlt, hat, hne⟩, ?_⟩) hr
  have hslot : (if 0 ≤ w.backup.fd2pfdnum fd ∧ w.backup.fd2pfdnum fd < w.backup.pfdsUsed then
      { w.backup.pfds (w.backup.fd2pfdnum fd) with revents := w.answer others (w.backup.fd2pfdnum fd) }
      else w.backup.pfds (w.backup.fd2pfdnum fd)).revents = w.answer others (w.backup.fd2pfdnum fd) := by
    rw [if_pos ⟨h0, hlt⟩]
  exact (congrArg (·.has bit) hslot).trans hhas

/-- An event of the backup is taken, which tells all there is about its descriptor. -/
theorem takeEvent_holds {err : ℤ} {e : PollEvent Client} {s : PollerSigio Client} (h : Holds w g D)
    (hphase : w.phase = .polled) (hq : w.backup.getNextEvent = some (err, some e, q))
    (hs : w.poller.takeBackup e = some s) :
    ∃ D', Holds { w with poller := s, backup := q } (g.after w .takeBackup) D' := by
  obtain ⟨m, hbacked⟩ := h.backed
  obtain ⟨L, hsound⟩ := h.sound
  obtain ⟨_, _, _, hq', hsome, -⟩ := PollerPoll.getNextEvent_live hbacked.represents (h.live hphase)
  rw [hq] at hq'
  cases hq'
  obtain ⟨hdue, ⟨_, he⟩, hlive⟩ := hsome e rfl
  obtain ⟨hrevents, hpfds, hslots, -⟩ := PollerPoll.getNextEvent_at hq
  obtain ⟨t, L', ht, hsound', hself, hother⟩ := takeBackup_bits hsound e
  have heq : s = t := Option.some.inj (hs.symm.trans ht)
  have hfd : e.fd ∈ g.monitored := (hbacked.monitored e.fd).1 (he ▸ nofun)
  rw [heq, Notes.after, hq]
  refine ⟨D \ {e.fd}, ⟨L', hsound'⟩, ⟨m, PollerPoll.getNextEvent_represents hbacked.represents hq, hbacked.monitored,
    hbacked.mask⟩, fun _ => hlive, fun hne => absurd hphase hne, ?_⟩
  intro _ x hx bit hbit
  have hold := h.learned (.inr (.inr hphase)) x hx bit hbit
  have hpolled : SigioWorld.polled { w with poller := t, backup := q } x = w.polled x := by
    unfold SigioWorld.polled
    rw [hpfds, hslots]
  by_cases hxe : x = e.fd
  · rw [hxe] at hold ⊢
    intro hr
    obtain ⟨hknown, hcoming⟩ := hold hr
    by_cases hsignal : w.Signalled e.fd bit
    · exact ⟨.inl (.inl hsignal), fun _ => .inl hsignal⟩
    · have hhas : e.revents.has bit = true := by
        rw [hrevents]
        rcases hknown with hc | hc
        · exact (hc.resolve_left hsignal).2
        · exact absurd hdue hc.1
      have hin : (t.fds e.fd).readybits.has bit = true := by
        rw [hself hfd]
        exact hhas
      exact learned_of_known (fun hD => hD.2 rfl) hin (learned_not_fresh hbit hhas) hr
  · refine hold.mono id id ?_ (fun _ => hpolled) (fun hin => (congrArg (·.has bit) (hother x hxe)).trans hin) ?_
    · rw [Set.mem_sdiff, Set.mem_singleton_iff]
      exact and_iff_left hxe
    · exact learn_has hbit

/-- No event of the backup is left. -/
theorem takeNone_holds {err : ℤ} (h : Holds w g D) (hphase : w.phase = .polled)
    (hq : w.backup.getNextEvent = some (err, none, q)) :
    Holds { w with backup := q, phase := .idle } (g.after w .takeBackup) ∅ := by
  obtain ⟨m, hbacked⟩ := h.backed
  obtain ⟨_, _, _, hq', -, hnone⟩ := PollerPoll.getNextEvent_live hbacked.represents (h.live hphase)
  rw [hq] at hq'
  cases hq'
  have hD : D = ∅ := hnone rfl
  rw [Notes.after, hq]
  refine ⟨h.sound, ⟨m, PollerPoll.getNextEvent_represents hbacked.represents hq, hbacked.monitored, hbacked.mask⟩,
    nofun, fun _ => rfl, ?_⟩
  intro _ x hx bit hbit
  refine (h.learned (.inr (.inr hphase)) x hx bit hbit).mono id id (by rw [hD]) ?_ id id
  intro hmem
  rw [hD] at hmem
  exact hmem.elim

/-- `waitForEvents` goes on; after a SIGIO nothing is said until the backup has answered. -/
theorem Holds.goes {k : Signals} {phase : Phase} (h : Holds w g D) (hfrom : w.phase ≠ .polled) (hto : phase ≠ .polled)
    (hset : phase = .idle ∨ phase = .pulling → w.Settled ∧ k = w.kernel) :
    Holds { w with kernel := k, phase := phase } g D := by
  refine ⟨h.sound, h.backed, fun hp => absurd hp hto, fun _ => h.none hfrom, ?_⟩
  intro hs
  have hs' : phase = .idle ∨ phase = .pulling := by
    rcases hs with hs | hs | hs
    · exact .inl hs
    · exact .inr hs
    · exact absurd hs hto
  obtain ⟨hsettled, rfl⟩ := hset hs'
  exact h.learned hsettled

theorem beginWait_holds (h : Holds w g D) (hidle : w.phase = .idle) :
    Holds { w with poller := w.poller.beginWait, phase := .pulling } (g.after w .waitForEvents) D := by
  obtain ⟨L, hsound⟩ := h.sound
  refine ⟨⟨L, (beginWait_waiting hsound).toSound⟩, h.backed, nofun, fun _ => h.none (by rw [hidle]; nofun), ?_⟩
  intro _
  exact h.learned (.inl hidle)

theorem getNextEvent_holds (h : Holds w g D) : Holds { w with poller := w.poller.getNextEvent.2.2 } g D := by
  obtain ⟨L, hsound⟩ := h.sound
  obtain ⟨r, hr, L', hsound'⟩ := call_sound (c := .getNextEvent) hsound trivial
  cases hr
  exact h.kept ⟨L', hsound'⟩ fun x _ => congrArg (fun fds : ℤ → FdState Client => (fds x).readybits) getNextEvent_fds

/-- A signal was queued, and is handled. -/
theorem pullSignal_step (hw : w.step .pullSignal = some w') : w.phase = .pulling ∧
    ∃ info queue s, w.kernel.queue = info :: queue ∧ w.poller.takeSignal info = some s ∧
      w' = { w with poller := s, kernel := { w.kernel with queue := queue } } := by
  obtain ⟨hphase, hw⟩ := Option.ite_none_right_eq_some.1 hw
  unfold SigioWorld.pullSignal at hw
  split at hw
  · cases hw
  · next info queue hqueue =>
    obtain ⟨s, hs, hw⟩ := Option.map_eq_some_iff.1 hw
    exact ⟨hphase, info, queue, s, hqueue, hs, hw.symm⟩

/-- The backup has an event, which is handled, or has no more. -/
theorem takeBackup_step (hw : w.step .takeBackup = some w') : w.phase = .polled ∧
    ∃ err q, (w.backup.getNextEvent = some (err, none, q) ∧ w' = { w with backup := q, phase := .idle }) ∨
      ∃ e s, w.backup.getNextEvent = some (err, some e, q) ∧ w.poller.takeBackup e = some s ∧
        w' = { w with poller := s, backup := q } := by
  obtain ⟨hphase, hw⟩ := Option.ite_none_right_eq_some.1 hw
  obtain ⟨⟨err, ev, q⟩, hq, hw⟩ := Option.bind_eq_some_iff.1 hw
  refine ⟨hphase, err, q, ?_⟩
  cases ev with
  | none => exact .inl ⟨hq, (Option.some.inj hw).symm⟩
  | some e =>
      obtain ⟨s, hs, hw⟩ := Option.map_eq_some_iff.1 hw
      exact .inr ⟨e, s, hq, hs, hw.symm⟩

/-- What happens keeps what was learned, if bits are taken away only while they are fresh. -/
theorem step_holds {k : Happening Client} (h : Holds w g D) (hc : g.Allows w k) (hf : g.Fresh k)
    (hw : w.step k = some w') : ∃ D', Holds w' (g.after w k) D' := by
  cases k with
  | edge fd bits band delivery =>
      cases hw
      exact ⟨D, edge_holds h hc⟩
  | drain fd bits =>
      cases hw
      exact ⟨D, drain_holds h fd bits⟩
  | wouldBlock fd bits =>
      obtain ⟨⟨-, hready⟩, hw⟩ := Option.ite_none_right_eq_some.1 hw
      cases hw
      exact ⟨D, wouldBlock_holds h hready⟩
  | add fd client mask memory heap =>
      obtain ⟨hidle, hw⟩ := Option.ite_none_right_eq_some.1 hw
      exact ⟨D, add_holds h hidle hc hw⟩
  | del fd =>
      obtain ⟨hidle, hw⟩ := Option.ite_none_right_eq_some.1 hw
      exact ⟨D, del_holds h hidle hc hw⟩
  | setMask fd mask | orMask fd mask | andMask fd mask =>
      obtain ⟨-, hw⟩ := Option.ite_none_right_eq_some.1 hw
      exact ⟨D, mask_holds h _ hw⟩
  | clearReadiness fd mask =>
      obtain ⟨hidle, hw⟩ := Option.ite_none_right_eq_some.1 hw
      obtain ⟨s, hs, rfl⟩ := Option.map_eq_some_iff.1 hw
      exact ⟨D, clearReadiness_holds h hidle hf hs⟩
  | getNextEvent =>
      obtain ⟨-, hw⟩ := Option.ite_none_right_eq_some.1 hw
      cases hw
      exact ⟨D, getNextEvent_holds h⟩
  | waitForEvents =>
      obtain ⟨hidle, hw⟩ := Option.ite_none_right_eq_some.1 hw
      cases hw
      exact ⟨D, beginWait_holds h hidle⟩
  | pullSignal =>
      obtain ⟨hphase, info, queue, s, hqueue, hs, rfl⟩ := pullSignal_step hw
      exact ⟨D, pullSignal_holds h hphase hqueue hs⟩
  | pullSigio =>
      obtain ⟨⟨hphase, -⟩, hw⟩ := Option.ite_none_right_eq_some.1 hw
      cases hw
      have hgoes : Holds { w with kernel := { w.kernel with sigio := false }, phase := .overflowed } g D :=
        h.goes (by rw [hphase]; nofun) nofun nofun
      exact ⟨D, hgoes.sound, hgoes.backed, hgoes.live, hgoes.none, hgoes.learned⟩
  | pullNone =>
      obtain ⟨hphase, hw⟩ := Option.ite_none_right_eq_some.1 hw
      cases hw
      exact ⟨D, h.goes (by rw [hphase]; nofun) nofun fun _ => ⟨.inr (.inl hphase), rfl⟩⟩
  | ignore =>
      obtain ⟨hphase, hw⟩ := Option.ite_none_right_eq_some.1 hw
      cases hw
      exact ⟨D, h.goes (by rw [hphase]; nofun) nofun nofun⟩
  | restore =>
      obtain ⟨hphase, hw⟩ := Option.ite_none_right_eq_some.1 hw
      cases hw
      exact ⟨D, h.goes (by rw [hphase]; nofun) nofun nofun⟩
  | poll others =>
      obtain ⟨-, hw⟩ := Option.ite_none_right_eq_some.1 hw
      cases hw
      exact poll_holds h others
  | takeBackup =>
      obtain ⟨hphase, err, q, ⟨hq, rfl⟩ | ⟨e, s, hq, hs, rfl⟩⟩ := takeBackup_step hw
      · exact ⟨∅, takeNone_holds h hphase hq⟩
      · exact takeEvent_holds h hphase hq hs

theorem start_holds (h : worlds.start w g) : Holds w g ∅ := by
  obtain ⟨⟨s₀, cells, hpoller⟩, ⟨p₀, heap, hbackup⟩, hphase, hmonitored, -, -⟩ := h
  refine ⟨⟨[], ?_⟩, ⟨fun _ => none, PollerPoll.init_represents hbackup, fun x => ?_, nofun⟩, ?_, fun _ => rfl, ?_⟩
  · rw [hpoller, hmonitored]
    exact init_sound 0 cells
  · rw [hmonitored]
    exact iff_of_false (fun hne => hne rfl) (Finset.notMem_empty x)
  · rw [hphase]
    nofun
  · rw [hmonitored]
    nofun

/-- No readiness is lost: between calls, and while signals are pulled, what the kernel
holds ready is in the readiness bits, or a signal for it is queued, or a SIGIO is pending. -/
theorem sigio_readiness (h : Run worlds (fun w g k => g.Allows w k ∧ g.Fresh k) w g)
    (hphase : w.phase = .idle ∨ w.phase = .pulling) :
    ∀ fd ∈ g.monitored, ∀ bit, bit = POLLIN ∨ bit = POLLOUT → (w.kernel.ready fd).has bit = true →
      (w.poller.fds fd).readybits.has bit = true ∨
      (∃ band, (fd, band) ∈ w.kernel.queue ∧ band.has bit = true) ∨ w.kernel.sigio = true := by
  have hholds : ∃ D, Holds w g D := by
    apply h.invariant
    · exact fun w g hstart => ⟨∅, start_holds hstart⟩
    · intro w g k w' ⟨D, hholds⟩ ⟨hc, hf⟩ hw
      exact step_holds hholds hc hf hw
  obtain ⟨D, hholds⟩ := hholds
  intro fd hfd bit hbit hready
  have hD : D = ∅ := by
    apply hholds.none
    rcases hphase with hphase | hphase
    · rw [hphase]
      nofun
    · rw [hphase]
      nofun
  have hsettled : w.Settled := hphase.imp_right .inl
  rcases (hholds.learned hsettled fd hfd bit hbit hready).1 with hcoming | hknown
  · right
    apply hcoming.resolve_right
    rw [hD]
    exact fun hmem => hmem.1
  · exact .inl hknown.2

/-! ## The steps make up `waitForEvents` -/

/-- What `waitForEvents` has done so far since it was called. -/
def Begun (w : SigioWorld Client) (g : Notes Client) : Prop :=
  match w.phase with
  | .idle => True
  | .pulling => g.events = none ∧ g.signals.foldlM takeSignal g.since.beginWait = some w.poller
  | .overflowed | .ignoring | .restored | .polled => ∃ events s, g.events = some events ∧
      g.signals.foldlM takeSignal g.since.beginWait = some s ∧ events.foldlM PollerSigio.takeBackup s = some w.poller

theorem foldlM_concat {α : Type*} {take : PollerSigio Client → α → Option (PollerSigio Client)} {l : List α} {a : α}
    {s t u : PollerSigio Client} (hl : l.foldlM take s = some t) (ha : take t a = some u) :
    (l ++ [a]).foldlM take s = some u := by
  simp [List.foldlM_append, hl, ha]

theorem Begun.idle (hidle : w.phase = .idle) : Begun w g := by
  unfold Begun
  rw [hidle]
  trivial

/-- Where the poller and the notes of the wait are the same, so is what was done. -/
theorem Begun.congr (h : Begun w g) (hpoller : w'.poller = w.poller) (hphase : w'.phase = w.phase)
    (hsince : g'.since = g.since) (hsignals : g'.signals = g.signals) (hevents : g'.events = g.events) :
    Begun w' g' := by
  unfold Begun at h ⊢
  rw [hpoller, hphase, hsince, hsignals, hevents]
  exact h

theorem add_phase {client : Option Client} {memory : Option (ℤ → FdState Client)} {heap : Heap Client}
    (hw : w.add fd client mask memory heap = some w') : w'.phase = w.phase := by
  rw [SigioWorld.add_eq] at hw
  split at hw
  · cases hw
    rfl
  · obtain ⟨r, -, rfl⟩ := Option.map_eq_some_iff.1 hw
    rfl

theorem del_phase (hw : w.del fd = some w') : w'.phase = w.phase := by
  rw [SigioWorld.del_eq] at hw
  split at hw
  · cases hw
    rfl
  · obtain ⟨b, -, hw⟩ := Option.bind_eq_some_iff.1 hw
    obtain ⟨r, -, rfl⟩ := Option.map_eq_some_iff.1 hw
    rfl

theorem result_phase {r : Option (ℤ × PollerSigio Client)} (hw : w.result r = some w') : w'.phase = w.phase := by
  obtain ⟨r, -, rfl⟩ := Option.map_eq_some_iff.1 hw
  rfl

/-- Only the steps of `waitForEvents` matter. -/
theorem step_begun {k : Happening Client} (h : Begun w g) (hw : w.step k = some w') : Begun w' (g.after w k) := by
  cases k with
  | edge | drain =>
      cases hw
      exact h.congr rfl rfl rfl rfl rfl
  | wouldBlock fd bits =>
      obtain ⟨⟨hidle, -⟩, hw⟩ := Option.ite_none_right_eq_some.1 hw
      cases hw
      exact .idle hidle
  | add fd client mask memory heap =>
      obtain ⟨hidle, hw⟩ := Option.ite_none_right_eq_some.1 hw
      exact .idle ((add_phase hw).trans hidle)
  | del fd =>
      obtain ⟨hidle, hw⟩ := Option.ite_none_right_eq_some.1 hw
      exact .idle ((del_phase hw).trans hidle)
  | setMask | orMask | andMask =>
      obtain ⟨hidle, hw⟩ := Option.ite_none_right_eq_some.1 hw
      exact .idle ((result_phase hw).trans hidle)
  | clearReadiness fd mask =>
      obtain ⟨hidle, hw⟩ := Option.ite_none_right_eq_some.1 hw
      obtain ⟨s, -, rfl⟩ := Option.map_eq_some_iff.1 hw
      exact .idle hidle
  | getNextEvent =>
      obtain ⟨hidle, hw⟩ := Option.ite_none_right_eq_some.1 hw
      cases hw
      exact .idle hidle
  | waitForEvents =>
      obtain ⟨-, hw⟩ := Option.ite_none_right_eq_some.1 hw
      cases hw
      exact ⟨rfl, rfl⟩
  | pullSignal =>
      obtain ⟨hphase, info, queue, s, hqueue, hs, rfl⟩ := pullSignal_step hw
      unfold Begun at h ⊢
      rw [hphase] at h
      rw [show SigioWorld.phase { w with poller := s, kernel := { w.kernel with queue := queue } } = .pulling from hphase,
        Notes.after, hqueue]
      exact ⟨h.1, foldlM_concat h.2 hs⟩
  | pullSigio =>
      obtain ⟨⟨hphase, -⟩, hw⟩ := Option.ite_none_right_eq_some.1 hw
      cases hw
      unfold Begun at h
      rw [hphase] at h
      exact ⟨[], w.poller, rfl, h.2, rfl⟩
  | pullNone =>
      obtain ⟨-, hw⟩ := Option.ite_none_right_eq_some.1 hw
      cases hw
      exact .idle rfl
  | ignore | restore | poll =>
      obtain ⟨hphase, hw⟩ := Option.ite_none_right_eq_some.1 hw
      cases hw
      unfold Begun at h
      rw [hphase] at h
      exact h
  | takeBackup =>
      obtain ⟨hphase, err, q, ⟨_, rfl⟩ | ⟨e, s, hq, hs, rfl⟩⟩ := takeBackup_step hw
      · exact .idle rfl
      · unfold Begun at h ⊢
        rw [hphase] at h
        obtain ⟨events, u, hevents, hsignals, htaken⟩ := h
        rw [show SigioWorld.phase { w with poller := s, backup := q } = .polled from hphase, Notes.after, hq]
        refine ⟨events ++ [e], u, ?_, hsignals, foldlM_concat htaken hs⟩
        dsimp only
        rw [hevents]
        rfl

/-- When `waitForEvents` is over it has done what the function does on the signals that
were pulled and the events of the backup. -/
theorem wait_refines {ok : SigioWorld Client → Notes Client → Happening Client → Prop} {k : Happening Client}
    (h : Run worlds ok w g) (hw : w.step k = some w') (hphase : w.phase ≠ .idle) (hidle : w'.phase = .idle) :
    g.since.waitForEvents g.signals g.events = some w'.poller.endWait := by
  have hbegun : Begun w g := by
    apply h.invariant
    · intro w g ⟨_, _, hstart, _⟩
      exact .idle hstart
    · exact fun w g k w' hbegun _ hw => step_begun hbegun hw
  cases k with
  | pullNone =>
      obtain ⟨hpulling, hw⟩ := Option.ite_none_right_eq_some.1 hw
      cases hw
      unfold Begun at hbegun
      rw [hpulling] at hbegun
      unfold PollerSigio.waitForEvents
      rw [hbegun.1, hbegun.2]
      rfl
  | takeBackup =>
      obtain ⟨hpolled, err, q, ⟨_, rfl⟩ | ⟨e, s, _, _, rfl⟩⟩ := takeBackup_step hw
      · unfold Begun at hbegun
        rw [hpolled] at hbegun
        obtain ⟨events, s, hevents, hsignals, htaken⟩ := hbegun
        unfold PollerSigio.waitForEvents
        rw [hevents, hsignals]
        exact Option.map_eq_some_iff.2 ⟨_, htaken, rfl⟩
      · exact absurd hidle hphase
  | edge | drain =>
      cases hw
      exact absurd hidle hphase
  | wouldBlock =>
      obtain ⟨⟨hidle, -⟩, -⟩ := Option.ite_none_right_eq_some.1 hw
      exact absurd hidle hphase
  | add | del | setMask | orMask | andMask | clearReadiness | getNextEvent | waitForEvents =>
      exact absurd (Option.ite_none_right_eq_some.1 hw).1 hphase
  | pullSignal =>
      obtain ⟨_, info, queue, s, _, _, rfl⟩ := pullSignal_step hw
      exact absurd hidle hphase
  | pullSigio | ignore | restore | poll =>
      obtain ⟨-, hw⟩ := Option.ite_none_right_eq_some.1 hw
      cases hw
      cases hidle

instance (w : SigioWorld Client) (g : Notes Client) (k : Happening Client) : Decidable (g.Allows w k) := by
  cases k <;> unfold Notes.Allows <;> infer_instance

instance (g : Notes Client) (k : Happening Client) : Decidable (g.Fresh k) := by
  cases k <;> unfold Notes.Fresh <;> infer_instance

instance (g : Notes Client) (k : Happening Client) : Decidable (g.Blocked k) := by
  cases k <;> unfold Notes.Blocked <;> infer_instance

end

/-- Nothing is ready. -/
def quiet : SigioWorld ℕ where
  poller := (PollerSigio.init PollerSigio.raw (some fun _ => .clear) 0).2
  backup := (PollerPoll.init PollerPoll.raw PollerPoll.sevens).2
  kernel := ⟨fun _ => 0, [], false⟩
  phase := .idle

def quietNotes : Notes ℕ := ⟨∅, 0, 0, quiet.poller, [], none⟩

theorem quiet_start : worlds.start quiet quietNotes :=
  ⟨⟨PollerSigio.raw, _, rfl⟩, ⟨PollerPoll.raw, PollerPoll.sevens, rfl⟩, rfl, rfl, rfl, rfl⟩

/-- The queue overflows, and an event that comes after the backup has polled is queued. -/
theorem sigio_readiness_overflow : ∃ (w : SigioWorld ℕ) (g : Notes ℕ),
    Run worlds (fun w g k => g.Allows w k ∧ g.Fresh k) w g ∧ (w.phase = .idle ∧ 5 ∈ g.monitored ∧
      (w.kernel.ready 5).has POLLIN = true) ∧ ((w.poller.fds 5).readybits.has POLLIN = true ∨
      (∃ band, (5, band) ∈ w.kernel.queue ∧ band.has POLLIN = true) ∨ w.kernel.sigio = true) := by
  have hfollow : ((follow (guarded (fun w g k => g.Allows w k ∧ g.Fresh k) step) worlds.note quiet quietNotes
      [.add 5 (some 5) POLLIN (some fun _ => .clear) PollerPoll.sevens, .wouldBlock 5 POLLIN, .clearReadiness 5 POLLIN,
        .edge 5 POLLOUT POLLOUT .overflow, .waitForEvents, .pullSigio, .ignore, .restore, .poll fun _ => 0,
        .edge 5 POLLIN POLLIN .queued, .takeBackup, .takeBackup]).map fun r =>
          (r.1.phase, decide (5 ∈ r.2.monitored), (r.1.kernel.ready 5).has POLLIN)) = some (.idle, true, true) := by
    decide +kernel
  obtain ⟨⟨w, g⟩, hr, heq⟩ := Option.map_eq_some_iff.1 hfollow
  rw [Prod.mk.injEq, Prod.mk.injEq, decide_eq_true_iff] at heq
  obtain ⟨hphase, hfd, hready⟩ := heq
  have hrun : Run worlds (fun w g k => g.Allows w k ∧ g.Fresh k) w g :=
    Run.follow_guarded (fun _ _ _ hw => hw) (.start quiet_start) hr
  exact ⟨w, g, hrun, ⟨hphase, hfd, hready⟩, sigio_readiness hrun (.inl hphase) 5 hfd POLLIN (.inl rfl) hready⟩

/-- A signal is pulled after an I/O call would have blocked, and then the bit is taken away. -/
theorem sigio_readiness_stale : ¬ ∀ (w : SigioWorld ℕ) (g : Notes ℕ),
    Run worlds (fun w g k => g.Allows w k ∧ g.Blocked k) w g → w.phase = .idle →
    ∀ fd ∈ g.monitored, ∀ bit, bit = POLLIN ∨ bit = POLLOUT → (w.kernel.ready fd).has bit = true →
      (w.poller.fds fd).readybits.has bit = true ∨
      (∃ band, (fd, band) ∈ w.kernel.queue ∧ band.has bit = true) ∨ w.kernel.sigio = true := by
  intro hall
  have hfollow : ((follow (guarded (fun w g k => g.Allows w k ∧ g.Blocked k) step) worlds.note quiet quietNotes
      [.add 5 (some 5) POLLIN (some fun _ => .clear) PollerPoll.sevens, .wouldBlock 5 POLLIN,
        .edge 5 POLLIN POLLIN .queued, .waitForEvents, .pullSignal, .pullNone, .clearReadiness 5 POLLIN]).map fun r =>
          (r.1.phase, decide (5 ∈ r.2.monitored), (r.1.kernel.ready 5).has POLLIN, (r.1.poller.fds 5).readybits.has POLLIN,
            r.1.kernel.queue.isEmpty, r.1.kernel.sigio)) = some (.idle, true, true, false, true, false) := by
    decide +kernel
  obtain ⟨⟨w, g⟩, hr, heq⟩ := Option.map_eq_some_iff.1 hfollow
  simp only [Prod.mk.injEq, decide_eq_true_iff] at heq
  obtain ⟨hphase, hfd, hready, hbits, hqueue, hsigio⟩ := heq
  have hrun : Run worlds (fun w g k => g.Allows w k ∧ g.Blocked k) w g :=
    Run.follow_guarded (fun _ _ _ hw => hw) (.start quiet_start) hr
  rcases hall w g hrun hphase 5 hfd POLLIN (.inl rfl) hready with hknown | ⟨band, hmem, -⟩ | hpending
  · rw [hbits] at hknown
    cases hknown
  · rw [List.isEmpty_iff.1 hqueue] at hmem
    cases hmem
  · rw [hsigio] at hpending
    cases hpending

end Dkftpbench.SigioWorld
