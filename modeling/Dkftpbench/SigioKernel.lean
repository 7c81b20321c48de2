import Dkftpbench.SigioBackup

/-!
# Poller_sigio between the kernel and its backup

The kernel knows what is ready, keeps a queue of signals and whether a SIGIO is pending,
and its events come at any moment, also while `waitForEvents` is running. That is why
`waitForEvents` is taken here in steps: each is one system call with what is done on its
result, up to the next one. A kernel event between a system call and what is done on its
result commutes with the latter.
-/
namespace Dkftpbench
open CLib

/-- Where `waitForEvents` is: not called; pulling signals; a SIGIO came; signals are
ignored; they are no more; the backup has polled. -/
inductive Phase
  | idle | pulling | overflowed | ignoring | restored | polled
deriving DecidableEq

/-- What becomes of the signal for an event: the queue may be full, and a signal that is
ignored may get lost. -/
inductive Delivery
  | queued | overflow | discarded
deriving DecidableEq

structure Signals where
  ready : ℤ → Revents
  queue : List (ℤ × Revents)
  sigio : Bool

/-- Something becomes ready. -/
def Signals.edge (k : Signals) (fd : ℤ) (bits band : Revents) (delivery : Delivery) : Signals :=
  let k := { k with ready := Function.update k.ready fd (k.ready fd ||| bits) }
  match delivery with
  | .queued => { k with queue := k.queue ++ [(fd, band)] }
  | .overflow => { k with sigio := true }
  | .discarded => k

/-- Something is no more ready. -/
def Signals.drain (k : Signals) (fd : ℤ) (bits : Revents) : Signals :=
  { k with ready := Function.update k.ready fd (k.ready fd &&& ~~~bits) }

structure SigioWorld (Client : Type*) extends BackedSigio Client where
  kernel : Signals
  phase : Phase

namespace SigioWorld
variable {Client : Type*}

/-- What can happen: an event of the kernel, a call of the user, an I/O call of the user
that would block, or a step of `waitForEvents`. -/
inductive Happening (Client : Type*)
  | edge (fd : ℤ) (bits band : Revents) (delivery : Delivery)
  | drain (fd : ℤ) (bits : Revents)
  | wouldBlock (fd : ℤ) (bits : Revents)
  | add (fd : ℤ) (client : Option Client) (eventmask : Revents) (memory : Option (ℤ → FdState Client))
    (heap : Heap Client)
  | del (fd : ℤ)
  | setMask (fd : ℤ) (eventmask : Revents)
  | orMask (fd : ℤ) (eventmask : Revents)
  | andMask (fd : ℤ) (eventmask : Revents)
  | clearReadiness (fd : ℤ) (eventmask : Revents)
  | getNextEvent
  | waitForEvents
  | pullSignal
  | pullSigio
  | pullNone
  | ignore
  | restore
  | poll (others : ℤ → Revents)
  | takeBackup

def add (w : SigioWorld Client) (fd : ℤ) (client : Option Client) (eventmask : Revents)
    (memory : Option (ℤ → FdState Client)) (heap : Heap Client) : Option (SigioWorld Client) :=
  (w.toBackedSigio.add fd client eventmask memory (fun _ => none) heap).map fun r => { w with toBackedSigio := r.2 }

def del (w : SigioWorld Client) (fd : ℤ) : Option (SigioWorld Client) :=
  (w.toBackedSigio.del fd fun _ => none).map fun r => { w with toBackedSigio := r.2 }

/-- What `poll()` says of a slot: which of the events asked for are there, and anything
about errors and the like. -/
def answer (w : SigioWorld Client) (others : ℤ → Revents) (i : ℤ) : Revents :=
  w.kernel.ready (w.backup.pfds i).fd &&& (w.backup.pfds i).events ||| others i &&& ~~~(POLLIN ||| POLLOUT)

/-- `sigtimedwait` returns a signal. -/
def pullSignal (w : SigioWorld Client) : Option (SigioWorld Client) :=
  match w.kernel.queue with
  | [] => none
  | info :: queue =>
    (w.poller.takeSignal info).map fun s => { w with poller := s, kernel := { w.kernel with queue := queue } }

/-- One more event of the backup, or none. -/
def takeBackup (w : SigioWorld Client) : Option (SigioWorld Client) :=
  w.backup.getNextEvent.bind fun (_, ev, b) =>
    match ev with
    | some e => (w.poller.takeBackup e).map fun s => { w with poller := s, backup := b }
    | none => some { w with backup := b, phase := .idle }

/-- A result of the poller. -/
def result (w : SigioWorld Client) (r : Option (ℤ × PollerSigio Client)) : Option (SigioWorld Client) :=
  r.map fun r => { w with poller := r.2 }

def step (w : SigioWorld Client) : Happening Client → Option (SigioWorld Client)
  | .edge fd bits band delivery => some { w with kernel := w.kernel.edge fd bits band delivery }
  | .drain fd bits => some { w with kernel := w.kernel.drain fd bits }
  | .wouldBlock fd bits => if w.phase = .idle ∧ w.kernel.ready fd &&& bits = 0 then some w else none
  | .add fd client eventmask memory heap => if w.phase = .idle then w.add fd client eventmask memory heap else none
  | .del fd => if w.phase = .idle then w.del fd else none
  | .setMask fd eventmask => if w.phase = .idle then w.result (w.poller.setMask fd eventmask) else none
  | .orMask fd eventmask => if w.phase = .idle then w.result (w.poller.orMask fd eventmask) else none
  | .andMask fd eventmask => if w.phase = .idle then w.result (w.poller.andMask fd eventmask) else none
  | .clearReadiness fd eventmask =>
    if w.phase = .idle then (w.poller.clearReadiness fd eventmask).map fun s => { w with poller := s } else none
  | .getNextEvent => if w.phase = .idle then some { w with poller := w.poller.getNextEvent.2.2 } else none
  | .waitForEvents => if w.phase = .idle then some { w with poller := w.poller.beginWait, phase := .pulling } else none
  | .pullSignal => if w.phase = .pulling then w.pullSignal else none
  | .pullSigio =>
    if w.phase = .pulling ∧ w.kernel.sigio = true then
      some { w with kernel := { w.kernel with sigio := false }, phase := .overflowed }
    else none
  | .pullNone => if w.phase = .pulling then some { w with phase := .idle } else none
  | .ignore =>
    if w.phase = .overflowed then some { w with kernel := { w.kernel with queue := [] }, phase := .ignoring } else none
  | .restore => if w.phase = .ignoring then some { w with phase := .restored } else none
  | .poll others =>
    if w.phase = .restored then
      some { w with backup := (w.backup.waitForEvents (.ok (w.answer others))).2, phase := .polled }
    else none
  | .takeBackup => if w.phase = .polled then w.takeBackup else none

section
variable {w : SigioWorld Client} {fd : ℤ}

/-- The backup is called if there is memory for the descriptor. -/
theorem add_eq (client : Option Client) (eventmask : Revents) (memory : Option (ℤ → FdState Client))
    (heap : Heap Client) : w.add fd client eventmask memory heap =
      match w.poller.grow fd memory with
      | none => some w
      | some _ =>
        let (backup, b) := w.backup.add fd client BackedSigio.allBits heap
        (w.poller.add fd client eventmask ⟨memory, fun _ => none, backup⟩).map fun r =>
          { w with poller := r.2, backup := b } := by
  unfold add BackedSigio.add
  cases hgrow : w.poller.grow fd memory with
  | none =>
      rw [if_neg (by simp), PollerSigio.add, hgrow]
      rfl
  | some s =>
      rw [if_pos ⟨rfl, rfl⟩, Option.map_map]
      rfl

theorem del_eq : w.del fd =
    if fd < 0 ∨ fd ≥ w.poller.fdsAlloc ∨ w.poller.fdsUsed = 0 then some w
    else
      (w.backup.del fd).bind fun (backup, b) =>
        (w.poller.del fd (fun _ => none) backup).map fun r => { w with poller := r.2, backup := b } := by
  unfold del BackedSigio.del
  split
  · next hout =>
    have hout' := hout.resolve_right nofun
    rw [if_pos hout', PollerSigio.del, if_pos hout']
    rfl
  · next hin =>
    rw [if_neg fun hout => hin (.inl hout), Option.map_bind]
    congr 1
    funext r
    exact Option.map_map ..

end
end SigioWorld
end Dkftpbench
