import Dkftpbench.PollerPoll
import Dkftpbench.PollerSigio

/-!
# Poller_sigio with its backup

`m_backup` is a `Poller_poll`, which `init`, `add` and `del` call last and whose result
they return. `waitForEvents` asks it after a SIGIO.
-/
namespace Dkftpbench
open CLib

structure BackedSigio (Client : Type*) where
  poller : PollerSigio Client
  backup : PollerPoll Client

namespace BackedSigio
variable {Client : Type*}

/-- `POLLIN|POLLPRI|POLLOUT`, which the backup is asked for. -/
def allBits : Revents := POLLIN ||| POLLPRI ||| POLLOUT

def init (w : BackedSigio Client) (memory : Option (ℤ → FdState Client)) (heap : Heap Client) :
    ℤ × BackedSigio Client :=
  match memory with
  | none => let (err, s) := w.poller.init none 0; (err, { w with poller := s })
  | some cells =>
    let (err, b) := w.backup.init heap
    let (err, s) := w.poller.init (some cells) err
    (err, ⟨s, b⟩)

/-- The backup is called if there is memory and the `fcntl` calls succeed. -/
def add (w : BackedSigio Client) (fd : ℤ) (client : Option Client) (eventmask : Revents)
    (memory : Option (ℤ → FdState Client)) (fcntl : Fcntl → Option ℤ) (heap : Heap Client) :
    Option (ℤ × BackedSigio Client) :=
  if (w.poller.grow fd memory).isSome ∧ [Fcntl.getfl, .setfl, .setsig, .setown].findSome? fcntl = none then
    let (err, b) := w.backup.add fd client allBits heap
    (w.poller.add fd client eventmask ⟨memory, fcntl, err⟩).map fun r => (r.1, ⟨r.2, b⟩)
  else (w.poller.add fd client eventmask ⟨memory, fcntl, 0⟩).map fun r => (r.1, { w with poller := r.2 })

def del (w : BackedSigio Client) (fd : ℤ) (fcntl : Fcntl → Option ℤ) : Option (ℤ × BackedSigio Client) :=
  if (fd < 0 ∨ fd ≥ w.poller.fdsAlloc ∨ w.poller.fdsUsed = 0) ∨ ([Fcntl.getfl, .setfl].findSome? fcntl).isSome then
    (w.poller.del fd fcntl 0).map fun r => (r.1, { w with poller := r.2 })
  else
    (w.backup.del fd).bind fun (err, b) => (w.poller.del fd fcntl err).map fun r => (r.1, ⟨r.2, b⟩)

/-- The loop over the events of the backup. `n` is its `m_rfds`, which each event that it
returns lowers, so that the loop is over at 0 if it was not before. -/
def backupEvents : ℕ → PollerPoll Client → Option (List (PollEvent Client) × PollerPoll Client)
  | 0, b => some ([], b)
  | n+1, b =>
    b.getNextEvent.bind fun (_, ev, b) =>
      match ev with
      | none => some ([], b)
      | some e => (backupEvents n b).map fun r => (e :: r.1, r.2)

/-- After a SIGIO, `poll` is what `poll()` returns to the backup. -/
def waitForEvents (w : BackedSigio Client) (signals : List (ℤ × Revents)) (poll : Option (Except ℤ (ℤ → Revents))) :
    Option (ℤ × BackedSigio Client) :=
  match poll with
  | none => (w.poller.waitForEvents signals none).map fun r => (r.1, { w with poller := r.2 })
  | some poll =>
    let b := (w.backup.waitForEvents poll).2
    (backupEvents b.rfds.toNat b).bind fun (events, b) =>
      (w.poller.waitForEvents signals (some events)).map fun r => (r.1, ⟨r.2, b⟩)

/-- A call that does not come to the backup. -/
def onPoller {α : Type*} (w : BackedSigio Client) (r : Option (ℤ × α × PollerSigio Client)) :
    Option (ℤ × α × BackedSigio Client) :=
  r.map fun r => (r.1, r.2.1, { w with poller := r.2.2 })

/-- A call, with what it is answered from outside. -/
inductive Call (Client : Type*)
  | init (memory : Option (ℤ → FdState Client)) (heap : Heap Client)
  | add (fd : ℤ) (client : Option Client) (eventmask : Revents) (memory : Option (ℤ → FdState Client))
    (fcntl : Fcntl → Option ℤ) (heap : Heap Client)
  | del (fd : ℤ) (fcntl : Fcntl → Option ℤ)
  | setMask (fd : ℤ) (eventmask : Revents)
  | orMask (fd : ℤ) (eventmask : Revents)
  | andMask (fd : ℤ) (eventmask : Revents)
  | clearReadiness (fd : ℤ) (eventmask : Revents)
  | waitForEvents (signals : List (ℤ × Revents)) (poll : Option (Except ℤ (ℤ → Revents)))
  | getNextEvent

/-- The result of a call that returns no event. -/
def code (r : ℤ × BackedSigio Client) : ℤ × Option (PollEvent Client) × BackedSigio Client := (r.1, none, r.2)

def call (w : BackedSigio Client) : Call Client → Option (ℤ × Option (PollEvent Client) × BackedSigio Client)
  | .init memory heap => some (code (w.init memory heap))
  | .add fd client eventmask memory fcntl heap => (w.add fd client eventmask memory fcntl heap).map code
  | .del fd fcntl => (w.del fd fcntl).map code
  | .setMask fd eventmask => w.onPoller (w.poller.call (.setMask fd eventmask))
  | .orMask fd eventmask => w.onPoller (w.poller.call (.orMask fd eventmask))
  | .andMask fd eventmask => w.onPoller (w.poller.call (.andMask fd eventmask))
  | .clearReadiness fd eventmask => w.onPoller (w.poller.call (.clearReadiness fd eventmask))
  | .waitForEvents signals poll => (w.waitForEvents signals poll).map code
  | .getNextEvent => w.onPoller (w.poller.call .getNextEvent)

/-- The same call of the poller alone, where the backup returns this code or these events. -/
def Call.plain (backup : ℤ) (events : List (PollEvent Client)) : Call Client → PollerSigio.Call Client
  | .init memory _ => .init memory backup
  | .add fd client eventmask memory fcntl _ => .add fd client eventmask ⟨memory, fcntl, backup⟩
  | .del fd fcntl => .del fd fcntl backup
  | .setMask fd eventmask => .setMask fd eventmask
  | .orMask fd eventmask => .orMask fd eventmask
  | .andMask fd eventmask => .andMask fd eventmask
  | .clearReadiness fd eventmask => .clearReadiness fd eventmask
  | .waitForEvents signals poll => .waitForEvents signals (poll.map fun _ => events)
  | .getNextEvent => .getNextEvent

section
variable {w t : BackedSigio Client} {err : ℤ} {ev : Option (PollEvent Client)} {c : Call Client}

theorem onPoller_eq_some {r : Option (ℤ × Option (PollEvent Client) × PollerSigio Client)}
    (h : w.onPoller r = some (err, ev, t)) : r = some (err, ev, t.poller) := by
  obtain ⟨⟨err', ev', s⟩, hr, heq⟩ := Option.map_eq_some_iff.1 h
  cases heq
  exact hr

/-- The result is the poller's own, whatever becomes of the backup. -/
theorem code_eq_some {r : Option (ℤ × PollerSigio Client)} {b : PollerPoll Client}
    (h : (r.map fun r => (r.1, (⟨r.2, b⟩ : BackedSigio Client))).map code = some (err, ev, t)) :
    r.map PollerSigio.code = some (err, ev, t.poller) := by
  obtain ⟨q, hq, heq⟩ := Option.map_eq_some_iff.1 h
  obtain ⟨⟨err', s⟩, rfl, rfl⟩ := Option.map_eq_some_iff.1 hq
  cases heq
  rfl

/-- Whatever the backup returns, the rest is the call of the poller alone. -/
theorem call_plain (h : w.call c = some (err, ev, t)) :
    ∃ backup events, w.poller.call (c.plain backup events) = some (err, ev, t.poller) := by
  cases c with
  | init memory heap =>
      cases memory with
      | none =>
          cases h
          exact ⟨0, [], rfl⟩
      | some cells =>
          cases h
          exact ⟨(w.backup.init heap).1, [], rfl⟩
  | add fd client eventmask memory fcntl heap =>
      rw [call, add] at h
      split at h
      · exact ⟨(w.backup.add fd client allBits heap).1, [], code_eq_some h⟩
      · exact ⟨0, [], code_eq_some h⟩
  | del fd fcntl =>
      rw [call, del] at h
      split at h
      · exact ⟨0, [], code_eq_some h⟩
      · rw [Option.map_bind] at h
        obtain ⟨⟨backup, b⟩, -, h⟩ := Option.bind_eq_some_iff.1 h
        exact ⟨backup, [], code_eq_some h⟩
  | waitForEvents signals poll =>
      cases poll with
      | none => exact ⟨0, [], code_eq_some h⟩
      | some poll =>
          simp only [call, waitForEvents, Option.map_bind] at h
          obtain ⟨⟨events, b⟩, -, h⟩ := Option.bind_eq_some_iff.1 h
          exact ⟨0, events, code_eq_some h⟩
  | setMask | orMask | andMask | clearReadiness | getNextEvent => exact ⟨0, [], onPoller_eq_some h⟩

end

/-- The object after a call, if no assertion fails. -/
def run (w : BackedSigio Client) (c : Call Client) : Option (BackedSigio Client) := (w.call c).map fun r => r.2.2

end BackedSigio
end Dkftpbench
