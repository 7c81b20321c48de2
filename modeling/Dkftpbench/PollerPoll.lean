import Dkftpbench.Poller
import Mathlib.Logic.Function.Basic

/-!
# The poller over `poll()`, Poller_poll.h and Poller_poll.cc

An array is a function of its index, an `int`; what lies outside of what was allocated
is never looked at. What `malloc` and `realloc` return holds arbitrary data, and so does
`revents` before the first `poll()`. A failed assertion is no result.
-/
namespace Dkftpbench
open CLib

/-- `struct pollfd`. -/
structure Pollfd where
  fd : ℤ
  events : Revents
  revents : Revents

structure PollerPoll (Client : Type*) where
  fd2clientUsed : ℤ
  fd2clientAlloc : ℤ
  pfds : ℤ → Pollfd
  clients : ℤ → Option Client
  pfdsUsed : ℤ
  pfdsAlloc : ℤ
  fd2pfdnum : ℤ → ℤ
  rfds : ℤ
  curPfdnum : ℤ

/-- What the allocations of one call find, each with the data that lies there. -/
structure Heap (Client : Type*) where
  fd2pfdnum : Option (ℤ → ℤ)
  clients : Option (ℤ → Option Client)
  pfds : Option (ℤ → Pollfd)

/-- `realloc`: the cells that were allocated keep their contents. -/
def realloc {α : Type*} (old : ℤ → α) (alloc : ℤ) (cells : ℤ → α) : ℤ → α :=
  fun i => if i < alloc then old i else cells i

namespace PollerPoll
variable {Client : Type*}

/-- The object is not used after a failure, and its null pointers are not kept. -/
def init (p : PollerPoll Client) (heap : Heap Client) : ℤ × PollerPoll Client :=
  let p := { p with fd2clientUsed := 0, fd2clientAlloc := 16 }
  match heap.fd2pfdnum with
  | none => (ENOMEM, p)
  | some fd2pfdnum =>
    let p := { p with fd2pfdnum := fd2pfdnum, pfdsUsed := 0, pfdsAlloc := 16 }
    match heap.clients with
    | none => (ENOMEM, p)
    | some clients =>
      let p := { p with clients := clients }
      match heap.pfds with
      | none => (ENOMEM, p)
      | some pfds => (0, { p with pfds := pfds })

/-- Resize the array indexed by `fd`. -/
def growFds (p : PollerPoll Client) (fd : ℤ) (heap : Heap Client) :
    Except (ℤ × PollerPoll Client) (PollerPoll Client) :=
  if fd ≥ p.fd2clientAlloc then
    let n := p.fd2clientAlloc*2
    let n := if n < fd+1 then fd+1 else n
    match heap.fd2pfdnum with
    | none => .error (ENOMEM, p)
    | some cells =>
      let pn := realloc p.fd2pfdnum p.fd2clientAlloc cells
      .ok { p with fd2pfdnum := clearNew (fun _ => -1) pn p.fd2clientAlloc n, fd2clientAlloc := n }
  else .ok p

/-- Resize the arrays indexed by client number. -/
def growPfds (p : PollerPoll Client) (heap : Heap Client) :
    Except (ℤ × PollerPoll Client) (PollerPoll Client) :=
  if p.pfdsUsed = p.pfdsAlloc then
    match heap.clients with
    | none => .error (ENOMEM, p)
    | some cells =>
      let p := { p with clients := realloc p.clients p.pfdsAlloc cells }
      match heap.pfds with
      | none => .error (ENOMEM, p)
      | some cells =>
        .ok { p with pfds := realloc p.pfds p.pfdsAlloc cells, pfdsAlloc := p.pfdsAlloc*2 }
  else .ok p

/-- Fill the first free slot. -/
def insert (p : PollerPoll Client) (fd : ℤ) (client : Option Client) (eventmask : Revents) : PollerPoll Client :=
  { p with
    clients := Function.update p.clients p.pfdsUsed client
    pfds := Function.update p.pfds p.pfdsUsed { p.pfds p.pfdsUsed with fd := fd, events := eventmask }
    fd2pfdnum := Function.update p.fd2pfdnum fd p.pfdsUsed
    fd2clientUsed := if fd ≥ p.fd2clientUsed then fd+1 else p.fd2clientUsed
    pfdsUsed := p.pfdsUsed+1 }

def add (p : PollerPoll Client) (fd : ℤ) (client : Option Client) (eventmask : Revents) (heap : Heap Client) :
    ℤ × PollerPoll Client :=
  match p.growFds fd heap with
  | .error r => r
  | .ok p =>
    match p.growPfds heap with
    | .error r => r
    | .ok p => (0, p.insert fd client eventmask)

/-- The last slot is moved to where a hole would be. -/
def closeUp (p : PollerPoll Client) (pfdnum : ℤ) : PollerPoll Client :=
  let last := p.pfdsUsed-1
  if pfdnum ≠ last then
    { p with
      clients := Function.update p.clients pfdnum (p.clients last)
      pfds := Function.update p.pfds pfdnum (p.pfds last)
      fd2pfdnum := Function.update p.fd2pfdnum (p.pfds last).fd pfdnum }
  else p

/-- The loop that lowers `m_fd2client_used`. -/
def trim (fd2pfdnum : ℤ → ℤ) : ℕ → ℕ
  | 0 => 0
  | n+1 => if fd2pfdnum n = -1 then trim fd2pfdnum n else n+1

def del (p : PollerPoll Client) (fd : ℤ) : Option (ℤ × PollerPoll Client) :=
  if fd < 0 ∨ fd ≥ p.fd2clientUsed then some (EINVAL, p)
  else if ¬p.pfdsUsed > 0 then none
  else
    let pfdnum := p.fd2pfdnum fd
    if pfdnum = -1 then some (ENOENT, p)
    else if ¬(pfdnum ≥ 0 ∧ pfdnum < p.pfdsUsed) then none
    else
      let p := p.closeUp pfdnum
      let last := p.pfdsUsed-1
      let fd2pfdnum := Function.update p.fd2pfdnum fd (-1)
      some (0, { p with
        clients := Function.update p.clients last none
        pfds := Function.update p.pfds last { p.pfds last with fd := -1 }
        fd2pfdnum := fd2pfdnum
        fd2clientUsed := trim fd2pfdnum p.fd2clientUsed.toNat
        pfdsUsed := last })

/-- What the three mask functions have in common. -/
def updateMask (p : PollerPoll Client) (fd : ℤ) (f : Revents → Revents) : Option (ℤ × PollerPoll Client) :=
  let i := p.fd2pfdnum fd
  if ¬(i ≥ 0 ∧ i < p.pfdsUsed) then none
  else some (0, { p with pfds := Function.update p.pfds i { p.pfds i with events := f (p.pfds i).events } })

def setMask (p : PollerPoll Client) (fd : ℤ) (eventmask : Revents) : Option (ℤ × PollerPoll Client) :=
  if p.fd2pfdnum fd = -1 then some (ENOENT, p) else p.updateMask fd fun _ => eventmask

def orMask (p : PollerPoll Client) (fd : ℤ) (eventmask : Revents) : Option (ℤ × PollerPoll Client) :=
  p.updateMask fd fun events => events ||| eventmask

def andMask (p : PollerPoll Client) (fd : ℤ) (eventmask : Revents) : Option (ℤ × PollerPoll Client) :=
  p.updateMask fd fun events => events &&& eventmask

/-- `poll()` fails, or writes the `revents` of the slots in use and counts those that are
not zero. -/
def waitForEvents (p : PollerPoll Client) (poll : Except ℤ (ℤ → Revents)) : ℤ × PollerPoll Client :=
  match poll with
  | .error err => (err, { p with rfds := -1, curPfdnum := -1 })
  | .ok revents =>
    let rfds := (List.range p.pfdsUsed.toNat).countP fun i : ℕ => revents i != 0
    (if rfds ≠ 0 then 0 else EWOULDBLOCK, { p with
      pfds := fun i =>
        if 0 ≤ i ∧ i < p.pfdsUsed then { p.pfds i with revents := revents i } else p.pfds i
      rfds := rfds
      curPfdnum := p.pfdsUsed })

/-- The loop that counts `m_cur_pfdnum` down to a slot with an event, or to -1. -/
def seek (pfds : ℤ → Pollfd) : ℕ → ℤ
  | 0 => -1
  | n+1 => if (pfds n).revents ≠ 0 then n else seek pfds n

/-- `m_cur_pfdnum` after that loop. -/
def nextPfdnum (p : PollerPoll Client) : ℤ :=
  let cur := if p.curPfdnum > p.pfdsUsed then p.pfdsUsed else p.curPfdnum
  if cur < 0 then cur-1 else seek p.pfds cur.toNat

def getNextEvent (p : PollerPoll Client) : Option (ℤ × Option (PollEvent Client) × PollerPoll Client) :=
  if p.rfds < 1 then some (EWOULDBLOCK, none, p)
  else
    let cur := p.nextPfdnum
    let p := { p with curPfdnum := cur }
    if cur = -1 then some (EWOULDBLOCK, none, p)
    else
      let fd := (p.pfds cur).fd
      let j := p.fd2pfdnum fd
      if ¬((0 ≤ fd ∧ fd < p.fd2clientUsed) ∧ (0 ≤ j ∧ j < p.pfdsUsed) ∧ j = cur) then none
      else some (0, some ⟨fd, (p.pfds cur).revents, p.clients j⟩, { p with rfds := p.rfds-1 })

/-- The loop of `waitAndDispatchEvents`, and the events that it handed to their clients. `notify` is what
the clients return; they do not call the poller themselves. -/
def dispatch (notify : PollEvent Client → ℤ) : ℕ → PollerPoll Client → Option (List (PollEvent Client) × PollerPoll Client)
  | 0, _ => none
  | fuel+1, p =>
    if ¬p.rfds > 0 then some ([], p)
    else p.getNextEvent.bind fun (_, ev, p) =>
      match ev with
      | none => some ([], p)
      | some e =>
        (if notify e ≠ 0 then (p.del e.fd).map Prod.snd else some p).bind fun p =>
          (dispatch notify fuel p).map fun r => (e :: r.1, r.2)

def waitAndDispatchEvents (p : PollerPoll Client) (notify : PollEvent Client → ℤ) (poll : Except ℤ (ℤ → Revents))
    (fuel : ℕ) : Option (ℤ × List (PollEvent Client) × PollerPoll Client) :=
  let (err, p) := p.waitForEvents poll
  if err ≠ 0 then some (err, [], p) else (dispatch notify fuel p).map fun r => (0, r)

/-- A call, with what it is answered from outside. -/
inductive Call (Client : Type*)
  | init (heap : Heap Client)
  | add (fd : ℤ) (client : Option Client) (eventmask : Revents) (heap : Heap Client)
  | del (fd : ℤ)
  | setMask (fd : ℤ) (eventmask : Revents)
  | orMask (fd : ℤ) (eventmask : Revents)
  | andMask (fd : ℤ) (eventmask : Revents)
  | waitForEvents (poll : Except ℤ (ℤ → Revents))
  | getNextEvent

/-- The result of a call that returns no event. -/
def code (r : ℤ × PollerPoll Client) : ℤ × Option (PollEvent Client) × PollerPoll Client := (r.1, none, r.2)

def call (p : PollerPoll Client) : Call Client → Option (ℤ × Option (PollEvent Client) × PollerPoll Client)
  | .init heap => some (code (p.init heap))
  | .add fd client eventmask heap => some (code (p.add fd client eventmask heap))
  | .del fd => (p.del fd).map code
  | .setMask fd eventmask => (p.setMask fd eventmask).map code
  | .orMask fd eventmask => (p.orMask fd eventmask).map code
  | .andMask fd eventmask => (p.andMask fd eventmask).map code
  | .waitForEvents poll => some (code (p.waitForEvents poll))
  | .getNextEvent => p.getNextEvent

end PollerPoll
end Dkftpbench
