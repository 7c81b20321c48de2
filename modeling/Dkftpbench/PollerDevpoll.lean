import Dkftpbench.PollerPoll

/-!
# The poller over /dev/poll, Poller_devpoll.h and Poller_devpoll.cc

Clients and masks are indexed by descriptor. The driver keeps its own set of descriptors:
an entry written to it removes its descriptor or puts it in, and a write may take only some
of its entries, or none. What malloc and realloc return holds arbitrary data. A failed
assertion is no result.
-/
namespace Dkftpbench
open CLib

/-- `struct clivent`. -/
structure Clivent (Client : Type*) where
  client : Option Client
  events : Revents

structure PollerDevpoll (Client : Type*) where
  clivents : ℤ → Clivent Client
  pfds : ℤ → Pollfd
  cliventAlloc : ℤ
  pfdsUsed : ℤ
  pfdsAlloc : ℤ
  rfds : ℤ

/-- What the allocations of one call find, each with the data that lies there. -/
structure DevpollHeap (Client : Type*) where
  clivents : Option (ℤ → Clivent Client)
  pfds : Option (ℤ → Pollfd)

def POLLREMOVE : Revents := 0x1000

namespace PollerDevpoll
variable {Client : Type*}

/-- The object is not used after a failure, and its null pointers are not kept. -/
def init (p : PollerDevpoll Client) (heap : DevpollHeap Client) (opened : Bool) : ℤ × PollerDevpoll Client :=
  let p := { p with rfds := 0, cliventAlloc := 16 }
  match heap.clivents with
  | none => (ENOMEM, p)
  | some cells =>
    let p := { p with
      clivents := fun i => if 0 ≤ i ∧ i < 16 then ⟨none, 0⟩ else cells i, pfdsUsed := 0, pfdsAlloc := 16 }
    match heap.pfds with
    | none => (ENOMEM, p)
    | some pfds =>
      let p := { p with pfds := pfds }
      if opened then (0, p) else (ENOENT, p)

/-- Resize the array indexed by `fd`. -/
def growClivents (p : PollerDevpoll Client) (fd : ℤ) (heap : DevpollHeap Client) :
    Except (ℤ × PollerDevpoll Client) (PollerDevpoll Client) :=
  if fd ≥ p.cliventAlloc then
    let n := p.cliventAlloc*2
    let n := if n < fd+1 then fd+1 else n
    match heap.clivents with
    | none => .error (ENOMEM, p)
    | some cells =>
      let pcv := realloc p.clivents p.cliventAlloc cells
      .ok { p with
        clivents := clearNew (fun cv => { cv with client := none }) pcv p.cliventAlloc n
        cliventAlloc := n }
  else .ok p

/-- Resize the array for results. -/
def growPfds (p : PollerDevpoll Client) (heap : DevpollHeap Client) :
    Except (ℤ × PollerDevpoll Client) (PollerDevpoll Client) :=
  if p.pfdsUsed = p.pfdsAlloc then
    match heap.pfds with
    | none => .error (ENOMEM, p)
    | some cells => .ok { p with pfds := realloc p.pfds p.pfdsAlloc cells, pfdsAlloc := p.pfdsAlloc*2 }
  else .ok p

def putClivent (p : PollerDevpoll Client) (fd : ℤ) (cv : Clivent Client) : PollerDevpoll Client :=
  { p with clivents := Function.update p.clivents fd cv }

/-- `ioctl` fails, or fills the results from the start of the array. -/
def waitForEvents (p : PollerDevpoll Client) (ioctl : Except ℤ (List (ℤ × Revents))) : ℤ × PollerDevpoll Client :=
  match ioctl with
  | .error err => (err, { p with rfds := -1 })
  | .ok l =>
    (if l.length ≠ 0 then 0 else EWOULDBLOCK, { p with
      pfds := fun i =>
        if 0 ≤ i then
          match l[i.toNat]? with
          | some (fd, revents) => { p.pfds i with fd := fd, revents := revents }
          | none => p.pfds i
        else p.pfds i
      rfds := l.length })

/-- The loop that counts `m_rfds` down to an event of a descriptor that still has a client. -/
def nextEvent (p : PollerDevpoll Client) : ℕ → Option (ℤ × Option (PollEvent Client) × PollerDevpoll Client)
  | 0 => some (EWOULDBLOCK, none, { p with rfds := 0 })
  | n+1 =>
    let fd := (p.pfds n).fd
    if ¬0 < (p.pfds n).revents.toInt then none
    else if ¬(0 ≤ fd ∧ fd < p.cliventAlloc) then none
    else
      match (p.clivents fd).client with
      | none => p.nextEvent n
      | some client => some (0, some ⟨fd, (p.pfds n).revents, some client⟩, { p with rfds := n })

def getNextEvent (p : PollerDevpoll Client) : Option (ℤ × Option (PollEvent Client) × PollerDevpoll Client) :=
  if p.rfds < 1 then some (EWOULDBLOCK, none, p) else p.nextEvent p.rfds.toNat

end PollerDevpoll

/-! ## The driver -/

/-- The poller, and the set of descriptors that the driver has. -/
structure DevpollWorld (Client : Type*) where
  poller : PollerDevpoll Client
  driver : ℤ → Bool

namespace DevpollWorld
variable {Client : Type*}

/-- What one entry that is written does. -/
def enter (driver : ℤ → Bool) (entry : ℤ × Revents) : ℤ → Bool :=
  Function.update driver entry.1 (!entry.2.has POLLREMOVE)

/-- The driver takes so many of the entries; whether that is all of them. -/
def write (w : DevpollWorld Client) (entries : List (ℤ × Revents)) (taken : ℕ) : Bool × DevpollWorld Client :=
  (entries.length ≤ taken, { w with driver := (entries.take taken).foldl enter w.driver })

def setPoller (w : DevpollWorld Client) (p : PollerDevpoll Client) : DevpollWorld Client := { w with poller := p }

def add (w : DevpollWorld Client) (fd : ℤ) (client : Option Client) (eventmask : Revents)
    (heap : DevpollHeap Client) (taken : ℕ) : ℤ × DevpollWorld Client :=
  if fd < 0 then (EINVAL, w)
  else if fd < w.poller.cliventAlloc ∧ (w.poller.clivents fd).client.isSome then (EINVAL, w)
  else
    match w.poller.growClivents fd heap with
    | .error r => (r.1, w.setPoller r.2)
    | .ok p =>
      match p.growPfds heap with
      | .error r => (r.1, w.setPoller r.2)
      | .ok p =>
        let (all, w) := (w.setPoller (p.putClivent fd ⟨client, eventmask⟩)).write [(fd, eventmask)] taken
        if !all then (EINVAL, w)
        else (0, w.setPoller { w.poller with pfdsUsed := w.poller.pfdsUsed+1 })

def del (w : DevpollWorld Client) (fd : ℤ) (taken : ℕ) : Option (ℤ × DevpollWorld Client) :=
  if fd < 0 ∨ fd ≥ w.poller.cliventAlloc then some (EINVAL, w)
  else if (w.poller.clivents fd).client.isNone then some (EINVAL, w)
  else if ¬w.poller.pfdsUsed > 0 then none
  else
    let (all, w) := w.write [(fd, POLLREMOVE)] taken
    if !all then some (EINVAL, w)
    else
      let p := w.poller.putClivent fd { w.poller.clivents fd with client := none }
      some (0, w.setPoller { p with pfdsUsed := p.pfdsUsed-1 })

/-- What the three mask functions have in common; `entries` is what they write. -/
def updateMask (w : DevpollWorld Client) (fd : ℤ) (f : Revents → Revents)
    (entries : Revents → List (ℤ × Revents)) (taken : ℕ) : ℤ × DevpollWorld Client :=
  if fd < 0 ∨ fd ≥ w.poller.cliventAlloc then (EINVAL, w)
  else if (w.poller.clivents fd).client.isNone then (EINVAL, w)
  else
    let events := f (w.poller.clivents fd).events
    let p := w.poller.putClivent fd { w.poller.clivents fd with events := events }
    let (all, w) := (w.setPoller p).write (entries events) taken
    if !all then (EINVAL, w) else (0, w)

/-- On Solaris the old mask is removed first. -/
def replacing (solaris : Bool) (fd : ℤ) (events : Revents) : List (ℤ × Revents) :=
  if solaris then [(fd, POLLREMOVE), (fd, events)] else [(fd, events)]

def setMask (w : DevpollWorld Client) (solaris : Bool) (fd : ℤ) (eventmask : Revents) (taken : ℕ) :
    ℤ × DevpollWorld Client :=
  w.updateMask fd (fun _ => eventmask) (replacing solaris fd) taken

def orMask (w : DevpollWorld Client) (fd : ℤ) (eventmask : Revents) (taken : ℕ) : ℤ × DevpollWorld Client :=
  w.updateMask fd (fun events => events ||| eventmask) (fun events => [(fd, events)]) taken

def andMask (w : DevpollWorld Client) (solaris : Bool) (fd : ℤ) (eventmask : Revents) (taken : ℕ) :
    ℤ × DevpollWorld Client :=
  w.updateMask fd (fun events => events &&& eventmask) (replacing solaris fd) taken

/-- A call, with what it is answered from outside. -/
inductive Call (Client : Type*)
  | add (fd : ℤ) (client : Option Client) (eventmask : Revents) (heap : DevpollHeap Client) (taken : ℕ)
  | del (fd : ℤ) (taken : ℕ)
  | setMask (fd : ℤ) (eventmask : Revents) (taken : ℕ)
  | orMask (fd : ℤ) (eventmask : Revents) (taken : ℕ)
  | andMask (fd : ℤ) (eventmask : Revents) (taken : ℕ)
  | waitForEvents (ioctl : Except ℤ (List (ℤ × Revents)))
  | getNextEvent

/-- The result of a call that returns no event. -/
def code (r : ℤ × DevpollWorld Client) : ℤ × Option (PollEvent Client) × DevpollWorld Client := (r.1, none, r.2)

def call (solaris : Bool) (w : DevpollWorld Client) :
    Call Client → Option (ℤ × Option (PollEvent Client) × DevpollWorld Client)
  | .add fd client eventmask heap taken => some (code (w.add fd client eventmask heap taken))
  | .del fd taken => (w.del fd taken).map code
  | .setMask fd eventmask taken => some (code (w.setMask solaris fd eventmask taken))
  | .orMask fd eventmask taken => some (code (w.orMask fd eventmask taken))
  | .andMask fd eventmask taken => some (code (w.andMask solaris fd eventmask taken))
  | .waitForEvents ioctl =>
    some (code ((w.poller.waitForEvents ioctl).1, w.setPoller (w.poller.waitForEvents ioctl).2))
  | .getNextEvent => w.poller.getNextEvent.map fun r => (r.1, r.2.1, w.setPoller r.2.2)

end DevpollWorld
end Dkftpbench
