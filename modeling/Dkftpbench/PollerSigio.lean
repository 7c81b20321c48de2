import Dkftpbench.Poller
import Mathlib.Logic.Function.Basic

/-!
# The poller over realtime signals, Poller_sigio.h and Poller_sigio.cc

What lies around the poller is a parameter of each call: memory, which `fcntl` calls
fail, what the backup poller returns, and the signals that are queued, each with a
descriptor and the low bits of `si_band`. What is proved so holds whatever the backup returns;
with its backup the poller is in SigioBackup.lean. A failed assertion is no result.
-/
namespace Dkftpbench
open CLib

/-- `fdstate_t`. -/
structure FdState (Client : Type*) where
  client : Option Client
  next : ℤ
  prev : ℤ
  mask : Revents
  readybits : Revents
deriving DecidableEq

namespace FdState
variable {Client : Type*}

def clear : FdState Client := ⟨none, -1, -2, 0, -1⟩

/-- Opposite of `isClear`. -/
def setInUse (f : FdState Client) : FdState Client := { f with prev := -1 }

def isClear (f : FdState Client) : Bool := f.prev == -2

def isReady (f : FdState Client) : Bool := f.mask &&& f.readybits != 0

def isOnReadyList (f : FdState Client) : Bool := decide (f.next ≥ 0)

end FdState

structure PollerSigio (Client : Type*) where
  readyHead : ℤ
  readyNext : ℤ
  readyCount : ℤ
  fds : ℤ → FdState Client
  fdsAlloc : ℤ
  fdsUsed : ℤ

/-- The commands of `fcntl`. -/
inductive Fcntl
  | getfl | setfl | setsig | setown
deriving DecidableEq, Repr

/-- What is answered during `add`: the memory found and what lies there, the error of each
`fcntl` call that fails, and what the backup returns. -/
structure Answers (Client : Type*) where
  memory : Option (ℤ → FdState Client)
  fcntl : Fcntl → Option ℤ
  backup : ℤ

namespace PollerSigio
variable {Client : Type*}

def modify (s : PollerSigio Client) (fd : ℤ) (f : FdState Client → FdState Client) : PollerSigio Client :=
  { s with fds := Function.update s.fds fd (f (s.fds fd)) }

def init (s : PollerSigio Client) (memory : Option (ℤ → FdState Client)) (backup : ℤ) : ℤ × PollerSigio Client :=
  let s := { s with fdsUsed := 0, fdsAlloc := 16 }
  match memory with
  | none => (ENOMEM, s)
  | some fds =>
    (backup, { s with fds := clearNew (fun _ => .clear) fds 0 16, readyHead := -1, readyNext := -1, readyCount := 0 })

def setNext (s : PollerSigio Client) (fd next : ℤ) : PollerSigio Client :=
  s.modify fd fun f => { f with next := next }

def setPrev (s : PollerSigio Client) (fd prev : ℤ) : PollerSigio Client :=
  s.modify fd fun f => { f with prev := prev }

/-- The new element is the entire list, or goes between the last and the first. -/
def linkLast (s : PollerSigio Client) (fd : ℤ) : PollerSigio Client :=
  if s.readyCount = 0 then { (s.setNext fd fd).setPrev fd fd with readyHead := fd }
  else
    let headPrev := (s.fds s.readyHead).prev
    let s := (s.setPrev fd headPrev).setNext fd s.readyHead
    (s.setNext headPrev fd).setPrev s.readyHead fd

def readyListAdd (s : PollerSigio Client) (fd : ℤ) : Option (PollerSigio Client) :=
  if ¬((s.fds fd).next < 0 ∧ (s.fds fd).prev < 0) then none
  else
    let t := s.linkLast fd
    some { t with
      readyCount := t.readyCount+1
      readyNext := if t.readyNext = -1 then fd else t.readyNext }

/-- The gap between the neighbours of an element is spliced. -/
def splice (s : PollerSigio Client) (fd next prev : ℤ) : PollerSigio Client :=
  let s := { s with
    readyHead := if s.readyHead = fd then next else s.readyHead
    readyNext := if s.readyNext = fd then next else s.readyNext }
  (s.setNext prev next).setPrev next prev

/-- The element is marked as not in the list. -/
def unlinked (s : PollerSigio Client) (fd : ℤ) : PollerSigio Client :=
  let s := (s.setNext fd (-1)).setPrev fd (-1)
  { s with readyCount := s.readyCount-1 }

def readyListDel (s : PollerSigio Client) (fd : ℤ) : Option (PollerSigio Client) :=
  let next := (s.fds fd).next
  let prev := (s.fds fd).prev
  if ¬(next ≥ 0 ∧ prev ≥ 0 ∧ s.readyCount > 0 ∧ s.readyHead ≥ 0) then none
  else if s.readyCount = 1 then
    if ¬(fd = s.readyHead ∧ next = prev) then none
    else some ({ s with readyHead := -1, readyNext := -1 }.unlinked fd)
  else some ((s.splice fd next prev).unlinked fd)

def readyListUpdate (s : PollerSigio Client) (fd : ℤ) : Option (PollerSigio Client) :=
  if (s.fds fd).isOnReadyList then
    if !(s.fds fd).isReady then s.readyListDel fd else some s
  else
    if (s.fds fd).isReady then s.readyListAdd fd else some s

/-- Resize the array if it is too small. -/
def grow (s : PollerSigio Client) (fd : ℤ) (memory : Option (ℤ → FdState Client)) :
    Option (PollerSigio Client) :=
  if fd ≥ s.fdsAlloc then
    let n := s.fdsAlloc*2
    let n := if n < fd+1 then fd+1 else n
    memory.map fun cells =>
      let newfds := fun i => if i < s.fdsAlloc then s.fds i else cells i
      { s with fds := clearNew (fun _ => .clear) newfds s.fdsAlloc n, fdsAlloc := n }
  else some s

/-- "All ready" is claimed at first. -/
def add (s : PollerSigio Client) (fd : ℤ) (client : Option Client) (eventmask : Revents) (ans : Answers Client) :
    Option (ℤ × PollerSigio Client) :=
  match s.grow fd ans.memory with
  | none => some (ENOMEM, s)
  | some s =>
    match [Fcntl.getfl, .setfl, .setsig, .setown].findSome? ans.fcntl with
    | some err => some (err, s)
    | none =>
      let s := { s with fdsUsed := s.fdsUsed+1 }
      let s := s.modify fd fun f =>
        { f with mask := eventmask, readybits := POLLIN ||| POLLOUT : FdState Client }.setInUse
      (s.readyListUpdate fd).map fun s => (ans.backup, s.modify fd fun f => { f with client := client })

def del (s : PollerSigio Client) (fd : ℤ) (fcntl : Fcntl → Option ℤ) (backup : ℤ) :
    Option (ℤ × PollerSigio Client) :=
  if fd < 0 ∨ fd ≥ s.fdsAlloc ∨ s.fdsUsed = 0 then some (EINVAL, s)
  else
    match [Fcntl.getfl, .setfl].findSome? fcntl with
    | some err => some (err, s)
    | none =>
      (if (s.fds fd).isOnReadyList then s.readyListDel fd else some s).map fun s =>
        (backup, { s.modify fd fun _ => .clear with fdsUsed := s.fdsUsed-1 })

/-- The check that the functions below begin with. -/
def outside (s : PollerSigio Client) (fd : ℤ) : Bool :=
  fd < 0 || fd ≥ s.fdsAlloc || s.fdsUsed == 0 || (s.fds fd).isClear

/-- What the three mask functions have in common. -/
def updateMask (s : PollerSigio Client) (fd : ℤ) (f : Revents → Revents) : Option (ℤ × PollerSigio Client) :=
  if s.outside fd then some (ENOENT, s)
  else ((s.modify fd fun x => { x with mask := f x.mask }).readyListUpdate fd).map fun s => (0, s)

def setMask (s : PollerSigio Client) (fd : ℤ) (eventmask : Revents) : Option (ℤ × PollerSigio Client) :=
  s.updateMask fd fun _ => eventmask

def orMask (s : PollerSigio Client) (fd : ℤ) (eventmask : Revents) : Option (ℤ × PollerSigio Client) :=
  s.updateMask fd fun mask => mask ||| eventmask

def andMask (s : PollerSigio Client) (fd : ℤ) (eventmask : Revents) : Option (ℤ × PollerSigio Client) :=
  s.updateMask fd fun mask => mask &&& eventmask

/-- Give other readiness bits to a descriptor. -/
def updateReady (s : PollerSigio Client) (fd : ℤ) (f : Revents → Revents) : Option (PollerSigio Client) :=
  if s.outside fd then some s
  else (s.modify fd fun x => { x with readybits := f x.readybits }).readyListUpdate fd

def clearReadiness (s : PollerSigio Client) (fd : ℤ) (eventmask : Revents) : Option (PollerSigio Client) :=
  s.updateReady fd fun bits => bits &&& ~~~eventmask

/-- `waitForEvents` begins at the head of the ready list. -/
def beginWait (s : PollerSigio Client) : PollerSigio Client := { s with readyNext := s.readyHead }

/-- The bits of `si_band` that count. -/
def bandBits : Revents := POLLIN ||| POLLPRI ||| POLLOUT ||| POLLERR ||| POLLHUP ||| POLLNVAL

/-- A signal was pulled off the queue. -/
def takeSignal (s : PollerSigio Client) (info : ℤ × Revents) : Option (PollerSigio Client) :=
  s.updateReady info.1 fun bits => bits ||| (info.2 &&& bandBits)

/-- The backup returned an event. -/
def takeBackup (s : PollerSigio Client) (event : PollEvent Client) : Option (PollerSigio Client) :=
  if s.outside event.fd then some s
  else if (s.fds event.fd).readybits = event.revents then some s
  else s.updateReady event.fd fun _ => event.revents

/-- What `waitForEvents` returns. -/
def endWait (s : PollerSigio Client) : ℤ × PollerSigio Client :=
  (if s.readyCount ≠ 0 then 0 else EWOULDBLOCK, s)

/-- So many signals are pulled before the queue is empty or a SIGIO comes; after a SIGIO
the events of the backup are taken. -/
def waitForEvents (s : PollerSigio Client) (signals : List (ℤ × Revents))
    (overflow : Option (List (PollEvent Client))) : Option (ℤ × PollerSigio Client) :=
  ((signals.foldlM takeSignal s.beginWait).bind fun s =>
    match overflow with
    | none => some s
    | some events => events.foldlM takeBackup s).map endWait

def getNextEvent (s : PollerSigio Client) : ℤ × Option (PollEvent Client) × PollerSigio Client :=
  if s.readyNext < 1 then (EWOULDBLOCK, none, s)
  else
    let f := s.fds s.readyNext
    (0, some ⟨s.readyNext, f.readybits &&& f.mask, f.client⟩,
      { s with readyNext := if f.next = s.readyHead then -1 else f.next })

/-- A call, with what it is answered from outside. -/
inductive Call (Client : Type*)
  | init (memory : Option (ℤ → FdState Client)) (backup : ℤ)
  | add (fd : ℤ) (client : Option Client) (eventmask : Revents) (ans : Answers Client)
  | del (fd : ℤ) (fcntl : Fcntl → Option ℤ) (backup : ℤ)
  | setMask (fd : ℤ) (eventmask : Revents)
  | orMask (fd : ℤ) (eventmask : Revents)
  | andMask (fd : ℤ) (eventmask : Revents)
  | clearReadiness (fd : ℤ) (eventmask : Revents)
  | waitForEvents (signals : List (ℤ × Revents)) (overflow : Option (List (PollEvent Client)))
  | getNextEvent

/-- The result of a call that returns no event. -/
def code (r : ℤ × PollerSigio Client) : ℤ × Option (PollEvent Client) × PollerSigio Client := (r.1, none, r.2)

def call (s : PollerSigio Client) : Call Client → Option (ℤ × Option (PollEvent Client) × PollerSigio Client)
  | .init memory backup => some (code (s.init memory backup))
  | .add fd client eventmask ans => (s.add fd client eventmask ans).map code
  | .del fd fcntl backup => (s.del fd fcntl backup).map code
  | .setMask fd eventmask => (s.setMask fd eventmask).map code
  | .orMask fd eventmask => (s.orMask fd eventmask).map code
  | .andMask fd eventmask => (s.andMask fd eventmask).map code
  | .clearReadiness fd eventmask => (s.clearReadiness fd eventmask).map fun s => code (0, s)
  | .waitForEvents signals overflow => (s.waitForEvents signals overflow).map code
  | .getNextEvent => some s.getNextEvent

end PollerSigio
end Dkftpbench
