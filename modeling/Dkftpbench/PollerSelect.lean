import Dkftpbench.Poller
import Mathlib.Logic.Function.Basic

/-!
# The poller over `select()`, Poller_select.h and Poller_select.cc

`urgent` says whether the program was compiled with `Poller_URGENT`; without it the sets
for exceptional conditions are not there. A failed assertion is no result. `select()` is
asked for the descriptors up to `m_max_fd`; no bit is set above.
-/
namespace Dkftpbench
open CLib

/-- The size of an `fd_set`. -/
def FD_SETSIZE : ℤ := 1024

abbrev FdSet := ℤ → Bool

structure PollerSelect (Client : Type*) where
  clients : ℤ → Option Client
  maxFd : ℤ
  rbits : ℤ
  curFd : ℤ
  readfds : FdSet
  writefds : FdSet
  exceptfds : FdSet
  testrfds : FdSet
  testwfds : FdSet
  testefds : FdSet

/-- What `select()` finds ready. -/
structure Selected where
  readfds : FdSet
  writefds : FdSet
  exceptfds : FdSet

namespace PollerSelect
variable {Client : Type*} (urgent : Bool)

def init (p : PollerSelect Client) : ℤ × PollerSelect Client :=
  let empty : FdSet := fun _ => false
  (0, { p with
    maxFd := -1, curFd := -1, rbits := 0, clients := fun _ => none
    readfds := empty, testrfds := empty, testwfds := empty, writefds := empty
    exceptfds := if urgent then empty else p.exceptfds
    testefds := if urgent then empty else p.testefds })

/-- `FD_SET` and `FD_CLR`. -/
def fdSet (s : FdSet) (fd : ℤ) : FdSet := Function.update s fd true
def fdClr (s : FdSet) (fd : ℤ) : FdSet := Function.update s fd false

/-- The checks that all the functions begin with. -/
def check (p : PollerSelect Client) (fd : ℤ) : Option ℤ :=
  if fd < 0 ∨ fd ≥ FD_SETSIZE then some EINVAL
  else if p.clients fd = none then some EALREADY
  else none

def setMask (p : PollerSelect Client) (fd : ℤ) (eventmask : Revents) : Option (ℤ × PollerSelect Client) :=
  match p.check fd with
  | some err => some (err, p)
  | none =>
    if ¬p.maxFd ≥ fd then none
    else
      let readfds := fdClr p.readfds fd
      let writefds := fdClr p.writefds fd
      let exceptfds := fdClr p.exceptfds fd
      some (0, { p with
        readfds := if eventmask.has POLLIN then fdSet readfds fd else readfds
        writefds := if eventmask.has POLLOUT then fdSet writefds fd else writefds
        exceptfds :=
          if urgent then (if eventmask.has POLLPRI then fdSet exceptfds fd else exceptfds) else p.exceptfds })

def orMask (p : PollerSelect Client) (fd : ℤ) (eventmask : Revents) : Option (ℤ × PollerSelect Client) :=
  match p.check fd with
  | some err => some (err, p)
  | none =>
    if ¬p.maxFd ≥ fd then none
    else some (0, { p with
      readfds := if eventmask.has POLLIN then fdSet p.readfds fd else p.readfds
      writefds := if eventmask.has POLLOUT then fdSet p.writefds fd else p.writefds
      exceptfds := if urgent && eventmask.has POLLPRI then fdSet p.exceptfds fd else p.exceptfds })

def andMask (p : PollerSelect Client) (fd : ℤ) (eventmask : Revents) : Option (ℤ × PollerSelect Client) :=
  match p.check fd with
  | some err => some (err, p)
  | none =>
    if ¬p.maxFd ≥ fd then none
    else some (0, { p with
      readfds := if eventmask.has POLLIN then p.readfds else fdClr p.readfds fd
      writefds := if eventmask.has POLLOUT then p.writefds else fdClr p.writefds fd
      exceptfds := if urgent && !eventmask.has POLLPRI then fdClr p.exceptfds fd else p.exceptfds })

/-- What `setMask` returns is not looked at. -/
def add (p : PollerSelect Client) (fd : ℤ) (client : Option Client) (eventmask : Revents) :
    Option (ℤ × PollerSelect Client) :=
  if fd < 0 ∨ fd ≥ FD_SETSIZE then some (EINVAL, p)
  else if p.clients fd ≠ none then some (EALREADY, p)
  else
    let p := { p with
      maxFd := if fd > p.maxFd then fd else p.maxFd
      clients := Function.update p.clients fd client }
    (p.setMask urgent fd eventmask).map fun r => (0, r.2)

/-- The loop that lowers `m_max_fd`, from one below the argument. -/
def trim (clients : ℤ → Option Client) : ℕ → ℤ
  | 0 => -1
  | n+1 => if clients n = none then trim clients n else n

def del (p : PollerSelect Client) (fd : ℤ) : Option (ℤ × PollerSelect Client) :=
  match p.check fd with
  | some err => some (err, p)
  | none =>
    if ¬p.maxFd ≥ fd then none
    else
      (p.setMask urgent fd 0).map fun r =>
        let p := r.2
        let clients := Function.update p.clients fd none
        (0, { p with
          testrfds := fdClr p.testrfds fd
          testwfds := fdClr p.testwfds fd
          testefds := if urgent then fdClr p.testefds fd else p.testefds
          clients := clients
          maxFd := trim clients (p.maxFd+1).toNat })

/-- How many bits of the set lie below `n`. -/
def count (s : FdSet) (n : ℤ) : ℤ := (List.range n.toNat).countP fun i : ℕ => s i

/-- `select()` fails, or leaves of the bits those that are ready and counts them. -/
def waitForEvents (p : PollerSelect Client) (select : Except ℤ Selected) : ℤ × PollerSelect Client :=
  let p := { p with
    testrfds := p.readfds, testwfds := p.writefds
    testefds := if urgent then p.exceptfds else p.testefds }
  match select with
  | .error err => (err, { p with rbits := -1 })
  | .ok ready =>
    let p := { p with
      testrfds := fun fd => p.testrfds fd && ready.readfds fd
      testwfds := fun fd => p.testwfds fd && ready.writefds fd
      testefds := if urgent then fun fd => p.testefds fd && ready.exceptfds fd else p.testefds }
    let n := p.maxFd+1
    let rbits := count p.testrfds n+count p.testwfds n+(if urgent then count p.testefds n else 0)
    (if rbits ≠ 0 then 0 else EWOULDBLOCK, { p with rbits := rbits, curFd := -1 })

/-- The bits of a descriptor in the test sets. -/
def bits (p : PollerSelect Client) (fd : ℤ) : Revents :=
  (if p.testrfds fd then POLLIN else 0) ||| (if p.testwfds fd then POLLOUT else 0) |||
    (if urgent && p.testefds fd then POLLPRI else 0)

/-- The loop of `getNextEvent`, for so many descriptors above the cursor: where it ends,
and `revents`. -/
def seek (bits : ℤ → Revents) : ℕ → ℤ → ℤ × Revents
  | 0, cur => (cur+1, 0)
  | n+1, cur => if bits (cur+1) ≠ 0 then (cur+1, bits (cur+1)) else seek bits n (cur+1)

def getNextEvent (p : PollerSelect Client) : ℤ × Option (PollEvent Client) × PollerSelect Client :=
  if p.rbits < 1 then (EWOULDBLOCK, none, p)
  else
    let r := seek (p.bits urgent) (p.maxFd-p.curFd).toNat p.curFd
    let p := { p with curFd := r.1 }
    if r.2 = 0 then (EWOULDBLOCK, none, p)
    else
      let rbits := if r.2.has POLLIN then p.rbits-1 else p.rbits
      let rbits := if r.2.has POLLOUT then rbits-1 else rbits
      let rbits := if urgent && r.2.has POLLPRI then rbits-1 else rbits
      (0, some ⟨r.1, r.2, p.clients r.1⟩, { p with rbits := rbits })

/-- The loop of `waitAndDispatchEvents`, and the events that it handed to their clients. `notify` is what
the clients return; they do not call the poller themselves. -/
def dispatch (notify : PollEvent Client → ℤ) :
    ℕ → PollerSelect Client → Option (List (PollEvent Client) × PollerSelect Client)
  | 0, _ => none
  | fuel+1, p =>
    if ¬p.rbits > 0 then some ([], p)
    else
      let (_, ev, p) := p.getNextEvent urgent
      match ev with
      | none => some ([], p)
      | some e =>
        (if notify e ≠ 0 then (p.del urgent e.fd).map Prod.snd else some p).bind fun p =>
          (dispatch notify fuel p).map fun r => (e :: r.1, r.2)

def waitAndDispatchEvents (p : PollerSelect Client) (notify : PollEvent Client → ℤ) (select : Except ℤ Selected)
    (fuel : ℕ) : Option (ℤ × List (PollEvent Client) × PollerSelect Client) :=
  let (err, p) := p.waitForEvents urgent select
  if err ≠ 0 then some (err, [], p) else (dispatch urgent notify fuel p).map fun r => (0, r)

/-- A call, with what it is answered from outside. -/
inductive Call (Client : Type*)
  | add (fd : ℤ) (client : Option Client) (eventmask : Revents)
  | del (fd : ℤ)
  | setMask (fd : ℤ) (eventmask : Revents)
  | orMask (fd : ℤ) (eventmask : Revents)
  | andMask (fd : ℤ) (eventmask : Revents)
  | waitForEvents (select : Except ℤ Selected)
  | getNextEvent

/-- The result of a call that returns no event. -/
def code (r : ℤ × PollerSelect Client) : ℤ × Option (PollEvent Client) × PollerSelect Client :=
  (r.1, none, r.2)

def call (p : PollerSelect Client) :
    Call Client → Option (ℤ × Option (PollEvent Client) × PollerSelect Client)
  | .add fd client eventmask => (p.add urgent fd client eventmask).map code
  | .del fd => (p.del urgent fd).map code
  | .setMask fd eventmask => (p.setMask urgent fd eventmask).map code
  | .orMask fd eventmask => (p.orMask urgent fd eventmask).map code
  | .andMask fd eventmask => (p.andMask urgent fd eventmask).map code
  | .waitForEvents select => some (code (p.waitForEvents urgent select))
  | .getNextEvent => some (p.getNextEvent urgent)

end PollerSelect
end Dkftpbench
