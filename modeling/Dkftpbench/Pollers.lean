import Dkftpbench.PollTable
import Dkftpbench.SelectMap

/-!
# Two pollers side by side

A program does not see which poller it has. Here Poller_poll and Poller_select are asked the same
things, by a program that keeps to what both allow, and wait for the same descriptors.
Between two dispatches the program may also wait and take events itself, whatever the
kernel answers to each of the two.
-/
namespace Dkftpbench
open CLib PollerSelect Watch
variable {Client : Type*}

/-- The answer of `poll()`: what is ready of what a slot asks for. -/
def PollerPoll.answers (ready : ℤ → Revents) (p : PollerPoll Client) : ℤ → Revents :=
  fun i => ready (p.pfds i).fd &&& (p.pfds i).events

/-- The function of the class that a request calls. -/
def PollerPoll.perform (p : PollerPoll Client) (heap : Heap Client) :
    PollerSelect.Request Client → Option (ℤ × PollerPoll Client)
  | .init => some (p.init heap)
  | .add fd client eventmask => some (p.add fd (some client) eventmask heap)
  | .del fd => p.del fd
  | .setMask fd eventmask => p.setMask fd eventmask
  | .orMask fd eventmask => p.orMask fd eventmask
  | .andMask fd eventmask => p.andMask fd eventmask

/-- The answer of `select()`. -/
def PollerSelect.selected (ready : ℤ → Revents) : Selected where
  readfds fd := (ready fd).has POLLIN
  writefds fd := (ready fd).has POLLOUT
  exceptfds fd := (ready fd).has POLLPRI

/-- What `select()` can be asked for. -/
def PollerSelect.reportable (urgent : Bool) : Revents := POLLIN ||| POLLOUT ||| if urgent then POLLPRI else 0

namespace PollerSelect.Registry

/-- What is due for whom is ready for what. -/
def due (m : Registry Client) (ready : ℤ → Revents) : Set ℤ := {fd | ready fd &&& m.mask fd ≠ 0}

/-- The event of a descriptor. -/
def event (m : Registry Client) (ready : ℤ → Revents) (fd : ℤ) : PollEvent Client :=
  ⟨fd, ready fd &&& m.mask fd, m.clients fd⟩

/-- What is left when those are taken out whose clients have failed. -/
def dispatched (m : Registry Client) (ready : ℤ → Revents) (notify : PollEvent Client → ℤ) : Registry Client :=
  fun fd => if ready fd &&& m.mask fd ≠ 0 ∧ notify (m.event ready fd) ≠ 0 then none else m fd

end PollerSelect.Registry

structure Pollers (Client : Type*) where
  poll : PollerPoll Client
  select : PollerSelect Client

namespace Pollers

/-- What the program does with either poller, with what it is answered from outside. -/
inductive Act (Client : Type*)
  | request (c : PollerSelect.Request Client) (heap : Heap Client)
  | wait (poll : Except ℤ (ℤ → Revents)) (select : Except ℤ Selected)
  | next
  | dispatch (ready : ℤ → Revents) (notify : PollEvent Client → ℤ) (fuel : ℕ)

def step (urgent : Bool) (b : Pollers Client) : Act Client → Option (Pollers Client)
  | .request c heap => do
    let (err, p) ← b.poll.perform heap c
    let (err', s) ← b.select.perform urgent c
    if err = 0 ∧ err' = 0 then some ⟨p, s⟩ else none
  | .wait poll select => some ⟨(b.poll.waitForEvents poll).2, (b.select.waitForEvents urgent select).2⟩
  | .next => do
    let (_, _, p) ← b.poll.getNextEvent
    return ⟨p, (b.select.getNextEvent urgent).2.2⟩
  | .dispatch ready notify fuel => do
    let (_, _, p) ← b.poll.waitAndDispatchEvents notify (.ok (b.poll.answers ready)) fuel
    let (_, _, s) ← b.select.waitAndDispatchEvents urgent notify (.ok (selected ready)) fuel
    return ⟨p, s⟩

def note (m : Registry Client) : Act Client → Registry Client
  | .request c _ => m.next c
  | .wait _ _ | .next => m
  | .dispatch ready notify _ => m.dispatched ready notify

/-- Requests are such as are accepted, and nothing is ready that `select()` cannot tell, such as an error. -/
def Proper (urgent : Bool) (m : Registry Client) : Act Client → Prop
  | .request c _ => m.accepts c = true
  | .wait _ _ | .next => True
  | .dispatch ready _ _ => ∀ fd, ready fd &&& ~~~reportable urgent = 0

/-- All runs from `init` on, with the map that the requests define. -/
def pollers (urgent : Bool) : System (Pollers Client) (Act Client) (Registry Client) where
  start b m := (∃ p₀ heap, PollerPoll.init p₀ heap = (0, b.poll)) ∧ (∃ s₀, PollerSelect.init urgent s₀ = (0, b.select)) ∧
    m = fun _ => none
  step b k b' := b.step urgent k = some b'
  note m _ k _ := note m k

end Pollers
end Dkftpbench
