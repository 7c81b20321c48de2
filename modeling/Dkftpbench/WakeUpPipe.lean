import Dkftpbench.SigioReady

/-!
# The wake-up pipe, Poller.cc

A thread that sleeps in `waitForEvents` is woken by another one, which writes a byte to a pipe
that the poller monitors. Neither end of the pipe is ever waited for, and a client of its
own empties it. The poller is Poller_sigio, which the kernel tells only once that something
has become ready. The other threads write at any moment, also between two system
calls of that client.
-/
namespace Dkftpbench
open CLib Watch

/-- Whom the events of a descriptor go to: `m_pipe_client`, or a client of the program. -/
inductive PipeOwner (Client : Type*)
  | pipeClient
  | program (client : Client)
deriving DecidableEq

/-- Where `WakeUpClient::notifyPollEvent` is, and with what descriptor: it is not called, is
about to read, or about to clear the readiness. -/
inductive Notified
  | away
  | reading (fd : ℤ)
  | clearing (fd : ℤ)
deriving DecidableEq

/-- `wakeupPipe` is `m_wakeup_pipe[0]`, and `bytes` is how many are in the pipe. -/
structure WakeUpPipe (Client : Type*) where
  world : SigioWorld (PipeOwner Client)
  wakeupPipe : ℤ
  bytes : ℕ
  notified : Notified

/-- What happens to one descriptor. -/
def SigioWorld.Happening.fd {Client : Type*} : SigioWorld.Happening Client → Option ℤ
  | .edge fd .. | .drain fd _ | .wouldBlock fd _ | .add fd .. | .del fd | .setMask fd _ | .orMask fd _ | .andMask fd _
  | .clearReadiness fd _ => some fd
  | .getNextEvent | .waitForEvents | .pullSignal | .pullSigio | .pullNone | .ignore | .restore | .poll _ | .takeBackup =>
    none

namespace WakeUpPipe
variable {Client : Type*}

def EBADF : ℤ := 9

/-- The size of the buffer in `notifyPollEvent`. -/
def bufLen : ℕ := 64

/-- `Poller::init`, over a poller that has been initialized. -/
def init (world : SigioWorld (PipeOwner Client)) : WakeUpPipe Client := ⟨world, -1, 0, .away⟩

/-- What `pipe()` and `fcntl()` answer, and the memory that `add` finds. A new pipe is empty.
Nobody looks at what `add` returns. -/
def initWakeUpPipe (w : WakeUpPipe Client) (pipe : Except ℤ ℤ) (fcntl : Option ℤ)
    (memory : Option (ℤ → FdState (PipeOwner Client))) (heap : Heap (PipeOwner Client)) : Option (ℤ × WakeUpPipe Client) :=
  match pipe, fcntl with
  | .error err, _ => some (err, w)
  | .ok fd, some err =>
    some (err, { w with world.kernel := w.world.kernel.drain fd (-1), wakeupPipe := fd, bytes := 0 })
  | .ok fd, none =>
    let world := { w.world with kernel := w.world.kernel.drain fd (-1) }
    (world.add fd (some .pipeClient) POLLIN memory heap).map fun world =>
      (0, { w with world := world, wakeupPipe := fd, bytes := 0 })

/-- One byte, if there is room. `signal` is what the kernel sends for it, if anything. -/
def wakeUp (w : WakeUpPipe Client) (room : ℕ) (signal : Option (Revents × Delivery)) : ℤ × WakeUpPipe Client :=
  if w.wakeupPipe = -1 then (EBADF, w)
  else if w.bytes < room then
    match signal with
    | none => (0, { w with bytes := w.bytes+1 })
    | some (band, delivery) =>
      (0, { w with world.kernel := w.world.kernel.edge w.wakeupPipe POLLIN band delivery, bytes := w.bytes+1 })
  else (EAGAIN, w)

/-- The assertion at the beginning of `notifyPollEvent`, and the way to its loop. -/
def notifyPollEvent (w : WakeUpPipe Client) (event : PollEvent (PipeOwner Client)) : Option (WakeUpPipe Client) :=
  if event.revents.has POLLERR then none
  else some { w with notified := if event.revents.has POLLIN then .reading event.fd else .away }

/-- Once more around the loop: a read that fills the buffer is followed by another one. -/
def read (w : WakeUpPipe Client) (fd : ℤ) : WakeUpPipe Client :=
  let n := min w.bytes bufLen
  { w with
    world.kernel := if w.bytes-n = 0 then w.world.kernel.drain fd POLLIN else w.world.kernel
    bytes := w.bytes-n
    notified := if n = bufLen then .reading fd else .clearing fd }

/-- The next event, which goes to whom its descriptor belongs. -/
def dispatch (w : WakeUpPipe Client) : Option (WakeUpPipe Client) :=
  let (_, ev, s) := w.world.poller.getNextEvent
  let w := { w with world.poller := s }
  match ev with
  | none => some w
  | some e =>
    match e.client with
    | some .pipeClient => w.notifyPollEvent e
    | some (.program _) | none => some w

/-- What the threads do: one of them has the poller, and the others call `wakeUp` only. What a
client of the program does when its event comes is left open. -/
inductive Act (Client : Type*)
  | initWakeUpPipe (pipe : Except ℤ ℤ) (fcntl : Option ℤ) (memory : Option (ℤ → FdState (PipeOwner Client)))
    (heap : Heap (PipeOwner Client))
  | wakeUp (signal : Option (Revents × Delivery))
  | dispatch
  | read
  | clearReadiness
  | happen (k : SigioWorld.Happening (PipeOwner Client))

/-- The kernel does not wait for the thread that has the poller. -/
def isKernel : SigioWorld.Happening (PipeOwner Client) → Bool
  | .edge .. | .drain .. => true
  | _ => false

def step (room : ℕ) (w : WakeUpPipe Client) : Act Client → Option (WakeUpPipe Client)
  | .initWakeUpPipe pipe fcntl memory heap =>
    if w.notified = .away ∧ w.world.phase = .idle then (w.initWakeUpPipe pipe fcntl memory heap).map Prod.snd else none
  | .wakeUp signal => some (w.wakeUp room signal).2
  | .dispatch => if w.notified = .away ∧ w.world.phase = .idle then w.dispatch else none
  | .read =>
    match w.notified with
    | .reading fd => if fd = w.wakeupPipe then some (w.read fd) else none
    | .away | .clearing _ => none
  | .clearReadiness =>
    match w.notified with
    | .clearing fd =>
      (w.world.poller.clearReadiness fd POLLIN).map fun s => { w with world.poller := s, notified := .away }
    | .away | .reading _ => none
  | .happen k =>
    if w.notified = .away ∨ isKernel k = true then (w.world.step k).map fun world => { w with world := world } else none

/-- What the poller has been told, whether the pipe is set up, and whether `wakeUp` was
called since the last read from it. -/
structure Calls (Client : Type*) where
  sigio : SigioWorld.Notes (PipeOwner Client)
  pipe : Bool
  pending : Bool

def note (n : Calls Client) (w : WakeUpPipe Client) : Act Client → Calls Client
  | .initWakeUpPipe (.ok fd) none memory heap =>
    ⟨n.sigio.after w.world (.add fd (some .pipeClient) POLLIN memory heap), true, false⟩
  | .initWakeUpPipe .. => n
  | .wakeUp _ => { n with pending := n.pipe }
  | .read =>
    if min w.bytes bufLen = bufLen then { n with pending := false }
    else { n with sigio := n.sigio.after w.world (.wouldBlock w.wakeupPipe POLLIN), pending := false }
  | .happen k => { n with sigio := n.sigio.after w.world k }
  | .dispatch | .clearReadiness => n

/-- The client of the pipe would be called for this descriptor. -/
def addsPipe : SigioWorld.Happening (PipeOwner Client) → Bool
  | .add _ (some .pipeClient) .. => true
  | _ => false

/-- The pipe is set up once, with a descriptor that is not in use, and finds memory. A byte
in an empty pipe is signalled, as in `SigioWorld.Notes.Allows`. The program leaves the pipe's
descriptor and its client alone, and clears readiness only as the poller asks for. -/
def Proper (w : WakeUpPipe Client) (n : Calls Client) : Act Client → Prop
  | .initWakeUpPipe (.ok fd) none memory heap =>
    n.pipe = false ∧ n.sigio.Allows w.world (.add fd (some .pipeClient) POLLIN memory heap) ∧
      (w.world.poller.grow fd memory).isSome = true
  | .initWakeUpPipe .. => n.pipe = false
  | .wakeUp none => w.bytes ≠ 0
  | .wakeUp (some (band, delivery)) => n.sigio.Allows w.world (.edge w.wakeupPipe POLLIN band delivery)
  | .happen k =>
    (n.sigio.Allows w.world k ∧ n.sigio.Fresh k) ∧ (n.pipe = true → k.fd ≠ some w.wakeupPipe) ∧ addsPipe k = false
  | .dispatch | .read | .clearReadiness => True

end WakeUpPipe
end Dkftpbench
