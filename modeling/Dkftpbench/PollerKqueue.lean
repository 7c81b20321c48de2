import Dkftpbench.PollerPoll

/-!
# The poller over kqueue, Poller_kqueue.h and Poller_kqueue.cc

The poller keeps no masks. It logs changes to the kernel's filters and hands the log over
at the next `kevent`, which returns those filters that are ready, before them an entry for
each change that failed. Memory is found; what lies there at first is arbitrary.
-/
namespace Dkftpbench
open CLib

/-- What lies in memory may be another filter. -/
inductive Filter
  | read | write | other
deriving DecidableEq, Repr

/-- `EV_ADD | EV_ENABLE`, `EV_DELETE` and `EV_ERROR`. -/
inductive KeventFlags
  | addEnable | delete | error | other
deriving DecidableEq, Repr

/-- `struct kevent`, as far as it is used. -/
structure Kevent (Client : Type*) where
  ident : ℤ
  filter : Filter
  flags : KeventFlags
  udata : Option Client
deriving DecidableEq

structure PollerKqueue (Client : Type*) where
  changes : ℤ → Kevent Client
  results : ℤ → Kevent Client
  numChanges : ℤ
  maxChanges : ℤ
  numResults : ℤ
  numFds : ℤ
  maxFds : ℤ
  curResult : ℤ

namespace PollerKqueue
variable {Client : Type*}

def init (s : PollerKqueue Client) : PollerKqueue Client :=
  { s with numChanges := 0, maxChanges := 0, numResults := 0, numFds := 0, maxFds := 0, curResult := 0 }

/-- Room for two more changes. -/
def reserve (s : PollerKqueue Client) (cells : ℤ → Kevent Client) : PollerKqueue Client :=
  if s.numChanges+2 > s.maxChanges then
    { s with maxChanges := s.maxChanges+128, changes := realloc s.changes s.maxChanges cells }
  else s

/-- One more change is filled in. -/
def push (s : PollerKqueue Client) (f : Kevent Client → Kevent Client) : PollerKqueue Client :=
  { s with
    changes := Function.update s.changes s.numChanges (f (s.changes s.numChanges))
    numChanges := s.numChanges+1 }

def setMaskInternal (s : PollerKqueue Client) (fd : ℤ) (eventmask : Revents) (client : Option Client)
    (cells : ℤ → Kevent Client) : ℤ × PollerKqueue Client :=
  let s := s.reserve cells
  let s := if eventmask.has POLLIN then s.push fun _ => ⟨fd, .read, .addEnable, client⟩ else s
  let s := if eventmask.has POLLOUT then s.push fun _ => ⟨fd, .write, .addEnable, client⟩ else s
  (0, s)

def clearMaskInternal (s : PollerKqueue Client) (fd : ℤ) (eventmask : Revents) (cells : ℤ → Kevent Client) :
    ℤ × PollerKqueue Client :=
  let s := s.reserve cells
  let s := if !eventmask.has POLLIN then s.push fun _ => ⟨fd, .read, .delete, none⟩ else s
  let s := if !eventmask.has POLLOUT then s.push fun _ => ⟨fd, .write, .delete, none⟩ else s
  (0, s)

def add (s : PollerKqueue Client) (fd : ℤ) (client : Option Client) (eventmask : Revents)
    (results changes : ℤ → Kevent Client) : ℤ × PollerKqueue Client :=
  let s :=
    if s.numFds = s.maxFds then
      { s with maxFds := s.maxFds+128, results := realloc s.results (2*s.maxFds) results }
    else s
  { s with numFds := s.numFds+1 }.setMaskInternal fd eventmask client changes

/-- Only three fields of each change are set. -/
def del (s : PollerKqueue Client) (fd : ℤ) (cells : ℤ → Kevent Client) : ℤ × PollerKqueue Client :=
  if s.numFds = 0 then (EINVAL, s)
  else
    let s := s.reserve cells
    let s := s.push fun ke => { ke with ident := fd, filter := .read, flags := .delete }
    let s := s.push fun ke => { ke with ident := fd, filter := .write, flags := .delete }
    (0, { s with numFds := s.numFds-1 })

def setMask (s : PollerKqueue Client) (fd : ℤ) (eventmask : Revents) (cells cells' : ℤ → Kevent Client) :
    ℤ × PollerKqueue Client :=
  let (n, s) := s.setMaskInternal fd eventmask none cells
  if n ≠ 0 then (n, s)
  else
    let (n, s) := s.clearMaskInternal fd eventmask cells'
    if n ≠ 0 then (n, s) else (0, s)

def orMask (s : PollerKqueue Client) (fd : ℤ) (eventmask : Revents) (cells : ℤ → Kevent Client) :
    ℤ × PollerKqueue Client :=
  s.setMaskInternal fd eventmask none cells

def andMask (s : PollerKqueue Client) (fd : ℤ) (eventmask : Revents) (cells : ℤ → Kevent Client) :
    ℤ × PollerKqueue Client :=
  s.clearMaskInternal fd eventmask cells

/-- The changes that are handed over. -/
def pending (s : PollerKqueue Client) : List (Kevent Client) :=
  (List.range s.numChanges.toNat).map fun i : ℕ => s.changes i

/-- `kevent` fails, or writes its results. -/
def waitForEvents (s : PollerKqueue Client) (kevent : Except ℤ (List (Kevent Client))) : ℤ × PollerKqueue Client :=
  let s := { s with curResult := 0, numChanges := 0 }
  match kevent with
  | .error err => (err, { s with numResults := -1 })
  | .ok l =>
    (if l.length = 0 then EWOULDBLOCK else 0, { s with
      results := fun i => if 0 ≤ i then l[i.toNat]?.getD (s.results i) else s.results i
      numResults := l.length })

/-- The bit for a filter. -/
def bit : Filter → Revents
  | .read => POLLIN
  | .write => POLLOUT
  | .other => POLLERR

def getNextEvent (s : PollerKqueue Client) : ℤ × Option (PollEvent Client) × PollerKqueue Client :=
  if s.curResult = s.numResults then (EWOULDBLOCK, none, s)
  else
    let ke := s.results s.curResult
    (0, some ⟨ke.ident, bit ke.filter, ke.udata⟩, { s with curResult := s.curResult+1 })

end PollerKqueue

/-! ## The kernel queue -/

/-- The filters that are there, with their `udata`. -/
abbrev Filters (Client : Type*) := ℤ → Filter → Option (Option Client)

namespace Filters
variable {Client : Type*}

def set (q : Filters Client) (fd : ℤ) (filter : Filter) (udata : Option (Option Client)) : Filters Client :=
  Function.update q fd (Function.update (q fd) filter udata)

/-- `EV_ADD` creates a filter or replaces its `udata`; `EV_DELETE` removes it, or reports
an error if it is not there. -/
def change (q : Filters Client) (ke : Kevent Client) : Filters Client × List (Kevent Client) :=
  match ke.flags with
  | .addEnable => (q.set ke.ident ke.filter (some ke.udata), [])
  | .delete =>
    if (q ke.ident ke.filter).isSome then (q.set ke.ident ke.filter none, [])
    else (q, [{ ke with flags := .error }])
  | .error | .other => (q, [])

/-- The changes in order, and what is reported of them. -/
def replay (q : Filters Client) : List (Kevent Client) → Filters Client × List (Kevent Client)
  | [] => (q, [])
  | ke :: l => ((q.change ke).1.replay l |>.1, (q.change ke).2 ++ ((q.change ke).1.replay l).2)

/-- What is returned for those that are ready. -/
def ready (q : Filters Client) (l : List (ℤ × Filter)) : List (Kevent Client) :=
  l.filterMap fun (fd, filter) => (q fd filter).map fun udata => ⟨fd, filter, .other, udata⟩

end Filters

structure KqueueWorld (Client : Type*) where
  poller : PollerKqueue Client
  filters : Filters Client

namespace KqueueWorld
variable {Client : Type*}

/-- A call, with the memory that it finds, and what is ready or why `kevent` fails. -/
inductive Call (Client : Type*)
  | add (fd : ℤ) (client : Option Client) (eventmask : Revents) (results changes : ℤ → Kevent Client)
  | del (fd : ℤ) (cells : ℤ → Kevent Client)
  | setMask (fd : ℤ) (eventmask : Revents) (cells cells' : ℤ → Kevent Client)
  | orMask (fd : ℤ) (eventmask : Revents) (cells : ℤ → Kevent Client)
  | andMask (fd : ℤ) (eventmask : Revents) (cells : ℤ → Kevent Client)
  | waitForEvents (ready : Except ℤ (List (ℤ × Filter)))
  | getNextEvent

/-- The result of a call that returns no event. -/
def code (w : KqueueWorld Client) (r : ℤ × PollerKqueue Client) : ℤ × Option (PollEvent Client) × KqueueWorld Client :=
  (r.1, none, { w with poller := r.2 })

/-- What `kevent` returns, as much as there is room for. -/
def answer (w : KqueueWorld Client) (l : List (ℤ × Filter)) : List (Kevent Client) :=
  let (filters, errors) := w.filters.replay w.poller.pending
  (errors ++ filters.ready l).take (2*w.poller.maxFds).toNat

/-- `kevent` makes the changes also when it fails, as it does if it is interrupted. -/
def waitForEvents (w : KqueueWorld Client) (ready : Except ℤ (List (ℤ × Filter))) :
    ℤ × Option (PollEvent Client) × KqueueWorld Client :=
  code ⟨w.poller, (w.filters.replay w.poller.pending).1⟩ (w.poller.waitForEvents (ready.map w.answer))

def call (w : KqueueWorld Client) : Call Client → ℤ × Option (PollEvent Client) × KqueueWorld Client
  | .add fd client eventmask results changes => w.code (w.poller.add fd client eventmask results changes)
  | .del fd cells => w.code (w.poller.del fd cells)
  | .setMask fd eventmask cells cells' => w.code (w.poller.setMask fd eventmask cells cells')
  | .orMask fd eventmask cells => w.code (w.poller.orMask fd eventmask cells)
  | .andMask fd eventmask cells => w.code (w.poller.andMask fd eventmask cells)
  | .waitForEvents ready => w.waitForEvents ready
  | .getNextEvent =>
    (w.poller.getNextEvent.1, w.poller.getNextEvent.2.1, { w with poller := w.poller.getNextEvent.2.2 })

end KqueueWorld
end Dkftpbench
