import Dkftpbench.ClientPipe

/-!
# The simulated users, robouser.h and robouser.cc, Platoon.h and Platoon.cc

A platoon and its robousers call each other all the time, so one state holds them
all: the members of the platoon, and its robousers by their addresses. An address is
used once, so that a pointer to a robouser that was deleted stays one; what follows
it is an error. `executing` is the robouser one of whose callbacks is on the stack.
Lists of all robousers that were ever put on the dead list and of all that were
deleted, with what they were then, come with it.

What the kernel, the scheduler's memory and the clock answer is a parameter of each
step, and so is the outcome of a comparison of speeds, which are of type float. A step
that ends the program is an error, with the reason. Going round the loop in
`ftpCmdDone` is calling it again: `xerr` is 0 there.
-/
namespace Dkftpbench
open CLib EventClock

/-- `robouser_t::state_t`. The order matters. -/
inductive RobouserState
  | uninit | connect | connecting | startType | finishType | get | getting | stopped
deriving DecidableEq, Repr

/-- The number that stands for a state. -/
def RobouserState.code : RobouserState → ℕ
  | .uninit => 0
  | .connect => 1
  | .connecting => 2
  | .startType => 3
  | .finishType => 4
  | .get => 5
  | .getting => 6
  | .stopped => 7

/-- All of them, in order; there are `NUMSTATES`. -/
def RobouserState.all : List RobouserState :=
  [.uninit, .connect, .connecting, .startType, .finishType, .get, .getting, .stopped]

/-- Any state between CONNECT and GETTING is alive. -/
def RobouserState.IsAlive (s : RobouserState) : Prop := 1 ≤ s.code ∧ s.code ≤ 6

instance (s : RobouserState) : Decidable s.IsAlive := inferInstanceAs (Decidable (_ ∧ _))

/-- A string in an array of `n` characters. -/
abbrev Text (n : ℕ) := { s : CStr // s.1.length < n }

/-- A robouser, with its own entry in the scheduler. -/
structure Robouser where
  user : ℕ
  state : RobouserState
  startedAt : Clock
  bytesFetched : BitVec 64
  reads : ℤ
  fcp : Session
  queued : Option Clock

/-- The parameters common to all robousers. The file's name has to fit the array in
`ftpCmdDone` that it is copied to. -/
structure Settings where
  filename : Text 1024
  maxBytesPerSec : Int32
  bytesPerRead : ℤ
  port : ℤ
  username : Text 128
  passwd : Text 128

structure Platoon extends Settings where
  lastConnectingState : RobouserState
  nconnectingTarget : ℤ
  nuserTarget : ℤ
  nInState : RobouserState → ℤ
  users : ℕ → Option ℕ
  deadlist : List ℕ
  bytesFetched : BitVec 64
  nreads : ℤ
  queued : Option Clock
  robousers : ℕ → Option Robouser
  next : ℕ
  executing : Option ℕ
  everDead : List ℕ
  deleted : List (ℕ × Robouser)

/-- What the clock and the scheduler's memory answer to `wakeUp`. -/
structure Wake where
  now : Clock
  enqueue : Bool

/-- What is answered to `startUser`. -/
structure Start where
  memory : FtpClientPipe
  now : Clock
  enqueue : Bool
  wake : Wake

/-- What is answered to `handle_data_io`: what was read or the error, and whether a
speed is too low. -/
structure DataIo where
  read : Except ℤ ℕ
  now : Clock
  slow : Bool
  wake : Wake
  shutdown : World

/-- What is answered in one round of the loop in `ftpCmdDone`: to a connect, to a
command, and to the robouser itself. -/
structure LoopAnswers where
  connect : World
  command : World
  now : Clock
  slow : Bool
  wake : Wake

/-- What calls on a pipe from outside: the poller or the scheduler. -/
inductive Cause
  | event (fd : ℤ) (revents : Revents)
  | timer (now : Clock)

/-- Why a step has no result: the program ended or the answers were too few, or the
code reached outside of `m_users`, used a robouser that was deleted, or deleted one while
one of its callbacks was executing. -/
inductive Fault
  | stop (s : Stop)
  | newstate
  | bufferSize
  | skedEmpty
  | bounds
  | freed
  | executing
deriving DecidableEq, Repr

/-- The time of an entry in the scheduler has come. -/
def isDue (queued : Option Clock) (now : Clock) : Bool :=
  match queued with
  | none => false
  | some when => !eclockAfter when now

namespace Session

/-- How often the app's `handle_data_io` was called. -/
def dataIos (s : Session) : ℕ :=
  s.log.countP fun
    | .dataIo _ _ => true
    | _ => false

/-- With what a function of the pipe called the app's `ftpCmdDone`, if it did. -/
def called (s s' : Session) : Option (ℤ × ℤ) :=
  if s'.callbacks = s.callbacks then none
  else
    match s'.log with
    | .cmdDone xerr status :: _ => some (xerr, status)
    | _ => none

def receive (s : Session) (w : World) : Cause → Except Stop Session
  | .event fd revents => (s.notifyPollEvent w fd revents).map Prod.snd
  | .timer now => s.runTimer w now

/-- What comes to the handler of the data connection: an event for it, or those that a
sleeper kept. -/
def dataEvents (s : Session) : Cause → Option (Session × Revents)
  | .event fd revents => if fd ≠ -1 ∧ fd = s.dfd then some (s, revents) else none
  | .timer now =>
    if isDue s.queued now ∧ s.state = .sleeping ∧ s.dfdEvents ≠ 0 ∧ !eclockAfter s.wakeup now ∧ s.dfd ≠ -1 then
      some ({ s.delClient with state := .getting, dfdEvents := 0, wakeup := now }, s.dfdEvents)
    else none

/-- Whether the handler of the data connection calls `handle_data_io`. -/
def callsDataIo (s : Session) (w : World) (c : Cause) : Bool :=
  match s.dataEvents c with
  | none => false
  | some (s, revents) =>
    match s.notifyPollEventDfd w revents with
    | .ok r => s.dataIos < r.2.dataIos
    | .error _ => false

end Session

namespace Platoon

/-- `Platoon_MAXUSERS`. -/
def maxUsers : ℕ := 65536

/-- Constructor and `init`. -/
def init (settings : Settings) : Platoon :=
  { settings with
    lastConnectingState := .connecting, nconnectingTarget := 1, nuserTarget := 0
    nInState := fun _ => 0, users := fun _ => none, deadlist := [], bytesFetched := 0, nreads := 0
    queued := none, robousers := fun _ => none, next := 0, executing := none, everDead := []
    deleted := [] }

/-- Take the platoon out of the queue and put it in for now, if there is memory. -/
def wakeUp (p : Platoon) (k : Wake) : Platoon :=
  { p with queued := if k.enqueue then some k.now else none }

def setNuserTarget (p : Platoon) (utarget : ℤ) (k : Wake) : Platoon :=
  { p with nuserTarget := utarget }.wakeUp k

def setNconnectingTarget (p : Platoon) (ctarget : ℤ) (k : Wake) : Platoon :=
  { p with nconnectingTarget := ctarget }.wakeUp k

def setLastConnectingState (p : Platoon) (s : RobouserState) (k : Wake) : Platoon :=
  { p with lastConnectingState := s }.wakeUp k

def countStateChange (p : Platoon) (oldstate newstate : RobouserState) (k : Wake) : Except Fault Platoon :=
  if newstate = .uninit then .error .newstate
  else
    let n := if oldstate ≠ .uninit then Function.update p.nInState oldstate (p.nInState oldstate-1)
      else p.nInState
    .ok ({ p with nInState := Function.update n newstate (n newstate+1) }.wakeUp k)

def sumInState (p : Platoon) (first last : RobouserState) : ℤ :=
  ((RobouserState.all.filter fun s => first.code ≤ s.code ∧ s.code ≤ last.code).map p.nInState).sum

/-- The object behind a pointer. -/
def user (p : Platoon) (id : ℕ) : Except Fault Robouser :=
  match p.robousers id with
  | none => .error .freed
  | some r => .ok r

def setUser (p : Platoon) (id : ℕ) (r : Robouser) : Platoon :=
  { p with robousers := Function.update p.robousers id (some r) }

def addToDeadlist (p : Platoon) (id : ℕ) : Platoon :=
  { p with deadlist := p.deadlist ++ [id], everDead := id :: p.everDead }

/-- `robouser_t::gotoState`. -/
def gotoState (p : Platoon) (id : ℕ) (newstate : RobouserState) (k : Wake) : Except Fault Platoon := do
  let r ← p.user id
  let p ← p.countStateChange r.state newstate k
  return p.setUser id { r with state := newstate }

/-- `robouser_t::stop`. -/
def stop (p : Platoon) (id : ℕ) (k : Wake) : Except Fault Platoon := do
  let p ← p.gotoState id .stopped k
  return p.addToDeadlist id

/-- The body of the loops in `reap` and `reset`: take the robouser out of the scheduler,
shut it down, empty its slot and delete it. -/
def bury (p : Platoon) (id : ℕ) (w : World) : Except Fault Platoon := do
  let r ← p.user id
  let r := { r with queued := none, fcp := (r.fcp.shutdown w).2 }
  if p.executing = some id then .error .executing
  else
    return { p with
      users := Function.update p.users r.user none
      robousers := Function.update p.robousers id none, deleted := (id, r) :: p.deleted }

/-- The loop of `reap` over what is on the dead list. -/
def reapLoop (w : World) : List ℕ → Platoon → Except Fault Platoon
  | [], p => .ok p
  | id :: ids, p => do
    let p ← { p with deadlist := ids }.bury id w
    reapLoop w ids p

def reap (p : Platoon) (w : World) : Except Fault Platoon := reapLoop w p.deadlist p

/-- The loop of `reset`, over some slots. -/
def resetLoop (w : World) : List ℕ → Platoon → Except Fault Platoon
  | [], p => .ok p
  | i :: is, p =>
    match p.users i with
    | none => resetLoop w is p
    | some id => do
      let p ← p.bury id w
      resetLoop w is p

/-- The scheduler is empty at the end if no pipe was left there. -/
def reset (p : Platoon) (w : World) : Except Fault Platoon := do
  let p ← p.reap w
  let p ← resetLoop w (List.range maxUsers) p
  let p := { p with queued := none }
  if p.deleted.all fun x => x.2.fcp.queued.isNone then return p else .error .skedEmpty

/-- `robouser_t::start`. -/
def start (p : Platoon) (id usernum : ℕ) (a : Start) : Except Fault (ℤ × Platoon) := do
  let r ← p.user id
  let p := p.setUser id { r with
    user := usernum, fcp := r.fcp.init p.maxBytesPerSec, startedAt := 0, bytesFetched := 0, reads := 0
    queued := if a.enqueue then some a.now else none }
  let p ← p.gotoState id .connect a.wake
  return (0, p)

/-- The first free slot among the next `n`, going round. -/
def freeSlot (users : ℕ → Option ℕ) : ℕ → ℕ → Option ℕ
  | 0, _ => none
  | n+1, i =>
    let i := if i = maxUsers then 0 else i
    if users i = none then some i else freeSlot users n (i+1)

/-- The constructor of `robouser_t`, on whatever the memory holds. -/
def newRobouser (memory : FtpClientPipe) : Robouser where
  user := 0
  state := .uninit
  startedAt := 0
  bytesFetched := 0
  reads := 0
  fcp := ⟨memory, none, 0, []⟩
  queued := none

def startUser (p : Platoon) (a : Start) : Except Fault (ℤ × Platoon) :=
  let i := p.sumInState .connect .getting
  if i < 0 ∨ maxUsers < i then .error .bounds
  else
    match freeSlot p.users maxUsers i.toNat with
    | none => .ok (EALREADY, p)
    | some i =>
      { p with
        users := Function.update p.users i (some p.next), next := p.next+1
        robousers := Function.update p.robousers p.next (some (newRobouser a.memory)) }.start p.next i a

/-- Another user is to be started. -/
def wantsUser (p : Platoon) : Bool :=
  p.sumInState .stopped .stopped = 0 ∧ p.sumInState .connect .getting < p.nuserTarget ∧
    p.sumInState .connect p.lastConnectingState < p.nconnectingTarget

/-- `Platoon::skedCallback`. -/
def skedCallback : List Start → Platoon → Except Fault Platoon
  | [], p => if p.wantsUser then .error (.stop .fuel) else .ok p
  | a :: as, p =>
    if p.wantsUser then do
      let (err, p) ← p.startUser a
      if err ≠ 0 then return p else skedCallback as p
    else .ok p

/-- The number of robousers connecting, alive and dead, and the bytes fetched. -/
structure Status where
  nconnecting : ℤ
  nalive : ℤ
  ndead : ℤ
  bytesFetched : BitVec 64

def getStatus (p : Platoon) (w : World) : Except Fault (Status × Platoon) := do
  let p ← p.reap w
  return (⟨p.sumInState .connect p.lastConnectingState, p.sumInState .connect .getting,
    p.sumInState .stopped .stopped, p.bytesFetched⟩, p)

/-- `STATUS_OK`. -/
def statusOk (status : ℤ) : Bool := 200 ≤ status && status ≤ 299

/-- `m_in_ftpCmdDone--` after the app's `ftpCmdDone`. -/
def cmdDoneReturns (p : Platoon) (id : ℕ) : Except Fault Platoon := do
  let r ← p.user id
  match r.fcp.returnFromCallback with
  | .error stop => .error (.stop stop)
  | .ok fcp => return p.setUser id { r with fcp := fcp }

/-- The pipe of a robouser runs one of its functions, which may end with a call back. -/
def runPipe (p : Platoon) (id : ℕ) (f : Session → Outcome) (callback : Platoon → ℤ → ℤ → Except Fault Platoon) :
    Except Fault (ℤ × Platoon) := do
  let r ← p.user id
  match f r.fcp with
  | .error stop => .error (.stop stop)
  | .ok (err, fcp) =>
    let p := p.setUser id { r with fcp := fcp }
    match r.fcp.called fcp with
    | none => return (err, p)
    | some (xerr, status) =>
      let p ← callback p xerr status
      let p ← p.cmdDoneReturns id
      return (err, p)

/-- What GET does once the file was asked for. -/
def beginFetch (p : Platoon) (id : ℕ) (now : Clock) : Except Fault Platoon := do
  let r ← p.user id
  return p.setUser id { r with startedAt := now, bytesFetched := 0, reads := 0 }

/-- `robouser_t::ftpCmdDone`. Commands kick the control connection only, so that a call
back from inside of one is another `ftpCmdDone`. -/
def ftpCmdDone : List LoopAnswers → Platoon → ℕ → ℤ → ℤ → Except Fault Platoon
  | [], _, _, _, _ => .error (.stop .fuel)
  | a :: as, p, id, xerr, status =>
    if xerr ≠ 0 then p.stop id a.wake
    else do
      let r ← p.user id
      match r.state with
      | .connect =>
        let (err, p) ← p.runPipe id (fun s => s.connect a.connect (BitVec.ofInt 16 p.port))
          fun p xerr status => ftpCmdDone as p id xerr status
        if err ≠ 0 then p.stop id a.wake
        else
          let (err, p) ← p.runPipe id (fun s => s.login a.command p.username.1 p.passwd.1)
            fun p xerr status => ftpCmdDone as p id xerr status
          if err ≠ 0 then p.stop id a.wake else p.gotoState id .connecting a.wake
      | .connecting =>
        if !statusOk status then p.stop id a.wake
        else
          let p ← p.gotoState id .startType a.wake
          ftpCmdDone as p id 0 status
      | .startType =>
        let (err, p) ← p.runPipe id (fun s => s.type a.command ⟨ascii "I", by decide⟩)
          fun p xerr status => ftpCmdDone as p id xerr status
        if err ≠ 0 then p.stop id a.wake else p.gotoState id .finishType a.wake
      | .finishType =>
        if !statusOk status then p.stop id a.wake
        else
          let p ← p.gotoState id .get a.wake
          ftpCmdDone as p id 0 status
      | .get =>
        let (err, p) ← p.runPipe id (fun s => s.get a.command p.filename.1 true)
          fun p xerr status => ftpCmdDone as p id xerr status
        if err ≠ 0 then p.stop id a.wake
        else
          let p ← p.beginFetch id a.now
          p.gotoState id .getting a.wake
      | .getting =>
        if !statusOk status then p.stop id a.wake
        else if 0 < (a.now-r.startedAt).toInt ∧ a.slow then p.stop id a.wake
        else
          let p ← p.gotoState id .get a.wake
          ftpCmdDone as p id 0 status
      | .stopped => return p
      | .uninit => return p

/-- The size of the buffer in `handle_data_io`. -/
def dataBufLen : ℤ := 16384

/-- `robouser_t::handle_data_io`. Both kinds of error are returned the same way. -/
def handleDataIo (p : Platoon) (id : ℕ) (a : DataIo) : Except Fault (ℤ × Platoon) :=
  if dataBufLen < p.bytesPerRead then .error .bufferSize
  else do
    let r ← p.user id
    let r := { r with reads := r.reads+1 }
    match a.read with
    | .error err => return (-err, p.setUser id r)
    | .ok nread =>
      if nread = 0 then return (0, p.setUser id r)
      else
        let r := { r with
          startedAt := if r.bytesFetched = 0 then a.now else r.startedAt
          bytesFetched := r.bytesFetched+BitVec.ofNat 64 nread }
        let p := { p.setUser id r with
          bytesFetched := p.bytesFetched+BitVec.ofNat 64 nread, nreads := p.nreads+1 }
        if 10*p.bytesPerRead < (r.bytesFetched.setWidth 32).toInt ∧ a.slow then
          let p ← p.stop id a.wake
          return (0, p)
        else
          let p ← p.reap a.shutdown
          return (nread, p)

/-- What `handle_data_io` would return. -/
def dataIoResult (p : Platoon) (id : ℕ) (a : DataIo) : ℤ :=
  match p.handleDataIo id a with
  | .ok (nread, _) => nread
  | .error _ => 0

/-- The answers to a pipe, with that of `handle_data_io`. -/
def answered (p : Platoon) (id : ℕ) (w : World) (io : DataIo) : World :=
  { w with handleDataIo := p.dataIoResult id io }

/-- The call of `handle_data_io` by a pipe, if it makes one. -/
def serveData (p : Platoon) (id : ℕ) (fcp : Session) (c : Cause) (w : World) (io : DataIo) : Except Fault Platoon :=
  if fcp.callsDataIo w c then (p.handleDataIo id io).map Prod.snd else .ok p

/-- The pipe of a robouser is called from outside. It may call `handle_data_io`, and may
end with a call of `ftpCmdDone`. -/
def callPipe (p : Platoon) (id : ℕ) (c : Cause) (w : World) (io : DataIo) (as : List LoopAnswers) :
    Except Fault Platoon := do
  let r ← p.user id
  let w := p.answered id w io
  let p ← p.serveData id r.fcp c w io
  let (_, p) ← p.runPipe id (fun s => (s.receive w c).map fun s => (0, s))
    fun p xerr status => ftpCmdDone as p id xerr status
  return p

/-- What can happen to a platoon: the scheduler calls it or one of its robousers,
something calls the pipe of one, a target changes, or main asks. -/
inductive Act
  | platoonTimer (now : Clock) (as : List Start)
  | userTimer (id : ℕ) (now : Clock) (as : List LoopAnswers)
  | pipe (id : ℕ) (c : Cause) (w : World) (io : DataIo) (as : List LoopAnswers)
  | setNuserTarget (utarget : ℤ) (k : Wake)
  | setNconnectingTarget (ctarget : ℤ) (k : Wake)
  | setLastConnectingState (s : RobouserState) (k : Wake)
  | reap (w : World)
  | getStatus (w : World)

/-- A callback of this robouser is executing. -/
def during (p : Platoon) (id : ℕ) : Platoon := { p with executing := some id }

/-- Something calls a robouser, which executes until it returns. -/
def callUser (p : Platoon) (id : ℕ) (f : Platoon → Except Fault Platoon) : Except Fault Platoon := do
  let p ← f (p.during id)
  return { p with executing := none }

def step (p : Platoon) : Act → Except Fault Platoon
  | .platoonTimer now as =>
    if isDue p.queued now then { p with queued := none }.skedCallback as else .error (.stop .disabled)
  | .userTimer id now as =>
    match p.robousers id with
    | none => .error (.stop .disabled)
    | some r =>
      if isDue r.queued now then
        (p.setUser id { r with queued := none }).callUser id fun p => ftpCmdDone as p id 0 (-1)
      else .error (.stop .disabled)
  | .pipe id c w io as =>
    match p.robousers id with
    | none => .error (.stop .disabled)
    | some _ => p.callUser id fun p => p.callPipe id c w io as
  | .setNuserTarget utarget k => .ok (p.setNuserTarget utarget k)
  | .setNconnectingTarget ctarget k => .ok (p.setNconnectingTarget ctarget k)
  | .setLastConnectingState s k => .ok (p.setLastConnectingState s k)
  | .reap w => p.reap w
  | .getStatus w => (p.getStatus w).map Prod.snd

end Platoon
end Dkftpbench
