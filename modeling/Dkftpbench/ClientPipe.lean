import Dkftpbench.ClientProto
import Dkftpbench.EventClock
import Dkftpbench.Nbbio
import Dkftpbench.Poller

/-!
# The networking part of an FTP client, ftp_client_pipe.h and ftp_client_pipe.cc

A `Session` is the object together with what lies around it: its entry in the
scheduler, how many calls of `ftpCmdDone` have not returned, and a log of the calls
that it made and of the events that the results about it speak of, newest first.

`call_ftpCmdDone` is the last thing that a handler does. So the app's callback runs
between two steps, and what it calls from inside are steps of their own; only the
decrement of `m_in_ftpCmdDone` is left for its return.

What the kernel, the poller, the scheduler's memory and the app answer in a step is
a parameter. `Poller::clearReadiness` does nothing that the pipe can see. A step
that ends the program is an error, with the reason.
-/
namespace Dkftpbench
open CLib EventClock

/-- `clock_t`. -/
abbrev Clock := BitVec 64

def KICKSTART : Revents := 0x8000

inductive PipeState
  | idle | getting | sleeping | putting
deriving DecidableEq, Repr

structure FtpClientPipe where
  state : PipeState
  cfd : ℤ
  cfdConnecting : Bool
  dfd : ℤ
  dfdConnecting : Bool
  obuf : Nbbio
  ibuf : Nbbio
  iline : ℕ → Byte
  ilineFull : Bool
  bytesPerTick : Int32
  bytesPerSec : Int32
  bytesUnsleptFor : Int32
  dfdEvents : Revents
  wakeup : Clock
  inFtpCmdDone : ℤ
  proto : FtpClientProto

/-- An entry of the log. A line, a failure of a handler and a call of `ftpCmdDone` that
was withheld come with the object as it was then. -/
inductive Seen
  | connect
  | connected
  | shutdown
  | accepted (o : FtpClientProto.Op)
  | refused (o : FtpClientProto.Op) (err : ℤ)
  | socket (fd : ℤ)
  | add (fd : ℤ)
  | del (fd : ℤ)
  | close (fd : ℤ)
  | line (pipe : FtpClientPipe) (ibuf : Line)
  | failed (pipe : FtpClientPipe) (err : ℤ)
  | dataIo (nxfer : ℤ) (now : Clock)
  | cmdDone (xerr status : ℤ)
  | withheld (pipe : FtpClientPipe) (xerr status : ℤ)

structure Session extends FtpClientPipe where
  queued : Option Clock
  callbacks : ℕ
  log : List Seen

/-- What is answered in one step: an error number, or what was asked for. The bytes
that lie before the line buffer are not the object's to choose either. -/
structure World where
  now : Clock
  lookup : Option (BitVec 32)
  sockError : Except ℤ ℤ
  socket : Except ℤ ℕ
  setNonblocking : Option ℤ
  connect : ℤ → SockaddrIn → Option ℤ
  close : ℤ → ℤ
  add : ℤ
  del : ℤ → ℤ
  setMask : ℤ → Revents → ℤ
  kernel : Kernel
  enqueue : Bool
  handleDataIo : ℤ
  before : List Byte
  fuel : ℕ

/-- The assertions, by what they are about. -/
inductive Assertion
  | dataIdle | dataQueued | eventFd | controlFd | wakeup | callbackState | addClient | passive | protocol
deriving DecidableEq, Repr

/-- Why a step has no result: the program ended, the loop was not run long enough to
tell, or the step does not happen in this state. -/
inductive Stop
  | assertion (a : Assertion)
  | exit
  | fuel
  | disabled
deriving DecidableEq, Repr

/-- What one of the code's functions does: a result and the new state. -/
abbrev Outcome := Except Stop (ℤ × Session)

/-- A part of a handler: it goes on, or the handler returns there. -/
abbrev Part := Except (ℤ × Session) Session

namespace Session
open FtpClientProto

/-- `sizeof(m_iline)`. -/
def ilineSize : ℕ := 501

def note (s : Session) (x : Seen) : Session := { s with log := x :: s.log }

/-- A handler returns an error number. -/
def fail (s : Session) (err : ℤ) : ℤ × Session := (err, s.note (.failed s.toFtpClientPipe err))

/-- `Sked::addClient` on the pipe; it finds memory or not. -/
def addClient (s : Session) (w : World) (when : Clock) : Except Stop Session :=
  if s.queued.isSome then .error (.assertion .addClient)
  else .ok (if w.enqueue then { s with queued := some when } else s)

/-- `Sked::delClient` on the pipe. -/
def delClient (s : Session) : Session := { s with queued := none }

/-- Five seconds from now. -/
def deadline (w : World) : Clock := w.now+BitVec.ofNat 64 (5*eclockHertz)

def init (s : Session) (maxBytesPerSec : Int32) : Session :=
  { s with
    proto := s.proto.init, ibuf := s.ibuf.init, obuf := s.obuf.init, inFtpCmdDone := 0
    cfd := -1, dfd := -1, iline := Function.update s.iline 0 0
    cfdConnecting := false, dfdConnecting := false
    bytesPerSec := maxBytesPerSec, bytesPerTick := maxBytesPerSec/Int32.ofNat eclockHertz
    dfdEvents := 0, state := .idle }

/-- The outcome of a `connect` on a nonblocking socket: whether it is in progress. -/
def connectOutcome (err : Option ℤ) : Except ℤ Bool :=
  match err with
  | none => .ok false
  | some err => if err ≠ EINPROGRESS then .error err else .ok true

def connect (s : Session) (w : World) (port : BitVec 16) : Outcome :=
  let s := (s.init s.bytesPerSec).note .connect
  match w.lookup with
  | none => .ok (ENOENT, s)
  | some addr =>
    match w.socket with
    | .error err => .ok (err, s)
    | .ok sock =>
      let s := s.note (.socket sock)
      match w.setNonblocking with
      | some err => .ok (err, s.note (.close sock))
      | none =>
        match connectOutcome (w.connect sock ⟨AF_INET, addr, htons port⟩) with
        | .error err => .ok (err, s.note (.close sock))
        | .ok connecting =>
          let s := { s with cfdConnecting := connecting, cfd := sock }
          if w.add ≠ 0 then .ok (w.add, s)
          else
            match ({ s.note (.add sock) with ilineFull := false }).addClient w (deadline w) with
            | .error stop => .error stop
            | .ok s => .ok (0, s.note .connected)

/-- Remove a descriptor from the poller and close it. What `Poller::del` answers is not looked
at, nor what `close` does but in `shutdown`. -/
def discard (s : Session) (fd : ℤ) : Session :=
  if fd ≠ -1 then (s.note (.del fd)).note (.close fd) else s

def shutdown (s : Session) (w : World) : ℤ × Session :=
  if s.cfd = -1 ∧ s.dfd = -1 then (0, s)
  else
    let cfd := s.cfd
    let dfd := s.dfd
    let s := { s.delClient with
      state := .idle, cfdConnecting := false, dfdConnecting := false, dfd := -1, cfd := -1 }
    let err1 := if cfd ≠ -1 then w.close cfd else 0
    let err2 := if dfd ≠ -1 then w.close dfd else 0
    (if err1 ≠ 0 then err1 else err2, ((s.discard cfd).discard dfd).note .shutdown)

def callFtpCmdDone (s : Session) (xerr status : ℤ) : Session :=
  if s.inFtpCmdDone = 0 then
    { s with inFtpCmdDone := s.inFtpCmdDone+1, callbacks := s.callbacks+1 }.note
      (.cmdDone xerr status)
  else s.note (.withheld s.toFtpClientPipe xerr status)

def shutdownAndNotify (s : Session) (w : World) : Session :=
  (s.shutdown w).2.callFtpCmdDone EPIPE 0

/-- The check in both handlers whether a connect in progress has succeeded. -/
def checkConnect (w : World) : Except ℤ Bool :=
  match w.sockError with
  | .error err => .error err
  | .ok connecterr =>
    if connecterr = EINPROGRESS then .ok true
    else if connecterr ≠ 0 then .error connecterr
    else .ok false

/-- The test on the data socket reads `(revents & KICKSTART) | POLLOUT`. -/
def dfdConnected (s : Session) (w : World) (revents : Revents) : Part :=
  if s.dfdConnecting ∧ revents &&& KICKSTART ||| POLLOUT = POLLOUT then
    match checkConnect w with
    | .error err => .error (s.fail err)
    | .ok connecting => .ok { s with dfdConnecting := connecting }
  else .ok s

/-- If the OS is ready before we are, sleep. -/
def snooze (s : Session) (w : World) (revents : Revents) : Except Stop Session :=
  if s.state = .getting ∧ !revents.has (KICKSTART ||| POLLHUP) ∧ eclockAfter s.wakeup w.now then
    if s.queued.isSome then .error (.assertion .dataQueued)
    else
      match s.addClient w s.wakeup with
      | .error stop => .error stop
      | .ok s => .ok { s with state := .sleeping }
  else .ok s

/-- Close the data connection at the end of a transfer. -/
def hangUp (s : Session) : ℤ × Session :=
  (EALREADY, { s.delClient with state := .idle, dfd := -1 }.discard s.dfd)

/-- `nxfer` and the rates are `int`, `howlong` is a `clock_t`. A rate of 0, by which the
processor does not divide, gives 0 here. -/
def throttle (s : Session) (now : Clock) (nxfer : ℤ) : Session :=
  if s.state = .getting then
    let nxfer := Int32.ofInt nxfer+s.bytesUnsleptFor
    if s.bytesPerTick < 5 then
      let howlong := (nxfer*Int32.ofNat eclockHertz/s.bytesPerSec).toInt
      { s with bytesUnsleptFor := Int32.ofInt (nxfer.toInt-(howlong*s.bytesPerSec.toInt).tdiv eclockHertz)
               wakeup := now+BitVec.ofInt 64 howlong, dfdEvents := 0 }
    else
      { s with bytesUnsleptFor := nxfer%s.bytesPerTick
               wakeup := now+BitVec.ofInt 64 (nxfer/s.bytesPerTick).toInt, dfdEvents := 0 }
  else s

def transfer (s : Session) (w : World) (revents : Revents) : ℤ × Session :=
  if s.state = .sleeping then (0, { s with dfdEvents := s.dfdEvents ||| revents })
  else if s.state = .getting ∧ revents.has POLLIN ∨ s.state = .putting ∧ revents.has POLLOUT then
    let s := s.delClient.note (.dataIo w.handleDataIo w.now)
    if w.handleDataIo = 0 then s.hangUp
    else if w.handleDataIo = -EWOULDBLOCK then (0, s.throttle w.now 0)
    else if w.handleDataIo < 0 then s.fail EPIPE
    else (0, s.throttle w.now w.handleDataIo)
  else if revents.has POLLHUP then s.hangUp
  else (0, s.throttle w.now 0)

def notifyPollEventDfd (s : Session) (w : World) (revents : Revents) : Outcome :=
  if s.state = .idle then .error (.assertion .dataIdle)
  else
    match s.dfdConnected w revents with
    | .error r => .ok r
    | .ok s =>
      match s.snooze w revents with
      | .error stop => .error stop
      | .ok s => .ok (s.transfer w revents)

def cfdConnected (s : Session) (w : World) (revents : Revents) : Part :=
  if s.cfdConnecting ∧ revents &&& (POLLOUT ||| KICKSTART) = POLLOUT then
    match checkConnect w with
    | .error err => .error (s.fail err)
    | .ok connecting => .ok { s with cfdConnecting := connecting }
  else .ok s

def readInput (s : Session) (w : World) (revents : Revents) : Part :=
  if revents.has POLLIN then
    let (err, ibuf, _, _) := s.ibuf.fillFrom w.kernel
    let s := { s with ibuf := ibuf }
    if err ≠ 0 ∧ err ≠ EWOULDBLOCK then .error (s.fail err) else .ok s
  else .ok s

/-- The string in the line buffer. -/
def line (s : Session) (w : World) : Line where
  text := ((List.range ilineSize).map s.iline).takeWhile (· ≠ 0)
  nul_free := fun h => by simpa using List.mem_takeWhile_imp h
  before := w.before
  after := fun i => s.iline ((((List.range ilineSize).map s.iline).takeWhile (· ≠ 0)).length+1+i)

/-- The first half of the loop body: have a line if there is one. -/
def nextLine (s : Session) (geterr : ℤ) : Except (ℤ × Session) (ℤ × Session) :=
  if s.ilineFull then .ok (geterr, s)
  else
    let (geterr, ibuf, iline) := s.ibuf.readline s.iline ilineSize
    let s := { s with ibuf := ibuf, iline := iline }
    if geterr = 0 then .ok (geterr, { s with ilineFull := true })
    else if geterr ≠ EWOULDBLOCK then .error (s.fail geterr)
    else .ok (geterr, s)

/-- A line outside a transfer cancels the timeout. -/
def cancelTimeout (s : Session) : Session := if s.state = .idle then s.delClient else s

/-- Give the line in the buffer to the protocol. -/
def giveLine (s : Session) (w : World) : Except Stop Part :=
  match s.proto.giveInput (s.line w) with
  | none => .error (.assertion .protocol)
  | some (err, proto) =>
    let s := { s.note (.line s.toFtpClientPipe (s.line w)) with proto := proto }
    if err ≠ 0 ∧ err ≠ EWOULDBLOCK then .ok (.error (s.fail err))
    else
      let s := { s with ilineFull := if err = 0 then false else s.ilineFull }
      if s.proto.getStatus ≠ 0 then .ok (.error (EALREADY, s)) else .ok (.ok s)

def takeLine (s : Session) (w : World) : Except Stop Part := s.cancelTimeout.giveLine w

/-- The inner loop; `advanceOutput` leaves no second line to put. -/
def putOutput (s : Session) (puterr : ℤ) : Except (ℤ × Session) (ℤ × Session) :=
  match s.proto.getOutput with
  | none => .ok (puterr, s)
  | some (p, len) =>
    let (puterr, obuf, _) := s.obuf.put (p.take len)
    let s := { s with obuf := obuf }
    if puterr = EWOULDBLOCK then .ok (puterr, s)
    else if puterr ≠ 0 then .error (s.fail puterr)
    else .ok (puterr, { s with proto := s.proto.advanceOutput })

/-- The loop over the lines in the input buffer, for at most `fuel` iterations. -/
def controlLoop (w : World) : ℕ → ℤ → ℤ → Session → Except Stop Part
  | 0, _, _, _ => .error .fuel
  | fuel+1, geterr, puterr, s =>
    if s.proto.isInputReady ∧ geterr ≠ EWOULDBLOCK ∨ s.proto.isOutputReady ∧ puterr ≠ EWOULDBLOCK then
      match s.nextLine geterr with
      | .error r => .ok (.error r)
      | .ok (geterr, s) =>
        match if s.ilineFull then s.takeLine w else .ok (.ok s) with
        | .error stop => .error stop
        | .ok (.error r) => .ok (.error r)
        | .ok (.ok s) =>
          match s.putOutput puterr with
          | .error r => .ok (.error r)
          | .ok (puterr, s) => controlLoop w fuel geterr puterr s
    else .ok (.ok s)

/-- Write the output buffer to the network. -/
def writeOutput (s : Session) (w : World) : Except Stop Part :=
  if s.cfdConnecting then .ok (.ok s)
  else
    match s.obuf.flushTo w.kernel 2 0 with
    | none => .error .fuel
    | some (err, obuf, _, _) =>
      let s := { s with obuf := obuf }
      if err ≠ 0 ∧ err ≠ EWOULDBLOCK then .ok (.error (s.fail err)) else .ok (.ok s)

def checkQuit (s : Session) : Part :=
  if s.obuf.isEmpty ∧ s.proto.isQuit then .error (s.fail EPIPE) else .ok s

/-- Open a data connection if it is time for it. -/
def openData (s : Session) (w : World) : ℤ × Session :=
  match s.proto.isPortReady with
  | (none, _) => (0, s)
  | (some address, proto) =>
    let s := { s with proto := proto }
    match w.socket with
    | .error err => s.fail err
    | .ok sock =>
      let s := s.note (.socket sock)
      match w.setNonblocking with
      | some err => s.fail err
      | none =>
        let s := { s with dfdConnecting := true, dfd := sock }
        if w.add ≠ 0 then s.fail w.add
        else
          let s := s.note (.add sock)
          match connectOutcome (w.connect sock address) with
          | .error err => { s with dfdConnecting := false }.fail err
          | .ok connecting => (0, { s with dfdConnecting := connecting })

/-- `notifyPollEvent_cfd` from the loop on. -/
def serveControl (s : Session) (w : World) : Outcome :=
  match controlLoop w w.fuel 0 0 s with
  | .error stop => .error stop
  | .ok (.error r) => .ok r
  | .ok (.ok s) =>
    match s.writeOutput w with
    | .error stop => .error stop
    | .ok (.error r) => .ok r
    | .ok (.ok s) =>
      match s.checkQuit with
      | .error r => .ok r
      | .ok s => .ok (s.openData w)

def notifyPollEventCfd (s : Session) (w : World) (fd : ℤ) (revents : Revents) : Outcome :=
  if fd = -1 then .error (.assertion .controlFd)
  else if revents.has (POLLERR ||| POLLHUP) then .ok (s.fail EPIPE)
  else
    match s.cfdConnected w revents with
    | .error r => .ok r
    | .ok s =>
      match s.readInput w revents with
      | .error r => .ok r
      | .ok s => s.serveControl w

def controlMask (s : Session) : Revents :=
  (if !s.ibuf.isFull then POLLIN else 0) ||| (if !s.obuf.isEmpty then POLLOUT else 0)

def dataMask (s : Session) : Revents :=
  if s.state = .getting ∨ s.state = .sleeping ∧ s.dfdEvents = 0 then POLLIN
  else if s.state = .putting then POLLOUT
  else 0

/-- Some update of an interest mask fails. -/
def masksFail (s : Session) (w : World) : Bool :=
  s.cfd ≠ -1 ∧ w.setMask s.cfd s.controlMask ≠ 0 ∨ s.dfd ≠ -1 ∧ w.setMask s.dfd s.dataMask ≠ 0

/-- If the command failed, close any open data connection. -/
def dropFailed (s : Session) : Session :=
  let status := s.proto.getStatus
  if status ≠ 0 ∧ !is2xx status ∧ s.dfd ≠ -1 then
    { s with dfdConnecting := false, dfd := -1 }.discard s.dfd
  else s

/-- The tail of `notifyPollEvent`: tell the app if the command is done. -/
def report (s : Session) (xerr : ℤ) : Session :=
  let xerr := if xerr = EALREADY then 0 else xerr
  let status := s.proto.getStatus
  let s := s.dropFailed
  if xerr ≠ 0 ∨ status ≠ 0 ∧ s.dfd = -1 then s.callFtpCmdDone xerr status else s

/-- `notifyPollEvent` after the handler. -/
def finish (w : World) (r : ℤ × Session) : Outcome :=
  if r.2.masksFail w then .error .exit
  else .ok (0, if r.1 = 0 then r.2 else r.2.report r.1)

def notifyPollEvent (s : Session) (w : World) (fd : ℤ) (revents : Revents) : Outcome :=
  if fd = -1 then .error (.assertion .eventFd)
  else if fd = s.dfd then (s.notifyPollEventDfd w revents).bind (finish w)
  else if fd = s.cfd then (s.notifyPollEventCfd w fd revents).bind (finish w)
  else .ok (EINVAL, s)

/-- The part of `skedCallback` for a sleeping pipe. -/
def wake (s : Session) (w : World) (now : Clock) : Except Stop Session :=
  let s := { s with state := .getting }
  if s.dfdEvents = 0 then .ok s
  else
    let events := s.dfdEvents
    let s := { s with dfdEvents := 0 }
    if eclockAfter s.wakeup now then .error (.assertion .wakeup)
    else
      match ({ s with wakeup := now }).notifyPollEvent w s.dfd events with
      | .error stop => .error stop
      | .ok (err, s) => .ok (if err ≠ 0 then s.shutdownAndNotify w else s)

def skedCallback (s : Session) (w : World) (now : Clock) : Except Stop Session :=
  match s.state with
  | .idle => .ok (s.shutdownAndNotify w)
  | .getting => .ok (s.shutdownAndNotify w)
  | .sleeping => s.wake w now
  | .putting => .error (.assertion .callbackState)

def kickstart (s : Session) (w : World) : Outcome :=
  s.notifyPollEvent w s.cfd (POLLOUT ||| KICKSTART)

/-- The wrappers for protocol routines: perform it, get `ready`, and kickstart. -/
def wrapper (s : Session) (w : World) (o : Op) (ready : Session → Except Stop Session) : Outcome :=
  match s.proto.perform o with
  | none => .error (.assertion .protocol)
  | some (err, proto) =>
    if err ≠ 0 then .ok (err, { s.note (.refused o err) with proto := proto })
    else
      match ready { s.note (.accepted o) with proto := proto } with
      | .error stop => .error stop
      | .ok s => s.kickstart w

def login (s : Session) (w : World) (username password : CStr) : Outcome :=
  s.wrapper w (.login username password) .ok

def quit (s : Session) (w : World) : Outcome := s.wrapper w .quit .ok

def cd (s : Session) (w : World) (dir : CStr) : Outcome := s.wrapper w (.cd dir) .ok

def type (s : Session) (w : World) (ttype : CStr) : Outcome := s.wrapper w (.type ttype) .ok

def size (s : Session) (w : World) (fname : CStr) : Outcome := s.wrapper w (.size fname) .ok

def ls (s : Session) (w : World) (dirname : Option CStr) (passive : Bool) : Outcome :=
  if !passive then .error (.assertion .passive)
  else s.wrapper w (.ls dirname none) fun s => .ok { s with state := .getting }

/-- What `get` does before the kickstart. -/
def startGet (w : World) (s : Session) : Except Stop Session :=
  ({ s with state := .getting, bytesUnsleptFor := 0, wakeup := w.now }).addClient w (deadline w)

def get (s : Session) (w : World) (fname : CStr) (passive : Bool) : Outcome :=
  if !passive then .error (.assertion .passive) else s.wrapper w (.get fname none) (startGet w)

end Session

/-- The commands of the user's interface. -/
inductive Command
  | login (username password : CStr)
  | quit
  | cd (dir : CStr)
  | type (ttype : CStr)
  | size (fname : CStr)
  | ls (dirname : Option CStr) (passive : Bool)
  | get (fname : CStr) (passive : Bool)

/-- What can happen to a pipe: the app calls it, with an event or for itself, its time
has come in the scheduler, or the app's `ftpCmdDone` returns. -/
inductive Act
  | connect (port : BitVec 16)
  | shutdown
  | command (c : Command)
  | pollEvent (fd : ℤ) (revents : Revents)
  | timer (now : Clock)
  | cmdDoneReturns

structure Label where
  act : Act
  world : World

namespace Session

def perform (s : Session) (w : World) : Command → Outcome
  | .login username password => s.login w username password
  | .quit => s.quit w
  | .cd dir => s.cd w dir
  | .type ttype => s.type w ttype
  | .size fname => s.size w fname
  | .ls dirname passive => s.ls w dirname passive
  | .get fname passive => s.get w fname passive

/-- `Sked::runAll` calls the pipes whose time is not after `now`, and takes them out
of the queue first. -/
def runTimer (s : Session) (w : World) (now : Clock) : Except Stop Session :=
  match s.queued with
  | none => .error .disabled
  | some when =>
    if eclockAfter when now then .error .disabled else s.delClient.skedCallback w now

def returnFromCallback (s : Session) : Except Stop Session :=
  if s.callbacks = 0 then .error .disabled
  else .ok { s with inFtpCmdDone := s.inFtpCmdDone-1, callbacks := s.callbacks-1 }

def step (s : Session) (k : Label) : Except Stop Session :=
  match k.act with
  | .connect port => (s.connect k.world port).map Prod.snd
  | .shutdown => .ok (s.shutdown k.world).2
  | .command c => (s.perform k.world c).map Prod.snd
  | .pollEvent fd revents => (s.notifyPollEvent k.world fd revents).map Prod.snd
  | .timer now => s.runTimer k.world now
  | .cmdDoneReturns => s.returnFromCallback

/-- An object after `init`, whatever its memory held. -/
def fresh (memory : FtpClientPipe) (maxBytesPerSec : Int32) : Session :=
  init ⟨memory, none, 0, []⟩ maxBytesPerSec

end Session
end Dkftpbench
