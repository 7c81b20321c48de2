import Dkftpbench.CString
import Mathlib.Logic.Function.Basic

/-!
# The protocol part of an FTP client, ftp_client_proto.h and ftp_client_proto.cc

The fields are those of the class. The output line and the saved strings are kept as
the strings that were written; whether a string fits its array is a question asked of
the model, not an assumption of it. A failed assertion is `none`, and so is the
`exit(1)` of the substate stack behind the same assertion.

Calls that only read (`isInputReady`, `isOutputReady`, `isQuit`, `getOutput`,
`getStatus`) are functions of the state.
-/
namespace Dkftpbench
open CLib

/-- `enum state_t`: what the parser awaits a response to. -/
inductive Fcps
  | uninit | init | connected | user | pass | idle | cwd | type | size | port | pasv | retr | quit
deriving DecidableEq, Repr

structure SockaddrIn where
  sin_family : ℤ
  s_addr : BitVec 32
  sin_port : BitVec 16
deriving DecidableEq, Repr

def AF_INET : ℤ := 2

/-- `giveInput`'s argument: a string in its surroundings. What lies before it is
listed from the nearest byte on, up to one that is no digit. -/
structure Line where
  text : List Byte
  nul_free : 0 ∉ text
  before : List Byte
  after : ℕ → Byte

/-- `ibuf[i]`, also where that is the NUL or lies beyond it. -/
def Line.at (ibuf : Line) (i : ℕ) : Byte :=
  if i < ibuf.text.length then ibuf.text.getD i 0
  else if i = ibuf.text.length then 0
  else ibuf.after (i-ibuf.text.length-1)

theorem Line.at_of_lt {ibuf : Line} {i : ℕ} (h : i < ibuf.text.length) : ibuf.at i = ibuf.text[i] := by
  simp [Line.at, h]

/-- A line with no bytes of interest around it. -/
def Line.ofAscii (s : String) (h : 0 ∉ ascii s) : Line := ⟨ascii s, h, [], fun _ => 0⟩

structure FtpClientProto where
  state : Fcps
  stack : ℕ → Fcps
  stackPtr : ℕ
  sentUser : Bool
  obuf : List Byte
  obuflen : ℕ
  multiline : Bool
  status : ℤ
  response : List Byte
  password : List Byte
  fname : List Byte
  addressReady : Bool
  address : SockaddrIn

namespace FtpClientProto

def lineLen : ℕ := 512
def maxPassword : ℕ := 32
def maxFname : ℕ := 256
def stackLen : ℕ := 3

/-- `sprintf` of the whole output line. -/
def putLine (s : FtpClientProto) (line : List Byte) : FtpClientProto :=
  { s with obuf := line, obuflen := line.length }

def setState (s : FtpClientProto) (newstate : Fcps) : FtpClientProto := { s with state := newstate }

def setAddress (s : FtpClientProto) (address : SockaddrIn) : FtpClientProto :=
  { s with address := address, addressReady := true }

def pushState (s : FtpClientProto) (jumpTo returnTo : Fcps) : FtpClientProto :=
  { s with stack := Function.update s.stack s.stackPtr returnTo, stackPtr := s.stackPtr+1,
           state := jumpTo }

def callState (s : FtpClientProto) (jumpTo returnTo : Fcps) : Option FtpClientProto :=
  if s.stackPtr ≥ stackLen then none else some (s.pushState jumpTo returnTo)

def popState (s : FtpClientProto) : Option (Fcps × FtpClientProto) :=
  if s.stackPtr = 0 then none
  else some (s.stack (s.stackPtr-1), { s with
    stackPtr := s.stackPtr-1, stack := Function.update s.stack (s.stackPtr-1) .uninit })

def returnState (s : FtpClientProto) : Option FtpClientProto :=
  s.popState.map fun r => r.2.setState r.1

/-- `popState(); SETSTATE(FCPS_IDLE)`, the failure exit of a substate. -/
def abandon (s : FtpClientProto) : Option FtpClientProto :=
  s.popState.map fun r => r.2.setState .idle

/-- An object before `init`, with every field zero. -/
def zeroed : FtpClientProto :=
  ⟨.uninit, fun _ => .uninit, 0, false, [], 0, false, 0, [], [], [], false, ⟨0, 0, 0⟩⟩

/-- Whatever the fields were before. -/
def init (s : FtpClientProto) : FtpClientProto :=
  { s with status := 0, state := .init, obuflen := 0, multiline := false, addressReady := false,
           sentUser := false, stackPtr := 0 }

def isInputReady (s : FtpClientProto) : Bool := s.state != .idle

def isOutputReady (s : FtpClientProto) : Bool := s.obuflen != 0

def isQuit (s : FtpClientProto) : Bool := s.state == .quit

def isPortReady (s : FtpClientProto) : Option SockaddrIn × FtpClientProto :=
  if !s.addressReady then (none, s) else (some s.address, { s with addressReady := false })

def getStatus (s : FtpClientProto) : ℤ :=
  if s.state ≠ .idle ∧ s.state ≠ .init then 0 else s.status

/-- The text that `getStatus` copies to a buffer of `buflen` bytes. -/
def getStatusText (s : FtpClientProto) (buflen : ℕ) : List Byte := s.response.take (buflen-1)

def getOutput (s : FtpClientProto) : Option (List Byte × ℕ) :=
  if !s.isOutputReady then none else some (s.obuf, s.obuflen)

def advanceOutput (s : FtpClientProto) : FtpClientProto := { s with obuflen := 0 }

def is1xx (status : ℤ) : Bool := 100 ≤ status && status < 200
def is2xx (status : ℤ) : Bool := 200 ≤ status && status < 300
def is3xx (status : ℤ) : Bool := 300 ≤ status && status < 400

/-- `MAKE_INT32`. -/
def makeInt32 (a b c d : ℤ) : BitVec 32 :=
  uchar a <<< 24+uchar b <<< 16+uchar c <<< 8+uchar d

/-- `p`: back over the digits in front of the first comma, or no comma at all. -/
def addressText (before text : List Byte) : Option (List Byte) :=
  match text.dropWhile (· != COMMA) with
  | [] => none
  | rest =>
    let back := (text.takeWhile (· != COMMA)).reverse ++ before
    some ((back.takeWhile isdigit).reverse ++ rest)

/-- The address in a reply to PASV, where it has one. -/
def parsePasv (ibuf : Line) : Option SockaddrIn :=
  match (addressText ibuf.before ibuf.text).bind (sscanfInts 6) with
  | some [a1, a2, a3, a4, p1, p2] =>
    some ⟨AF_INET, htonl (makeInt32 a1 a2 a3 a4), htons ((makeInt32 0 0 p1 p2).setWidth 16)⟩
  | _ => none

/-- The switch on the state in `giveInput`. -/
def takeReply (s : FtpClientProto) (ibuf : Line) (status : ℤ) : Option (ℤ × FtpClientProto) :=
  match s.state with
  | .init =>
    if is2xx status then
      if s.sentUser then some (0, { s with state := .user, sentUser := false })
      else some (0, s.setState .connected)
    else some (EACCES, s.setState .uninit)
  | .user =>
    if is2xx status then some (0, s.setState .idle)
    else if is3xx status then
      some (0, (s.putLine (ascii "PASS " ++ s.password ++ crlf)).setState .pass)
    else some (0, s.setState .init)
  | .pass =>
    if is2xx status then some (0, s.setState .idle) else some (0, s.setState .init)
  | .cwd => some (0, s.setState .idle)
  | .type => some (0, s.setState .idle)
  | .size => some (0, s.setState .idle)
  | .port =>
    if is2xx status then s.returnState.map (0, ·) else s.abandon.map (0, ·)
  | .pasv =>
    match is2xx status, parsePasv ibuf with
    | true, some address =>
      (s.setAddress address).returnState.map fun s =>
        (0, if s.state = .retr then s.putLine (ascii "RETR " ++ s.fname ++ crlf) else s)
    | _, _ => s.abandon.map (0, ·)
  | .retr =>
    if is1xx status then some (0, s) else some (0, s.setState .idle)
  | .uninit => some (EINVAL, s)
  | .connected => some (EINVAL, s)
  | .idle => some (EINVAL, s)
  | .quit => some (EINVAL, s)

/-- The fields set before the switch. -/
def saveStatus (s : FtpClientProto) (ibuf : Line) : FtpClientProto :=
  { s with status := atoi ibuf.text, response := ibuf.text.take lineLen,
           multiline := s.multiline || ibuf.at 3 == MINUS }

def giveInput (s : FtpClientProto) (ibuf : Line) : Option (ℤ × FtpClientProto) :=
  if LF ∈ ibuf.text then none
  else
    let status := atoi ibuf.text
    if s.multiline then
      if ibuf.at 3 = SPACE ∧ status = s.status then some (0, { s with multiline := false })
      else some (0, s)
    else (s.saveStatus ibuf).takeReply ibuf status

/-- The line USER, and the password for later. -/
def queueUser (s : FtpClientProto) (username password : CStr) : FtpClientProto :=
  { s.putLine (ascii "USER " ++ username ++ crlf) with password := password.1.take (maxPassword-1) }

def login (s : FtpClientProto) (username password : CStr) : ℤ × FtpClientProto :=
  if s.state ≠ .init ∧ s.state ≠ .connected then (EISCONN, s)
  else if s.sentUser then (EISCONN, s)
  else if s.isOutputReady then (EWOULDBLOCK, s)
  else
    let s := s.queueUser username password
    if s.state = .connected then (0, s.setState .user) else (0, { s with sentUser := true })

def quit (s : FtpClientProto) : ℤ × FtpClientProto := (ENOSYS, s)

/-- The commands that wait for one reply: `cd`, `type` and `size`. -/
def command (s : FtpClientProto) (line : List Byte) (next : Fcps) : ℤ × FtpClientProto :=
  if s.state ≠ .idle then (EISCONN, s)
  else if s.isOutputReady then (EWOULDBLOCK, s)
  else (0, (s.putLine line).setState next)

def cdLine (dir : CStr) : List Byte :=
  if dir.1 = ascii ".." then ascii "CDUP" ++ crlf else ascii "CWD " ++ dir ++ crlf

def cd (s : FtpClientProto) (dir : CStr) : ℤ × FtpClientProto := s.command (cdLine dir) .cwd

def type (s : FtpClientProto) (ttype : CStr) : ℤ × FtpClientProto :=
  s.command (ascii "TYPE " ++ ttype ++ crlf) .type

def size (s : FtpClientProto) (fname : CStr) : ℤ × FtpClientProto :=
  s.command (ascii "SIZE " ++ fname ++ crlf) .size

def ls (s : FtpClientProto) (_dirname : Option CStr) (_address : Option SockaddrIn) :
    ℤ × FtpClientProto := (ENOSYS, s)

def setFname (s : FtpClientProto) (fname : CStr) : FtpClientProto := { s with fname := fname }

/-- `GETBYTE0`, ..., `GETBYTE3`. -/
def getByte {w : ℕ} (x : BitVec w) (k : ℕ) : ℕ := ((x >>> (8*k)) &&& 255).toNat

/-- The six numbers of a PORT line. The port is taken from the address. -/
def portNumbers (adr : SockaddrIn) : List ℕ :=
  let addr := ntohl adr.s_addr
  let port := ntohs (adr.s_addr.setWidth 16)
  [getByte addr 3, getByte addr 2, getByte addr 1, getByte addr 0, getByte port 1, getByte port 0]

def portLine (adr : SockaddrIn) : List Byte :=
  ascii "PORT " ++ [COMMA].intercalate ((portNumbers adr).map decimal) ++ crlf

def get (s : FtpClientProto) (fname : CStr) (adr : Option SockaddrIn) :
    Option (ℤ × FtpClientProto) :=
  if s.state ≠ .idle then some (EISCONN, s)
  else if s.isOutputReady then some (EWOULDBLOCK, s)
  else if fname.1.length ≥ maxFname then some (E2BIG, s)
  else
    let s := s.setFname fname
    match adr with
    | some adr => ((s.putLine (portLine adr)).callState .port .retr).map (0, ·)
    | none => ((s.putLine (ascii "PASV" ++ crlf)).callState .pasv .retr).map (0, ·)

/-- The operations of the user's interface. -/
inductive Op
  | login (username password : CStr)
  | quit
  | cd (dir : CStr)
  | size (fname : CStr)
  | type (ttype : CStr)
  | ls (dirname : Option CStr) (address : Option SockaddrIn)
  | get (fname : CStr) (address : Option SockaddrIn)

def perform (s : FtpClientProto) : Op → Option (ℤ × FtpClientProto)
  | .login u p => some (s.login u p)
  | .quit => some s.quit
  | .cd dir => some (s.cd dir)
  | .size fname => some (s.size fname)
  | .type ttype => some (s.type ttype)
  | .ls dirname address => some (s.ls dirname address)
  | .get fname address => s.get fname address

/-- The calls after `init` that can change the state. -/
inductive Call
  | op (o : Op)
  | advanceOutput
  | isPortReady
  | giveInput (ibuf : Line)

def step (s : FtpClientProto) : Call → Option FtpClientProto
  | .op o => (s.perform o).map Prod.snd
  | .advanceOutput => some s.advanceOutput
  | .isPortReady => some s.isPortReady.2
  | .giveInput ibuf => (s.giveInput ibuf).map Prod.snd

def run : FtpClientProto → List Call → Option FtpClientProto
  | s, [] => some s
  | s, c :: cs => (s.step c).bind (run · cs)

end FtpClientProto
end Dkftpbench
