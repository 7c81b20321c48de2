import Dkftpbench.CommandLines
import Dkftpbench.Relay

/-!
# The client and a server on one control connection

The server is any one that keeps to the rules of the protocol: it greets, it answers every
command in the order they come in with one final reply, and only ahead of that to RETR
it sends replies that announce it. A reply is one line, or several where its first line says so.
The connection carries bytes to the server and lines to the client.

Nothing the client does waits for the server: a user may log in ahead of the greeting, and
the first line of a reply already moves the client on.
-/
namespace Dkftpbench
open CLib Watch FtpClientProto

/-- What the server is to answer. The greeting is asked for by connecting. -/
inductive Request
  | hello | user | pass | cwd | type | size | port | pasv | retr | other
deriving DecidableEq, Repr

/-- By the verb of a command line. -/
def Request.ofLine (line : List Byte) : Request :=
  let verb := line.takeWhile fun c => c != SPACE && c != CR
  if verb = ascii "USER" then .user
  else if verb = ascii "PASS" then .pass
  else if verb = ascii "CWD" then .cwd
  else if verb = ascii "CDUP" then .cwd
  else if verb = ascii "TYPE" then .type
  else if verb = ascii "SIZE" then .size
  else if verb = ascii "PORT" then .port
  else if verb = ascii "PASV" then .pasv
  else if verb = ascii "RETR" then .retr
  else .other

/-- The bytes in front of the first line end, and those behind it. -/
def cutLine : List Byte → Option (List Byte × List Byte)
  | [] => none
  | c :: cs => if c = LF then some ([], cs) else (cutLine cs).map fun r => (c :: r.1, r.2)

/-- The requests in the lines that end, where part of the first line was read before. -/
def requestsFrom : List Byte → List Byte → List Request
  | _, [] => []
  | part, c :: cs =>
    if c = LF then .ofLine part :: requestsFrom [] cs else requestsFrom (part ++ [c]) cs

/-- The line ends a reply of several lines. -/
def closes (status : ℤ) (ibuf : Line) : Bool := ibuf.at 3 == SPACE && atoi ibuf.text == status

/-- The lines go on with the reply up to its last line. -/
def Closed (status : ℤ) : List Line → Prop
  | [] => False
  | [l] => closes status l = true
  | l :: ls => closes status l = false ∧ Closed status ls

/-- A reply, with the request that it answers. -/
structure Answer where
  request : Request
  first : Line
  rest : List Line
  coded : 100 ≤ atoi first.text
  lf_free : ∀ l ∈ first :: rest, LF ∉ l.text
  framed : if first.at 3 = MINUS then Closed (atoi first.text) rest else rest = []

/-- The reply announces another one. -/
def Answer.mark (a : Answer) : Bool := is1xx (atoi a.first.text)

/-- A reply of one line. -/
def Answer.line (request : Request) (first : Line) (coded : 100 ≤ atoi first.text) (lf_free : LF ∉ first.text)
    (single : first.at 3 ≠ MINUS) : Answer :=
  ⟨request, first, [], coded, by simpa using lf_free, by rw [if_neg single]⟩

/-- `out` are the bytes on their way to the server. With what the server is at stands how many
announcements it will still send. `rest` are the lines to come of the reply that the client is
in the middle of, and `back` are the replies behind it. -/
structure Dialogue where
  client : FtpClientProto
  out : List Byte
  serving : Option (Request × ℕ)
  rest : List Line
  back : List Answer

namespace Dialogue

inductive Act
  | op (o : Op)
  | portReady
  | send
  | take (marks : ℕ)
  | mark (a : Answer)
  | answer (a : Answer)
  | receive

/-- A line comes in. A client whose greeting was refused has hung up. -/
def receive (w : Dialogue) : Option Dialogue :=
  if w.client.state = .uninit then none
  else
    match w.rest, w.back with
    | l :: rest, _ => (w.client.giveInput l).map fun r => { w with client := r.2, rest := rest }
    | [], a :: back =>
      (w.client.giveInput a.first).map fun r => { w with client := r.2, rest := a.rest, back := back }
    | [], [] => none

def step (w : Dialogue) : Act → Option Dialogue
  | .op o => (w.client.perform o).map fun r => { w with client := r.2 }
  | .portReady => some { w with client := w.client.isPortReady.2 }
  | .send =>
    w.client.getOutput.map fun r =>
      { w with client := w.client.advanceOutput, out := w.out ++ r.1.take r.2 }
  | .take marks =>
    match w.serving, cutLine w.out with
    | none, some (line, out) =>
      if Request.ofLine line = .retr ∨ marks = 0 then
        some { w with serving := some (.ofLine line, marks), out := out }
      else none
    | _, _ => none
  | .mark a =>
    match w.serving with
    | some (r, marks+1) =>
      if a.request = r ∧ a.mark = true then
        some { w with serving := some (r, marks), back := w.back ++ [a] }
      else none
    | _ => none
  | .answer a =>
    match w.serving with
    | some (r, 0) =>
      if a.request = r ∧ a.mark = false then some { w with serving := none, back := w.back ++ [a] }
      else none
    | _ => none
  | .receive => w.receive

/-- The commands put on the connection, and the requests whose final replies were read, with
the codes of these. -/
structure Heard where
  asked : List Request
  answers : List (Request × ℤ)

/-- A PORT command was accepted. -/
def Heard.acked (n : Heard) : Bool := n.answers.any fun r => r.1 == .port && is2xx r.2

def Heard.lastCode (n : Heard) : ℤ := (n.answers.getLast?.map Prod.snd).getD 0

def note (n : Heard) (w : Dialogue) (k : Act) : Heard :=
  match k, w.rest, w.back with
  | .send, _, _ => { n with asked := n.asked ++ (w.client.getOutput.map fun r => requestsFrom [] r.1).getD [] }
  | .receive, [], a :: _ =>
    if a.mark = true then n else { n with answers := n.answers ++ [(a.request, atoi a.first.text)] }
  | _, _, _ => n

def start (s : FtpClientProto) : Dialogue := ⟨s.init, [], some (.hello, 0), [], []⟩

/-- The client and a server, from the connection on. -/
def dialogues : System Dialogue Act Heard where
  start w n := (∃ s, w = start s) ∧ n = ⟨[.hello], []⟩
  step w k w' := w.step k = some w'
  note n w k _ := note n w k

/-- No text of the user ends a line. -/
def Plain : Op → Prop
  | .login u p => LF ∉ u.1 ∧ LF ∉ p.1
  | .cd dir => LF ∉ dir.1
  | .size f => LF ∉ f.1
  | .type t => LF ∉ t.1
  | .get f _ => LF ∉ f.1
  | .quit => True
  | .ls _ _ => True

def isLogin : Op → Bool
  | .login _ _ => true
  | _ => false

/-- The texts are plain, and the user does not log in again where a login has failed. -/
def Civil (w : Dialogue) (_ : Heard) : Act → Prop
  | .op o => Plain o ∧ (isLogin o = true → w.client.getStatus = 0)
  | _ => True

/-- What the client waits for, the oldest request first. -/
def awaited (s : FtpClientProto) : List Request :=
  match s.state with
  | .init => if s.status = 0 then .hello :: (if s.sentUser then [.user] else []) else []
  | .user => [.user]
  | .pass => [.pass]
  | .cwd => [.cwd]
  | .type => [.type]
  | .size => [.size]
  | .port => [.port]
  | .pasv => [.pasv]
  | .retr => [.retr]
  | .uninit => []
  | .connected => []
  | .idle => []
  | .quit => []

/-- After a PORT command was accepted the client waits for the reply to a command that it has
not sent. -/
def expected (n : Heard) (s : FtpClientProto) : List Request := if n.acked then [] else awaited s

/-- The commands queued in the client. -/
def unsent (s : FtpClientProto) : List Request :=
  (s.getOutput.map fun r => requestsFrom [] r.1).getD []

/-- The requests answered by the replies on their way. -/
def answered (back : List Answer) : List Request := (back.filter fun a => !a.mark).map Answer.request

/-- Where a request can be, from the client's end of the way back to its end of the way out. -/
def places (w : Dialogue) : List (List Request) :=
  [answered w.back, (w.serving.map Prod.fst).toList, requestsFrom [] w.out, unsent w.client]

end Dialogue
end Dkftpbench
