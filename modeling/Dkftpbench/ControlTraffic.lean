import Dkftpbench.ControlLoop

/-!
# What goes over the control connection

Between the kernel and the protocol lie the two buffers of the pipe and its line. `Traffic`
is an account of what passed at either end since the connection was made: the pipe does not
keep it. Each function that touches a buffer or the line has a function beside it that says
what it adds to the account, and whatever the function returns, the account stays in order.
-/
namespace Dkftpbench.Nbbio
open CLib LineSplit
variable {s s' : Nbbio} {linebuf linebuf' : ℕ → Byte} {scan : Scan Byte} {bs line : List Byte}
variable {lines : List (List Byte)} {maxlen fuel : ℕ} {err : ℤ} {r : ℤ × Nbbio × (ℕ → Byte)}

/-- A line is ended only while there is room for its NUL. -/
theorem readlineLoop_room (hv : s.Valid) (hr : Reading s linebuf scan)
    (h : readlineLoop maxlen fuel s linebuf = (some err, s', linebuf')) : ∃ bs line,
      s.held = bs ++ s'.held ∧ (scan.items CR LF bs).2 = [line] ∧ line.length < maxlen := by
  induction fuel generalizing s linebuf scan with
  | zero => cases h
  | succ fuel ih =>
      rw [readlineLoop] at h
      split at h
      · next hgo =>
        obtain ⟨c, t, ranges, heq, hheld, hvalid, hlen, hlast⟩ := readc_spec hv (by simpa using hgo.1)
        have hroom : scan.part.length < maxlen := hr.linelen ▸ hgo.2
        rw [hr.linelen] at hlen
        rw [hr.lastchar] at hlast
        rw [heq] at h
        dsimp only at h
        rw [hlen, hlast] at h
        split at h
        · next hlf =>
          subst hlf
          split at h
          · next hcr =>
            cases h
            exact ⟨[LF], scan.part, hheld, by simp [Scan.items, Scan.item, hcr], hroom⟩
          · next hcr =>
            obtain ⟨bs, line, hrest, hline, hlt⟩ := ih hvalid ⟨hlen, hlast, hr.part⟩ h
            refine ⟨LF :: bs, line, by rw [hheld, hrest, List.cons_append], ?_, hlt⟩
            rw [items_swallowed (not_not.1 hcr)]
            exact hline
        · next hlf =>
          split at h
          · next hcr =>
            subst hcr
            cases h
            exact ⟨[CR], scan.part, hheld, by simp [Scan.items, Scan.item, hlf], hroom⟩
          · next hcr =>
            obtain ⟨bs, line, hrest, hline, hlt⟩ :=
              @ih { t with lastchar := c, linelen := scan.part.length+1 } _ ⟨scan.part ++ [c], c⟩
                ⟨hvalid.1, hvalid.2, hvalid.3, hvalid.4⟩ ⟨by simp, rfl, hr.part.update c⟩ h
            refine ⟨c :: bs, line, ?_, ?_, hlt⟩
            · rw [hheld, List.cons_append]
              exact congrArg (c :: ·) hrest
            · rw [items_other hcr hlf]
              exact hline
      · cases h

theorem Call.room (hc : Call maxlen s scan (s.readline linebuf maxlen) bs [line]) (hv : s.Valid)
    (hr : Reading s linebuf scan) (h0 : (s.readline linebuf maxlen).1 = 0) : line.length < maxlen := by
  have htook := hc.took
  unfold readline at h0 htook
  split at h0
  · cases h0
  · next hempty =>
    rw [if_neg hempty] at htook
    split at h0
    · next err s' linebuf' hloop =>
      rw [hloop] at htook
      obtain ⟨cs, line', hheld, hline, hlt⟩ := readlineLoop_room hv hr hloop
      have hbs : cs = bs := List.append_cancel_right (hheld.symm.trans htook.held)
      subst hbs
      rw [htook.lines] at hline
      cases hline
      exact hlt
    · dsimp only at h0
      split at h0
      · cases h0
      · cases h0

end Dkftpbench.Nbbio

namespace Dkftpbench.Session
open CLib EventClock Faults FtpClientProto LineSplit Nbbio Watch

/-- The bytes that the kernel delivered and that it accepted, the lines that the protocol
took, and the commands that were put into the output buffer. -/
structure Traffic where
  received : List Byte
  lines : List (List Byte)
  commands : List (List Byte)
  sent : List Byte
deriving DecidableEq

/-- The part of a line in front of a NUL. -/
def cut (line : List Byte) : List Byte := line.takeWhile (· ≠ 0)

/-- What lies between the kernel and the protocol. -/
structure Wire where
  ibuf : Nbbio
  obuf : Nbbio
  iline : ℕ → Byte
  ilineFull : Bool

def wire (s : Session) : Wire := ⟨s.ibuf, s.obuf, s.iline, s.ilineFull⟩

/-- The line that waits for the protocol. -/
def Wire.waiting (c : Wire) : List (List Byte) :=
  if c.ilineFull then [lineText c.iline] else []

/-- What `readInput` adds. -/
def inputTraffic (s : Session) (w : World) (revents : Revents) (g : Traffic) : Traffic :=
  if revents.has POLLIN then { g with received := g.received ++ (s.ibuf.fillFrom w.kernel).2.2.1 } else g

/-- What `takeLine` adds: a line that is not taken now is given again. -/
def lineTraffic (s : Session) (w : World) (g : Traffic) : Traffic :=
  match s.proto.giveInput (s.line w) with
  | none => g
  | some (err, _) => if err = 0 then { g with lines := g.lines ++ [(s.line w).text] } else g

/-- What `putOutput` adds. -/
def outputTraffic (s : Session) (g : Traffic) : Traffic :=
  match s.proto.getOutput with
  | none => g
  | some (p, len) =>
    if (s.obuf.put (p.take len)).1 = 0 then { g with commands := g.commands ++ [p.take len] } else g

/-- What `writeOutput` adds. -/
def writeTraffic (s : Session) (w : World) (g : Traffic) : Traffic :=
  if s.cfdConnecting then g
  else
    match s.obuf.flushTo w.kernel 2 0 with
    | none => g
    | some (_, _, gave, _) => { g with sent := g.sent ++ gave }

def loopTraffic (w : World) : ℕ → ℤ → ℤ → Session → Traffic → Traffic
  | 0, _, _, _, g => g
  | fuel+1, geterr, puterr, s, g =>
    if s.proto.isInputReady ∧ geterr ≠ EWOULDBLOCK ∨ s.proto.isOutputReady ∧ puterr ≠ EWOULDBLOCK then
      match s.nextLine geterr with
      | .error _ => g
      | .ok (geterr, s) =>
        let g := if s.ilineFull then s.lineTraffic w g else g
        match if s.ilineFull then s.takeLine w else .ok (.ok s) with
        | .ok (.ok s) =>
          let g := s.outputTraffic g
          match s.putOutput puterr with
          | .error _ => g
          | .ok (puterr, s) => loopTraffic w fuel geterr puterr s g
        | _ => g
    else g

/-- What `notifyPollEvent_cfd` adds from the loop on. -/
def serveTraffic (s : Session) (w : World) (g : Traffic) : Traffic :=
  let g := loopTraffic w w.fuel 0 0 s g
  match controlLoop w w.fuel 0 0 s with
  | .ok (.ok s) => s.writeTraffic w g
  | _ => g

def cfdTraffic (s : Session) (w : World) (revents : Revents) (g : Traffic) : Traffic :=
  if revents.has (POLLERR ||| POLLHUP) then g
  else
    match s.cfdConnected w revents with
    | .error _ => g
    | .ok s =>
      let g := s.inputTraffic w revents g
      match s.readInput w revents with
      | .error _ => g
      | .ok s => s.serveTraffic w g

def eventTraffic (s : Session) (w : World) (fd : ℤ) (revents : Revents) (g : Traffic) : Traffic :=
  if fd = s.dfd then g else if fd = s.cfd then s.cfdTraffic w revents g else g

/-- What a wrapper adds. -/
def wrapperTraffic (s : Session) (w : World) (o : Op) (ready : Session → Except Stop Session) (g : Traffic) :
    Traffic :=
  match s.proto.perform o with
  | none => g
  | some (err, proto) =>
    if err ≠ 0 then g
    else
      match ready { s.note (.accepted o) with proto := proto } with
      | .error _ => g
      | .ok s => s.eventTraffic w s.cfd (POLLOUT ||| KICKSTART) g

def commandTraffic (s : Session) (w : World) (g : Traffic) : Command → Traffic
  | .login username password => s.wrapperTraffic w (.login username password) .ok g
  | .quit => s.wrapperTraffic w .quit .ok g
  | .cd dir => s.wrapperTraffic w (.cd dir) .ok g
  | .type ttype => s.wrapperTraffic w (.type ttype) .ok g
  | .size fname => s.wrapperTraffic w (.size fname) .ok g
  | .ls dirname _ => s.wrapperTraffic w (.ls dirname none) (fun s => .ok { s with state := .getting }) g
  | .get fname _ => s.wrapperTraffic w (.get fname none) (startGet w) g

/-- The account begins when a control connection is made. -/
def traffic (s : Session) (k : Label) (s' : Session) (g : Option Traffic) : Option Traffic :=
  match k.act with
  | .connect _ =>
    match s'.log with
    | .connected :: _ => some ⟨[], [], [], []⟩
    | _ => none
  | .command c => g.map fun g => s.commandTraffic k.world g c
  | .pollEvent fd revents => g.map (s.eventTraffic k.world fd revents)
  | _ => g

/-- The runs of a pipe with the account of its control connection. -/
def connections : System Session Label (Option Traffic) where
  start s g := IsFresh s ∧ g = none
  step s k s' := s.step k = .ok s'
  note g s k s' := s.traffic k s' g

end Dkftpbench.Session
