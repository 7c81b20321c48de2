import Dkftpbench.PipeCalls

/-!
# What becomes of the first line

`login` sends its line from a pipe that has just been connected and has heard nothing.
Its kickstart then has an error to report in one case only: the connection is there
already and the kernel refuses the line.
-/
namespace Dkftpbench
open CLib EventClock FtpClientProto Relation RingWindow

namespace Nbbio
variable {k : Kernel} {line : List Byte} {err : ℤ} {b b' : Nbbio} {out : List Byte} {ranges : List Access}

/-- What an empty buffer holds after a short line was put. -/
def holding (b : Nbbio) (line : List Byte) : Nbbio := { b.init.copyIn 0 line with putTo := line.length }

theorem put_init (hlen : line.length < 1023) : ∃ ranges, b.init.put line = (0, b.holding line, ranges) := by
  have hfree : b.init.contigBytesFree = 1023 := rfl
  have hlen' : (line.length : ℤ) < 1023 := by exact_mod_cast hlen
  have hfits : ¬b.init.bytesFree < line.length := not_lt.2 hlen'.le
  have hstart : (b.init.copyIn 0 line).putTo = 0 := rfl
  refine ⟨[b.init.store 0 line.length], ?_⟩
  unfold put
  dsimp only
  rw [if_neg hfits, hfree, if_pos hlen', Int.toNat_natCast, List.take_length, show b.init.putTo = 0 from rfl,
    hstart, Int.zero_add, if_neg (by rw [nbbioBufLen]; omega)]
  rfl

theorem slice_holding (hlen : line.length < 1023) : (b.holding line).slice 0 line.length = line := by
  have hwindow : window nbbioBufLen (overwrite b.init.buf 0 line) 0 line.length = line :=
    window_overwrite_self le_rfl (by rw [nbbioBufLen]; omega)
  refine Eq.trans ?_ hwindow
  apply List.ext_getElem
  · simp [slice]
  · intro i hi _
    have hil : i < line.length := by simpa [slice] using hi
    have hmod : (0+(i : ℤ)) % nbbioBufLen = 0+i := Int.emod_eq_of_lt (by omega) (by rw [nbbioBufLen]; omega)
    simp only [slice, window, List.getElem_map, List.getElem_range, hmod]
    rfl

theorem flushTo_holding (hlen : line.length < 1023) (hpos : line ≠ [])
    (hwrite : ∀ err, k.write 0 line = .error err → err = 0 ∨ err = EWOULDBLOCK)
    (h : (b.holding line).flushTo k 2 0 = some (err, b', out, ranges)) : err = 0 ∨ err = EWOULDBLOCK := by
  have hnum : (0 : ℤ) < line.length := by exact_mod_cast List.length_pos_iff.2 hpos
  have hlen' : (line.length : ℤ) < 1023 := by exact_mod_cast hlen
  have hused : (b.holding line).contigBytesUsed = line.length := by
    rw [contigBytesUsed, if_pos (show (b.holding line).putTo ≥ (b.holding line).getFrom from hnum.le)]
    exact Int.sub_zero _
  unfold flushTo at h
  dsimp only at h
  rw [hused, if_neg hnum.ne', show (b.holding line).getFrom = 0 from rfl, slice_holding hlen] at h
  cases hw : k.write 0 line with
  | error e =>
      rw [hw] at h
      cases h
      exact hwrite _ hw
  | ok n =>
      rw [hw] at h
      have hn := k.write_le 0 line n hw
      dsimp only at h
      rw [if_neg (by rw [nbbioBufLen]; omega)] at h
      cases h
      exact .inl rfl

end Nbbio

namespace Session
variable {w : World} {s t u : Session} {e : ℤ} {line : List Byte}

/-- A connected pipe whose protocol has one line for the server, and that has heard nothing. -/
structure Greeting (s : Session) (line : List Byte) : Prop where
  cfd : s.cfd ≠ -1
  dfd : s.dfd = -1
  ilineFull : s.ilineFull = false
  ibuf : s.ibuf.isEmpty = true
  obuf : ∃ b : Nbbio, s.obuf = b.init
  state : s.proto.state = .init
  output : s.proto.obuf = line ∧ s.proto.obuflen = line.length
  addressReady : s.proto.addressReady = false

/-- The line went from the protocol to the buffer. -/
def queuedLine (s : Session) (line : List Byte) : Session :=
  { s with obuf := s.obuf.holding line, proto := s.proto.advanceOutput }

theorem Greeting.controlLoop {fuel : ℕ} {part : Part} (h : Greeting s line) (hlen : line.length < 1023)
    (hpos : line ≠ []) (hl : controlLoop w fuel 0 0 s = .ok part) : part = .ok (s.queuedLine line) := by
  cases fuel with
  | zero => cases hl
  | succ fuel =>
      have hin : s.proto.isInputReady = true := by simp [isInputReady, h.state]
      have hnext : s.nextLine 0 = .ok (EWOULDBLOCK, s) := by
        have hread : s.ibuf.readline s.iline ilineSize = (EWOULDBLOCK, s.ibuf, s.iline) := if_pos h.ibuf
        unfold nextLine
        rw [if_neg (by simp [h.ilineFull]), hread]
        rfl
      have hput : s.putOutput 0 = .ok (0, s.queuedLine line) := by
        obtain ⟨b, hb⟩ := h.obuf
        obtain ⟨ranges, hr⟩ := Nbbio.put_init (b := b) hlen
        have hp : s.obuf.put line = (0, s.obuf.holding line, ranges) := by
          rw [hb]
          exact hr
        have hout : s.proto.getOutput = some (line, line.length) := by
          unfold getOutput
          rw [if_neg (by simpa [isOutputReady, h.output.2] using hpos), h.output.1, h.output.2]
        unfold putOutput
        rw [hout]
        dsimp only
        rw [List.take_length, hp]
        rfl
      rw [Session.controlLoop, if_pos (.inl ⟨hin, by decide⟩), hnext] at hl
      dsimp only at hl
      rw [if_neg (by simp [h.ilineFull])] at hl
      dsimp only at hl
      rw [hput] at hl
      dsimp only at hl
      cases fuel with
      | zero => cases hl
      | succ fuel =>
          rw [Session.controlLoop, if_neg] at hl
          · cases hl
            rfl
          · rintro (⟨_, hne⟩ | ⟨hready, _⟩)
            · exact hne rfl
            · cases hready

/-- The line is put off, or the kernel does not refuse it for good. -/
def TakesLine (s : Session) (w : World) (line : List Byte) : Prop :=
  s.cfdConnecting = true ∨ ∀ err, w.kernel.write 0 line = .error err → err = 0 ∨ err = EWOULDBLOCK

theorem Greeting.writeOutput {part : Part} (hobuf : ∃ b : Nbbio, s.obuf = b.init) (hlen : line.length < 1023)
    (hpos : line ≠ []) (h : (s.queuedLine line).writeOutput w = .ok part) :
    ∃ obuf, part = .ok { s.queuedLine line with obuf := obuf } ∨
      ¬s.TakesLine w line ∧ ∃ err, part = .error ({ s.queuedLine line with obuf := obuf }.fail err) := by
  unfold Session.writeOutput at h
  split at h
  · cases h
    exact ⟨_, .inl rfl⟩
  · next hc =>
    split at h
    · cases h
    · next err obuf out ranges hf =>
      dsimp only at h
      split at h
      · next herr =>
        cases h
        refine ⟨obuf, .inr ⟨fun htakes => ?_, err, rfl⟩⟩
        have hwrite := htakes.resolve_left hc
        obtain ⟨b, hb⟩ := hobuf
        have hbenign := Nbbio.flushTo_holding (b := b) hlen hpos hwrite (by rw [← hf, queuedLine, hb]; rfl)
        exact hbenign.elim herr.1 herr.2
      · cases h
        exact ⟨obuf, .inl rfl⟩

/-- The handler sends the line, and hears nothing. -/
theorem Greeting.serveControl {r : ℤ × Session} (h : Greeting s line) (hlen : line.length < 1023)
    (hpos : line ≠ []) (hr : s.serveControl w = .ok r) :
    (s.TakesLine w line → r.1 = 0) ∧ Keeps s r.2 ∧ r.2.proto = s.proto.advanceOutput := by
  unfold Session.serveControl at hr
  split at hr
  · cases hr
  · next hl =>
    cases h.controlLoop hlen hpos hl
  · next hl =>
    cases h.controlLoop hlen hpos hl
    split at hr
    · cases hr
    · next hw =>
      obtain ⟨obuf, ho | ⟨hrefused, err, ho⟩⟩ := Greeting.writeOutput h.obuf hlen hpos hw
      · cases ho
      · cases ho
        cases hr
        exact ⟨fun htakes => absurd htakes hrefused, ⟨rfl, rfl⟩, rfl⟩
    · next hw =>
      obtain ⟨obuf, ho | ⟨_, err, ho⟩⟩ := Greeting.writeOutput h.obuf hlen hpos hw
      · cases ho
        have hquit : { s.queuedLine line with obuf := obuf }.proto.isQuit = false := by
          simp [queuedLine, isQuit, advanceOutput, h.state]
        have hport : { s.queuedLine line with obuf := obuf }.proto.isPortReady =
            (none, { s.queuedLine line with obuf := obuf }.proto) := by
          simp [queuedLine, isPortReady, advanceOutput, h.addressReady]
        unfold checkQuit at hr
        rw [if_neg (by simp [hquit])] at hr
        dsimp only at hr
        unfold openData at hr
        rw [hport] at hr
        cases hr
        exact ⟨fun _ => rfl, ⟨rfl, rfl⟩, rfl⟩
      · cases ho

/-- The kickstart comes to this handler. -/
theorem Greeting.handler (h : Greeting s line) (hk : s.kickstart w = .ok (e, t)) :
    ∃ r, s.serveControl w = .ok r ∧ e = 0 ∧ t = if r.1 = 0 then r.2 else r.2.report r.1 := by
  have hconnected : s.cfdConnected w (POLLOUT ||| KICKSTART) = .ok s := if_neg fun h => absurd h.2 (by decide)
  have hin : s.readInput w (POLLOUT ||| KICKSTART) = .ok s := if_neg (by decide)
  unfold Session.kickstart notifyPollEvent notifyPollEventCfd at hk
  rw [if_neg h.cfd, if_neg (by rw [h.dfd]; exact h.cfd), if_pos rfl, if_neg h.cfd, if_neg (by decide),
    hconnected] at hk
  dsimp only at hk
  rw [hin] at hk
  dsimp only at hk
  cases hs : s.serveControl w with
  | error stop =>
      rw [hs] at hk
      cases hk
  | ok r =>
      rw [hs] at hk
      change finish w r = _ at hk
      unfold finish at hk
      split at hk
      · cases hk
      · cases hk
        exact ⟨r, rfl, rfl, rfl⟩

/-- What the line's kickstart has to report is nothing, if the write is put off or does
not fail for good. -/
theorem Greeting.kickstart (h : Greeting s line) (hlen : line.length < 1023) (hpos : line ≠ [])
    (htakes : s.TakesLine w line) (hk : s.kickstart w = .ok (e, t)) : e = 0 ∧ Keeps s t := by
  obtain ⟨r, hs, rfl, rfl⟩ := h.handler hk
  obtain ⟨hzero, hkeeps, _⟩ := h.serveControl hlen hpos hs
  rw [if_pos (hzero htakes)]
  exact ⟨rfl, hkeeps⟩

/-- `USER`, as it is sent. -/
def userLine (username : CStr) : List Byte := ascii "USER " ++ username ++ crlf

/-- The pipe as `login` leaves it before the kickstart. -/
def greeting (s : Session) (w : World) (sock : ℕ) (connecting : Bool) (username password : CStr) : Session :=
  (s.dialled w sock connecting).issued (.login username password)
    { s.proto.init.queueUser username password with sentUser := true }

theorem greeting_spec (s : Session) (w : World) (sock : ℕ) (connecting : Bool) (username password : CStr) :
    Greeting (s.greeting w sock connecting username password) (userLine username) where
  cfd := nofun
  dfd := rfl
  ilineFull := rfl
  ibuf := rfl
  obuf := ⟨s.obuf, rfl⟩
  state := rfl
  output := ⟨rfl, rfl⟩
  addressReady := rfl

theorem userLine_length {username : CStr} (hlen : username.1.length < 128) : (userLine username).length < 1023 := by
  have hshort : (ascii "USER ").length+crlf.length = 7 := rfl
  rw [userLine, List.length_append, List.length_append]
  omega

theorem login_dialled {sock : ℕ} {connecting : Bool} {username password : CStr} :
    (s.dialled w sock connecting).login w' username password =
      (s.greeting w sock connecting username password).kickstart w' := by
  have hperform : (s.dialled w sock connecting).proto.perform (.login username password) =
      some (0, { s.proto.init.queueUser username password with sentUser := true }) := rfl
  unfold login wrapper
  rw [hperform]
  rfl

theorem login_keeps {sock : ℕ} {connecting : Bool} {username password : CStr}
    (hlen : username.1.length < 128) (hwrite : connecting = true ∨
      ∀ err, w'.kernel.write 0 (userLine username) = .error err → err = 0 ∨ err = EWOULDBLOCK)
    (h : (s.dialled w sock connecting).login w' username password = .ok (e, t)) :
    e = 0 ∧ Keeps (s.dialled w sock connecting) t := by
  rw [login_dialled] at h
  exact (greeting_spec s w sock connecting username password).kickstart (userLine_length hlen) nofun hwrite h

/-- The connection is there as soon as it is asked for. -/
def ConnectsAtOnce (w : World) (port : BitVec 16) : Prop :=
  ∃ sock addr, w.socket = .ok sock ∧ w.lookup = some addr ∧ w.connect sock ⟨AF_INET, addr, htons port⟩ = none

theorem connect_succeeds {port : BitVec 16} (h : s.connect w port = .ok (0, t)) :
    t.cfd = -1 ∨ ∃ sock connecting, t = s.dialled w sock connecting ∧
      (connecting = true ∨ ConnectsAtOnce w port) := by
  unfold connect at h
  split at h
  · cases h
  · next addr haddr =>
    split at h
    · cases h
      exact .inl rfl
    · next sock hsock =>
      dsimp only at h
      split at h
      · cases h
        exact .inl rfl
      · split at h
        · cases h
          exact .inl rfl
        · next connecting hc =>
          split at h
          · next hadd =>
            rw [Except.ok.injEq, Prod.mk.injEq] at h
            exact absurd h.1 hadd
          · split at h
            · cases h
            · next u hu =>
              cases h
              obtain ⟨_, rfl⟩ := addClient_eq hu
              refine .inr ⟨sock, connecting, rfl, ?_⟩
              unfold connectOutcome at hc
              split at hc
              · next hnow => exact .inr ⟨sock, addr, hsock, haddr, hnow⟩
              · split at hc
                · cases hc
                · cases hc
                  exact .inl rfl

/-- Without a socket there is no login. -/
theorem login_unconnected {username password : CStr} (hcfd : s.cfd = -1)
    (h : s.login w username password = .ok (e, t)) : Keeps s t := by
  unfold login wrapper at h
  split at h
  · cases h
  · split at h
    · cases h
      exact ⟨rfl, rfl⟩
    · dsimp only at h
      exact absurd hcfd (kickstart_spec h).1

end Session
end Dkftpbench
