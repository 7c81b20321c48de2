import Dkftpbench.ControlTraffic

/-!
# The control connection loses nothing

The account of a control connection stays in order in every run, whatever the kernel
delivers or accepts and whichever functions fail on the way: what was received is what was
scanned for lines followed by what the input buffer holds, the lines found went to the
protocol but for one that may wait, and what was sent followed by what the output buffer
holds are the commands put into it.
-/
namespace Dkftpbench.Session
open CLib EventClock Faults FtpClientProto LineSplit Nbbio Watch

/-- These bytes were taken off the input buffer, and their lines given to the protocol. -/
structure Passed (c : Wire) (g : Traffic) (bs : List Byte) : Prop where
  received : g.received = bs ++ c.ibuf.held
  reading : Reading c.ibuf c.iline (Nbbio.fresh.items CR LF bs).1
  lines : g.lines ++ c.waiting = (Nbbio.fresh.items CR LF bs).2.map cut

/-- The account is in order. -/
structure Channel (c : Wire) (g : Traffic) : Prop where
  ibuf : c.ibuf.Valid
  linelen : c.ibuf.linelen ≤ ilineSize
  obuf : c.obuf.Valid
  heard : ∃ bs, Passed c g bs
  told : g.commands.flatten = g.sent ++ c.obuf.held

/-- After a part of a handler the account is in order. -/
def Carried (g : Traffic) : Part → Prop
  | .ok t => Channel t.wire g
  | .error r => Channel r.2.wire g

/-- A part of a handler leaves buffers and line as they were. -/
def Aside (s : Session) : Part → Prop
  | .ok t => t.wire = s.wire
  | .error r => r.2.wire = s.wire

section
variable {c d : Wire} {g : Traffic} {w : World} {s t u : Session} {part : Part} {r : ℤ × Session}
variable {e err geterr puterr : ℤ} {revents : Revents} {obuf : Nbbio} {line : List Byte}

theorem channel_start (hi : c.ibuf.Valid) (ho : c.obuf.Valid) (hheld : c.ibuf.held = []) (hempty : c.obuf.held = [])
    (hlen : c.ibuf.linelen = 0) (hlast : c.ibuf.lastchar = 0) (hfull : c.ilineFull = false) :
    Channel c ⟨[], [], [], []⟩ where
  ibuf := hi
  linelen := hlen.trans_le (Nat.zero_le _)
  obuf := ho
  heard := ⟨[], by rw [hheld]; rfl, ⟨hlen, hlast, .nil⟩, by simp [Wire.waiting, hfull, Scan.items]⟩
  told := by rw [hempty]; rfl

theorem Channel.withObuf (h : Channel c g) (hv : obuf.Valid) {commands : List (List Byte)} {sent : List Byte}
    (htold : commands.flatten = sent ++ obuf.held) :
    Channel { c with obuf := obuf } { g with commands := commands, sent := sent } where
  ibuf := h.ibuf
  linelen := h.linelen
  obuf := hv
  heard := by
    obtain ⟨bs, hb⟩ := h.heard
    exact ⟨bs, hb.received, hb.reading, hb.lines⟩
  told := htold

/-- Bytes come in, and nothing is scanned yet. -/
theorem Channel.fill (h : Channel c g) (k : Kernel) : Channel { c with ibuf := (c.ibuf.fillFrom k).2.1 }
    { g with received := g.received ++ (c.ibuf.fillFrom k).2.2.1 } where
  ibuf := (fillFrom_moves k h.ibuf).valid
  linelen := (fillFrom_reading (s := c.ibuf) k).1.trans_le h.linelen
  obuf := h.obuf
  heard := by
    obtain ⟨bs, hb⟩ := h.heard
    obtain ⟨hlen, hlast⟩ := fillFrom_reading (s := c.ibuf) k
    have hheld : c.ibuf.held ++ (c.ibuf.fillFrom k).2.2.1 = (c.ibuf.fillFrom k).2.1.held := by
      simpa using (fillFrom_moves k h.ibuf).held
    refine ⟨bs, ?_, ⟨hlen.trans hb.reading.linelen, hlast.trans hb.reading.lastchar, hb.reading.part⟩, hb.lines⟩
    rw [hb.received, List.append_assoc, hheld]
  told := h.told

theorem cut_append_nul (line rest : List Byte) : cut (line ++ 0 :: rest) = cut line := by
  induction line with
  | nil => simp [cut]
  | cons b line ih =>
      by_cases hb : b = 0
      · simp [cut, hb]
      · simpa [cut, hb] using ih

/-- The string in the buffer is that of the line, which a NUL follows. -/
theorem lineText_eq_cut {iline : ℕ → Byte} (h : HoldsLine iline line) (hlt : line.length < ilineSize) :
    lineText iline = cut line := by
  obtain ⟨m, hm⟩ : ∃ m, ilineSize = line.length+(1+m) := ⟨ilineSize-line.length-1, by omega⟩
  have hbytes : (List.range line.length).map iline = line := by
    apply List.ext_getElem
    · simp
    · intro i hi hi'
      simp [h.bytes i hi']
  unfold lineText
  rw [hm, List.range_add, List.map_append, hbytes, List.range_add]
  have hnul : iline (line.length+0) = 0 := h.nul
  simp only [List.map_append, List.range_one, List.map_cons, List.map_nil, hnul]
  exact cut_append_nul line _

/-- A line is read, or there is none. -/
theorem Channel.readline (h : Channel c g) (hfull : c.ilineFull = false) :
    Channel ⟨(c.ibuf.readline c.iline ilineSize).2.1, c.obuf, (c.ibuf.readline c.iline ilineSize).2.2,
      (c.ibuf.readline c.iline ilineSize).1 == 0⟩ g := by
  obtain ⟨bs, hb⟩ := h.heard
  obtain ⟨cs, lines, hcall⟩ := readline_spec ilineSize h.ibuf hb.reading
  have htook := hcall.took
  refine ⟨htook.valid, readline_linelen c.iline h.linelen, h.obuf, ⟨bs ++ cs, ?_, ?_, ?_⟩, h.told⟩
  · rw [hb.received, htook.held, List.append_assoc]
  · rw [items_append]
    exact htook.reading
  · have hlines : g.lines = (Nbbio.fresh.items CR LF bs).2.map cut := by
      simpa [Wire.waiting, hfull] using hb.lines
    rw [items_append, htook.lines, List.map_append, hlines]
    by_cases h0 : (c.ibuf.readline c.iline ilineSize).1 = 0
    · obtain ⟨line, rfl, hline⟩ := hcall.line h0
      simp [Wire.waiting, h0, lineText_eq_cut hline (hcall.room h.ibuf hb.reading h0)]
    · simp [Wire.waiting, h0, hcall.wait h0]

theorem cfdConnected_aside (revents : Revents) : Aside s (s.cfdConnected w revents) := by
  unfold cfdConnected
  split
  · cases checkConnect w with
    | error e => rfl
    | ok c => rfl
  · rfl

theorem dfdConnected_aside (revents : Revents) : Aside s (s.dfdConnected w revents) := by
  unfold dfdConnected
  split
  · cases checkConnect w with
    | error e => rfl
    | ok c => rfl
  · rfl

theorem checkQuit_aside : Aside s s.checkQuit := by
  unfold checkQuit
  split
  · rfl
  · rfl

theorem Aside.carried (ha : Aside s part) (h : Channel s.wire g) : Carried g part := by
  cases part with
  | ok t =>
      change t.wire = s.wire at ha
      exact show Channel t.wire g by rwa [ha]
  | error r =>
      change r.2.wire = s.wire at ha
      exact show Channel r.2.wire g by rwa [ha]

theorem readInput_carried (revents : Revents) (h : Channel s.wire g) :
    Carried (s.inputTraffic w revents g) (s.readInput w revents) := by
  unfold inputTraffic readInput
  split
  · dsimp only
    split
    · exact h.fill w.kernel
    · exact h.fill w.kernel
  · exact h

/-- `nextLine` and `putOutput` also pass on an error number of their own. -/
def CarriedWith (g : Traffic) : Except (ℤ × Session) (ℤ × Session) → Prop
  | .ok r => Channel r.2.wire g
  | .error r => Channel r.2.wire g

theorem nextLine_carried (geterr : ℤ) (h : Channel s.wire g) : CarriedWith g (s.nextLine geterr) := by
  unfold nextLine
  split
  · exact h
  · next hfull =>
    have hread := h.readline (by simpa [wire] using hfull)
    change Channel ⟨(s.ibuf.readline s.iline ilineSize).2.1, s.obuf, (s.ibuf.readline s.iline ilineSize).2.2,
      (s.ibuf.readline s.iline ilineSize).1 == 0⟩ g at hread
    generalize s.ibuf.readline s.iline ilineSize = r at hread ⊢
    obtain ⟨geterr', ibuf, iline⟩ := r
    dsimp only at hread ⊢
    split
    · next h0 =>
      rw [h0] at hread
      exact hread
    · next h0 =>
      have hnone : (geterr' == 0) = s.ilineFull := by simp [h0, hfull]
      rw [hnone] at hread
      split
      · exact hread
      · exact hread

/-- The protocol takes the line that waits, or it waits on. -/
theorem giveLine_carried (hfull : s.ilineFull = true) (h : Channel s.wire g) (ht : s.giveLine w = .ok part) :
    Carried (s.lineTraffic w g) part := by
  have htaken : Channel { s.wire with ilineFull := false } { g with lines := g.lines ++ [(s.line w).text] } := by
    obtain ⟨bs, hb⟩ := h.heard
    refine ⟨h.ibuf, h.linelen, h.obuf, ⟨bs, hb.received, hb.reading, ?_⟩, h.told⟩
    rw [← hb.lines]
    simp [Wire.waiting, wire, hfull, line_text]
  unfold giveLine at ht
  unfold lineTraffic
  cases hg : s.proto.giveInput (s.line w) with
  | none =>
      rw [hg] at ht
      cases ht
  | some r =>
      obtain ⟨err, p⟩ := r
      rw [hg] at ht
      dsimp only at ht ⊢
      have hthen : Channel { s.wire with ilineFull := if err = 0 then false else s.ilineFull }
          (if err = 0 then { g with lines := g.lines ++ [(s.line w).text] } else g) := by
        split
        · exact htaken
        · exact h
      split at ht
      · next herr =>
        cases ht
        rw [if_neg herr.1]
        exact h
      · split at ht
        · cases ht
          exact hthen
        · cases ht
          exact hthen

theorem line_queued {q : Option Clock} : Session.line { s with queued := q } w = s.line w := by
  simp only [line]

theorem lineTraffic_cancelTimeout : s.cancelTimeout.lineTraffic w g = s.lineTraffic w g := by
  rw [cancelTimeout_eq]
  unfold lineTraffic
  rw [line_queued]

theorem takeLine_carried (hfull : s.ilineFull = true) (h : Channel s.wire g) (ht : s.takeLine w = .ok part) :
    Carried (s.lineTraffic w g) part := by
  rw [← lineTraffic_cancelTimeout]
  have hsame : s.cancelTimeout.wire = s.wire := by
    rw [cancelTimeout_eq]
    rfl
  rw [← hsame] at h
  exact giveLine_carried ((congrArg Wire.ilineFull hsame).trans hfull) h ht

theorem putOutput_carried (puterr : ℤ) (h : Channel s.wire g) :
    CarriedWith (s.outputTraffic g) (s.putOutput puterr) := by
  have hobuf : s.obuf.Valid := h.obuf
  unfold putOutput outputTraffic
  cases hget : s.proto.getOutput with
  | none => exact h
  | some out =>
      obtain ⟨p, len⟩ := out
      dsimp only
      rcases lt_or_ge s.obuf.bytesFree (p.take len).length with hno | hroom
      · obtain ⟨err, herr, hput⟩ := put_refused hno
        rw [hput, if_neg herr]
        dsimp only
        split
        · exact h
        · exact h
      · obtain ⟨obuf, ranges, hput, hm⟩ := put_accepted hobuf hroom
        have htold : (g.commands ++ [p.take len]).flatten = g.sent ++ obuf.held := by
          have hheld : s.obuf.held ++ p.take len = obuf.held := by simpa using hm.held
          have htold : g.commands.flatten = g.sent ++ s.obuf.held := h.told
          simp [htold, ← hheld]
        rw [hput]
        exact h.withObuf hm.valid htold

theorem controlLoop_carried {fuel : ℕ} (h : Channel s.wire g)
    (hl : controlLoop w fuel geterr puterr s = .ok part) : Carried (loopTraffic w fuel geterr puterr s g) part := by
  induction fuel generalizing s g geterr puterr with
  | zero => cases hl
  | succ fuel ih =>
      unfold controlLoop at hl
      unfold loopTraffic
      split at hl
      · next hready =>
        rw [if_pos hready]
        have hnext := nextLine_carried geterr h
        cases hn : s.nextLine geterr with
        | error r =>
            rw [hn] at hl hnext
            cases hl
            exact hnext
        | ok r =>
            obtain ⟨geterr', t⟩ := r
            rw [hn] at hl hnext
            dsimp only at hl ⊢
            cases htake : (if t.ilineFull then t.takeLine w else .ok (.ok t)) with
            | error stop =>
                rw [htake] at hl
                cases hl
            | ok part' =>
                have htaken : Carried (if t.ilineFull then t.lineTraffic w g else g) part' := by
                  split at htake
                  · next hfull =>
                    rw [if_pos hfull]
                    exact takeLine_carried hfull hnext htake
                  · next hfull =>
                    rw [if_neg hfull]
                    cases htake
                    exact hnext
                rw [htake] at hl
                cases part' with
                | error r =>
                    cases hl
                    exact htaken
                | ok u =>
                    dsimp only at hl ⊢
                    have hput := putOutput_carried puterr htaken
                    cases hp : u.putOutput puterr with
                    | error r =>
                        rw [hp] at hl hput
                        cases hl
                        exact hput
                    | ok r =>
                        rw [hp] at hl hput
                        exact ih hput hl
      · next hready =>
        rw [if_neg hready]
        cases hl
        exact h

theorem writeOutput_carried (h : Channel s.wire g) (hw : s.writeOutput w = .ok part) :
    Carried (s.writeTraffic w g) part := by
  have hobuf : s.obuf.Valid := h.obuf
  unfold writeOutput at hw
  unfold writeTraffic
  split at hw
  · next hc =>
    rw [if_pos hc]
    cases hw
    exact h
  · next hc =>
    rw [if_neg hc]
    obtain ⟨⟨err, obuf, gave, ranges⟩, hflush, hm⟩ := flushTo_moves w.kernel 0 hobuf
    rw [hflush] at hw ⊢
    have htold : g.commands.flatten = (g.sent ++ gave) ++ obuf.held := by
      have hheld : s.obuf.held = gave ++ obuf.held := by simpa using hm.held
      have htold : g.commands.flatten = g.sent ++ s.obuf.held := h.told
      rw [htold, hheld, List.append_assoc]
    have hsent := h.withObuf hm.valid htold
    dsimp only at hw ⊢
    split at hw
    · cases hw
      exact hsent
    · cases hw
      exact hsent

theorem openData_wire : (s.openData w).2.wire = s.wire := by
  unfold openData
  split
  · rfl
  · dsimp only
    split
    · rfl
    · split
      · rfl
      · split
        · rfl
        · split
          · rfl
          · rfl

/-- `notifyPollEvent_cfd` from the loop on. -/
theorem serveControl_carried (h : Channel s.wire g) (hr : s.serveControl w = .ok r) :
    Channel r.2.wire (s.serveTraffic w g) := by
  unfold serveControl at hr
  unfold serveTraffic
  cases hl : controlLoop w w.fuel 0 0 s with
  | error stop =>
      rw [hl] at hr
      cases hr
  | ok part =>
      have hloop := controlLoop_carried h hl
      rw [hl] at hr
      cases part with
      | error r' =>
          cases hr
          exact hloop
      | ok t =>
          dsimp only at hr ⊢
          cases hw : t.writeOutput w with
          | error stop =>
              rw [hw] at hr
              cases hr
          | ok part =>
              have hwritten := writeOutput_carried hloop hw
              rw [hw] at hr
              cases part with
              | error r' =>
                  cases hr
                  exact hwritten
              | ok u =>
                  dsimp only at hr
                  have hquit := (checkQuit_aside (s := u)).carried hwritten
                  cases hq : u.checkQuit with
                  | error r' =>
                      rw [hq] at hr hquit
                      cases hr
                      exact hquit
                  | ok v =>
                      rw [hq] at hr hquit
                      cases hr
                      exact openData_wire.symm ▸ hquit

theorem notifyPollEventCfd_carried {fd : ℤ} (h : Channel s.wire g)
    (hr : s.notifyPollEventCfd w fd revents = .ok r) : Channel r.2.wire (s.cfdTraffic w revents g) := by
  unfold notifyPollEventCfd at hr
  unfold cfdTraffic
  split at hr
  · cases hr
  · split at hr
    · next hhup =>
      rw [if_pos hhup]
      cases hr
      exact h
    · next hhup =>
      rw [if_neg hhup]
      have hconn := (cfdConnected_aside (w := w) revents).carried h
      cases hc : s.cfdConnected w revents with
      | error r' =>
          rw [hc] at hr hconn
          cases hr
          exact hconn
      | ok t =>
          rw [hc] at hr hconn
          dsimp only at hr ⊢
          have hin := readInput_carried (w := w) (g := g) (s := t) revents hconn
          cases hi : t.readInput w revents with
          | error r' =>
              rw [hi] at hr hin
              cases hr
              exact hin
          | ok u =>
              rw [hi] at hr hin
              exact serveControl_carried hin hr

theorem throttle_wire {now : Clock} {n : ℤ} : (s.throttle now n).wire = s.wire := by
  obtain ⟨_, _, _, h⟩ := throttle_eq s now n
  rw [h]
  rfl

theorem hangUp_wire : s.hangUp.2.wire = s.wire := by
  rw [hangUp_eq]
  rfl

theorem transfer_wire : (s.transfer w revents).2.wire = s.wire := by
  unfold transfer
  split
  · rfl
  · split
    · dsimp only
      split
      · exact hangUp_wire
      · split
        · exact throttle_wire
        · split
          · rfl
          · exact throttle_wire
    · split
      · exact hangUp_wire
      · exact throttle_wire

theorem snooze_wire (h : s.snooze w revents = .ok t) : t.wire = s.wire := by
  unfold snooze at h
  split at h
  · split at h
    · cases h
    · split at h
      · cases h
      · next u hu =>
        cases h
        obtain ⟨_, rfl⟩ := addClient_eq hu
        rfl
  · cases h
    rfl

/-- The data connection has no part in it. -/
theorem notifyPollEventDfd_wire (h : s.notifyPollEventDfd w revents = .ok r) : r.2.wire = s.wire := by
  unfold notifyPollEventDfd at h
  have hconn := dfdConnected_aside (s := s) (w := w) revents
  split at h
  · cases h
  · split at h
    · next r hc =>
      rw [hc] at hconn
      cases h
      exact hconn
    · next t hc =>
      rw [hc] at hconn
      split at h
      · cases h
      · next u hs =>
        cases h
        exact (transfer_wire.trans (snooze_wire hs)).trans hconn

theorem dropFailed_wire : s.dropFailed.wire = s.wire := by
  rcases dropFailed_cases (s := s) with ⟨h, _⟩ | ⟨_, h⟩
  · rw [h]
  · rw [h]
    rfl

theorem callFtpCmdDone_wire {xerr status : ℤ} : (s.callFtpCmdDone xerr status).wire = s.wire := by
  rcases callFtpCmdDone_cases (s := s) xerr status with ⟨_, h⟩ | h
  · rw [h]
    rfl
  · rw [h]
    rfl

theorem shutdown_wire : (s.shutdown w).2.wire = s.wire := by
  rcases shutdown_cases (s := s) (w := w) with ⟨_, h⟩ | h
  · rw [h]
  · rw [h]
    rfl

theorem Reported.wire (h : Reported s e t) : t.wire = s.wire := by
  cases h with
  | kept => exact dropFailed_wire
  | told | done => exact callFtpCmdDone_wire.trans dropFailed_wire

theorem finish_wire (h : finish w r = .ok (e, t)) : t.wire = r.2.wire := by
  unfold finish at h
  split at h
  · cases h
  · cases h
    split
    · rfl
    · next he => exact (report_spec he).wire

theorem notifyPollEvent_carried {fd : ℤ} (h : Channel s.wire g)
    (hn : s.notifyPollEvent w fd revents = .ok (e, t)) : Channel t.wire (s.eventTraffic w fd revents g) := by
  unfold notifyPollEvent at hn
  unfold eventTraffic
  split at hn
  · cases hn
  · split at hn
    · next hd =>
      rw [if_pos hd]
      cases hr : s.notifyPollEventDfd w revents with
      | error stop =>
          rw [hr] at hn
          cases hn
      | ok r =>
          rw [hr] at hn
          rwa [finish_wire hn, notifyPollEventDfd_wire hr]
    · next hd =>
      rw [if_neg hd]
      split at hn
      · next hc =>
        rw [if_pos hc]
        cases hr : s.notifyPollEventCfd w fd revents with
        | error stop =>
            rw [hr] at hn
            cases hn
        | ok r =>
            rw [hr] at hn
            rw [finish_wire hn]
            exact notifyPollEventCfd_carried h hr
      · next hc =>
        rw [if_neg hc]
        cases hn
        exact h

theorem wrapper_carried {o : Op} {ready : Session → Except Stop Session}
    (hready : ∀ s t, ready s = .ok t → t.wire = s.wire) (h : Channel s.wire g)
    (hw : s.wrapper w o ready = .ok (e, t)) : Channel t.wire (s.wrapperTraffic w o ready g) := by
  unfold wrapper at hw
  unfold wrapperTraffic
  cases hp : s.proto.perform o with
  | none =>
      rw [hp] at hw
      cases hw
  | some r =>
      obtain ⟨err, proto⟩ := r
      rw [hp] at hw
      dsimp only at hw ⊢
      by_cases herr : err ≠ 0
      · rw [if_pos herr] at hw ⊢
        cases hw
        exact h
      · rw [if_neg herr] at hw ⊢
        cases hu : ready { s.note (.accepted o) with proto := proto } with
        | error stop =>
            rw [hu] at hw
            cases hw
        | ok u =>
            rw [hu] at hw
            have hsame : u.wire = s.wire := (hready _ u hu).trans rfl
            rw [← hsame] at h
            exact notifyPollEvent_carried h hw

theorem perform_carried {c : Command} (h : Channel s.wire g) (hp : s.perform w c = .ok (e, t)) :
    Channel t.wire (s.commandTraffic w g c) := by
  have plain : ∀ {o : Op} {e : ℤ}, s.wrapper w o .ok = .ok (e, t) →
      Channel t.wire (s.wrapperTraffic w o .ok g) := by
    intro o e hp
    apply wrapper_carried _ h hp
    intro s t hs
    cases hs
    rfl
  cases c with
  | login username password => exact plain (o := .login username password) hp
  | quit => exact plain (o := .quit) hp
  | cd dir => exact plain (o := .cd dir) hp
  | type ttype => exact plain (o := .type ttype) hp
  | size fname => exact plain (o := .size fname) hp
  | ls dirname passive =>
      change s.ls w dirname passive = .ok (e, t) at hp
      unfold Session.ls at hp
      split at hp
      · cases hp
      · apply wrapper_carried _ h hp
        intro s t hs
        cases hs
        rfl
  | get fname passive =>
      change s.get w fname passive = .ok (e, t) at hp
      unfold Session.get at hp
      split at hp
      · cases hp
      · apply wrapper_carried _ h hp
        intro s t hs
        obtain ⟨_, rfl⟩ := addClient_eq hs
        rfl

theorem wake_carried {now : Clock} (h : Channel s.wire g) (hs : s.wake w now = .ok t) : Channel t.wire g := by
  unfold wake at hs
  dsimp only at hs
  split at hs
  · cases hs
    exact h
  · split at hs
    · cases hs
    · split at hs
      · cases hs
      · next err u hu =>
        have hn := notifyPollEvent_carried (s := { s with state := .getting, dfdEvents := 0, wakeup := now }) h hu
        rw [eventTraffic, if_pos rfl] at hn
        cases hs
        split
        · exact (callFtpCmdDone_wire.trans shutdown_wire).symm ▸ hn
        · exact hn

theorem runTimer_carried {now : Clock} (h : Channel s.wire g) (hs : s.runTimer w now = .ok t) :
    Channel t.wire g := by
  have hgone : (s.delClient.shutdownAndNotify w).wire = s.wire :=
    callFtpCmdDone_wire.trans (shutdown_wire (s := s.delClient))
  unfold runTimer at hs
  split at hs
  · cases hs
  · split at hs
    · cases hs
    · unfold skedCallback at hs
      split at hs
      · cases hs
        rwa [hgone]
      · cases hs
        rwa [hgone]
      · exact wake_carried (s := s.delClient) h hs
      · cases hs

/-- One step of the pipe, and what it adds to the account. -/
theorem step_carried {k : Label} {o : Option Traffic} (h : ∀ g, o = some g → Channel s.wire g)
    (hs : s.step k = .ok t) (ht : s.traffic k t o = some g) : Channel t.wire g := by
  obtain ⟨act, w⟩ := k
  cases act with
  | connect port =>
      cases hc : s.connect w port with
      | error stop => simp [step, hc, Except.map] at hs
      | ok r =>
          simp only [step, hc, Except.map, Except.ok.injEq] at hs
          subst hs
          have hspec := connect_spec (e := r.1) hc
          generalize r.2 = t at hspec ht
          cases hspec with
          | connectFailed | connectClosed | connectUnwatched => cases ht
          | connected =>
              cases ht
              exact channel_start init_valid init_valid held_init held_init rfl rfl rfl
  | shutdown =>
      cases hs
      rw [shutdown_wire]
      exact h g ht
  | command c =>
      obtain ⟨a, ha, rfl⟩ := Option.map_eq_some_iff.1 ht
      cases hc : s.perform w c with
      | error stop => simp [step, hc, Except.map] at hs
      | ok r =>
          simp only [step, hc, Except.map, Except.ok.injEq] at hs
          subst hs
          exact perform_carried (e := r.1) (h a ha) hc
  | pollEvent fd revents =>
      obtain ⟨a, ha, rfl⟩ := Option.map_eq_some_iff.1 ht
      cases hc : s.notifyPollEvent w fd revents with
      | error stop => simp [step, hc, Except.map] at hs
      | ok r =>
          simp only [step, hc, Except.map, Except.ok.injEq] at hs
          subst hs
          exact notifyPollEvent_carried (e := r.1) (h a ha) hc
  | timer now => exact runTimer_carried (h g ht) hs
  | cmdDoneReturns =>
      change s.returnFromCallback = .ok t at hs
      unfold returnFromCallback at hs
      split at hs
      · cases hs
      · cases hs
        exact h g ht

theorem run_channel {ok : Session → Option Traffic → Label → Prop} (h : Run connections ok s (some g)) :
    Channel s.wire g := by
  have hinv : ∀ a, some g = some a → Channel s.wire a := by
    apply h.invariant (I := fun s o => ∀ g, o = some g → Channel s.wire g)
    · intro s o ⟨_, hnone⟩ g hg
      rw [hnone] at hg
      cases hg
    · intro s o k t hs _ hstep g hg
      exact step_carried hs hstep hg
  exact hinv g rfl

/-- The lines that the protocol took, with the one that waits for it, are the lines of what was
received, up to what is still in the input buffer. -/
theorem lines_in_order {ok : Session → Option Traffic → Label → Prop} (h : Run connections ok s (some g)) :
    ∃ bs, g.received = bs ++ s.ibuf.held ∧
      g.lines ++ s.wire.waiting = (Nbbio.fresh.items CR LF bs).2.map cut ∧
      (¬ [CR, LF, LF] <:+: g.received → (Nbbio.fresh.items CR LF bs).2 = (split CR LF bs).1) := by
  obtain ⟨bs, hb⟩ := (run_channel h).heard
  refine ⟨bs, hb.received, hb.lines, ?_⟩
  intro hno
  have hkept : ¬ Swallows CR LF Nbbio.fresh.last bs := by
    rintro (⟨hlast, _⟩ | hin)
    · exact absurd hlast (by decide)
    · rw [hb.received] at hno
      exact hno (hin.trans (List.prefix_append bs _).isInfix)
  have hsplit := items_eq_split (by decide) hkept
  rw [show Nbbio.fresh.part = [] from rfl, prepend_nil] at hsplit
  rw [← hsplit]

/-- What was sent, with what waits in the output buffer, is the commands in their order. -/
theorem commands_in_order {ok : Session → Option Traffic → Label → Prop} (h : Run connections ok s (some g)) :
    g.commands.flatten = g.sent ++ s.obuf.held := (run_channel h).told

theorem run_connections {ks : List Label} {o : Option Traffic}
    (h : follow (fun s _ k => (s.step k).toOption) connections.note (fresh blank 28000) none ks = some (s, o)) :
    Run connections (fun _ _ _ => True) s o := by
  have h0 : Run connections (fun _ _ _ => True) (fresh blank 28000) none := .start ⟨⟨blank, 28000, rfl⟩, rfl⟩
  exact h0.follow (fun _ _ _ _ hs => ⟨trivial, eq_ok_of_toOption hs⟩) h

end

/-- A kernel with these bytes to read, which accepts three bytes in each call. -/
def slowKernel (bytes : List Byte) : Kernel where
  read := (kernelOf bytes).read
  read_le := (kernelOf bytes).read_le
  write _ bs := .ok (min 3 bs.length)
  write_le := by
    intro i bs n h
    cases h
    exact min_le_right 3 bs.length

/-- A piece of text arrives. -/
def piece (text : String) : Label := ⟨.pollEvent 3 POLLIN, { calm 0 [] with kernel := slowKernel (ascii text) }⟩

/-- A login, and the replies to it in pieces. -/
def inPieces : List Label := [connecting, loggingIn, piece "220 h", piece "i\r", piece "\n331 pa"]

theorem lines_in_order_pieces : ∃ s g, Run connections (fun _ _ _ => True) s (some g) ∧
    g.lines = [ascii "220 hi"] ∧ ∃ bs, g.received = bs ++ s.ibuf.held ∧
      g.lines ++ s.wire.waiting = (Nbbio.fresh.items CR LF bs).2.map cut := by
  have hfollow : (follow (fun s _ k => (s.step k).toOption) connections.note (fresh blank 28000) none
      inPieces).bind (fun r => r.2.map Traffic.lines) = some [ascii "220 hi"] := by decide +kernel
  obtain ⟨⟨s, o⟩, hr, hlines⟩ := Option.bind_eq_some_iff.1 hfollow
  obtain ⟨g, rfl, hg⟩ := Option.map_eq_some_iff.1 hlines
  have hrun := run_connections hr
  obtain ⟨bs, hreceived, htaken, _⟩ := lines_in_order hrun
  exact ⟨s, g, hrun, hg, bs, hreceived, htaken⟩

/-- A login while the kernel takes three bytes at a time. -/
def haltingLogin : List Label :=
  [connecting, ⟨loggingIn.act, { calm 0 [] with kernel := slowKernel [] }⟩, piece "220 hi\r\n331 pa\r\n"]

theorem commands_in_order_pieces : ∃ s g, Run connections (fun _ _ _ => True) s (some g) ∧
    (g.commands = [ascii "USER u\r\n", ascii "PASS p\r\n"] ∧ g.sent = ascii "USER u") ∧
    g.commands.flatten = g.sent ++ s.obuf.held := by
  have hfollow : (follow (fun s _ k => (s.step k).toOption) connections.note (fresh blank 28000) none
      haltingLogin).bind (fun r => r.2.map fun g => (g.commands, g.sent)) =
      some ([ascii "USER u\r\n", ascii "PASS p\r\n"], ascii "USER u") := by decide +kernel
  obtain ⟨⟨s, o⟩, hr, hsent⟩ := Option.bind_eq_some_iff.1 hfollow
  obtain ⟨g, rfl, hg⟩ := Option.map_eq_some_iff.1 hsent
  have hrun := run_connections hr
  exact ⟨s, g, hrun, ⟨congrArg Prod.fst hg, congrArg Prod.snd hg⟩, commands_in_order hrun⟩

end Dkftpbench.Session
