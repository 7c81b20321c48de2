import Dkftpbench.ProtoStatus

/-!
# What a get asks for

The line RETR is due when the reply to PORT or to PASV is taken. A get in passive mode
queues it there. A get in active mode queues nothing, and waits for the reply to a RETR
that it has not sent.
-/
namespace Dkftpbench.FtpClientProto
open CLib Watch

/-- The line at the output asks for the file. -/
def asksFor (s : FtpClientProto) (fname : List Byte) : Bool :=
  s.getOutput == some (retrLine fname, (retrLine fname).length)

/-- The get last accepted, and whether the line that asks for its file was sent since. -/
structure RetrNotes where
  get : Option (CStr × Option SockaddrIn)
  sent : Bool

def noteRetr (n : RetrNotes) (s : FtpClientProto) : Call → FtpClientProto → RetrNotes
  | .op (.get fname adr), _ => if s.accepts (.get fname adr) then ⟨some (fname, adr), false⟩ else n
  | .advanceOutput, _ => { n with sent := n.sent || n.get.any fun g => s.asksFor g.1 }
  | _, _ => n

/-- Runs from `init`, with the last get. -/
def retrs : System FtpClientProto Call RetrNotes where
  start s n := (∃ s₀, s = init s₀) ∧ n = ⟨none, false⟩
  step s c s' := s.step c = some s'
  note := noteRetr

/-- In passive mode the file was asked for. In active mode nothing came after PORT. -/
def Asked (s : FtpClientProto) (n : RetrNotes) (fname : CStr) : Option SockaddrIn → Prop
  | none => n.sent = true ∨ s.asksFor fname = true
  | some adr => n.sent = false ∧ (s.obuflen = 0 ∨ s.obuf = portLine adr)

/-- The states of a get. -/
def awaitsFile : Fcps → Bool
  | .pasv => true
  | .port => true
  | .retr => true
  | _ => false

/-- The get in progress is the last one. -/
structure Retrieving (s : FtpClientProto) (n : RetrNotes) : Prop where
  pasv : s.state = .pasv → ∃ f, n.get = some (f, none) ∧ s.fname = f.1
  port : s.state = .port → ∃ f adr, n.get = some (f, some adr) ∧ Asked s n f (some adr)
  retr : s.state = .retr → ∃ f adr, n.get = some (f, adr) ∧ Asked s n f adr

section
variable {s s' : FtpClientProto} {n : RetrNotes} {ibuf : Line} {o : Op} {e : ℤ} {f : CStr}
variable {adr : SockaddrIn} {address : Option SockaddrIn}

theorem asksFor_eq_false (h : s.obuflen = 0 ∨ s.obuf = portLine adr) (fname : List Byte) :
    s.asksFor fname = false := by
  unfold asksFor getOutput
  split
  · rfl
  · next hready =>
    have hline : s.obuf = portLine adr := h.resolve_left fun h0 => hready (by simp [isOutputReady, h0])
    rw [hline, beq_eq_false_iff_ne]
    intro heq
    -- the first letters are P and R
    simp [portLine, retrLine, ascii] at heq

theorem asksFor_retrLine (fname : List Byte) : (s.putLine (retrLine fname)).asksFor fname = true := by
  have hne : retrLine fname ≠ [] := by simp [retrLine, crlf]
  rw [asksFor, getOutput_of_line hne rfl rfl, beq_self_eq_true]

theorem Asked.iff (h : Asked s n f address) :
    (n.sent = true ∨ s.asksFor f = true) ↔ address = none := by
  cases address with
  | none => exact iff_of_true h rfl
  | some adr =>
      refine iff_of_false ?_ nofun
      rw [h.1, asksFor_eq_false h.2]
      simp

theorem Asked.of_eq (h : Asked s n f address) (hbuf : s'.obuf = s.obuf) (hlen : s'.obuflen = s.obuflen) :
    Asked s' n f address := by
  cases address with
  | none =>
      have hout : s'.asksFor f = s.asksFor f := by
        rw [asksFor, asksFor, getOutput, getOutput, isOutputReady, isOutputReady, hbuf, hlen]
      exact h.imp_right hout.trans
  | some adr => exact ⟨h.1, h.2.imp hlen.trans hbuf.trans⟩

/-- What was queued is sent. -/
theorem Asked.advanceOutput (h : Asked s n f address) (hget : n.get = some (f, address)) :
    Asked s.advanceOutput (noteRetr n s .advanceOutput s.advanceOutput) f address := by
  cases address with
  | none =>
      refine .inl ?_
      simp only [noteRetr, hget, Option.any_some, Bool.or_eq_true]
      exact h
  | some adr =>
      refine ⟨?_, .inl rfl⟩
      simp only [noteRetr, hget, Option.any_some, h.1, asksFor_eq_false h.2, Bool.or_false]

theorem Retrieving.of_idle (h : awaitsFile s.state = false) : Retrieving s n := by
  refine ⟨?_, ?_, ?_⟩
  all_goals
    intro hst
    rw [hst] at h
    cases h

theorem Retrieving.of_eq (h : Retrieving s n) (hstate : s'.state = s.state) (hbuf : s'.obuf = s.obuf)
    (hlen : s'.obuflen = s.obuflen) (hfname : s'.fname = s.fname) : Retrieving s' n := by
  refine ⟨?_, ?_, ?_⟩
  · intro hst
    obtain ⟨f, hget, hf⟩ := h.pasv (hstate.symm.trans hst)
    exact ⟨f, hget, hfname.trans hf⟩
  · intro hst
    obtain ⟨f, adr, hget, ha⟩ := h.port (hstate.symm.trans hst)
    exact ⟨f, adr, hget, ha.of_eq hbuf hlen⟩
  · intro hst
    obtain ⟨f, adr, hget, ha⟩ := h.retr (hstate.symm.trans hst)
    exact ⟨f, adr, hget, ha.of_eq hbuf hlen⟩

theorem Retrieving.advanceOutput (h : Retrieving s n) :
    Retrieving s.advanceOutput (noteRetr n s .advanceOutput s.advanceOutput) := by
  refine ⟨h.pasv, ?_, ?_⟩
  · intro hst
    obtain ⟨f, adr, hget, ha⟩ := h.port hst
    exact ⟨f, adr, hget, ha.advanceOutput hget⟩
  · intro hst
    obtain ⟨f, adr, hget, ha⟩ := h.retr hst
    exact ⟨f, adr, hget, ha.advanceOutput hget⟩

theorem noteRetr_op_refused (h : s.accepts o = false) : noteRetr n s (.op o) s' = n := by
  cases o with
  | get f adr => rw [noteRetr, h, if_neg Bool.false_ne_true]
  | login | quit | cd | size | type | ls => rfl

theorem Retrieving.op (h : Retrieving s n) (hd : s.Disciplined) (hs : s.step (.op o) = some s') :
    Retrieving s' (noteRetr n s (.op o) s') := by
  rcases step_op_cases hd hs with ⟨hno, rfl⟩ | ⟨hyes, hi⟩
  · rw [noteRetr_op_refused hno]
    exact h
  · cases hi with
    | loginEarly u p hst => exact .of_idle (hst ▸ rfl)
    | login | cd | type | size => exact .of_idle rfl
    | getPasv f =>
        rw [noteRetr, hyes, if_pos rfl]
        exact ⟨fun _ => ⟨f, rfl, rfl⟩, nofun, nofun⟩
    | getPort f adr =>
        rw [noteRetr, hyes, if_pos rfl]
        exact ⟨nofun, fun _ => ⟨f, adr, rfl, rfl, .inr rfl⟩, nofun⟩

/-- The reply after which the get waits for its file. -/
theorem Retrieving.entered (h : Retrieving s n) (hr : Reply (s.saveStatus ibuf) ibuf (atoi ibuf.text) e s')
    (hbefore : s.state ≠ .retr) (hafter : s'.state = .retr) :
    ∃ f adr, n.get = some (f, adr) ∧ Asked s' n f adr ∧ (s'.asksFor f = true ↔ adr = none) := by
  cases hr with
  | portOk hst =>
      obtain ⟨f, adr, hget, ha⟩ := h.port hst
      refine ⟨f, some adr, hget, ha, iff_of_false ?_ nofun⟩
      have hno := asksFor_eq_false ha.2 f
      exact fun hasks => Bool.false_ne_true (hno.symm.trans hasks)
  | pasvOk address hst =>
      obtain ⟨f, hget, hf⟩ := h.pasv hst
      refine ⟨f, none, hget, .inr ?_, iff_of_true ?_ rfl⟩
      all_goals
        rw [← hf]
        exact asksFor_retrLine _
  | retrMark hst => exact absurd hst hbefore
  | unexpected => exact absurd hafter hbefore
  | helloUser | hello | refused | askPass | loggedIn | loginFailed | done | abandoned | retrDone =>
      cases hafter

theorem Retrieving.reply (h : Retrieving s n)
    (hr : Reply (s.saveStatus ibuf) ibuf (atoi ibuf.text) e s') : Retrieving s' n := by
  by_cases hretr : s'.state = .retr
  · refine ⟨?_, ?_, fun _ => ?_⟩
    · intro hst
      cases hretr.symm.trans hst
    · intro hst
      cases hretr.symm.trans hst
    · by_cases hbefore : s.state = .retr
      · have hsave : (s.saveStatus ibuf).state = .retr := hbefore
        cases hr with
        | retrMark => exact h.retr hbefore
        | portOk hst | pasvOk _ hst => cases hsave.symm.trans hst
        | unexpected hst => simp [hsave] at hst
        | helloUser | hello | refused | askPass | loggedIn | loginFailed | done | abandoned | retrDone =>
            cases hretr
      · obtain ⟨f, adr, hget, ha, _⟩ := h.entered hr hbefore hretr
        exact ⟨f, adr, hget, ha⟩
  · cases hr with
    | portOk | pasvOk => exact absurd rfl hretr
    | retrMark hst => exact absurd hst hretr
    | unexpected => exact h.of_eq rfl rfl rfl rfl
    | helloUser | hello | refused | askPass | loggedIn | loginFailed | done | abandoned | retrDone =>
        exact .of_idle rfl

theorem retrieving_of_run (h : Run retrs (fun _ _ _ => True) s n) : s.Disciplined ∧ Retrieving s n := by
  refine run_keeps rfl ?_ ?_ ?_ ?_ ?_ h
  · intro s n hx
    obtain ⟨⟨s₀, rfl⟩, rfl⟩ := hx
    exact ⟨⟨s₀, rfl⟩, .of_idle rfl⟩
  · exact fun s n o s' hd hn _ hs => hn.op hd hs
  · exact fun s n hn => hn.advanceOutput
  · intro s n hn
    rcases isPortReady_cases s with heq | heq
    · rw [heq]
      exact hn
    · rw [heq]
      exact hn.of_eq rfl rfl rfl rfl
  · intro s n ibuf e s' hd hn _ hg
    rcases giveInput_cases hd hg with ⟨_, _, rfl⟩ | ⟨_, hr⟩
    · exact hn.of_eq rfl rfl rfl rfl
    · exact hn.reply hr

/-- A step that makes the get wait for its file takes a reply. -/
theorem reply_of_entering {c : Call} (hd : s.Disciplined) (hs : s.step c = some s')
    (hbefore : s.state ≠ .retr) (hafter : s'.state = .retr) :
    ∃ ibuf e, Reply (s.saveStatus ibuf) ibuf (atoi ibuf.text) e s' := by
  cases c with
  | op o =>
      rcases step_op_cases hd hs with ⟨_, rfl⟩ | ⟨_, hi⟩
      · exact absurd hafter hbefore
      · cases hi with
        | loginEarly u p hst => cases hst.symm.trans hafter
        | login | cd | type | size | getPasv | getPort => cases hafter
  | advanceOutput =>
      cases hs
      exact absurd hafter hbefore
  | isPortReady =>
      cases hs
      rcases isPortReady_cases s with heq | heq
      · rw [heq] at hafter
        exact absurd hafter hbefore
      · rw [heq] at hafter
        exact absurd hafter hbefore
  | giveInput ibuf =>
      obtain ⟨⟨e, t⟩, hg, rfl⟩ := Option.map_eq_some_iff.1 hs
      rcases giveInput_cases hd hg with ⟨_, _, rfl⟩ | ⟨_, hr⟩
      · exact absurd hafter hbefore
      · exact ⟨ibuf, e, hr⟩

/-- Where a get comes to wait for its file, the line that asks for it is queued, and while
it waits the line is queued or was sent, if and only if the get is in passive mode. -/
theorem retr_asked_iff (h : Run retrs (fun _ _ _ => True) s n) :
    (∀ c s', s.step c = some s' → s.state ≠ .retr → s'.state = .retr →
      ∃ f adr, n.get = some (f, adr) ∧ (s'.asksFor f = true ↔ adr = none)) ∧
    (s.state = .retr →
      ∃ f adr, n.get = some (f, adr) ∧ ((n.sent = true ∨ s.asksFor f = true) ↔ adr = none)) := by
  obtain ⟨hd, hn⟩ := retrieving_of_run h
  constructor
  · intro c s' hs hbefore hafter
    obtain ⟨ibuf, e, hr⟩ := reply_of_entering hd hs hbefore hafter
    obtain ⟨f, adr, hget, _, hiff⟩ := hn.entered hr hbefore hafter
    exact ⟨f, adr, hget, hiff⟩
  · intro hst
    obtain ⟨f, adr, hget, ha⟩ := hn.retr hst
    exact ⟨f, adr, hget, ha.iff⟩

end

/-- A get in passive mode, up to its line RETR. -/
theorem retr_asked_passive : ∃ (s : FtpClientProto) (n : RetrNotes),
    zeroed.init.run [earlyLogin, hello, .advanceOutput, welcome, getFile, .advanceOutput,
      passive "227 (1,2,3,4,5,6)" (by decide)] = some s ∧
    ∃ f adr, n.get = some (f, adr) ∧ ((n.sent = true ∨ s.asksFor f = true) ↔ adr = none) := by
  have h0 : Run retrs (fun _ _ _ => True) zeroed.init ⟨none, false⟩ := .start ⟨⟨zeroed, rfl⟩, rfl⟩
  have h1 := h0.next (k := earlyLogin) trivial rfl
  have h2 := h1.next (k := hello) trivial rfl
  have h3 := h2.next (k := Call.advanceOutput) trivial rfl
  have h4 := h3.next (k := welcome) trivial rfl
  have h5 := h4.next (k := getFile) trivial rfl
  have h6 := h5.next (k := Call.advanceOutput) trivial rfl
  have h7 := h6.next (k := passive "227 (1,2,3,4,5,6)" (by decide)) trivial rfl
  exact ⟨_, _, rfl, (retr_asked_iff h7).2 rfl⟩

/-- A get for a port that listens already. -/
def getActive : Call := .op (.get ⟨ascii "f", no_nul_f⟩ (some ⟨AF_INET, 0, 0⟩))

/-- A get in active mode waits for its file without asking for it. -/
theorem retr_not_asked_active : ¬ ∀ (s s' : FtpClientProto) (n : RetrNotes) (c : Call),
    Run retrs (fun _ _ _ => True) s n → s.step c = some s' → s.state ≠ .retr → s'.state = .retr →
    ∃ f adr, n.get = some (f, adr) ∧ s'.asksFor f = true := by
  intro hall
  have h0 : Run retrs (fun _ _ _ => True) zeroed.init ⟨none, false⟩ := .start ⟨⟨zeroed, rfl⟩, rfl⟩
  have h1 := h0.next (k := earlyLogin) trivial rfl
  have h2 := h1.next (k := hello) trivial rfl
  have h3 := h2.next (k := Call.advanceOutput) trivial rfl
  have h4 := h3.next (k := welcome) trivial rfl
  have h5 := h4.next (k := getActive) trivial rfl
  have h6 := h5.next (k := Call.advanceOutput) trivial rfl
  obtain ⟨f, adr, _, hasks⟩ := hall _ _ _ (passive "200 ok" (by decide)) h6 rfl (by decide) rfl
  cases hasks

end Dkftpbench.FtpClientProto
