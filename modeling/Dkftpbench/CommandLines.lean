import Dkftpbench.OutputQueue
import Dkftpbench.PasvReply

/-!
# One call, one command line

A command line has the caller's text between its verb and its end. The text is copied as it
is, so a line end in it makes two lines of one; and only the file name of a get is measured
before. The password is cut off where its array ends.
-/
namespace Dkftpbench.FtpClientProto
open CLib Watch

/-- What a line should say: a verb, and the text of the caller where the verb takes one. -/
structure Command where
  verb : List Byte
  arg : Option (List Byte)

def Command.text (m : Command) : List Byte := m.verb ++ (m.arg.map (SPACE :: ·)).getD []

/-- The password given to the last login accepted, and the file name given to the last get. -/
structure Credentials where
  password : List Byte
  fname : List Byte

def noteCredentials (n : Credentials) (s : FtpClientProto) : Call → FtpClientProto → Credentials
  | .op (.login u p), _ => if s.accepts (.login u p) then { n with password := p.1 } else n
  | .op (.get f adr), _ => if s.accepts (.get f adr) then { n with fname := f.1 } else n
  | _, _ => n

/-- Runs from `init`, with what was given for later lines. -/
def credentials : System FtpClientProto Call Credentials where
  start s _ := ∃ s₀, s = init s₀
  step s c s' := s.step c = some s'
  note := noteCredentials

/-- The command for an operation. -/
def opCommand : Op → Command
  | .login u _ => ⟨ascii "USER", some u.1⟩
  | .quit => ⟨ascii "QUIT", none⟩
  | .cd dir => if dir.1 = ascii ".." then ⟨ascii "CDUP", none⟩ else ⟨ascii "CWD", some dir.1⟩
  | .size f => ⟨ascii "SIZE", some f.1⟩
  | .type t => ⟨ascii "TYPE", some t.1⟩
  | .ls _ _ => ⟨ascii "LIST", none⟩
  | .get _ none => ⟨ascii "PASV", none⟩
  | .get _ (some adr) => ⟨ascii "PORT " ++ commas ((portNumbers adr).map decimal), none⟩

/-- The command that a call should queue. -/
def meant (n : Credentials) (s : FtpClientProto) : Call → Command
  | .op o => opCommand o
  | .giveInput _ =>
    if s.state = .user then ⟨ascii "PASS", some n.password⟩ else ⟨ascii "RETR", some n.fname⟩
  | _ => ⟨[], none⟩

/-- The output is the line of that command, and nothing else. -/
structure OneLine (s : FtpClientProto) (m : Command) : Prop where
  line : s.obuf = m.text ++ crlf
  length : s.obuflen = s.obuf.length
  single : CR ∉ m.text ∧ LF ∉ m.text
  fits : s.obuflen ≤ lineLen

/-- The longest text that the line of the verb has room for. -/
def room (verb : List Byte) : ℕ :=
  if verb = ascii "PASS" then maxPassword-1 else lineLen-(verb.length+3)

/-- The text of the caller has no line end, and there is room for it. -/
structure Sendable (m : Command) : Prop where
  clean : ∀ a ∈ m.arg, CR ∉ a ∧ LF ∉ a
  short : ∀ a ∈ m.arg, a.length ≤ room m.verb

/-- What was given for later lines is what was saved. -/
structure Saved (s : FtpClientProto) (n : Credentials) : Prop where
  password : s.state = .user ∨ s.state = .pass ∨ s.state = .init ∧ s.sentUser = true →
    s.password = n.password.take (maxPassword-1)
  fname : s.state = .pasv → s.fname = n.fname

section
variable {s s' : FtpClientProto} {n : Credentials} {m : Command} {ibuf : Line} {o : Op} {c : Call} {e : ℤ}
variable {verb a : List Byte}

theorem text_some : Command.text ⟨verb, some a⟩ = verb ++ SPACE :: a := rfl

theorem text_none : Command.text ⟨verb, none⟩ = verb := List.append_nil verb

/-- A verb of a few bytes without a line end. -/
structure Verb (verb : List Byte) : Prop where
  clean : CR ∉ verb ∧ LF ∉ verb
  short : verb.length+3 ≤ lineLen

/-- A line that was made of the caller's text as it is. -/
theorem oneLine_iff (hverb : Verb verb) (hbuf : s.obuf = Command.text ⟨verb, some a⟩ ++ crlf)
    (hlen : s.obuflen = s.obuf.length) :
    OneLine s ⟨verb, some a⟩ ↔ (CR ∉ a ∧ LF ∉ a) ∧ a.length ≤ lineLen-(verb.length+3) := by
  have hlength : s.obuflen = verb.length+3+a.length := by
    rw [hlen, hbuf, text_some]
    simp only [List.length_append, List.length_cons, crlf, List.length_nil]
    omega
  have hshort := hverb.short
  have hclean : (CR ∉ Command.text ⟨verb, some a⟩ ∧ LF ∉ Command.text ⟨verb, some a⟩) ↔ CR ∉ a ∧ LF ∉ a := by
    have hcr : CR ≠ SPACE := by decide
    have hlf : LF ≠ SPACE := by decide
    simp only [text_some, List.mem_append, List.mem_cons, hverb.clean, hcr, hlf, false_or]
  constructor
  · intro h
    have hfits := h.fits
    exact ⟨hclean.1 h.single, by omega⟩
  · rintro ⟨hsingle, hroom⟩
    exact ⟨hbuf, hlen, hclean.2 hsingle, by omega⟩

theorem sendable_some : Sendable ⟨verb, some a⟩ ↔ (CR ∉ a ∧ LF ∉ a) ∧ a.length ≤ room verb := by
  constructor
  · intro h
    exact ⟨h.clean a rfl, h.short a rfl⟩
  · rintro ⟨hclean, hshort⟩
    constructor
    · intro b hb
      cases hb
      exact hclean
    · intro b hb
      cases hb
      exact hshort

theorem oneLine_iff_sendable (hverb : Verb verb) (hpass : verb ≠ ascii "PASS")
    (hbuf : s.obuf = Command.text ⟨verb, some a⟩ ++ crlf) (hlen : s.obuflen = s.obuf.length) :
    OneLine s ⟨verb, some a⟩ ↔ Sendable ⟨verb, some a⟩ := by
  rw [oneLine_iff hverb hbuf hlen, sendable_some, room, if_neg hpass]

/-- A line without a text of the caller. -/
theorem oneLine_none (hverb : Verb verb) (hbuf : s.obuf = verb ++ crlf) (hlen : s.obuflen = s.obuf.length) :
    OneLine s ⟨verb, none⟩ ↔ Sendable ⟨verb, none⟩ := by
  refine iff_of_true ⟨?_, hlen, ?_, ?_⟩ ⟨nofun, nofun⟩
  · rw [text_none, hbuf]
  · rw [text_none]
    exact hverb.clean
  · have hshort := hverb.short
    rw [hlen, hbuf, List.length_append]
    simp only [crlf, List.length_cons, List.length_nil]
    omega

theorem verb_port (adr : SockaddrIn) : Verb (ascii "PORT " ++ commas ((portNumbers adr).map decimal)) := by
  have hdigits : ∀ d ∈ (portNumbers adr).map decimal, Digits d := by
    intro d hd
    obtain ⟨k, -, rfl⟩ := List.mem_map.1 hd
    exact (decimal_spec k).1
  have hshort : ∀ d ∈ (portNumbers adr).map decimal, d.length ≤ 3 := by
    intro d hd
    obtain ⟨k, hk, rfl⟩ := List.mem_map.1 hd
    exact length_decimal_le (by decide) (lt_trans (portNumbers_lt k hk) (by decide))
  refine ⟨⟨?_, ?_⟩, ?_⟩
  · rw [List.mem_append]
    exact fun hin => hin.elim (by decide) (notMem_commas hdigits (by decide) (by decide))
  · rw [List.mem_append]
    exact fun hin => hin.elim (by decide) (notMem_commas hdigits (by decide) (by decide))
  · have hlen := length_commas_le hshort
    have hsix : ((portNumbers adr).map decimal).length = 6 := rfl
    have hverb : (ascii "PORT ").length = 5 := by decide
    rw [List.length_append, hverb, lineLen]
    omega

/-- The line of an operation is the command's where the command can be sent. -/
theorem Issued.oneLine_iff (hi : Issued s o s') : OneLine s' (opCommand o) ↔ Sendable (opCommand o) := by
  cases hi with
  | loginEarly u p | login u p => exact oneLine_iff_sendable ⟨by decide, by decide⟩ (by decide) rfl rfl
  | type t => exact oneLine_iff_sendable ⟨by decide, by decide⟩ (by decide) rfl rfl
  | size f => exact oneLine_iff_sendable ⟨by decide, by decide⟩ (by decide) rfl rfl
  | cd dir =>
      rw [opCommand]
      split
      · next hdots =>
        have hline : cdLine dir = ascii "CDUP" ++ crlf := if_pos hdots
        exact oneLine_none ⟨by decide, by decide⟩ hline rfl
      · next hdots =>
        have hline : cdLine dir = Command.text ⟨ascii "CWD", some dir.1⟩ ++ crlf := if_neg hdots
        exact oneLine_iff_sendable ⟨by decide, by decide⟩ (by decide) hline rfl
  | getPasv f => exact oneLine_none ⟨by decide, by decide⟩ rfl rfl
  | getPort f adr => exact oneLine_none (verb_port adr) rfl rfl

/-- The password is cut off after 31 bytes. -/
theorem oneLine_pass_iff {p : List Byte} (hbuf : s.obuf = ascii "PASS " ++ p.take (maxPassword-1) ++ crlf)
    (hlen : s.obuflen = s.obuf.length) :
    OneLine s ⟨ascii "PASS", some p⟩ ↔ Sendable ⟨ascii "PASS", some p⟩ := by
  have hverb : Verb (ascii "PASS") := ⟨by decide, by decide⟩
  by_cases hp : p.length ≤ maxPassword-1
  · rw [List.take_of_length_le hp] at hbuf
    have hline : s.obuf = Command.text ⟨ascii "PASS", some p⟩ ++ crlf := hbuf
    rw [oneLine_iff hverb hline hlen, sendable_some, room, if_pos rfl]
    have hroom : p.length ≤ lineLen-((ascii "PASS").length+3) := le_trans hp (by decide)
    simp only [hroom, hp]
  · refine iff_of_false (fun h => hp ?_) fun h => hp (h.short p rfl)
    have hline := congrArg List.length (hbuf.symm.trans h.line)
    have hlong : (ascii "PASS ").length = (ascii "PASS").length+1 := by decide
    simp only [text_some, List.length_append, List.length_cons, List.length_take] at hline
    omega

theorem Saved.of_eq (h : Saved s n) (hstate : s'.state = s.state) (hsent : s'.sentUser = s.sentUser)
    (hpassword : s'.password = s.password) (hfname : s'.fname = s.fname) : Saved s' n := by
  constructor
  · rw [hstate, hsent, hpassword]
    exact h.password
  · rw [hstate, hfname]
    exact h.fname

theorem Saved.op (h : Saved s n) (hd : s.Disciplined) (hs : s.step (.op o) = some s') :
    Saved s' (noteCredentials n s (.op o) s') := by
  rcases step_op_cases hd hs with ⟨hno, rfl⟩ | ⟨hyes, hi⟩
  · have hnote : noteCredentials n s' (.op o) s' = n := by
      cases o <;> simp [noteCredentials, hno]
    rw [hnote]
    exact h
  · cases hi with
    | loginEarly u p hst =>
        rw [noteCredentials, if_pos hyes]
        exact ⟨fun _ => rfl, fun hpasv => absurd (hst.symm.trans hpasv) (by decide)⟩
    | login u p =>
        rw [noteCredentials, if_pos hyes]
        exact ⟨fun _ => rfl, fun hpasv => by cases hpasv⟩
    | cd | type | size => exact ⟨by simp [setState], fun hpasv => by cases hpasv⟩
    | getPasv f =>
        rw [noteCredentials, if_pos hyes]
        exact ⟨by simp [pushState], fun _ => rfl⟩
    | getPort f adr =>
        rw [noteCredentials, if_pos hyes]
        exact ⟨by simp [pushState], fun hpasv => by cases hpasv⟩

theorem Saved.reply (h : Saved s n) (hr : Reply (s.saveStatus ibuf) ibuf (atoi ibuf.text) e s') : Saved s' n := by
  cases hr with
  | helloUser hst _ hsent => exact ⟨fun _ => h.password (.inr (.inr ⟨hst, hsent⟩)), fun hpasv => by cases hpasv⟩
  | askPass hst => exact ⟨fun _ => h.password (.inl hst), fun hpasv => by cases hpasv⟩
  | loginFailed hst =>
      have hlogin : s.state = .user ∨ s.state = .pass := hst.imp And.left id
      exact ⟨fun _ => h.password (hlogin.imp id .inl), fun hpasv => by cases hpasv⟩
  | retrMark | unexpected => exact h.of_eq rfl rfl rfl rfl
  | hello | refused | loggedIn | done | portOk | pasvOk | abandoned | retrDone =>
      exact ⟨by simp [setState, popped, putLine], fun hpasv => by cases hpasv⟩

theorem saved_of_run (h : Run credentials (fun _ _ _ => True) s n) : s.Disciplined ∧ Saved s n := by
  refine run_keeps (I := Saved) rfl ?_ ?_ ?_ ?_ ?_ h
  · intro s n hx
    obtain ⟨s₀, rfl⟩ := hx
    exact ⟨⟨s₀, rfl⟩, by simp [init], nofun⟩
  · exact fun s n o s' hd hn _ hs => hn.op hd hs
  · exact fun s n hn => hn.of_eq rfl rfl rfl rfl
  · intro s n hn
    rcases isPortReady_cases s with heq | heq
    · rw [heq]
      exact hn
    · rw [heq]
      exact hn.of_eq rfl rfl rfl rfl
  · intro s n ibuf e s' hd hn _ hg
    rcases giveInput_cases hd hg with ⟨_, _, rfl⟩ | ⟨_, hr⟩
    · exact hn.of_eq rfl rfl rfl rfl
    · exact hn.reply hr

/-- The line that a reply asks for. -/
theorem Saved.asked (h : Saved s n) (hd : s.Disciplined) (hq : s.asksMore ibuf = true)
    (hg : s.giveInput ibuf = some (e, s')) :
    OneLine s' (meant n s (.giveInput ibuf)) ↔ Sendable (meant n s (.giveInput ibuf)) := by
  have hlf := lf_notMem_of_giveInput hg
  simp only [asksMore, Bool.and_eq_true, Bool.or_eq_true, Bool.not_eq_true', beq_iff_eq] at hq
  obtain ⟨hm, ⟨hst, h3⟩ | ⟨⟨hst, h2⟩, hp⟩⟩ := hq
  · rw [giveInput_user hst hm hlf, is2xx_of_is3xx h3, h3] at hg
    cases hg
    rw [meant, if_pos hst]
    have hpassword := h.password (.inl hst)
    exact oneLine_pass_iff (by rw [← hpassword]; rfl) rfl
  · rcases giveInput_pasv hd hst hm hlf h2 with ⟨a, ha, hg'⟩ | ⟨hnone, -⟩
    · cases hg'.symm.trans hg
      rw [meant, if_neg (by simp [hst])]
      have hfname := h.fname hst
      exact oneLine_iff_sendable ⟨by decide, by decide⟩ (by decide) (by rw [← hfname]; rfl) rfl
    · rw [hnone] at hp
      cases hp

/-- Every call that queues a line queues the one line of its command, exactly where the text
in it has no line end and there is room for it. -/
theorem one_line_iff (h : Run credentials (fun _ _ _ => True) s n) (hq : s.queues c = true)
    (hs : s.step c = some s') : OneLine s' (meant n s c) ↔ Sendable (meant n s c) := by
  obtain ⟨hd, hsaved⟩ := saved_of_run h
  cases c with
  | op o =>
      rcases step_op_cases hd hs with ⟨hno, -⟩ | ⟨-, hi⟩
      · cases hno.symm.trans hq
      · exact hi.oneLine_iff
  | advanceOutput | isPortReady => cases hq
  | giveInput ibuf =>
      obtain ⟨⟨e, t⟩, hg, rfl⟩ := Option.map_eq_some_iff.1 hs
      exact hsaved.asked hd hq hg

end

theorem one_line_login : ∃ s, zeroed.init.step earlyLogin = some s ∧ OneLine s ⟨ascii "USER", some (ascii "u")⟩ := by
  have h0 : Run credentials (fun _ _ _ => True) zeroed.init ⟨[], []⟩ := .start ⟨zeroed, rfl⟩
  have hsendable : Sendable (meant ⟨[], []⟩ zeroed.init earlyLogin) := sendable_some.2 (by decide)
  exact ⟨_, rfl, (one_line_iff h0 (by decide) rfl).2 hsendable⟩

/-- A user name of two lines is sent as two commands. -/
theorem two_lines_login : ¬ ∀ (s s' : FtpClientProto) (n : Credentials) (c : Call),
    Run credentials (fun _ _ _ => True) s n → s.queues c = true → s.step c = some s' → OneLine s' (meant n s c) := by
  intro hall
  have h0 : Run credentials (fun _ _ _ => True) zeroed.init ⟨[], []⟩ := .start ⟨zeroed, rfl⟩
  have honly := (hall _ _ _ (.op (.login ⟨ascii "u" ++ crlf ++ ascii "DELE f", by decide⟩ ⟨ascii "p", no_nul_p⟩)) h0
    (by decide) rfl).single
  revert honly
  decide

end Dkftpbench.FtpClientProto
