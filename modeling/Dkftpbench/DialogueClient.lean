import Dkftpbench.Dialogue

/-!
# What the client asks for and what a reply does

Every operation that is accepted adds one request to those awaited and queues its line. A
final reply takes away the oldest one; two of them have the client queue another line, and
after one of them it awaits the reply to a line that it does not queue.
-/
namespace Dkftpbench.Dialogue
open CLib FtpClientProto

/-- The line is queued, and it is one line. -/
structure Sends (s : FtpClientProto) (line : List Byte) : Prop where
  single : LF ∉ line
  buf : s.obuf = line ++ [LF]
  length : s.obuflen = s.obuf.length

/-- The texts kept for later lines are plain, and one line at most is queued. -/
structure Ready (s : FtpClientProto) : Prop where
  disciplined : s.Disciplined
  output : s.obuflen = 0 ∨ ∃ line, Sends s line
  password : s.state = .user ∨ s.sentUser = true → LF ∉ s.password
  fname : s.state = .pasv → LF ∉ s.fname
  early : s.sentUser = true → s.state = .init ∨ s.state = .uninit

/-- A final reply answers the oldest request and leaves the others. -/
inductive Taken (s s' : FtpClientProto) (status : ℤ) (request : Request) (others : List Request) : Prop
  | hungUp : request = .hello → s'.state = .uninit → Taken s s' status request others
  | waits : request = .port → is2xx status = true → s'.state = .retr → s'.getOutput = s.getOutput →
      Taken s s' status request others
  | quiet : (request = .port → is2xx status = false) → s'.state ≠ .uninit → awaited s' = others →
      s'.getOutput = s.getOutput → Taken s s' status request others
  | asks (line : List Byte) : request ≠ .port → Sends s' line → others = [] → awaited s' = [.ofLine line] →
      Taken s s' status request others

section
variable {line part rest out : List Byte} {ls : List (List Byte)}

theorem cutLine_append (h : LF ∉ line) : cutLine (line ++ LF :: rest) = some (line, rest) := by
  induction line with
  | nil => rfl
  | cons c cs ih =>
      rw [List.mem_cons, not_or] at h
      rw [List.cons_append, cutLine, if_neg (Ne.symm h.1), ih h.2]
      rfl

theorem requestsFrom_append (h : LF ∉ line) :
    requestsFrom part (line ++ LF :: rest) = .ofLine (part ++ line) :: requestsFrom [] rest := by
  induction line generalizing part with
  | nil => simp [requestsFrom]
  | cons c cs ih =>
      rw [List.mem_cons, not_or] at h
      rw [List.cons_append, requestsFrom, if_neg (Ne.symm h.1), ih h.2]
      simp

/-- The bytes of lines. -/
def bytes (ls : List (List Byte)) : List Byte := ls.flatMap (· ++ [LF])

theorem bytes_cons : bytes (line :: ls) = line ++ LF :: bytes ls := by simp [bytes]

theorem bytes_concat : bytes (ls ++ [line]) = bytes ls ++ (line ++ [LF]) := by simp [bytes]

theorem requestsFrom_bytes (h : ∀ l ∈ ls, LF ∉ l) : requestsFrom [] (bytes ls) = ls.map .ofLine := by
  induction ls with
  | nil => rfl
  | cons line ls ih =>
      rw [bytes_cons, requestsFrom_append (h line List.mem_cons_self), ih fun l hl => h l (.tail _ hl)]
      rfl

theorem ofLine_user (a : List Byte) : Request.ofLine (ascii "USER " ++ a ++ [CR]) = .user := rfl
theorem ofLine_pass (a : List Byte) : Request.ofLine (ascii "PASS " ++ a ++ [CR]) = .pass := rfl
theorem ofLine_cwd (a : List Byte) : Request.ofLine (ascii "CWD " ++ a ++ [CR]) = .cwd := rfl
theorem ofLine_type (a : List Byte) : Request.ofLine (ascii "TYPE " ++ a ++ [CR]) = .type := rfl
theorem ofLine_size (a : List Byte) : Request.ofLine (ascii "SIZE " ++ a ++ [CR]) = .size := rfl
theorem ofLine_port (a : List Byte) : Request.ofLine (ascii "PORT " ++ a ++ [CR]) = .port := rfl
theorem ofLine_retr (a : List Byte) : Request.ofLine (ascii "RETR " ++ a ++ [CR]) = .retr := rfl

end

section
variable {s s' t : FtpClientProto} {line a : List Byte} {o : Op} {ibuf : Line} {e : ℤ} {request : Request}
variable {others : List Request}

theorem unsent_congr (h : s'.getOutput = s.getOutput) : unsent s' = unsent s := by rw [unsent, unsent, h]

theorem unsent_of_empty (h : s.obuflen = 0) : unsent s = [] := by simp [unsent, getOutput, isOutputReady, h]

theorem Sends.getOutput (h : Sends s line) : s.getOutput = some (line ++ [LF], (line ++ [LF]).length) :=
  getOutput_of_line (by simp) h.buf (by rw [h.length, h.buf])

theorem Sends.unsent (h : Sends s line) : unsent s = [.ofLine line] := by
  rw [Dialogue.unsent, h.getOutput]
  exact requestsFrom_append h.single

/-- A line made of a verb and a text. -/
theorem sends_of (verb : String) (hverb : LF ∉ ascii verb) (ha : LF ∉ a) (hbuf : s.obuf = ascii verb ++ a ++ crlf)
    (hlen : s.obuflen = s.obuf.length) : Sends s (ascii verb ++ a ++ [CR]) where
  single := by
    rw [List.mem_append, List.mem_append]
    rintro ((h | h) | h)
    · exact hverb h
    · exact ha h
    · revert h
      decide
  buf := by rw [hbuf, List.append_assoc]; simp [crlf]
  length := hlen

theorem lf_notMem_take {n : ℕ} (h : LF ∉ a) : LF ∉ a.take n := fun hin => h (List.mem_of_mem_take hin)

/-- An accepted operation asks for one thing more. -/
theorem asks_of_issued (hi : Issued s o s') (hplain : Plain o) (hfresh : s.state = .init → s.status = 0) :
    ∃ line, Sends s' line ∧ awaited s' = awaited s ++ [.ofLine line] := by
  cases hi with
  | loginEarly u p hst hsent hlen =>
      refine ⟨_, sends_of "USER " (by decide) hplain.1 rfl rfl, ?_⟩
      have h0 := hfresh hst
      rw [ofLine_user]
      simp [awaited, queueUser, putLine, hst, hsent, h0]
  | login u p hst hsent hlen =>
      refine ⟨_, sends_of "USER " (by decide) hplain.1 rfl rfl, ?_⟩
      rw [ofLine_user]
      simp [awaited, setState, hst]
  | cd dir hst hlen =>
      by_cases hdots : dir.1 = ascii ".."
      · have hline : cdLine dir = ascii "CDUP" ++ [] ++ crlf := if_pos hdots
        refine ⟨_, sends_of "CDUP" (by decide) List.not_mem_nil hline rfl, ?_⟩
        simp only [awaited, setState, hst]
        rfl
      · have hline : cdLine dir = ascii "CWD " ++ dir.1 ++ crlf := if_neg hdots
        refine ⟨_, sends_of "CWD " (by decide) hplain hline rfl, ?_⟩
        rw [ofLine_cwd]
        simp [awaited, setState, hst]
  | type ttype hst hlen =>
      refine ⟨_, sends_of "TYPE " (by decide) hplain rfl rfl, ?_⟩
      rw [ofLine_type]
      simp [awaited, setState, hst]
  | size f hst hlen =>
      refine ⟨_, sends_of "SIZE " (by decide) hplain rfl rfl, ?_⟩
      rw [ofLine_size]
      simp [awaited, setState, hst]
  | getPasv f hst hlen =>
      refine ⟨_, sends_of "PASV" (by decide) List.not_mem_nil rfl rfl, ?_⟩
      simp only [awaited, pushState, hst]
      rfl
  | getPort f adr hst hlen =>
      have hclean : LF ∉ ascii "PORT " ++ commas ((portNumbers adr).map decimal) := (verb_port adr).clean.2
      rw [List.mem_append, not_or] at hclean
      refine ⟨_, sends_of "PORT " (by decide) hclean.2 rfl rfl, ?_⟩
      rw [ofLine_port]
      simp [awaited, pushState, hst]

theorem ready_of_issued (hi : Issued s o s') (h : Ready s) (hplain : Plain o)
    (hfresh : s.state = .init → s.status = 0) : Ready s' := by
  obtain ⟨line, hline, -⟩ := asks_of_issued hi hplain hfresh
  refine ⟨hi.disciplined h.disciplined, .inr ⟨line, hline⟩, ?_, ?_, ?_⟩
  · cases hi with
    | loginEarly u p | login u p => exact fun _ => lf_notMem_take hplain.2
    | cd | type | size | getPasv | getPort =>
        rintro (hst | hsent)
        · cases hst
        · exact h.password (.inr hsent)
  · cases hi with
    | getPasv f => exact fun _ => hplain
    | loginEarly u p hst =>
        intro hpasv
        exact absurd (hst.symm.trans hpasv) (by decide)
    | login | cd | type | size | getPort =>
        intro hpasv
        cases hpasv
  · cases hi with
    | loginEarly u p hst => exact fun _ => .inl hst
    | login u p hst hsent =>
        intro htrue
        cases hsent.symm.trans htrue
    | cd dir hst | type t hst | size f hst | getPasv f hst | getPort f adr hst =>
        intro htrue
        rcases h.early htrue with hinit | hinit <;> cases hst.symm.trans hinit

theorem Taken.plain {status : ℤ} {r : Request} (hrequest : request = r) (hr : r ≠ .port) (hstate : s'.state ≠ .uninit)
    (hawaited : awaited s' = others) (hout : s'.getOutput = s.getOutput) : Taken s s' status request others :=
  .quiet (fun hport => absurd (hrequest.symm.trans hport) hr) hstate hawaited hout

/-- A final reply to the oldest request. -/
theorem taken_of_reply (hr : Reply (s.saveStatus ibuf) ibuf (atoi ibuf.text) e s') (h : Ready s)
    (hcode : atoi ibuf.text ≠ 0) (hfinal : is1xx (atoi ibuf.text) = false)
    (hq : awaited s = request :: others) : Taken s s' (atoi ibuf.text) request others := by
  have hstate : (s.saveStatus ibuf).state = s.state := rfl
  cases hr with
  | helloUser hst h2 hsent =>
      rw [hstate] at hst
      have hsent' : s.sentUser = true := hsent
      by_cases h0 : s.status = 0
      · simp only [awaited, hst, h0, hsent', if_true, List.cons.injEq] at hq
        exact .plain hq.1.symm (by decide) (fun hun => by cases hun) hq.2 rfl
      · simp [awaited, hst, h0] at hq
  | hello hst h2 hsent =>
      rw [hstate] at hst
      have hsent' : s.sentUser = false := hsent
      by_cases h0 : s.status = 0
      · simp only [awaited, hst, h0, hsent', if_true, Bool.false_eq_true, if_false, List.cons.injEq] at hq
        exact .plain hq.1.symm (by decide) (fun hun => by cases hun) hq.2 rfl
      · simp [awaited, hst, h0] at hq
  | refused hst h2 =>
      rw [hstate] at hst
      by_cases h0 : s.status = 0
      · simp only [awaited, hst, h0, if_true, List.cons.injEq] at hq
        exact .hungUp hq.1.symm rfl
      · simp [awaited, hst, h0] at hq
  | askPass hst h3 =>
      rw [hstate] at hst
      simp only [awaited, hst, List.cons.injEq] at hq
      have hsends := sends_of (s := ((s.saveStatus ibuf).putLine (ascii "PASS " ++ s.password ++ crlf)).setState .pass)
        "PASS " (by decide) (h.password (.inl hst)) rfl rfl
      exact .asks _ (by rw [← hq.1]; decide) hsends hq.2.symm (by rw [ofLine_pass]; rfl)
  | loggedIn hst h2 =>
      rw [hstate] at hst
      rcases hst with hst | hst <;> simp only [awaited, hst, List.cons.injEq] at hq <;>
        exact .plain hq.1.symm (by decide) (fun hun => by cases hun) hq.2 rfl
  | loginFailed hst h2 =>
      have hnone : awaited ((s.saveStatus ibuf).setState .init) = [] := if_neg hcode
      rw [hstate] at hst
      rcases hst with ⟨hst, _⟩ | hst <;> simp only [awaited, hst, List.cons.injEq] at hq <;>
        exact .plain hq.1.symm (by decide) (fun hun => by cases hun) (hnone.trans hq.2) rfl
  | done hst =>
      rw [hstate] at hst
      rcases hst with hst | hst | hst <;> simp only [awaited, hst, List.cons.injEq] at hq <;>
        exact .plain hq.1.symm (by decide) (fun hun => by cases hun) hq.2 rfl
  | portOk hst h2 =>
      rw [hstate] at hst
      simp only [awaited, hst, List.cons.injEq] at hq
      exact .waits hq.1.symm h2 rfl rfl
  | pasvOk address hst h2 hp =>
      rw [hstate] at hst
      simp only [awaited, hst, List.cons.injEq] at hq
      have hsends := sends_of (s := (((s.saveStatus ibuf).setAddress address).popped .retr).putLine
        (ascii "RETR " ++ s.fname ++ crlf)) "RETR " (by decide) (h.fname hst) rfl rfl
      exact .asks _ (by rw [← hq.1]; decide) hsends hq.2.symm (by rw [ofLine_retr]; rfl)
  | abandoned hst =>
      rw [hstate] at hst
      rcases hst with ⟨hst, h2⟩ | ⟨hst, _⟩
      · simp only [awaited, hst, List.cons.injEq] at hq
        exact .quiet (fun _ => h2) (fun hun => by cases hun) hq.2 rfl
      · simp only [awaited, hst, List.cons.injEq] at hq
        exact .plain hq.1.symm (by decide) (fun hun => by cases hun) hq.2 rfl
  | retrMark hst h1 => cases hfinal.symm.trans h1
  | retrDone hst _ =>
      rw [hstate] at hst
      simp only [awaited, hst, List.cons.injEq] at hq
      exact .plain hq.1.symm (by decide) (fun hun => by cases hun) hq.2 rfl
  | unexpected hst =>
      rw [hstate] at hst
      rcases hst with hst | hst | hst | hst <;> simp [awaited, hst] at hq

/-- The line queued and the texts kept stay as they are. -/
theorem Ready.of_kept (h : Ready s) (hdis : s'.Disciplined) (hbuf : s'.obuf = s.obuf) (hlen : s'.obuflen = s.obuflen)
    (hpassword : s'.state = .user ∨ s'.sentUser = true → s'.password = s.password ∧ (s.state = .user ∨ s.sentUser = true))
    (hfname : s'.state = .pasv → s'.fname = s.fname ∧ s.state = .pasv)
    (hearly : s'.sentUser = true → s'.state = .init ∨ s'.state = .uninit) : Ready s' where
  disciplined := hdis
  output := by
    rw [hlen]
    exact h.output.imp_right fun ⟨line, hline⟩ =>
      ⟨line, hline.single, hbuf.trans hline.buf, by rw [hlen, hbuf, hline.length]⟩
  password hx := by
    obtain ⟨heq, hx⟩ := hpassword hx
    exact heq ▸ h.password hx
  fname hx := by
    obtain ⟨heq, hx⟩ := hfname hx
    exact heq ▸ h.fname hx
  early := hearly

/-- The state is none in which `USER` may be sent. -/
theorem Ready.not_early (h : Ready s) (hinit : s.state ≠ .init) (huninit : s.state ≠ .uninit) : s.sentUser = false := by
  by_contra hsent
  rcases h.early (by simpa using hsent) with hst | hst
  · exact hinit hst
  · exact huninit hst

/-- A reply in this state may ask for a line with a text that was kept. -/
def usesText : Fcps → Bool
  | .user => true
  | .pasv => true
  | _ => false

theorem ready_of_sends (hdis : s'.Disciplined) (hline : Sends s' line) (hsent : s'.sentUser = false)
    (hstate : usesText s'.state = false) : Ready s' where
  disciplined := hdis
  output := .inr ⟨line, hline⟩
  password hx := by
    rcases hx with hx | hx
    · rw [hx] at hstate
      cases hstate
    · cases hsent.symm.trans hx
  fname hx := by
    rw [hx] at hstate
    cases hstate
  early hx := by cases hsent.symm.trans hx

/-- A reply after which no text is needed. -/
theorem Ready.done (h : Ready s) (hdis : s'.Disciplined) (hbuf : s'.obuf = s.obuf) (hlen : s'.obuflen = s.obuflen)
    (hsent : s'.sentUser = false) (hstate : usesText s'.state = false) : Ready s' := by
  refine h.of_kept hdis hbuf hlen ?_ ?_ fun hx => by cases hsent.symm.trans hx
  · rintro (hx | hx)
    · rw [hx] at hstate
      cases hstate
    · cases hsent.symm.trans hx
  · intro hx
    rw [hx] at hstate
    cases hstate

/-- A reply keeps the client ready for the next one. -/
theorem ready_of_reply (hr : Reply (s.saveStatus ibuf) ibuf (atoi ibuf.text) e s') (h : Ready s) : Ready s' := by
  have hdis := hr.disciplined (h.disciplined.saveStatus ibuf)
  have hstate : (s.saveStatus ibuf).state = s.state := rfl
  have hno : ∀ {st : Fcps}, (s.saveStatus ibuf).state = st → st ≠ .init → st ≠ .uninit → s.sentUser = false :=
    fun hst hinit huninit => h.not_early (by rw [← hstate, hst]; exact hinit) (by rw [← hstate, hst]; exact huninit)
  cases hr with
  | helloUser hst h2 hu =>
      exact h.of_kept hdis rfl rfl (fun _ => ⟨rfl, .inr hu⟩) (fun hx => by cases hx) fun hx => by cases hx
  | hello hst h2 hu =>
      exact h.done hdis rfl rfl hu rfl
  | refused hst h2 =>
      exact h.of_kept hdis rfl rfl (fun hx => hx.elim (fun hx => by cases hx) fun hx => ⟨rfl, .inr hx⟩)
        (fun hx => by cases hx) fun _ => .inr rfl
  | askPass hst h3 =>
      have hsends := sends_of (s := ((s.saveStatus ibuf).putLine (ascii "PASS " ++ s.password ++ crlf)).setState .pass)
        "PASS " (by decide) (h.password (.inl hst)) rfl rfl
      exact ready_of_sends hdis hsends (hno hst (by decide) (by decide)) rfl
  | pasvOk address hst h2 hp =>
      have hsends := sends_of (s := (((s.saveStatus ibuf).setAddress address).popped .retr).putLine
        (ascii "RETR " ++ s.fname ++ crlf)) "RETR " (by decide) (h.fname hst) rfl rfl
      exact ready_of_sends hdis hsends (hno hst (by decide) (by decide)) rfl
  | loggedIn hst h2 =>
      rcases hst with hst | hst
      · exact h.done hdis rfl rfl (hno hst (by decide) (by decide)) rfl
      · exact h.done hdis rfl rfl (hno hst (by decide) (by decide)) rfl
  | loginFailed hst h2 =>
      rcases hst with ⟨hst, _⟩ | hst
      · exact h.done hdis rfl rfl (hno hst (by decide) (by decide)) rfl
      · exact h.done hdis rfl rfl (hno hst (by decide) (by decide)) rfl
  | done hst =>
      rcases hst with hst | hst | hst
      · exact h.done hdis rfl rfl (hno hst (by decide) (by decide)) rfl
      · exact h.done hdis rfl rfl (hno hst (by decide) (by decide)) rfl
      · exact h.done hdis rfl rfl (hno hst (by decide) (by decide)) rfl
  | portOk hst h2 =>
      exact h.done hdis rfl rfl (hno hst (by decide) (by decide)) rfl
  | abandoned hst =>
      rcases hst with ⟨hst, _⟩ | ⟨hst, _⟩
      · exact h.done hdis rfl rfl (hno hst (by decide) (by decide)) rfl
      · exact h.done hdis rfl rfl (hno hst (by decide) (by decide)) rfl
  | retrDone hst _ =>
      exact h.done hdis rfl rfl (hno hst (by decide) (by decide)) rfl
  | retrMark hst h1 | unexpected hst =>
      exact h.of_kept hdis rfl rfl (fun hx => ⟨rfl, hx⟩) (fun hx => ⟨rfl, hx⟩) h.early

end
end Dkftpbench.Dialogue
