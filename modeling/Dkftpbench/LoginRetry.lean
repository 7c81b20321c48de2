import Dkftpbench.ReplyFraming

/-!
# Logging in again

The state after a failed login is the one that awaits the hello. A login that is sent from
there waits for a hello that has already come, so the reply to it is taken for one: a 3xx
reply ends the session. Calls that neither start an operation nor answer one may come in
between, and the further lines of a reply.
-/
namespace Dkftpbench.FtpClientProto
open CLib

/-- Calls that start no operation and answer none. -/
inductive Quietly (s : FtpClientProto) : FtpClientProto → Prop
  | refl : Quietly s s
  | advanceOutput {t : FtpClientProto} : Quietly s t → Quietly s t.advanceOutput
  | isPortReady {t : FtpClientProto} : Quietly s t → Quietly s t.isPortReady.2
  | refused {t t' : FtpClientProto} {o : Op} {e : ℤ} :
      Quietly s t → t.perform o = some (e, t') → e ≠ 0 → Quietly s t'
  | continued {t t' : FtpClientProto} {ibuf : Line} {e : ℤ} :
      Quietly s t → t.multiline = true → t.giveInput ibuf = some (e, t') → Quietly s t'

/-- The hello was a 2xx reply, and no login was sent ahead of it. -/
def Greeted (s : FtpClientProto) : Prop :=
  ∃ s₀ h hello e, Quietly (init s₀) h ∧ h.multiline = false ∧ is2xx (atoi hello.text) = true ∧
    h.giveInput hello = some (e, s)

/-- A login of that user that fails, at the reply to USER or at that to PASS. -/
inductive FailedLogin (s : FtpClientProto) (u : CStr) : FtpClientProto → Prop
  | user {p : CStr} {t t₁ t' : FtpClientProto} {reply : Line} {e : ℤ} :
      s.login u p = (0, t) → Quietly t t₁ → t₁.multiline = false →
      is2xx (atoi reply.text) = false → is3xx (atoi reply.text) = false →
      t₁.giveInput reply = some (e, t') → FailedLogin s u t'
  | pass {p : CStr} {t t₁ t₂ t₃ t' : FtpClientProto} {ask reply : Line} {e e' : ℤ} :
      s.login u p = (0, t) → Quietly t t₁ → t₁.multiline = false →
      is3xx (atoi ask.text) = true → t₁.giveInput ask = some (e, t₂) → Quietly t₂ t₃ →
      t₃.multiline = false → is2xx (atoi reply.text) = false →
      t₃.giveInput reply = some (e', t') → FailedLogin s u t'

/-- Logins that fail, of these users from the last one on. -/
inductive FailedLogins (s : FtpClientProto) : List CStr → FtpClientProto → Prop
  | nil {t : FtpClientProto} : Quietly s t → FailedLogins s [] t
  | cons {u : CStr} {us : List CStr} {t t' t'' : FtpClientProto} :
      FailedLogins s us t → FailedLogin t u t' → Quietly t' t'' → FailedLogins s (u :: us) t''

def userLine (u : CStr) : List Byte := ascii "USER " ++ u ++ crlf

def passLine (p : CStr) : List Byte := ascii "PASS " ++ p ++ crlf

/-- The reply to PASS is taken, and one of 2xx ends the login. -/
def FinishesLogin (s : FtpClientProto) : Prop :=
  ∀ t reply, Quietly s t → t.multiline = false → LF ∉ reply.text →
    ∃ t', t.giveInput reply = some (0, t') ∧ (is2xx (atoi reply.text) = true → t'.state = .idle)

/-- An accepted login goes on as the first one after the hello. -/
structure LogsIn (s : FtpClientProto) (u p : CStr) : Prop where
  queued : s.getOutput = some (userLine u, (userLine u).length)
  fits : (userLine u).length ≤ lineLen
  replied : ∀ t reply, Quietly s t → t.multiline = false → LF ∉ reply.text →
    ∃ t', t.giveInput reply = some (0, t') ∧ (is2xx (atoi reply.text) = true → t'.state = .idle) ∧
      (is3xx (atoi reply.text) = true →
        t'.getOutput = some (passLine p, (passLine p).length) ∧ t'.FinishesLogin)

/-- After the logins that failed, of which none wrote beyond `m_obuf`, a further one goes on
as the first. -/
structure Retries (s : FtpClientProto) (us : List CStr) (u p : CStr) : Prop where
  fits : ∀ v ∈ us, (userLine v).length ≤ lineLen
  logsIn : ∀ t, s.login u p = (0, t) → LogsIn t u p

/-- Where a login starts from, by the number of logins that have failed. -/
def stateAfter : ℕ → Fcps
  | 0 => .connected
  | 1 => .init
  | _+2 => .uninit

section
variable {s t t' : FtpClientProto} {u p : CStr} {us : List CStr} {n : ℕ} {ibuf reply : Line} {e : ℤ}
variable {verb a : List Byte}

theorem length_text_crlf : (verb ++ a ++ crlf).length = verb.length+a.length+2 := by
  simp only [List.length_append, crlf, List.length_cons, List.length_nil]

/-- The bound on the text is the one on the line, for a verb with its space. -/
theorem line_le_iff (hverb : verb.length = 5) :
    (verb ++ a ++ crlf).length ≤ lineLen ↔ a.length ≤ lineLen-7 := by
  rw [length_text_crlf, hverb]
  unfold lineLen
  omega

/-- Equal in what a login depends on. -/
structure SameLogin (s t : FtpClientProto) : Prop where
  disciplined : s.Disciplined → t.Disciplined
  state : t.state = s.state
  sentUser : t.sentUser = s.sentUser
  password : t.password = s.password

theorem SameLogin.trans {r : FtpClientProto} (h : SameLogin s t) (h' : SameLogin t r) : SameLogin s r :=
  ⟨fun hd => h'.disciplined (h.disciplined hd), h'.state.trans h.state, h'.sentUser.trans h.sentUser,
    h'.password.trans h.password⟩

theorem sameLogin_isPortReady : SameLogin t t.isPortReady.2 := by
  unfold isPortReady
  split
  · exact ⟨id, rfl, rfl, rfl⟩
  · exact ⟨fun hd => ⟨hd.outside, hd.inside⟩, rfl, rfl, rfl⟩

theorem Quietly.same (hd : s.Disciplined) (h : Quietly s t) : SameLogin s t := by
  induction h with
  | refl => exact ⟨id, rfl, rfl, rfl⟩
  | advanceOutput _ ih => exact ih.trans ⟨fun hd => ⟨hd.outside, hd.inside⟩, rfl, rfl, rfl⟩
  | isPortReady _ ih => exact ih.trans sameLogin_isPortReady
  | refused _ hp he ih =>
      rcases perform_spec (ih.disciplined hd) _ with ⟨e', _, heq⟩ | ⟨t', heq, _⟩
      · cases heq.symm.trans hp
        exact ih
      · cases heq.symm.trans hp
        exact absurd rfl he
  | continued _ hm hg ih =>
      rcases giveInput_cases (ih.disciplined hd) hg with ⟨_, _, rfl⟩ | ⟨hm', _⟩
      · exact ih.trans ⟨fun hd => ⟨hd.outside, hd.inside⟩, rfl, rfl, rfl⟩
      · cases hm.symm.trans hm'

theorem lf_notMem_of_giveInput (hg : s.giveInput ibuf = some (e, t)) : LF ∉ ibuf.text := by
  intro hin
  rw [giveInput, if_pos hin] at hg
  cases hg

theorem giveInput_init (hst : s.state = .init) (hm : s.multiline = false) (hlf : LF ∉ ibuf.text) :
    s.giveInput ibuf =
      if is2xx (atoi ibuf.text) then
        if s.sentUser then some (0, { s.saveStatus ibuf with state := .user, sentUser := false })
        else some (0, (s.saveStatus ibuf).setState .connected)
      else some (EACCES, (s.saveStatus ibuf).setState .uninit) := by
  have hst' : (s.saveStatus ibuf).state = .init := hst
  rw [giveInput_eq hm hlf, takeReply, hst']
  rfl

theorem giveInput_user (hst : s.state = .user) (hm : s.multiline = false) (hlf : LF ∉ ibuf.text) :
    s.giveInput ibuf =
      if is2xx (atoi ibuf.text) then some (0, (s.saveStatus ibuf).setState .idle)
      else if is3xx (atoi ibuf.text) then
        some (0, ((s.saveStatus ibuf).putLine (ascii "PASS " ++ s.password ++ crlf)).setState .pass)
      else some (0, (s.saveStatus ibuf).setState .init) := by
  have hst' : (s.saveStatus ibuf).state = .user := hst
  rw [giveInput_eq hm hlf, takeReply, hst']
  rfl

theorem giveInput_pass (hst : s.state = .pass) (hm : s.multiline = false) (hlf : LF ∉ ibuf.text) :
    s.giveInput ibuf =
      if is2xx (atoi ibuf.text) then some (0, (s.saveStatus ibuf).setState .idle)
      else some (0, (s.saveStatus ibuf).setState .init) := by
  have hst' : (s.saveStatus ibuf).state = .pass := hst
  rw [giveInput_eq hm hlf, takeReply, hst']

theorem giveInput_uninit (hst : s.state = .uninit) (hm : s.multiline = false) (hlf : LF ∉ ibuf.text) :
    s.giveInput ibuf = some (EINVAL, s.saveStatus ibuf) := by
  have hst' : (s.saveStatus ibuf).state = .uninit := hst
  rw [giveInput_eq hm hlf, takeReply, hst']

theorem is2xx_of_is3xx {status : ℤ} (h : is3xx status = true) : is2xx status = false := by
  simp only [is3xx, Bool.and_eq_true, decide_eq_true_eq] at h
  simp only [is2xx, Bool.and_eq_false_iff, decide_eq_false_iff_not]
  omega

theorem login_issued (h : s.login u p = (0, t)) : Issued s (.login u p) t := by
  rcases login_spec (s := s) u p with ⟨e, he, heq⟩ | ⟨t', heq, hi⟩
  · rw [heq, Prod.mk.injEq] at h
    exact absurd h.1 he
  · cases heq.symm.trans h
    exact hi

/-- A session after the hello in which that many logins have failed. -/
structure Rejected (n : ℕ) (s : FtpClientProto) : Prop where
  disciplined : s.Disciplined
  state : s.state = stateAfter n
  sentUser : n < 2 → s.sentUser = false

/-- The line USER of a further login is out, and its reply is awaited. -/
structure Asking (n : ℕ) (p : CStr) (s : FtpClientProto) : Prop where
  disciplined : s.Disciplined
  first : n = 0 → s.state = .user ∧ s.sentUser = false
  again : n ≠ 0 → n = 1 ∧ s.state = .init ∧ s.sentUser = true
  password : s.password = p.1.take (maxPassword-1)

theorem Rejected.quietly (h : Rejected n s) (hq : Quietly s t) : Rejected n t := by
  have hsame := hq.same h.disciplined
  exact ⟨hsame.disciplined h.disciplined, hsame.state.trans h.state, fun hn => hsame.sentUser.trans (h.sentUser hn)⟩

theorem Asking.quietly (h : Asking n p s) (hq : Quietly s t) : Asking n p t := by
  have hsame := hq.same h.disciplined
  refine ⟨hsame.disciplined h.disciplined, ?_, ?_, hsame.password.trans h.password⟩
  · rw [hsame.state, hsame.sentUser]
    exact h.first
  · rw [hsame.state, hsame.sentUser]
    exact h.again

theorem Greeted.rejected (h : s.Greeted) : Rejected 0 s := by
  obtain ⟨s₀, t, hello, e, hq, hm, h2, hg⟩ := h
  have hsame := hq.same (init_disciplined s₀)
  have hd := giveInput_disciplined (hsame.disciplined (init_disciplined s₀)) hg
  have hsent : t.sentUser = false := hsame.sentUser
  rw [giveInput_init hsame.state hm (lf_notMem_of_giveInput hg), if_pos h2, hsent] at hg
  cases hg
  exact ⟨hd, rfl, fun _ => hsent⟩

theorem Rejected.login (h : Rejected n s) (hlogin : s.login u p = (0, t)) : Asking n p t := by
  have hi := login_issued hlogin
  have hd := hi.disciplined h.disciplined
  have hstate := h.state
  cases hi with
  | loginEarly _ _ hst _ _ =>
      rcases n with _ | _ | n
      · cases hst.symm.trans hstate
      · exact ⟨hd, nofun, fun _ => ⟨rfl, hst, rfl⟩, rfl⟩
      · cases hst.symm.trans hstate
  | login _ _ hst hsent _ =>
      rcases n with _ | _ | n
      · exact ⟨hd, fun _ => ⟨rfl, hsent⟩, nofun, rfl⟩
      · cases hst.symm.trans hstate
      · cases hst.symm.trans hstate

/-- A reply to USER that is neither 2xx nor 3xx. -/
theorem Asking.refused (h : Asking n p s) (hm : s.multiline = false) (h2 : is2xx (atoi ibuf.text) = false)
    (h3 : is3xx (atoi ibuf.text) = false) (hg : s.giveInput ibuf = some (e, t)) : Rejected (n+1) t := by
  have hlf := lf_notMem_of_giveInput hg
  have hd := giveInput_disciplined h.disciplined hg
  by_cases hn : n = 0
  · obtain ⟨hst, hsent⟩ := h.first hn
    rw [giveInput_user hst hm hlf, h2, h3] at hg
    cases hg
    exact ⟨hd, by rw [hn]; rfl, fun _ => hsent⟩
  · obtain ⟨rfl, hst, -⟩ := h.again hn
    rw [giveInput_init hst hm hlf, h2] at hg
    cases hg
    exact ⟨hd, rfl, fun hlt => absurd hlt (by decide)⟩

/-- A 3xx reply to USER, and one to PASS that is not 2xx. -/
theorem Asking.refusedPass {r : FtpClientProto} {e' : ℤ} (h : Asking n p s) (hm : s.multiline = false)
    (h3 : is3xx (atoi ibuf.text) = true) (hg : s.giveInput ibuf = some (e, t)) (hq : Quietly t r)
    (hm' : r.multiline = false) (h2 : is2xx (atoi reply.text) = false)
    (hg' : r.giveInput reply = some (e', t')) : Rejected (n+1) t' := by
  have hlf := lf_notMem_of_giveInput hg
  have hlf' := lf_notMem_of_giveInput hg'
  have hd := giveInput_disciplined h.disciplined hg
  have hsame := hq.same hd
  have hd' := giveInput_disciplined (hsame.disciplined hd) hg'
  by_cases hn : n = 0
  · obtain ⟨hst, hsent⟩ := h.first hn
    rw [giveInput_user hst hm hlf, is2xx_of_is3xx h3, h3] at hg
    cases hg
    rw [giveInput_pass hsame.state hm' hlf', h2] at hg'
    cases hg'
    exact ⟨hd', by rw [hn]; rfl, fun _ => hsame.sentUser.trans hsent⟩
  · obtain ⟨rfl, hst, -⟩ := h.again hn
    rw [giveInput_init hst hm hlf, is2xx_of_is3xx h3] at hg
    cases hg
    rw [giveInput_uninit hsame.state hm' hlf'] at hg'
    cases hg'
    exact ⟨hd', hsame.state, fun hlt => absurd hlt (by decide)⟩

/-- The first failure leads back to where the hello was awaited, the second one out of the
session, and from there no login starts. -/
theorem Rejected.failed (h : Rejected n s) (hf : FailedLogin s u t) : Rejected (n+1) t := by
  cases hf with
  | user hlogin hq hm h2 h3 hg => exact ((h.login hlogin).quietly hq).refused hm h2 h3 hg
  | pass hlogin hq hm h3 hg hq' hm' h2 hg' =>
      exact ((h.login hlogin).quietly hq).refusedPass hm h3 hg hq' hm' h2 hg'

theorem FailedLogins.rejected (h : FailedLogins s us t) (hs : Rejected 0 s) : Rejected us.length t := by
  induction h with
  | nil hq => exact hs.quietly hq
  | cons _ hf hq ih => exact (ih.failed hf).quietly hq

theorem getOutput_putLine {line : List Byte} {next : Fcps} (hne : line ≠ []) :
    ((s.putLine line).setState next).getOutput = some (line, line.length) := getOutput_of_line hne rfl rfl

theorem login_queued (hlogin : s.login u p = (0, t)) : t.getOutput = some (userLine u, (userLine u).length) := by
  have hne : userLine u ≠ [] := by simp [userLine, crlf]
  cases login_issued hlogin with
  | loginEarly | login => exact getOutput_of_line hne rfl rfl

theorem login_accepted (hst : s.state = .init ∨ s.state = .connected) (hsent : s.sentUser = false)
    (hout : s.isOutputReady = false) : ∃ t, s.login u p = (0, t) ∧ t.multiline = s.multiline := by
  have hopen : ¬ (s.state ≠ .init ∧ s.state ≠ .connected) := by
    rintro ⟨hi, hc⟩
    exact hst.elim hi hc
  rw [login, if_neg hopen, if_neg (by simp [hsent]), if_neg (by simp [hout])]
  dsimp only
  split
  · exact ⟨_, rfl, rfl⟩
  · exact ⟨_, rfl, rfl⟩

/-- The login after the hello, where no other one has failed. -/
theorem logsIn_first (h : Asking 0 p s) (hqueued : s.getOutput = some (userLine u, (userLine u).length))
    (hu : u.1.length ≤ lineLen-7) (hp : p.1.length < maxPassword) : LogsIn s u p := by
  refine ⟨hqueued, (line_le_iff (by decide)).2 hu, fun t reply hq hm hlf => ?_⟩
  have ht := h.quietly hq
  obtain ⟨hst, -⟩ := ht.first rfl
  have hpassword : t.password = p.1 := by
    rw [ht.password, List.take_of_length_le]
    exact Nat.le_sub_one_of_lt hp
  rw [giveInput_user hst hm hlf]
  split
  · next h2 =>
    refine ⟨_, rfl, fun _ => rfl, fun h3 => ?_⟩
    rw [is2xx_of_is3xx h3] at h2
    cases h2
  · next h2 =>
    split
    · refine ⟨_, rfl, fun h2' => absurd h2' h2, fun _ => ⟨?_, ?_⟩⟩
      · rw [hpassword]
        exact getOutput_putLine (by simp [crlf])
      · intro r reply' hq' hm' hlf'
        have hd : (((t.saveStatus reply).putLine (ascii "PASS " ++ t.password ++ crlf)).setState .pass).Disciplined :=
          ⟨fun _ => ht.disciplined.outside (by rw [hst]; rfl), nofun⟩
        rw [giveInput_pass (hq'.same hd).state hm' hlf']
        split
        · exact ⟨_, rfl, fun _ => rfl⟩
        · next h2' => exact ⟨_, rfl, fun h2'' => absurd h2'' h2'⟩
    · next h3 => exact ⟨_, rfl, fun h2' => absurd h2' h2, fun h3' => absurd h3' h3⟩

/-- A longer password is cut off. -/
theorem not_logsIn_long (h : Asking 0 p s) (hm : s.multiline = false) (hp : ¬ p.1.length < maxPassword) :
    ¬ LogsIn s u p := by
  intro hlogs
  obtain ⟨t', hg, -, hask⟩ := hlogs.replied s (.ofAscii "331 pass" (by decide)) .refl hm (by decide)
  have hout := (hask (by decide)).1
  rw [giveInput_user (h.first rfl).1 hm (by decide)] at hg
  have h2 : is2xx (atoi (Line.ofAscii "331 pass" (by decide)).text) = false := by decide
  have h3 : is3xx (atoi (Line.ofAscii "331 pass" (by decide)).text) = true := by decide
  rw [h2, h3] at hg
  cases hg
  rw [getOutput_putLine (by simp [crlf]), Option.some.injEq, Prod.mk.injEq] at hout
  have hlen := hout.2
  simp only [passLine, List.length_append, h.password, List.length_take] at hlen
  unfold maxPassword at *
  omega

/-- After one failure the reply to USER is taken for a hello. -/
theorem not_logsIn_again (h : Asking 1 p s) (hm : s.multiline = false) : ¬ LogsIn s u p := by
  intro hlogs
  obtain ⟨t', hg, -⟩ := hlogs.replied s (.ofAscii "331 pass" (by decide)) .refl hm (by decide)
  obtain ⟨-, hst, -⟩ := h.again (by decide)
  rw [giveInput_init hst hm (by decide)] at hg
  have h2 : is2xx (atoi (Line.ofAscii "331 pass" (by decide)).text) = false := by decide
  rw [h2] at hg
  cases hg

/-- After failed logins a further one goes on as the first did, exactly where it is the
first and its texts have room, or where it is not accepted; and the names tried before
had room too. -/
theorem login_retry_iff (hs : s.Greeted) (h : FailedLogins s us t) (hout : t.isOutputReady = false)
    (hm : t.multiline = false) : Retries t us u p ↔
      (∀ v ∈ us, v.1.length ≤ lineLen-7) ∧ us.length ≠ 1 ∧
        (us = [] → u.1.length ≤ lineLen-7 ∧ p.1.length < maxPassword) := by
  have ht := h.rejected hs.rejected
  have hnames : (∀ v ∈ us, (userLine v).length ≤ lineLen) ↔ ∀ v ∈ us, v.1.length ≤ lineLen-7 :=
    forall₂_congr fun v _ => line_le_iff (by decide)
  constructor
  · rintro ⟨hfits, hall⟩
    refine ⟨hnames.1 hfits, ?_, ?_⟩
    · intro h1
      rw [h1] at ht
      obtain ⟨t₁, hlogin, hm₁⟩ := login_accepted (u := u) (p := p) (.inl ht.state) (ht.sentUser (by decide)) hout
      exact not_logsIn_again (ht.login hlogin) (hm₁.trans hm) (hall t₁ hlogin)
    · rintro rfl
      obtain ⟨t₁, hlogin, hm₁⟩ := login_accepted (u := u) (p := p) (.inr ht.state) (ht.sentUser (by decide)) hout
      have hlogs := hall t₁ hlogin
      refine ⟨(line_le_iff (by decide)).1 hlogs.fits, ?_⟩
      by_contra hlong
      exact not_logsIn_long (ht.login hlogin) (hm₁.trans hm) hlong hlogs
  · rintro ⟨hfits, h1, h0⟩
    refine ⟨hnames.2 hfits, fun t₁ hlogin => ?_⟩
    have hasking := ht.login hlogin
    by_cases hn : us = []
    · subst hn
      exact logsIn_first hasking (login_queued hlogin) (h0 rfl).1 (h0 rfl).2
    · exact absurd (hasking.again fun hlen => hn (List.length_eq_zero_iff.1 hlen)).1 h1

end

/-- A session after its hello. -/
def welcomed : FtpClientProto := (zeroed.init.saveStatus (.ofAscii "220 ready" (by decide))).setState .connected

theorem greeted_welcomed : Greeted welcomed :=
  ⟨zeroed, zeroed.init, .ofAscii "220 ready" (by decide), 0, .refl, rfl, by decide, rfl⟩

/-- The login after the hello. -/
theorem login_retry_first : (welcomed.login ⟨ascii "u", no_nul_u⟩ ⟨ascii "p", no_nul_p⟩).1 = 0 ∧
    Retries welcomed [] ⟨ascii "u", no_nul_u⟩ ⟨ascii "p", no_nul_p⟩ :=
  ⟨rfl, (login_retry_iff greeted_welcomed (.nil .refl) rfl rfl).2 ⟨nofun, by decide, fun _ => by decide⟩⟩

/-- A login after one that failed. -/
theorem login_retry_fails : ¬ ∀ (s t : FtpClientProto) (us : List CStr) (u p : CStr), Greeted s → FailedLogins s us t →
    t.isOutputReady = false → t.multiline = false → Retries t us u p := by
  intro hall
  have h2 : is2xx (atoi (Line.ofAscii "530 no" (by decide)).text) = false := by decide
  have h3 : is3xx (atoi (Line.ofAscii "530 no" (by decide)).text) = false := by decide
  have hlogin : welcomed.login ⟨ascii "u", no_nul_u⟩ ⟨ascii "p", no_nul_p⟩ = (0, _) := rfl
  have hfailed : FailedLogins welcomed [⟨ascii "u", no_nul_u⟩] _ :=
    .cons (.nil .refl) (.user hlogin (.advanceOutput .refl) rfl h2 h3 rfl) .refl
  have hlogs := (hall welcomed _ _ ⟨ascii "u", no_nul_u⟩ ⟨ascii "p", no_nul_p⟩ greeted_welcomed hfailed rfl rfl).logsIn
  exact not_logsIn_again ((hfailed.rejected greeted_welcomed.rejected).login rfl) rfl (hlogs _ rfl)

end Dkftpbench.FtpClientProto
