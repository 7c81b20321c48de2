import Dkftpbench.ClientProto

/-!
# Runs of the protocol part

The substate stack holds one entry exactly while a PORT or PASV command is under way.
So no assertion on it fails, and `Reply` lists what taking a reply line can do.
-/
namespace Dkftpbench.FtpClientProto
open CLib

def inSubstate : Fcps → Bool
  | .port => true
  | .pasv => true
  | _ => false

structure Disciplined (s : FtpClientProto) : Prop where
  outside : inSubstate s.state = false → s.stackPtr = 0
  inside : inSubstate s.state = true → s.stackPtr = 1 ∧ s.stack 0 = .retr

/-- The stack after its only entry was popped. -/
def popped (s : FtpClientProto) (newstate : Fcps) : FtpClientProto :=
  { s with stackPtr := 0, stack := Function.update s.stack 0 .uninit, state := newstate }

/-- The transitions of the switch in `giveInput`, with its result. -/
inductive Reply (s : FtpClientProto) (ibuf : Line) (status : ℤ) : ℤ → FtpClientProto → Prop
  | helloUser : s.state = .init → is2xx status → s.sentUser = true →
      Reply s ibuf status 0 { s with state := .user, sentUser := false }
  | hello : s.state = .init → is2xx status → s.sentUser = false →
      Reply s ibuf status 0 (s.setState .connected)
  | refused : s.state = .init → is2xx status = false →
      Reply s ibuf status EACCES (s.setState .uninit)
  | askPass : s.state = .user → is3xx status →
      Reply s ibuf status 0 ((s.putLine (ascii "PASS " ++ s.password ++ crlf)).setState .pass)
  | loggedIn : s.state = .user ∨ s.state = .pass → is2xx status →
      Reply s ibuf status 0 (s.setState .idle)
  | loginFailed : s.state = .user ∧ is3xx status = false ∨ s.state = .pass →
      is2xx status = false → Reply s ibuf status 0 (s.setState .init)
  | done : s.state = .cwd ∨ s.state = .type ∨ s.state = .size →
      Reply s ibuf status 0 (s.setState .idle)
  | portOk : s.state = .port → is2xx status → Reply s ibuf status 0 (s.popped .retr)
  | pasvOk (address : SockaddrIn) : s.state = .pasv → is2xx status →
      parsePasv ibuf = some address →
      Reply s ibuf status 0
        (((s.setAddress address).popped .retr).putLine (ascii "RETR " ++ s.fname ++ crlf))
  | abandoned : s.state = .port ∧ is2xx status = false ∨
      s.state = .pasv ∧ (is2xx status = false ∨ parsePasv ibuf = none) →
      Reply s ibuf status 0 (s.popped .idle)
  | retrMark : s.state = .retr → is1xx status → Reply s ibuf status 0 s
  | retrDone : s.state = .retr → is1xx status = false →
      Reply s ibuf status 0 (s.setState .idle)
  | unexpected : s.state = .uninit ∨ s.state = .connected ∨ s.state = .idle ∨ s.state = .quit →
      Reply s ibuf status EINVAL s

/-- What accepting an operation does. -/
inductive Issued (s : FtpClientProto) : Op → FtpClientProto → Prop
  | loginEarly (u p : CStr) : s.state = .init → s.sentUser = false → s.obuflen = 0 →
      Issued s (.login u p) { s.queueUser u p with sentUser := true }
  | login (u p : CStr) : s.state = .connected → s.sentUser = false → s.obuflen = 0 →
      Issued s (.login u p) ((s.queueUser u p).setState .user)
  | cd (dir : CStr) : s.state = .idle → s.obuflen = 0 →
      Issued s (.cd dir) ((s.putLine (cdLine dir)).setState .cwd)
  | type (t : CStr) : s.state = .idle → s.obuflen = 0 →
      Issued s (.type t) ((s.putLine (ascii "TYPE " ++ t ++ crlf)).setState .type)
  | size (f : CStr) : s.state = .idle → s.obuflen = 0 →
      Issued s (.size f) ((s.putLine (ascii "SIZE " ++ f ++ crlf)).setState .size)
  | getPasv (f : CStr) : s.state = .idle → s.obuflen = 0 →
      Issued s (.get f none) (((s.setFname f).putLine (ascii "PASV" ++ crlf)).pushState .pasv .retr)
  | getPort (f : CStr) (adr : SockaddrIn) : s.state = .idle → s.obuflen = 0 →
      Issued s (.get f (some adr)) (((s.setFname f).putLine (portLine adr)).pushState .port .retr)

section
variable {s s' t : FtpClientProto} {ibuf : Line} {status e : ℤ} {o : Op} {c : Call} {cs ds : List Call}

theorem Disciplined.setAddress (h : s.Disciplined) (address : SockaddrIn) :
    (s.setAddress address).Disciplined := ⟨h.outside, h.inside⟩

theorem Disciplined.saveStatus (h : s.Disciplined) (ibuf : Line) :
    (s.saveStatus ibuf).Disciplined := ⟨h.outside, h.inside⟩

theorem popState_of_disciplined (h : s.Disciplined) (hs : inSubstate s.state = true) :
    s.popState = some (.retr, s.popped s.state) := by
  obtain ⟨hptr, htop⟩ := h.inside hs
  simp only [popState, hptr, popped, htop]
  simp

theorem abandon_of_disciplined (h : s.Disciplined) (hs : inSubstate s.state = true) :
    s.abandon = some (s.popped .idle) := by
  rw [abandon, popState_of_disciplined h hs]
  rfl

theorem returnState_of_disciplined (h : s.Disciplined) (hs : inSubstate s.state = true) :
    s.returnState = some (s.popped .retr) := by
  rw [returnState, popState_of_disciplined h hs]
  rfl

theorem takeReply_spec (h : s.Disciplined) :
    ∃ e s', s.takeReply ibuf status = some (e, s') ∧ Reply s ibuf status e s' := by
  unfold takeReply
  cases hst : s.state with
  | init =>
      cases h2 : is2xx status with
      | false => exact ⟨_, _, rfl, .refused hst h2⟩
      | true =>
          cases hu : s.sentUser with
          | false => exact ⟨_, _, rfl, .hello hst h2 hu⟩
          | true => exact ⟨_, _, rfl, .helloUser hst h2 hu⟩
  | user =>
      cases h2 : is2xx status with
      | true => exact ⟨_, _, rfl, .loggedIn (.inl hst) h2⟩
      | false =>
          cases h3 : is3xx status with
          | true => exact ⟨_, _, rfl, .askPass hst h3⟩
          | false => exact ⟨_, _, rfl, .loginFailed (.inl ⟨hst, h3⟩) h2⟩
  | pass =>
      cases h2 : is2xx status with
      | true => exact ⟨_, _, rfl, .loggedIn (.inr hst) h2⟩
      | false => exact ⟨_, _, rfl, .loginFailed (.inr hst) h2⟩
  | cwd => exact ⟨_, _, rfl, .done (.inl hst)⟩
  | type => exact ⟨_, _, rfl, .done (.inr (.inl hst))⟩
  | size => exact ⟨_, _, rfl, .done (.inr (.inr hst))⟩
  | port =>
      have hsub : inSubstate s.state = true := by rw [hst]; rfl
      cases h2 : is2xx status with
      | true => exact ⟨_, _, by rw [returnState_of_disciplined h hsub]; rfl, .portOk hst h2⟩
      | false =>
          exact ⟨_, _, by rw [abandon_of_disciplined h hsub]; rfl, .abandoned (.inl ⟨hst, h2⟩)⟩
  | pasv =>
      have hsub : inSubstate s.state = true := by rw [hst]; rfl
      cases h2 : is2xx status with
      | false =>
          exact ⟨_, _, by rw [abandon_of_disciplined h hsub]; rfl, .abandoned (.inr ⟨hst, .inl h2⟩)⟩
      | true =>
          cases hp : parsePasv ibuf with
          | none =>
              exact ⟨_, _, by rw [abandon_of_disciplined h hsub]; rfl,
                .abandoned (.inr ⟨hst, .inr hp⟩)⟩
          | some address =>
              refine ⟨_, _, ?_, .pasvOk address hst h2 hp⟩
              change (s.setAddress address).returnState.map _ = _
              rw [returnState_of_disciplined (h.setAddress address) hsub]
              rfl
  | retr =>
      cases h1 : is1xx status with
      | true => exact ⟨_, _, rfl, .retrMark hst h1⟩
      | false => exact ⟨_, _, rfl, .retrDone hst h1⟩
  | uninit => exact ⟨_, _, rfl, .unexpected (.inl hst)⟩
  | connected => exact ⟨_, _, rfl, .unexpected (.inr (.inl hst))⟩
  | idle => exact ⟨_, _, rfl, .unexpected (.inr (.inr (.inl hst)))⟩
  | quit => exact ⟨_, _, rfl, .unexpected (.inr (.inr (.inr hst)))⟩

theorem Reply.disciplined (h : s.Disciplined) (hr : Reply s ibuf status e s') : s'.Disciplined := by
  cases hr with
  | helloUser hst _ _ | hello hst _ _ | refused hst _ | askPass hst _ =>
      exact ⟨fun _ => h.outside (by rw [hst]; rfl), nofun⟩
  | loggedIn hst _ =>
      exact ⟨fun _ => h.outside (by rcases hst with hst | hst <;> rw [hst] <;> rfl), nofun⟩
  | loginFailed hst _ =>
      exact ⟨fun _ => h.outside (by rcases hst with ⟨hst, _⟩ | hst <;> rw [hst] <;> rfl), nofun⟩
  | done hst =>
      exact ⟨fun _ => h.outside (by rcases hst with hst | hst | hst <;> rw [hst] <;> rfl), nofun⟩
  | portOk | pasvOk | abandoned => exact ⟨fun _ => rfl, nofun⟩
  | retrMark | unexpected => exact h
  | retrDone hst _ => exact ⟨fun _ => h.outside (by rw [hst]; rfl), nofun⟩

/-- Taking a line: a part of a multi-line reply, or the start of a reply. -/
theorem giveInput_spec (h : s.Disciplined) (hlf : LF ∉ ibuf.text) :
    (s.multiline = true ∧ s.giveInput ibuf = some (0, { s with multiline :=
      !(ibuf.at 3 == SPACE && atoi ibuf.text == s.status) })) ∨
    s.multiline = false ∧ ∃ e s', s.giveInput ibuf = some (e, s') ∧
      Reply (s.saveStatus ibuf) ibuf (atoi ibuf.text) e s' := by
  unfold giveInput
  rw [if_neg hlf]
  cases hm : s.multiline with
  | true =>
      refine .inl ⟨rfl, ?_⟩
      by_cases hend : ibuf.at 3 = SPACE ∧ atoi ibuf.text = s.status
      · simp [hend]
      · rw [if_pos rfl, if_neg hend]
        have : (ibuf.at 3 == SPACE && atoi ibuf.text == s.status) = false := by
          simpa using hend
        rw [this, Bool.not_false, ← hm]
  | false =>
      exact .inr ⟨rfl, takeReply_spec (h.saveStatus ibuf)⟩

/-- The two ways to take a line, from its result. -/
theorem giveInput_cases (h : s.Disciplined) (hg : s.giveInput ibuf = some (e, s')) :
    (s.multiline = true ∧ e = 0 ∧ s' = { s with multiline :=
      !(ibuf.at 3 == SPACE && atoi ibuf.text == s.status) }) ∨
    s.multiline = false ∧ Reply (s.saveStatus ibuf) ibuf (atoi ibuf.text) e s' := by
  have hlf : LF ∉ ibuf.text := by
    intro hin
    rw [giveInput, if_pos hin] at hg
    cases hg
  rcases giveInput_spec h hlf with ⟨hm, heq⟩ | ⟨hm, e', t, heq, hr⟩
  · cases heq.symm.trans hg
    exact .inl ⟨hm, rfl, rfl⟩
  · cases heq.symm.trans hg
    exact .inr ⟨hm, hr⟩

/-- A line is accepted, or it is no reply that the state allows. -/
theorem Reply.result (hr : Reply s ibuf status e s') : e = 0 ∨ e = EACCES ∨ e = EINVAL := by
  cases hr with
  | refused => exact .inr (.inl rfl)
  | unexpected => exact .inr (.inr rfl)
  | helloUser | hello | askPass | loggedIn | loginFailed | done | portOk | pasvOk | abandoned
  | retrMark | retrDone => exact .inl rfl

theorem giveInput_result (h : s.Disciplined) (hg : s.giveInput ibuf = some (e, s')) :
    e = 0 ∨ e = EACCES ∨ e = EINVAL := by
  rcases giveInput_cases h hg with ⟨_, h0, _⟩ | ⟨_, hr⟩
  · exact .inl h0
  · exact hr.result

/-- The address of the data port is taken from the protocol before the final reply
to RETR comes. -/
def PortFirst (s : FtpClientProto) (ibuf : Line) : Prop :=
  s.multiline = false → s.state = .retr → s.addressReady = true → is1xx (atoi ibuf.text) = true

theorem Reply.port (hr : Reply s ibuf status e s') (hs : s.addressReady = true → s.state = .retr)
    (hfirst : s.state = .retr → s.addressReady = true → is1xx status = true)
    (hready : s'.addressReady = true) : s'.state = .retr := by
  cases hr with
  | pasvOk | portOk => rfl
  | retrMark hst => exact hst
  | unexpected => exact hs hready
  | retrDone hst h1 =>
      have h1' := hfirst hst hready
      rw [h1] at h1'
      cases h1'
  | helloUser hst | hello hst | refused hst | askPass hst =>
      cases hst.symm.trans (hs hready)
  | loggedIn hst | loginFailed hst | done hst | abandoned hst =>
      have hretr : s.state = .retr := hs hready
      simp [hretr] at hst

theorem giveInput_port (h : s.Disciplined) (hs : s.addressReady = true → s.state = .retr)
    (hfirst : s.PortFirst ibuf) (hg : s.giveInput ibuf = some (e, s')) (hready : s'.addressReady = true) :
    s'.state = .retr := by
  rcases giveInput_cases h hg with ⟨_, _, rfl⟩ | ⟨hm, hr⟩
  · exact hs hready
  · exact hr.port hs (hfirst hm) hready

/-- A status other than 0 shows when nothing is awaited. -/
theorem getStatus_ne_zero (h : s.getStatus ≠ 0) :
    (s.state = .idle ∨ s.state = .init) ∧ s.getStatus = s.status := by
  unfold getStatus at h ⊢
  split at h
  · exact absurd rfl h
  · next hst =>
    rw [if_neg hst]
    refine ⟨?_, rfl⟩
    by_contra hne
    rw [not_or] at hne
    exact hst hne

theorem isOutputReady_eq_false (h : ¬ s.isOutputReady = true) : s.obuflen = 0 := by
  simpa [isOutputReady] using h

theorem getOutput_of_line {line : List Byte} (hne : line ≠ []) (hbuf : s.obuf = line)
    (hlen : s.obuflen = line.length) : s.getOutput = some (line, line.length) := by
  have hready : s.isOutputReady = true := by
    rw [isOutputReady, hlen, bne_iff_ne]
    exact fun h0 => hne (List.length_eq_zero_iff.1 h0)
  rw [getOutput, hready, hbuf, hlen]
  rfl

theorem command_spec {line : List Byte} {next : Fcps} :
    (∃ e, e ≠ 0 ∧ s.command line next = (e, s)) ∨
    s.state = .idle ∧ s.obuflen = 0 ∧ s.command line next = (0, (s.putLine line).setState next) := by
  unfold command
  split
  · exact .inl ⟨_, by decide, rfl⟩
  · next hst =>
    split
    · exact .inl ⟨_, by decide, rfl⟩
    · next hout => exact .inr ⟨not_not.1 hst, isOutputReady_eq_false hout, rfl⟩

theorem login_spec (u p : CStr) :
    (∃ e, e ≠ 0 ∧ s.login u p = (e, s)) ∨ ∃ s', s.login u p = (0, s') ∧ Issued s (.login u p) s' := by
  unfold login
  split
  · exact .inl ⟨_, by decide, rfl⟩
  · next hst =>
    split
    · exact .inl ⟨_, by decide, rfl⟩
    · next hu =>
      split
      · exact .inl ⟨_, by decide, rfl⟩
      · next hout =>
        have hlen := isOutputReady_eq_false hout
        have hsent : s.sentUser = false := by simpa using hu
        dsimp only
        split
        · next hc => exact .inr ⟨_, rfl, .login u p hc hsent hlen⟩
        · next hc =>
          have hi : s.state = .init := by
            by_contra hi
            exact hst ⟨hi, hc⟩
          exact .inr ⟨_, rfl, .loginEarly u p hi hsent hlen⟩

theorem callState_of_empty {jumpTo returnTo : Fcps} (h : t.stackPtr = 0) :
    t.callState jumpTo returnTo = some (t.pushState jumpTo returnTo) := by
  rw [callState, h]
  rfl

theorem get_spec (h : s.Disciplined) (f : CStr) (adr : Option SockaddrIn) :
    (∃ e, e ≠ 0 ∧ s.get f adr = some (e, s)) ∨
    ∃ s', s.get f adr = some (0, s') ∧ Issued s (.get f adr) s' := by
  unfold get
  split
  · exact .inl ⟨_, by decide, rfl⟩
  · next hst =>
    split
    · exact .inl ⟨_, by decide, rfl⟩
    · next hout =>
      have hidle := not_not.1 hst
      have hptr := h.outside (by rw [hidle]; rfl)
      have hlen := isOutputReady_eq_false hout
      split
      · exact .inl ⟨_, by decide, rfl⟩
      · cases adr with
        | none =>
            dsimp only
            rw [callState_of_empty (t := (s.setFname f).putLine (ascii "PASV" ++ crlf)) hptr]
            exact .inr ⟨_, rfl, .getPasv f hidle hlen⟩
        | some adr =>
            dsimp only
            rw [callState_of_empty (t := (s.setFname f).putLine (portLine adr)) hptr]
            exact .inr ⟨_, rfl, .getPort f adr hidle hlen⟩

/-- An operation is refused, and then changes nothing, or it is accepted. -/
theorem perform_spec (h : s.Disciplined) (o : Op) :
    (∃ e, e ≠ 0 ∧ s.perform o = some (e, s)) ∨ ∃ s', s.perform o = some (0, s') ∧ Issued s o s' := by
  cases o with
  | login u p =>
      rcases login_spec (s := s) u p with ⟨e, he, heq⟩ | ⟨s', heq, hi⟩
      · exact .inl ⟨e, he, congrArg some heq⟩
      · exact .inr ⟨s', congrArg some heq, hi⟩
  | quit => exact .inl ⟨ENOSYS, by decide, rfl⟩
  | cd dir =>
      rcases command_spec (s := s) with ⟨e, he, heq⟩ | ⟨hst, hlen, heq⟩
      · exact .inl ⟨e, he, congrArg some heq⟩
      · exact .inr ⟨_, congrArg some heq, .cd dir hst hlen⟩
  | size f =>
      rcases command_spec (s := s) with ⟨e, he, heq⟩ | ⟨hst, hlen, heq⟩
      · exact .inl ⟨e, he, congrArg some heq⟩
      · exact .inr ⟨_, congrArg some heq, .size f hst hlen⟩
  | type t =>
      rcases command_spec (s := s) with ⟨e, he, heq⟩ | ⟨hst, hlen, heq⟩
      · exact .inl ⟨e, he, congrArg some heq⟩
      · exact .inr ⟨_, congrArg some heq, .type t hst hlen⟩
  | ls d a => exact .inl ⟨ENOSYS, by decide, rfl⟩
  | get f adr => exact get_spec h f adr

theorem Issued.disciplined (h : s.Disciplined) (hi : Issued s o s') : s'.Disciplined := by
  cases hi with
  | loginEarly u p hst _ _ =>
      exact ⟨fun _ => h.outside (by rw [hst]; rfl), fun hin => absurd (hst ▸ hin) (by decide)⟩
  | login u p hst _ _ | cd dir hst _ | type t hst _ | size f hst _ =>
      exact ⟨fun _ => h.outside (by rw [hst]; rfl), nofun⟩
  | getPasv f hst _ | getPort f adr hst _ =>
      have h0 := h.outside (by rw [hst]; rfl)
      exact ⟨nofun, fun _ => ⟨congrArg (· + 1) h0, by simp [pushState, putLine, setFname, h0]⟩⟩

theorem init_disciplined (s : FtpClientProto) : s.init.Disciplined := ⟨fun _ => rfl, nofun⟩

theorem giveInput_disciplined (h : s.Disciplined) (hg : s.giveInput ibuf = some (e, s')) :
    s'.Disciplined := by
  rcases giveInput_cases h hg with ⟨_, _, rfl⟩ | ⟨_, hr⟩
  · exact ⟨h.outside, h.inside⟩
  · exact hr.disciplined (h.saveStatus ibuf)

theorem step_disciplined (h : s.Disciplined) (hs : s.step c = some s') : s'.Disciplined := by
  cases c with
  | op o =>
      rcases perform_spec h o with ⟨e, _, heq⟩ | ⟨t, heq, hi⟩
      · rw [step, heq] at hs
        cases hs
        exact h
      · rw [step, heq] at hs
        cases hs
        exact hi.disciplined h
  | advanceOutput =>
      cases hs
      exact ⟨h.outside, h.inside⟩
  | isPortReady =>
      cases hs
      unfold isPortReady
      split
      · exact h
      · exact ⟨h.outside, h.inside⟩
  | giveInput ibuf =>
      obtain ⟨⟨e, t⟩, hg, rfl⟩ := Option.map_eq_some_iff.1 hs
      exact giveInput_disciplined h hg

theorem run_append : s.run (cs ++ ds) = (s.run cs).bind (·.run ds) := by
  induction cs generalizing s with
  | nil => rfl
  | cons c cs ih =>
      rw [List.cons_append, run, run, Option.bind_assoc]
      congr 1
      funext t
      exact ih

theorem run_disciplined (h : s.Disciplined) (hr : s.run cs = some t) : t.Disciplined := by
  induction cs generalizing s with
  | nil =>
      cases hr
      exact h
  | cons c cs ih =>
      obtain ⟨s', hs, hr⟩ := Option.bind_eq_some_iff.1 hr
      exact ih (step_disciplined h hs) hr

/-- The states that `init` and any calls after it lead to. -/
def Reachable (s : FtpClientProto) : Prop := ∃ s₀ cs, (init s₀).run cs = some s

theorem Reachable.disciplined (h : s.Reachable) : s.Disciplined := by
  obtain ⟨s₀, cs, hr⟩ := h
  exact run_disciplined (init_disciplined s₀) hr

end
end Dkftpbench.FtpClientProto
