import Dkftpbench.CommandLines

/-!
# Room for a command line

`sprintf` asks for no length. A line with the caller's text in it lies in `m_obuf` where the
text is short enough; the saved password and the saved file name always are.
-/
namespace Dkftpbench.FtpClientProto
open CLib Watch

/-- The caller's text has room in the line of the operation. -/
def HasRoom (o : Op) : Prop := ∀ a ∈ (opCommand o).arg, a.length ≤ room (opCommand o).verb

instance : DecidablePred HasRoom := fun o => inferInstanceAs (Decidable (∀ a ∈ (opCommand o).arg, _))

/-- What is saved for a line that a reply may ask for has room in it. -/
structure Stored (s : FtpClientProto) : Prop where
  password : s.state = .user ∨ s.state = .pass ∨ s.state = .init ∧ s.sentUser = true →
    s.password.length < maxPassword
  fname : s.state = .pasv → s.fname.length < maxFname

section
variable {s s' : FtpClientProto} {ibuf : Line} {o : Op} {f : CStr} {adr : Option SockaddrIn} {e : ℤ}

theorem length_portLine_le (adr : SockaddrIn) : (portLine adr).length ≤ lineLen := by
  have hverb := (verb_port adr).short
  rw [portLine, List.length_append]
  have hcrlf : crlf.length = 2 := rfl
  have hcommas : (ascii "PORT " ++ [COMMA].intercalate ((portNumbers adr).map decimal)).length+3 ≤ lineLen := hverb
  omega

theorem length_cdLine_le_iff (dir : CStr) : (cdLine dir).length ≤ lineLen ↔ HasRoom (.cd dir) := by
  by_cases hdots : dir.1 = ascii ".."
  · have hcommand : opCommand (.cd dir) = ⟨ascii "CDUP", none⟩ := if_pos hdots
    rw [cdLine, if_pos hdots, HasRoom, hcommand]
    exact iff_of_true (by decide) nofun
  · have hcommand : opCommand (.cd dir) = ⟨ascii "CWD", some dir.1⟩ := if_neg hdots
    have hverb : (ascii "CWD ").length = 4 := by decide
    have hroom : room (ascii "CWD") = 506 := by decide
    rw [cdLine, if_neg hdots, HasRoom, hcommand, length_text_crlf, hverb, hroom, lineLen]
    simp only [Option.mem_def, Option.some.injEq, forall_eq']
    omega

/-- The line of an operation lies in `m_obuf` where the text has room. -/
theorem Issued.length_le_iff (hi : Issued s o s') : s'.obuf.length ≤ lineLen ↔ HasRoom o := by
  have hroom : ∀ a : List Byte, (∀ b ∈ some a, b.length ≤ lineLen-7) ↔ a.length ≤ lineLen-7 := by simp
  cases hi with
  | loginEarly u p | login u p => exact (line_le_iff (by decide)).trans (hroom u.1).symm
  | type t => exact (line_le_iff (by decide)).trans (hroom t.1).symm
  | size f => exact (line_le_iff (by decide)).trans (hroom f.1).symm
  | cd dir => exact length_cdLine_le_iff dir
  | getPasv f =>
      have hpasv : (ascii "PASV" ++ crlf).length ≤ lineLen := by decide
      exact iff_of_true hpasv nofun
  | getPort f adr => exact iff_of_true (length_portLine_le adr) nofun

theorem fname_of_accepts (h : s.accepts (.get f adr) = true) : f.1.length < maxFname := by
  obtain ⟨s', hs⟩ := accepts_iff.1 h
  rw [perform, get] at hs
  by_contra hlong
  split at hs
  · cases hs
  · split at hs
    · cases hs
    · rw [if_pos (Nat.le_of_not_lt hlong)] at hs
      cases hs

theorem Stored.of_eq (h : Stored s) (hstate : s'.state = s.state) (hsent : s'.sentUser = s.sentUser)
    (hpassword : s'.password = s.password) (hfname : s'.fname = s.fname) : Stored s' := by
  constructor
  · rw [hstate, hsent, hpassword]
    exact h.password
  · rw [hstate, hfname]
    exact h.fname

theorem stored_init (s : FtpClientProto) : Stored s.init := ⟨by simp [init], nofun⟩

theorem length_take_password (p : List Byte) : (p.take (maxPassword-1)).length < maxPassword := by
  rw [List.length_take]
  unfold maxPassword
  omega

theorem Stored.op (h : Stored s) (hd : s.Disciplined) (hs : s.step (.op o) = some s') : Stored s' := by
  rcases step_op_cases hd hs with ⟨-, rfl⟩ | ⟨hyes, hi⟩
  · exact h
  · cases hi with
    | loginEarly u p hst => exact ⟨fun _ => length_take_password p.1, fun hp => absurd (hst.symm.trans hp) (by decide)⟩
    | login u p => exact ⟨fun _ => length_take_password p.1, fun hp => by cases hp⟩
    | cd | type | size => exact ⟨by simp [setState], fun hp => by cases hp⟩
    | getPasv f => exact ⟨by simp [pushState], fun _ => fname_of_accepts hyes⟩
    | getPort f adr => exact ⟨by simp [pushState], fun hp => by cases hp⟩

theorem Stored.reply {status : ℤ} (h : Stored s) (hr : Reply s ibuf status e s') : Stored s' := by
  cases hr with
  | helloUser hst _ hsent => exact ⟨fun _ => h.password (.inr (.inr ⟨hst, hsent⟩)), fun hp => by cases hp⟩
  | askPass hst => exact ⟨fun _ => h.password (.inl hst), fun hp => by cases hp⟩
  | loginFailed hst =>
      have hlogin : s.state = .user ∨ s.state = .pass := hst.imp And.left id
      exact ⟨fun _ => h.password (hlogin.imp id .inl), fun hp => by cases hp⟩
  | retrMark | unexpected => exact h
  | hello | refused | loggedIn | done | portOk | pasvOk | abandoned | retrDone =>
      exact ⟨by simp [setState, popped, putLine], fun hp => by cases hp⟩

theorem Stored.giveInput (h : Stored s) (hd : s.Disciplined) (hg : s.giveInput ibuf = some (e, s')) : Stored s' := by
  rcases giveInput_cases hd hg with ⟨_, _, rfl⟩ | ⟨_, hr⟩
  · exact h.of_eq rfl rfl rfl rfl
  · exact Stored.reply (s := s.saveStatus ibuf) (h.of_eq rfl rfl rfl rfl) hr

theorem Stored.pass_le (h : Stored s) (hst : s.state = .user) :
    (ascii "PASS " ++ s.password ++ crlf).length ≤ lineLen := by
  have hpassword := h.password (.inl hst)
  rw [line_le_iff (by decide)]
  unfold maxPassword at hpassword
  unfold lineLen
  omega

theorem Stored.retr_le (h : Stored s) (hst : s.state = .pasv) :
    (ascii "RETR " ++ s.fname ++ crlf).length ≤ lineLen := by
  have hfname := h.fname hst
  rw [line_le_iff (by decide)]
  unfold maxFname at hfname
  unfold lineLen
  omega

/-- The lines that replies ask for always have room. -/
theorem Stored.reply_fits {status : ℤ} (h : Stored s) (hr : Reply s ibuf status e s') :
    s'.obuf = s.obuf ∧ s'.obuflen = s.obuflen ∨ s'.obuflen = s'.obuf.length ∧ s'.obuf.length ≤ lineLen := by
  cases hr with
  | askPass hst => exact .inr ⟨rfl, h.pass_le hst⟩
  | pasvOk address hst => exact .inr ⟨rfl, h.retr_le hst⟩
  | helloUser | hello | refused | loggedIn | loginFailed | done | portOk | abandoned | retrMark | retrDone
  | unexpected => exact .inl ⟨rfl, rfl⟩

theorem Stored.asked_le (h : Stored s) (hd : s.Disciplined) (hq : s.asksMore ibuf = true)
    (hg : s.giveInput ibuf = some (e, s')) : s'.obuf.length ≤ lineLen := by
  have hlf := lf_notMem_of_giveInput hg
  simp only [asksMore, Bool.and_eq_true, Bool.or_eq_true, Bool.not_eq_true', beq_iff_eq] at hq
  obtain ⟨hm, ⟨hst, h3⟩ | ⟨⟨hst, h2⟩, hp⟩⟩ := hq
  · rw [giveInput_user hst hm hlf, is2xx_of_is3xx h3, h3] at hg
    cases hg
    exact h.pass_le hst
  · rcases giveInput_pasv hd hst hm hlf h2 with ⟨a, ha, hg'⟩ | ⟨hnone, -⟩
    · cases hg'.symm.trans hg
      exact h.retr_le hst
    · rw [hnone] at hp
      cases hp

end
end Dkftpbench.FtpClientProto
