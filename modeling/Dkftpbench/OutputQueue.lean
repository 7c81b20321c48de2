import Dkftpbench.LoginRetry
import Dkftpbench.ProtoStatus
import Dkftpbench.Slot

/-!
# The lines queued for output

There is one output line. An operation that finds it in use is refused. A reply that makes
giveInput queue PASS or RETR does not look at it, and the line that was there is lost.
-/
namespace Dkftpbench.FtpClientProto
open CLib Watch Slot

/-- The reply is one that a line is queued for. -/
def asksMore (s : FtpClientProto) (ibuf : Line) : Bool :=
  !s.multiline && ((s.state == .user && is3xx (atoi ibuf.text)) ||
    (s.state == .pasv && is2xx (atoi ibuf.text) && (parsePasv ibuf).isSome))

/-- The call puts a line in `m_obuf`. -/
def queues (s : FtpClientProto) : Call → Bool
  | .op o => s.accepts o
  | .giveInput ibuf => s.asksMore ibuf
  | _ => false

/-- The line that `getOutput` returns, with its length, passes through one place. -/
def noteOutput (n : History (List Byte × ℕ)) (s : FtpClientProto) (c : Call) (s' : FtpClientProto) :
    History (List Byte × ℕ) :=
  if s.queues c then n.put s.getOutput (s'.obuf, s'.obuf.length)
  else match c with
    | .advanceOutput => n.take s.getOutput
    | _ => n

section
variable {s s' : FtpClientProto} {n : History (List Byte × ℕ)} {ibuf : Line} {o : Op} {c : Call} {e : ℤ}

theorem getOutput_of_crlf {line : List Byte} (hbuf : s.obuf = line ++ crlf) (hlen : s.obuflen = s.obuf.length) :
    s.getOutput = some (s.obuf, s.obuf.length) := by
  rw [hbuf] at hlen ⊢
  exact getOutput_of_line (by simp [crlf]) hbuf hlen

theorem cdLine_crlf (dir : CStr) : ∃ line, cdLine dir = line ++ crlf := by
  unfold cdLine
  split
  · exact ⟨_, rfl⟩
  · exact ⟨_, rfl⟩

theorem Issued.getOutput (hi : Issued s o s') : s'.getOutput = some (s'.obuf, s'.obuf.length) := by
  cases hi with
  | loginEarly | login | type | size | getPasv | getPort => exact getOutput_of_crlf rfl rfl
  | cd dir =>
      obtain ⟨line, hline⟩ := cdLine_crlf dir
      exact getOutput_of_crlf hline rfl

/-- A reply that asks for more queues a line, and no other one changes it. -/
theorem Reply.getOutput (hm : s.multiline = false)
    (hr : Reply (s.saveStatus ibuf) ibuf (atoi ibuf.text) e s') :
    s'.getOutput = if s.asksMore ibuf then some (s'.obuf, s'.obuf.length) else s.getOutput := by
  have hstate : (s.saveStatus ibuf).state = s.state := rfl
  cases hr with
  | askPass hst h3 =>
      rw [hstate] at hst
      rw [if_pos (by simp [asksMore, hm, hst, h3])]
      exact getOutput_of_crlf rfl rfl
  | pasvOk a hst h2 hp =>
      rw [hstate] at hst
      rw [if_pos (by simp [asksMore, hm, hst, h2, hp])]
      exact getOutput_of_crlf rfl rfl
  | helloUser hst | hello hst | refused hst | portOk hst | retrMark hst | retrDone hst =>
      rw [hstate] at hst
      rw [if_neg (by simp [asksMore, hst])]
      rfl
  | loggedIn hst h2 =>
      have h3 : is3xx (atoi ibuf.text) = false := by
        by_contra h3
        rw [is2xx_of_is3xx (by simpa using h3)] at h2
        cases h2
      rw [hstate] at hst
      rw [if_neg (by rcases hst with hst | hst <;> simp [asksMore, hst, h3])]
      rfl
  | loginFailed hst h2 =>
      rw [hstate] at hst
      rw [if_neg (by rcases hst with ⟨hst, h3⟩ | hst <;> simp [asksMore, *])]
      rfl
  | done hst =>
      rw [hstate] at hst
      rw [if_neg (by rcases hst with hst | hst | hst <;> simp [asksMore, hst])]
      rfl
  | abandoned hst =>
      rw [hstate] at hst
      rw [if_neg (by rcases hst with ⟨hst, _⟩ | ⟨hst, h2 | hp⟩ <;> simp [asksMore, *])]
      rfl
  | unexpected hst =>
      rw [hstate] at hst
      rw [if_neg (by rcases hst with hst | hst | hst | hst <;> simp [asksMore, hst])]
      rfl

/-- A call puts in a line, takes it out, or leaves it as it is. -/
theorem step_getOutput (hd : s.Disciplined) (hs : s.step c = some s') : s'.getOutput =
    if s.queues c then some (s'.obuf, s'.obuf.length)
    else match c with
      | .advanceOutput => none
      | _ => s.getOutput := by
  cases c with
  | op o =>
      rcases step_op_cases hd hs with ⟨hno, rfl⟩ | ⟨hyes, hi⟩
      · rw [queues, if_neg (by simp [hno])]
      · rw [queues, if_pos hyes]
        exact hi.getOutput
  | advanceOutput =>
      cases hs
      rfl
  | isPortReady =>
      cases hs
      unfold isPortReady
      split <;> rfl
  | giveInput ibuf =>
      obtain ⟨⟨e, t⟩, hg, rfl⟩ := Option.map_eq_some_iff.1 hs
      rcases giveInput_cases hd hg with ⟨hm, _, rfl⟩ | ⟨hm, hr⟩
      · rw [queues, if_neg (by simp [asksMore, hm])]
        rfl
      · exact hr.getOutput hm

/-- The history follows the place where the line is. -/
theorem accounts_step (hd : s.Disciplined) (hn : Accounts s.getOutput n) (hs : s.step c = some s') :
    Accounts s'.getOutput (noteOutput n s c s') := by
  rw [step_getOutput hd hs]
  unfold noteOutput
  cases c with
  | advanceOutput => exact hn.take
  | isPortReady => exact hn
  | op | giveInput =>
      split
      · exact hn.put _
      · exact hn

end
end Dkftpbench.FtpClientProto
