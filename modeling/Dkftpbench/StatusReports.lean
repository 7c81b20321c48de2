import Dkftpbench.LineRoom

/-!
# What getStatus tells

An observer notes whether an operation was accepted and whether its final reply has
come, to its last line, and asks when `getStatus` is zero. The number that `getStatus`
returns is the one saved from a line as long as no command line was written over it.
-/
namespace Dkftpbench.FtpClientProto
open CLib Watch

/-- The operation last accepted: none yet, in progress, with the first line of a final
reply of several lines taken, or answered. -/
inductive Phase
  | none | underway | ending | answered
deriving DecidableEq, Repr

/-- The reply that starts with the line is the last one to the operation: its final
reply, or a hello that turns away a login sent ahead of it. -/
def endsOp (s : FtpClientProto) (ibuf : Line) : Bool :=
  s.isFinal ibuf || (s.state == .init && s.sentUser && !is2xx (atoi ibuf.text))

def notePhase (p : Phase) (s : FtpClientProto) : Call → FtpClientProto → Phase
  | .op o, _ => if s.accepts o then .underway else p
  | .giveInput ibuf, s' =>
    if p = .underway ∧ s.multiline = false ∧ s.endsOp ibuf then
      if ibuf.at 3 = MINUS then .ending else .answered
    else if p = .ending ∧ s'.multiline = false then .answered
    else p
  | _, _ => p

/-- Runs from `init`, with the phase of the operation. -/
def phases : System FtpClientProto Call Phase where
  start s p := (∃ s₀, s = init s₀) ∧ p = .none
  step s c s' := s.step c = some s'
  note := notePhase

/-- `getStatus` is zero in an operation and not zero after it, and the line queued does
not reach beyond `m_obuf`, where the status lies. -/
structure ReportsProgress (s : FtpClientProto) (p : Phase) : Prop where
  underway : p = .underway ∨ p = .ending → s.getStatus = 0
  answered : p = .answered → s.getStatus ≠ 0
  intact : s.obuflen ≤ lineLen

/-- The text of an operation has room in its line, and no login comes after a failed
one. No hello turns away a login sent ahead, no line comes after a failed login, a reply
that ends an operation is a single line with a number, and so is numbered a line that
comes while nothing is under way. -/
def Numbered (s : FtpClientProto) : Call → Prop
  | .op o => s.accepts o → HasRoom o ∧ (s.state = .init → s.status = 0)
  | .giveInput ibuf => s.multiline = false →
      (s.state = .init → s.status = 0 ∧ (s.sentUser → is2xx (atoi ibuf.text))) ∧
      (s.state = .idle → atoi ibuf.text ≠ 0) ∧
      (s.isFinal ibuf → atoi ibuf.text ≠ 0 ∧ ibuf.at 3 ≠ MINUS)
  | _ => True

/-- What carries the answers of `getStatus` from step to step. -/
def Progress (s : FtpClientProto) : Phase → Prop
  | .none => True
  | .underway => s.state ≠ .idle ∧ (s.state = .init → s.status = 0)
  | .ending => False
  | .answered => (s.state = .idle ∨ s.state = .init) ∧ s.status ≠ 0

/-- What carries `ReportsProgress` from step to step. -/
structure Reporting (s : FtpClientProto) (p : Phase) : Prop where
  progress : Progress s p
  stored : Stored s
  intact : s.obuflen ≤ lineLen

section
variable {s s' : FtpClientProto} {p : Phase} {ibuf : Line} {o : Op} {e : ℤ}

theorem Progress.underway (h : Progress s .underway) : s.getStatus = 0 := by
  unfold getStatus
  split
  · rfl
  · next hst =>
    refine h.2 ?_
    by_contra hinit
    exact hst ⟨h.1, hinit⟩

theorem Progress.answered (h : Progress s .answered) : s.getStatus ≠ 0 := by
  unfold getStatus
  rw [if_neg]
  · exact h.2
  · exact fun hst => h.1.elim hst.1 hst.2

theorem Reporting.reports (h : Reporting s p) : ReportsProgress s p := by
  refine ⟨?_, ?_, h.intact⟩
  · rintro (rfl | rfl)
    · exact h.progress.underway
    · exact h.progress.elim
  · rintro rfl
    exact h.progress.answered

theorem Progress.op (h : Progress s p) (hd : s.Disciplined) (hok : Numbered s (.op o))
    (hs : s.step (.op o) = some s') : Progress s' (notePhase p s (.op o) s') := by
  rcases step_op_cases hd hs with ⟨hno, rfl⟩ | ⟨hyes, hi⟩
  · rw [notePhase, hno]
    exact h
  · rw [notePhase, hyes, if_pos rfl]
    cases hi with
    | loginEarly u w hst hu hlen =>
        exact ⟨fun hidle => absurd (hst.symm.trans hidle) (by decide), fun _ => (hok hyes).2 hst⟩
    | login | cd | type | size | getPasv | getPort =>
        constructor
        · intro hidle
          cases hidle
        · intro hinit
          cases hinit

theorem Progress.of_eq (h : Progress s p) (hstate : s'.state = s.state) (hstatus : s'.status = s.status) :
    Progress s' p := by
  cases p with
  | none => trivial
  | underway => exact ⟨hstate ▸ h.1, hstate ▸ hstatus ▸ h.2⟩
  | ending => exact h
  | answered => exact ⟨hstate ▸ h.1, hstatus ▸ h.2⟩

/-- A line that is no final reply to what is under way leaves it so, in a run where no hello
turns a login away. -/
theorem notePhase_underway (hno : s.multiline = true ∨ s.isFinal ibuf = false)
    (hhello : s.multiline = false → s.state = .init → s.sentUser → is2xx (atoi ibuf.text)) :
    notePhase .underway s (.giveInput ibuf) s' = .underway := by
  rw [notePhase, if_neg, if_neg]
  · rintro ⟨h, -⟩
    cases h
  · rintro ⟨-, hm, hends⟩
    rcases hno with hm' | hfinal
    · cases hm.symm.trans hm'
    · simp only [endsOp, hfinal, Bool.false_or, Bool.and_eq_true, beq_iff_eq, Bool.not_eq_true'] at hends
      obtain ⟨⟨hst, hsent⟩, h2⟩ := hends
      cases h2.symm.trans (hhello hm hst hsent)

theorem notePhase_answered : notePhase .answered s (.giveInput ibuf) s' = .answered := by
  rw [notePhase, if_neg, if_neg]
  · rintro ⟨h, -⟩
    cases h
  · rintro ⟨h, -⟩
    cases h

theorem Progress.giveInput (h : Progress s p) (hd : s.Disciplined) (hok : Numbered s (.giveInput ibuf))
    (hs : s.giveInput ibuf = some (e, s')) : Progress s' (notePhase p s (.giveInput ibuf) s') := by
  have hhello : s.multiline = false → s.state = .init → s.sentUser → is2xx (atoi ibuf.text) := fun hm hst =>
    ((hok hm).1 hst).2
  cases p with
  | none =>
      rw [notePhase, if_neg, if_neg]
      · trivial
      · exact fun hp => by cases hp.1
      · exact fun hp => by cases hp.1
  | ending => exact h.elim
  | underway =>
      rcases giveInput_cases hd hs with ⟨hm, _, rfl⟩ | ⟨hm, hr⟩
      · rw [notePhase_underway (.inl hm) hhello]
        exact h.of_eq rfl rfl
      · have hstatus : s'.status = atoi ibuf.text := hr.kept.1
        have hsettles := hr.settles
        rw [show (s.saveStatus ibuf).isFinal ibuf = s.isFinal ibuf from rfl] at hsettles
        rcases hsettles with ⟨hfinal, hst⟩ | ⟨hfinal, ⟨hidle, _⟩ | ⟨hni, hnn⟩⟩
        · obtain ⟨hnum, hsingle⟩ := (hok hm).2.2 hfinal
          rw [notePhase, if_pos ⟨rfl, hm, by simp [endsOp, hfinal]⟩, if_neg hsingle]
          exact ⟨hst, hstatus ▸ hnum⟩
        · exact absurd hidle h.1
        · rw [notePhase_underway (.inr hfinal) hhello]
          exact ⟨hni, fun hi => absurd hi hnn⟩
  | answered =>
      rw [notePhase_answered]
      rcases giveInput_cases hd hs with ⟨_, _, rfl⟩ | ⟨hm, hr⟩
      · exact h.of_eq rfl rfl
      · have hidle : s.state = .idle := h.1.resolve_right fun hi => h.2 ((hok hm).1 hi).1
        have hsame := Reply.of_idle (s := s.saveStatus ibuf) hidle hr
        subst hsame
        exact ⟨.inl hidle, (hok hm).2.1 hidle⟩

theorem intact_op (h : s.obuflen ≤ lineLen) (hd : s.Disciplined) (hok : Numbered s (.op o))
    (hs : s.step (.op o) = some s') : s'.obuflen ≤ lineLen := by
  rcases step_op_cases hd hs with ⟨-, rfl⟩ | ⟨hyes, hi⟩
  · exact h
  · have hlen : s'.obuflen = s'.obuf.length := by
      cases hi <;> rfl
    rw [hlen]
    exact hi.length_le_iff.2 (hok hyes).1

theorem intact_giveInput (h : s.obuflen ≤ lineLen) (hd : s.Disciplined) (hstored : Stored s)
    (hs : s.giveInput ibuf = some (e, s')) : s'.obuflen ≤ lineLen := by
  rcases giveInput_cases hd hs with ⟨_, _, rfl⟩ | ⟨_, hr⟩
  · exact h
  · rcases Stored.reply_fits (s := s.saveStatus ibuf) (hstored.of_eq rfl rfl rfl rfl) hr with ⟨-, hlen⟩ | ⟨hlen, hfits⟩
    · exact hlen ▸ h
    · exact hlen ▸ hfits

/-- In every run that meets the condition `getStatus` tells whether the operation last
accepted is still in progress. -/
theorem status_reports_progress (h : Run phases (fun s _ c => Numbered s c) s p) :
    ReportsProgress s p := by
  refine (run_keeps (I := Reporting) rfl ?_ ?_ ?_ ?_ ?_ h).2.reports
  · intro s p hx
    obtain ⟨⟨s₀, rfl⟩, rfl⟩ := hx
    exact ⟨⟨s₀, rfl⟩, trivial, stored_init s₀, Nat.zero_le _⟩
  · exact fun s p o s' hd hp hok hs =>
      ⟨hp.progress.op hd hok hs, hp.stored.op hd hs, intact_op hp.intact hd hok hs⟩
  · exact fun s p hp => ⟨hp.progress.of_eq rfl rfl, hp.stored.of_eq rfl rfl rfl rfl, Nat.zero_le _⟩
  · intro s p hp
    rcases isPortReady_cases s with heq | heq
    · rw [heq]
      exact hp
    · rw [heq]
      exact ⟨hp.progress.of_eq rfl rfl, hp.stored.of_eq rfl rfl rfl rfl, hp.intact⟩
  · exact fun s p ibuf e s' hd hp hok hg =>
      ⟨hp.progress.giveInput hd hok hg, hp.stored.giveInput hd hg, intact_giveInput hp.intact hd hp.stored hg⟩

end

theorem status_reports_progress_login :
    ∃ s, zeroed.init.run [earlyLogin, hello, refusal] = some s ∧ ReportsProgress s .answered := by
  have h0 : Run phases (fun s _ c => Numbered s c) zeroed.init .none := .start ⟨⟨zeroed, rfl⟩, rfl⟩
  have hroom : HasRoom (.login ⟨ascii "u", no_nul_u⟩ ⟨ascii "p", no_nul_p⟩) := by decide
  have h1 := h0.next (k := earlyLogin) (fun _ => ⟨hroom, fun _ => rfl⟩) rfl
  have h2 := h1.next (k := hello) (fun _ => ⟨fun _ => ⟨rfl, fun _ => by decide⟩, by decide, by decide⟩) rfl
  have h3 := h2.next (k := refusal) (fun _ => ⟨by decide, by decide, by decide⟩) rfl
  exact ⟨_, rfl, status_reports_progress h3⟩

/-- A login repeated after a failed one reads as finished from the start. -/
theorem repeated_login_reports_failure : ¬ ∀ (s : FtpClientProto) (p : Phase),
    Run phases (fun _ _ _ => True) s p → ReportsProgress s p := by
  intro hall
  have h0 : Run phases (fun _ _ _ => True) zeroed.init .none := .start ⟨⟨zeroed, rfl⟩, rfl⟩
  have hfollow : ((follow (fun s _ c => s.step c) notePhase zeroed.init .none
      [earlyLogin, hello, .advanceOutput, refusal, earlyLogin]).map fun r => (r.1.getStatus, r.2)) =
      some (530, .underway) := by decide
  obtain ⟨⟨s, p⟩, hr, heq⟩ := Option.map_eq_some_iff.1 hfollow
  have hreports := hall s p (h0.follow (fun _ _ _ _ h => ⟨trivial, h⟩) hr)
  rw [Prod.mk.injEq] at heq
  cases heq.1.symm.trans (hreports.underway (.inl heq.2))

end Dkftpbench.FtpClientProto
