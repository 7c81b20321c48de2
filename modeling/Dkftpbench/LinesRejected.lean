import Dkftpbench.ProtoStatus

/-!
# Lines that are rejected

`giveInput` stores the status, the text and the start of a multi-line reply before the
switch on the state finds that no reply is awaited. And three states that await none
report that input would be accepted.
-/
namespace Dkftpbench.FtpClientProto
open CLib Watch

/-- A line is taken where `isInputReady` says so, and changes nothing where it is not taken. -/
structure Rejects (s : FtpClientProto) (e : ℤ) (s' : FtpClientProto) : Prop where
  unready : s.isInputReady = false → e ≠ 0
  ready : s.isInputReady = true → e ≠ EINVAL
  unchanged : e = EINVAL → s' = s

/-- No reply is awaited, and yet `isInputReady` holds. -/
def deaf : Fcps → Bool
  | .uninit => true
  | .connected => true
  | .quit => true
  | _ => false

/-- The line repeats the last reply, and starts no multi-line one. -/
structure Repeats (s : FtpClientProto) (ibuf : Line) : Prop where
  status : s.status = atoi ibuf.text
  response : s.response = ibuf.text.take lineLen
  single : ibuf.at 3 ≠ MINUS

/-- Inside a multi-line reply an operation is under way. Outside one a reply is awaited,
or the line is a repetition that comes while nothing is under way. -/
def Welcome (s : FtpClientProto) (ibuf : Line) : Prop :=
  if s.multiline then s.state ≠ .idle else deaf s.state = false ∧ (s.state = .idle → Repeats s ibuf)

section
variable {s s' : FtpClientProto} {ibuf : Line} {e : ℤ} {status : ℤ}

theorem isInputReady_iff : s.isInputReady = true ↔ s.state ≠ .idle := bne_iff_ne

theorem isInputReady_eq_false : s.isInputReady = false ↔ s.state = .idle := by
  rw [← Bool.not_eq_true, isInputReady_iff, not_not]

/-- The fields set before the switch are as they were. -/
theorem saveStatus_eq_iff (hm : s.multiline = false) : s.saveStatus ibuf = s ↔ Repeats s ibuf := by
  constructor
  · intro heq
    refine ⟨?_, ?_, ?_⟩
    · exact (congrArg FtpClientProto.status heq).symm
    · exact (congrArg FtpClientProto.response heq).symm
    · intro h3
      have hmulti : (s.multiline || ibuf.at 3 == MINUS) = s.multiline := congrArg multiline heq
      rw [hm, h3] at hmulti
      cases hmulti
  · intro h
    have hmulti : (s.multiline || ibuf.at 3 == MINUS) = s.multiline := by
      rw [hm, Bool.false_or, beq_eq_false_iff_ne]
      exact h.single
    rw [saveStatus, hmulti, ← h.status, ← h.response]

/-- EINVAL is for the states that await no reply, and only the fields set before the
switch have changed. -/
theorem Reply.result_iff (hr : Reply s ibuf status e s') :
    (e = EINVAL ↔ s.state = .idle ∨ deaf s.state = true) ∧ (e = EINVAL → s' = s) := by
  cases hr with
  | unexpected hst =>
      refine ⟨iff_of_true rfl ?_, fun _ => rfl⟩
      rcases hst with hst | hst | hst | hst <;> simp [hst, deaf]
  | refused hst =>
      refine ⟨iff_of_false (by decide) (by simp [hst, deaf]), fun he => absurd he (by decide)⟩
  | helloUser hst | hello hst | askPass hst | portOk hst | pasvOk _ hst | retrMark hst | retrDone hst =>
      refine ⟨iff_of_false (by decide) (by simp [hst, deaf]), fun he => absurd he (by decide)⟩
  | loggedIn hst =>
      refine ⟨iff_of_false (by decide) ?_, fun he => absurd he (by decide)⟩
      rcases hst with hst | hst <;> simp [hst, deaf]
  | loginFailed hst =>
      refine ⟨iff_of_false (by decide) ?_, fun he => absurd he (by decide)⟩
      rcases hst with ⟨hst, _⟩ | hst <;> simp [hst, deaf]
  | done hst =>
      refine ⟨iff_of_false (by decide) ?_, fun he => absurd he (by decide)⟩
      rcases hst with hst | hst | hst <;> simp [hst, deaf]
  | abandoned hst =>
      refine ⟨iff_of_false (by decide) ?_, fun he => absurd he (by decide)⟩
      rcases hst with ⟨hst, _⟩ | ⟨hst, _⟩ <;> simp [hst, deaf]

/-- Inside a multi-line reply every line is taken. -/
theorem rejects_multiline : Rejects s 0 s' ↔ s.state ≠ .idle := by
  constructor
  · exact fun h hst => h.unready (isInputReady_eq_false.2 hst) rfl
  · intro hst
    refine ⟨fun hno => ?_, fun _ => by decide, fun he => absurd he (by decide)⟩
    exact absurd (isInputReady_eq_false.1 hno) hst

theorem Reply.rejects_iff (hm : s.multiline = false)
    (hr : Reply (s.saveStatus ibuf) ibuf (atoi ibuf.text) e s') :
    Rejects s e s' ↔ deaf s.state = false ∧ (s.state = .idle → Repeats s ibuf) := by
  obtain ⟨hinval, hkeeps⟩ := hr.result_iff
  have hinval' : e = EINVAL ↔ s.state = .idle ∨ deaf s.state = true := hinval
  constructor
  · intro h
    constructor
    · rw [← Bool.not_eq_true]
      intro hdeaf
      refine h.ready (isInputReady_iff.2 ?_) (hinval'.2 (.inr hdeaf))
      intro hidle
      rw [hidle] at hdeaf
      cases hdeaf
    · intro hidle
      have he := hinval'.2 (.inl hidle)
      exact (saveStatus_eq_iff hm).1 ((hkeeps he).symm.trans (h.unchanged he))
  · intro ⟨hdeaf, hrepeats⟩
    refine ⟨?_, ?_, ?_⟩
    · intro hno
      rw [hinval'.2 (.inl (isInputReady_eq_false.1 hno))]
      decide
    · intro hready he
      rcases hinval'.1 he with hidle | hd
      · exact isInputReady_iff.1 hready hidle
      · exact Bool.false_ne_true (hdeaf.symm.trans hd)
    · intro he
      rcases hinval'.1 he with hidle | hd
      · exact (hkeeps he).trans ((saveStatus_eq_iff hm).2 (hrepeats hidle))
      · exact absurd (hdeaf.symm.trans hd) Bool.false_ne_true

/-- In every state that calls lead to, a line is taken exactly where `isInputReady` says so
and changes nothing where it is not, if and only if it is welcome. -/
theorem rejects_iff_welcome (hs : s.Reachable) (hlf : LF ∉ ibuf.text) :
    ∃ e s', s.giveInput ibuf = some (e, s') ∧ (Rejects s e s' ↔ Welcome s ibuf) := by
  rcases giveInput_spec hs.disciplined hlf with ⟨hm, hg⟩ | ⟨hm, e, s', hg, hr⟩
  · refine ⟨_, _, hg, ?_⟩
    rw [Welcome, if_pos hm]
    exact rejects_multiline
  · refine ⟨e, s', hg, ?_⟩
    rw [Welcome, if_neg (by simp [hm])]
    exact hr.rejects_iff hm

end

/-- The hello of the server. -/
theorem rejects_iff_welcome_hello : ∃ e s', zeroed.init.giveInput (.ofAscii "220 hi" (by decide)) = some (e, s') ∧
    (Rejects zeroed.init e s' ↔ Welcome zeroed.init (.ofAscii "220 hi" (by decide))) :=
  rejects_iff_welcome ⟨zeroed, [], rfl⟩ (by decide)

/-- A stray line after the login is rejected, and then replaces the status of the login
and starts a multi-line reply. -/
theorem stray_line_stored : ¬ ∀ (s : FtpClientProto) (ibuf : Line) (e : ℤ) (s' : FtpClientProto),
    s.Reachable → LF ∉ ibuf.text → s.giveInput ibuf = some (e, s') → Rejects s e s' := by
  intro hall
  have hrun : (zeroed.init.run [earlyLogin, hello, .advanceOutput, welcome]).map (fun s =>
      (s.multiline, (s.giveInput (.ofAscii "500-what" (by decide))).map fun r => (r.1, r.2.multiline))) =
      some (false, some (EINVAL, true)) := by decide
  obtain ⟨s, hr, heq⟩ := Option.map_eq_some_iff.1 hrun
  rw [Prod.mk.injEq, Option.map_eq_some_iff] at heq
  obtain ⟨hm, ⟨e, s'⟩, hg, heq⟩ := heq
  rw [Prod.mk.injEq] at heq
  have hsame := (hall s _ e s' ⟨zeroed, _, hr⟩ (by decide) hg).unchanged heq.1
  rw [hsame, hm] at heq
  cases heq.2

end Dkftpbench.FtpClientProto
