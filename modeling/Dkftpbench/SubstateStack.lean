import Dkftpbench.ProtoStatus

/-!
# The substate stack, callState and popState

A `get` pushes FCPS_RETR, and every reply to PORT or PASV pops it again. The stack has
room for three states and the program exits where that does not do, so a state that
stayed behind would show only after some failed transfers.
-/
namespace Dkftpbench.FtpClientProto
open CLib

/-- The state that `popState` would return. -/
def stackTop (s : FtpClientProto) : Fcps := s.stack (s.stackPtr-1)

/-- The stack holds FCPS_RETR in the two substates, and nothing elsewhere. -/
structure Balanced (s : FtpClientProto) : Prop where
  pushed : s.stackPtr = 1 ∧ s.stackTop = .retr ↔ s.state = .port ∨ s.state = .pasv
  empty : s.stackPtr = 0 ↔ ¬(s.state = .port ∨ s.state = .pasv)

/-- The program exits in `callState` or `popState`. What else stops a call is the assertion
on a line that `giveInput` makes first. -/
def StackExit (s : FtpClientProto) (c : Call) : Prop :=
  s.step c = none ∧ ∀ ibuf, c = .giveInput ibuf → LF ∉ ibuf.text

/-- The lines of a run are lines. -/
def LinesOf (cs : List Call) : Prop := ∀ ibuf, Call.giveInput ibuf ∈ cs → LF ∉ ibuf.text

section
variable {s t : FtpClientProto} {c : Call} {cs : List Call}

theorem inSubstate_iff : inSubstate s.state = true ↔ s.state = .port ∨ s.state = .pasv := by
  cases s.state <;> simp [inSubstate]

theorem Disciplined.balanced (h : s.Disciplined) : s.Balanced := by
  cases hsub : inSubstate s.state with
  | true =>
      obtain ⟨hptr, htop⟩ := h.inside hsub
      have hst := inSubstate_iff.1 hsub
      refine ⟨iff_of_true ⟨hptr, ?_⟩ hst, iff_of_false ?_ (not_not.2 hst)⟩
      · rw [stackTop, hptr]
        exact htop
      · rw [hptr]
        exact Nat.one_ne_zero
  | false =>
      have hptr := h.outside hsub
      have hst : ¬(s.state = .port ∨ s.state = .pasv) := by
        rw [← inSubstate_iff, hsub]
        exact Bool.false_ne_true
      refine ⟨iff_of_false ?_ hst, iff_of_true hptr hst⟩
      rintro ⟨h1, _⟩
      exact Nat.zero_ne_one (hptr.symm.trans h1)

/-- Only the assertion on the line stops a call. -/
theorem Disciplined.step_eq_none (h : s.Disciplined) (hs : s.step c = none) :
    ∃ ibuf, c = .giveInput ibuf ∧ LF ∈ ibuf.text := by
  cases c with
  | op o =>
      rcases perform_spec h o with ⟨e, _, heq⟩ | ⟨t, heq, _⟩
      · rw [step, heq] at hs
        cases hs
      · rw [step, heq] at hs
        cases hs
  | advanceOutput => cases hs
  | isPortReady => cases hs
  | giveInput ibuf =>
      refine ⟨ibuf, rfl, ?_⟩
      by_contra hlf
      rcases giveInput_spec h hlf with ⟨_, heq⟩ | ⟨_, e, t, heq, _⟩
      · rw [step, heq] at hs
        cases hs
      · rw [step, heq] at hs
        cases hs

theorem Disciplined.not_stackExit (h : s.Disciplined) : ¬s.StackExit c := by
  rintro ⟨hs, hlf⟩
  obtain ⟨ibuf, rfl, hin⟩ := h.step_eq_none hs
  exact hlf ibuf rfl hin

/-- A run goes on to its end, however many of its gets fail. -/
theorem Disciplined.run_completes (h : s.Disciplined) (hl : LinesOf cs) : ∃ t, s.run cs = some t := by
  induction cs generalizing s with
  | nil => exact ⟨s, rfl⟩
  | cons c cs ih =>
      cases hs : s.step c with
      | none =>
          obtain ⟨ibuf, rfl, hin⟩ := h.step_eq_none hs
          exact absurd hin (hl ibuf List.mem_cons_self)
      | some s' =>
          obtain ⟨t, hr⟩ := ih (step_disciplined h hs) fun ibuf hin => hl ibuf (List.mem_cons_of_mem c hin)
          refine ⟨t, ?_⟩
          rw [run, hs]
          exact hr

/-- In every state that calls after `init` lead to, and with every call that follows. -/
theorem substate_stack (s₀ : FtpClientProto) (cs : List Call) :
    (∀ s, (init s₀).run cs = some s → s.Balanced ∧ ∀ c, ¬s.StackExit c) ∧
      (LinesOf cs → ∃ s, (init s₀).run cs = some s) := by
  constructor
  · intro s hr
    have hd := run_disciplined (init_disciplined s₀) hr
    exact ⟨hd.balanced, fun c => hd.not_stackExit⟩
  · exact (init_disciplined s₀).run_completes

end

/-- A `get` that is refused, and another one under way. -/
theorem substate_stack_second_get : ∃ s, zeroed.init.run [earlyLogin, hello, .advanceOutput, welcome,
    getFile, .advanceOutput, passive "500 no" (by decide), getFile] = some s ∧ s.state = .pasv ∧
    s.stackPtr = 1 ∧ s.stackTop = .retr := by
  obtain ⟨hall, _⟩ := substate_stack zeroed [earlyLogin, hello, .advanceOutput, welcome,
    getFile, .advanceOutput, passive "500 no" (by decide), getFile]
  obtain ⟨hbalanced, _⟩ := hall _ rfl
  exact ⟨_, rfl, rfl, hbalanced.pushed.2 (.inr rfl)⟩

end Dkftpbench.FtpClientProto
