import Dkftpbench.LineRoom

/-!
# The caller takes the lines that were queued

What was queued comes out of `m_obuf` as it was put in, one line after the other, if no
line is put over another one and each lies in `m_obuf`. The fields behind it are written by
the next call, so a line that reaches into them does not stay what it was.
-/
namespace Dkftpbench.FtpClientProto
open CLib Watch Slot

/-- The lines queued and taken, and whether an operation was accepted whose text had no room. -/
structure OutputNotes where
  lines : History (List Byte × ℕ)
  long : Bool

def noteLong (long : Bool) (s : FtpClientProto) : Call → Bool
  | .op o => long || (s.accepts o && !decide (HasRoom o))
  | _ => long

/-- Runs from `init`, with the lines queued and taken. -/
def outputs : System FtpClientProto Call OutputNotes where
  start s n := (∃ s₀, s = init s₀) ∧ n = ⟨.empty, false⟩
  step s c s' := s.step c = some s'
  note n s c s' := ⟨noteOutput n.lines s c s', noteLong n.long s c⟩

/-- The lines taken are those queued, in their order and up to the one still there, and
each of them lies in `m_obuf`. -/
structure LinesKept (s : FtpClientProto) (n : OutputNotes) : Prop where
  kept : n.lines.queued = n.lines.taken ++ s.getOutput.toList
  fit : ∀ x ∈ n.lines.queued, x.1.length ≤ lineLen

/-- What carries `LinesKept` from step to step. -/
structure Queueing (s : FtpClientProto) (n : OutputNotes) : Prop where
  stored : Stored s
  accounts : Accounts s.getOutput n.lines
  fit : (∀ x ∈ n.lines.queued, x.1.length ≤ lineLen) ↔ n.long = false

section
variable {s s' : FtpClientProto} {n : OutputNotes} {ibuf : Line} {o : Op} {c : Call} {e : ℤ}

theorem noteOutput_of_queues (hq : s.queues c = true) (h : History (List Byte × ℕ)) :
    (noteOutput h s c s').queued = h.queued ++ [(s'.obuf, s'.obuf.length)] := by
  unfold noteOutput
  rw [if_pos hq]
  rfl

theorem noteOutput_of_not_queues (hq : s.queues c = false) (h : History (List Byte × ℕ)) :
    (noteOutput h s c s').queued = h.queued := by
  unfold noteOutput
  rw [if_neg (by simp [hq])]
  cases c <;> rfl

theorem forall_fit_concat {queued : List (List Byte × ℕ)} {x : List Byte × ℕ} :
    (∀ y ∈ queued ++ [x], y.1.length ≤ lineLen) ↔
      (∀ y ∈ queued, y.1.length ≤ lineLen) ∧ x.1.length ≤ lineLen := by
  rw [List.forall_mem_append, List.forall_mem_singleton]

/-- An operation that is accepted adds a line, and the line lies in `m_obuf` where its text
has room. -/
theorem Queueing.fit_op (h : Queueing s n) (hd : s.Disciplined) (hs : s.step (.op o) = some s') :
    (∀ x ∈ (noteOutput n.lines s (.op o) s').queued, x.1.length ≤ lineLen) ↔
      noteLong n.long s (.op o) = false := by
  rcases step_op_cases hd hs with ⟨hno, -⟩ | ⟨hyes, hi⟩
  · rw [noteOutput_of_not_queues (c := .op o) hno, noteLong, hno, Bool.false_and, Bool.or_false]
    exact h.fit
  · rw [noteOutput_of_queues (c := .op o) hyes, forall_fit_concat, h.fit, hi.length_le_iff, noteLong, hyes]
    simp

/-- A line that a reply asks for always lies in `m_obuf`. -/
theorem Queueing.fit_giveInput (h : Queueing s n) (hd : s.Disciplined) (hg : s.giveInput ibuf = some (e, s')) :
    (∀ x ∈ (noteOutput n.lines s (.giveInput ibuf) s').queued, x.1.length ≤ lineLen) ↔ n.long = false := by
  cases hq : s.queues (.giveInput ibuf) with
  | false =>
      rw [noteOutput_of_not_queues hq]
      exact h.fit
  | true =>
      rw [noteOutput_of_queues hq, forall_fit_concat, h.fit, and_iff_left]
      exact h.stored.asked_le hd hq hg

theorem Queueing.step (h : Queueing s n) (hd : s.Disciplined) (hs : s.step c = some s') :
    Queueing s' ⟨noteOutput n.lines s c s', noteLong n.long s c⟩ := by
  have haccounts := accounts_step hd h.accounts hs
  cases c with
  | op o => exact ⟨h.stored.op hd hs, haccounts, h.fit_op hd hs⟩
  | advanceOutput =>
      cases hs
      exact ⟨h.stored.of_eq rfl rfl rfl rfl, haccounts, h.fit⟩
  | isPortReady =>
      cases hs
      refine ⟨?_, haccounts, h.fit⟩
      rcases isPortReady_cases s with heq | heq
      · rw [heq]
        exact h.stored
      · rw [heq]
        exact h.stored.of_eq rfl rfl rfl rfl
  | giveInput ibuf =>
      obtain ⟨⟨e, t⟩, hg, rfl⟩ := Option.map_eq_some_iff.1 hs
      exact ⟨h.stored.giveInput hd hg, haccounts, h.fit_giveInput hd hg⟩

/-- The lines are kept, exactly where no reply that asks for more has come before a line was
taken and every text had room in its line. -/
theorem lines_kept_iff (h : Run outputs (fun _ _ _ => True) s n) :
    LinesKept s n ↔ n.lines.overwritten = false ∧ n.long = false := by
  have hn : s.Disciplined ∧ Queueing s n := by
    refine h.invariant (I := fun s n => s.Disciplined ∧ Queueing s n) ?_ ?_
    · intro s n hx
      obtain ⟨⟨s₀, rfl⟩, rfl⟩ := hx
      exact ⟨init_disciplined s₀, stored_init s₀, accounts_empty, iff_of_true nofun rfl⟩
    · intro s n c s' ⟨hd, hn⟩ _ hs
      exact ⟨step_disciplined hd hs, hn.step hd hs⟩
  rw [← hn.2.accounts.kept_iff, ← hn.2.fit]
  exact ⟨fun hkept => ⟨hkept.kept, hkept.fit⟩, fun ⟨hkept, hfit⟩ => ⟨hkept, hfit⟩⟩

end

/-- A login ahead of the hello, taken before the reply that asks for its password. -/
theorem lines_kept_login : ∃ (s : FtpClientProto) (n : OutputNotes), zeroed.init.run [earlyLogin,
    .advanceOutput, hello, .giveInput (.ofAscii "331 pass" (by decide))] = some s ∧ n.lines.queued.length = 2 ∧
    LinesKept s n := by
  have h0 : Run outputs (fun _ _ _ => True) zeroed.init ⟨.empty, false⟩ := .start ⟨⟨zeroed, rfl⟩, rfl⟩
  have h1 := h0.next (k := earlyLogin) trivial rfl
  have h2 := h1.next (k := Call.advanceOutput) trivial rfl
  have h3 := h2.next (k := hello) trivial rfl
  have h4 := h3.next (k := Call.giveInput (.ofAscii "331 pass" (by decide))) trivial rfl
  exact ⟨_, _, rfl, rfl, (lines_kept_iff h4).2 ⟨rfl, by decide⟩⟩

/-- Where that reply comes first, the line USER is lost. -/
theorem line_lost_login : ¬ ∀ (s : FtpClientProto) (n : OutputNotes),
    Run outputs (fun _ _ _ => True) s n → LinesKept s n := by
  intro hall
  have h0 : Run outputs (fun _ _ _ => True) zeroed.init ⟨.empty, false⟩ := .start ⟨⟨zeroed, rfl⟩, rfl⟩
  have h1 := h0.next (k := earlyLogin) trivial rfl
  have h2 := h1.next (k := hello) trivial rfl
  have h3 := h2.next (k := Call.giveInput (.ofAscii "331 pass" (by decide))) trivial rfl
  have hlen := congrArg List.length (hall _ _ h3).kept
  revert hlen
  decide

end Dkftpbench.FtpClientProto
