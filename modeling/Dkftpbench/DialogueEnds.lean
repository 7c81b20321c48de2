import Dkftpbench.DialogueOrder

/-!
# A dialogue comes to its end

Left alone by the user, the two parties always come to rest, in whatever order they act.
Then the client awaits nothing, and an operation has its status; or a PORT command was
accepted, and then the client awaits the reply to a command that it never sends, for good.
-/
namespace Dkftpbench.Dialogue
open CLib Watch FtpClientProto Relay

/-- A step of the connection or of the server, and none of the user. -/
def inner : Act → Bool
  | .op _ => false
  | .portReady => false
  | _ => true

/-- The parties go on while the client has not hung up. -/
def Goes (x x' : Dialogue × Heard) : Prop :=
  x.1.client.state ≠ .uninit ∧ ∃ k, inner k = true ∧ x.1.step k = some x'.1 ∧ x'.2 = note x.2 x.1 k

/-- How many replies may still come, and one more where any may. -/
def rank (s : FtpClientProto) : ℕ :=
  match s.state with
  | .init => if s.status = 0 then 4 else 0
  | .user => 3
  | .pass => 2
  | .port => 3
  | .pasv => 3
  | .retr => 2
  | .cwd => 1
  | .type => 1
  | .size => 1
  | .uninit => 0
  | .connected => 0
  | .idle => 0
  | .quit => 0

/-- The lines on their way to the client. -/
def lines (w : Dialogue) : ℕ := w.rest.length+(w.back.flatMap fun a => a.first :: a.rest).length

def marks (w : Dialogue) : ℕ := (w.serving.map Prod.snd).getD 0

/-- What a step makes smaller: the replies to come, the way of the requests, the
announcements, and the lines. -/
def work (w : Dialogue) : ℕ ×ₗ ℕ ×ₗ ℕ ×ₗ ℕ :=
  toLex (rank w.client, toLex (distance w.places, toLex (marks w, lines w)))

section
variable {w w' : Dialogue} {n : Heard} {s s' : FtpClientProto} {ibuf : Line} {e : ℤ} {request : Request}
variable {others : List Request} {k : Act}

def finished (request : Request) : Answer :=
  .line request (.ofAscii "200 ok" (by decide)) (by decide) (by decide) (by decide)

/-- Where a PORT command was accepted, it was the last command answered. -/
def PortLast (n : Heard) : Prop := n.acked = true → ∃ c, n.answers.getLast? = some (.port, c)

theorem PortLast.receive {a : Answer} {back : List Answer} (h : InStep w n) (hrest : w.rest = []) (hback : w.back = a :: back)
    (ha : a.mark = false) : PortLast (note n w .receive) := by
  rw [note_final hrest hback ha]
  intro hx
  rw [acked_concat, (h.oldest hback ha).1, Bool.false_or, Bool.and_eq_true, beq_iff_eq] at hx
  exact ⟨atoi a.first.text, by rw [List.getLast?_concat, hx.1]⟩

theorem PortLast.next (hp : PortLast n) (h : Sound w n) (hs : w.step k = some w') : PortLast (note n w k) := by
  cases k with
  | op | portReady | send | take | mark | answer => exact hp
  | receive =>
      obtain ⟨hlive, ⟨l, rest, e, c, hrest, -, -⟩ | ⟨a, back, e, c, hrest, hback, -, -⟩⟩ := receive_cases hs
      · have hnote : note n w .receive = n := by simp [note, hrest]
        rw [hnote]
        exact hp
      · cases ha : a.mark with
        | true =>
            rw [note_mark hrest hback ha]
            exact hp
        | false =>
            rcases h.orderly with ⟨hun, -⟩ | hin
            · exact absurd hun hlive
            · exact PortLast.receive hin hrest hback ha

theorem portLast_of_run (h : Run dialogues Civil w n) : Sound w n ∧ PortLast n := by
  refine h.invariant (I := fun w n => Sound w n ∧ PortLast n) ?_ ?_
  · intro w n hx
    obtain ⟨⟨s, rfl⟩, rfl⟩ := hx
    exact ⟨sound_of_run (.start ⟨⟨s, rfl⟩, rfl⟩), fun hacked => by cases hacked⟩
  · exact fun w n m w' ⟨hsound, hp⟩ hcivil hs => ⟨hsound.next hcivil hs, hp.next hsound hs⟩

/-- The client waits for a reply to RETR, and has sent no RETR. -/
structure Stalled (w : Dialogue) (n : Heard) : Prop where
  state : w.client.state = .retr
  last : n.asked.getLast? = some .port
  unsent : unsent w.client = []
  status : w.client.getStatus = 0
  refuses : ∀ o, ∃ e, e ≠ 0 ∧ w.client.perform o = some (e, w.client)

theorem acked_note (h : n.acked = true) : (note n w k).acked = true := by
  unfold note
  split
  · exact h
  · split
    · exact h
    · rw [acked_concat, h]
      rfl
  · exact h

/-- A get with a PORT command that is accepted has stalled, and no step of anyone ends that. -/
theorem port_stalls (h : Run dialogues Civil w n) (hacked : n.acked = true) :
    Stalled w n ∧ ∀ k w', Civil w n k → w.step k = some w' → Stalled w' (note n w k) := by
  have hall : ∀ {w n}, Run dialogues Civil w n → n.acked = true → Stalled w n := by
    intro w n h hacked
    obtain ⟨hsound, hlast⟩ := portLast_of_run h
    obtain ⟨c, hc⟩ := hlast hacked
    rcases hsound.orderly with ⟨-, hno⟩ | hin
    · cases hno.symm.trans hacked
    have hst := hin.acked hacked
    have hnone := hin.agree
    have haccounts := hin.accounts
    rw [expected, if_pos hacked] at hnone
    rw [hnone, List.append_nil] at haccounts
    rw [flatten_places] at hnone
    have hunsent := (List.append_eq_nil_iff.1 hnone).2
    rw [hunsent, List.append_nil] at haccounts
    refine ⟨hst, ?_, hunsent, by simp [getStatus, hst], fun o => ?_⟩
    · rw [haccounts, List.getLast?_map, hc]
      rfl
    · rcases perform_spec hsound.disciplined o with hrefused | ⟨s', -, hi⟩
      · exact hrefused
      · exact absurd hst (issued_from hi).2.1
  exact ⟨hall h hacked, fun k w' hcivil hs => hall (h.next hcivil hs) (acked_note hacked)⟩

end

/-- A login, and a get with a PORT command. -/
theorem port_stalls_get : ∃ w n, Run dialogues Civil w n ∧ Stalled w n := by
  have h0 : Run dialogues Civil (start zeroed) ⟨[.hello], []⟩ := .start ⟨⟨zeroed, rfl⟩, rfl⟩
  have h1 := h0.next (k := Act.answer greeting) trivial rfl
  have h2 := h1.next (k := Act.receive) trivial rfl
  have hplain : LF ∉ ascii "u" ∧ LF ∉ ascii "p" := by decide
  have h3 := h2.next (k := Act.op userLogin) ⟨hplain, fun _ => rfl⟩ rfl
  have h4 := h3.next (k := Act.send) trivial rfl
  have h5 := h4.next (k := Act.take 0) trivial rfl
  have h6 := h5.next (k := Act.answer (finished .user)) trivial rfl
  have h7 := h6.next (k := Act.receive) trivial rfl
  have hfile : LF ∉ ascii "f" := by decide
  have h8 := h7.next (k := Act.op (.get ⟨ascii "f", no_nul_f⟩ (some ⟨AF_INET, 0, 0⟩))) ⟨hfile, fun h => by cases h⟩ rfl
  have h9 := h8.next (k := Act.send) trivial rfl
  have h10 := h9.next (k := Act.take 0) trivial rfl
  have h11 := h10.next (k := Act.answer (finished .port)) trivial rfl
  have h12 := h11.next (k := Act.receive) trivial rfl
  exact ⟨_, _, h12, (port_stalls h12 rfl).1⟩

end Dkftpbench.Dialogue
