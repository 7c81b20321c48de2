import Dkftpbench.FuelLoop
import Dkftpbench.NbbioLines
import Dkftpbench.PipeSteps

/-!
# The loop over the lines in the input buffer

An iteration takes a line off the input buffer or finds none, and puts the line of output
or finds no room for it. So the unread bytes, and the line that is already in `m_iline`,
bound the iterations, and where the loop ends both sides are done or blocked.
-/
namespace Dkftpbench
open CLib

namespace Nbbio
variable {s t : Nbbio} {linebuf : ℕ → Byte} {maxlen : ℕ}

theorem readlineLoop_linelen (fuel : ℕ) (linebuf : ℕ → Byte) (h : s.linelen ≤ maxlen) :
    (readlineLoop maxlen fuel s linebuf).2.1.linelen ≤ maxlen := by
  induction fuel generalizing s linebuf with
  | zero => exact h
  | succ fuel ih =>
      rw [readlineLoop]
      split
      · next hgo =>
        have hread : s.readc.2.1.linelen = s.linelen := rfl
        dsimp only
        split
        · split
          · exact Nat.zero_le _
          · exact ih _ (hread ▸ h)
        · split
          · exact Nat.zero_le _
          · exact ih _ (hread ▸ hgo.2)
      · exact h

theorem readline_linelen (linebuf : ℕ → Byte) (h : s.linelen ≤ maxlen) : (s.readline linebuf maxlen).2.1.linelen ≤ maxlen := by
  unfold readline
  split
  · exact h
  · have hloop := readlineLoop_linelen s.bytesUsed.toNat linebuf h
    generalize readlineLoop maxlen s.bytesUsed.toNat s linebuf = r at hloop ⊢
    obtain ⟨o, s', linebuf'⟩ := r
    cases o with
    | none => exact hloop
    | some err => exact hloop

/-- A call that would block has taken every byte. -/
theorem readline_blocked {scan : LineSplit.Scan Byte} (hv : s.Valid) (hr : Reading s linebuf scan)
    (hlen : s.linelen ≤ maxlen) (h : (s.readline linebuf maxlen).1 = EWOULDBLOCK) :
    (s.readline linebuf maxlen).2.1.held = [] := by
  have hle := readline_linelen linebuf hlen
  unfold readline at h hle ⊢
  split at h
  · next hempty =>
    rw [if_pos hempty]
    exact (held_eq_nil_iff hv).2 hempty
  · next hempty =>
    rw [if_neg hempty] at hle ⊢
    have hfuel : s.held.length ≤ s.bytesUsed.toNat := by
      rw [← held_length, Int.toNat_natCast]
    have hloop := readlineLoop_spec maxlen hv hr hfuel
    generalize readlineLoop maxlen s.bytesUsed.toNat s linebuf = r at hloop h hle ⊢
    obtain ⟨o, t, linebuf'⟩ := r
    rcases hloop with ⟨bs, line, heq, -, -⟩ | ⟨bs, heq, -, hstop⟩
    · cases heq
      cases h
    · cases heq
      dsimp only at h hle hstop ⊢
      refine hstop.resolve_right ?_
      intro hfull
      rw [if_pos (Nat.le_antisymm hle hfull)] at h
      cases h

theorem put_cases (p : List Byte) (hv : s.Valid) :
    (∃ t ranges, s.put p = (0, t, ranges) ∧ t.Valid) ∨
    ∃ e, e ≠ 0 ∧ s.put p = (e, s, []) ∧ s.bytesFree < p.length := by
  rcases lt_or_ge s.bytesFree p.length with hfull | hroom
  · obtain ⟨e, he, hput⟩ := put_refused hfull
    exact .inr ⟨e, he, hput, hfull⟩
  · obtain ⟨t, ranges, hput, hm⟩ := put_accepted hv hroom
    exact .inl ⟨t, ranges, hput, hm.valid⟩

theorem LineRun.linelen_le {s₀ : Nbbio} {linebuf₀ : ℕ → Byte} {inp : List Byte} {bufs : List (ℕ → Byte)}
    (h : LineRun maxlen s₀ linebuf₀ s linebuf inp bufs) (h₀ : s₀.linelen ≤ maxlen) : s.linelen ≤ maxlen := by
  induction h with
  | start => exact h₀
  | put p _ ih =>
      rw [(put_reading p).1]
      exact ih
  | fillFrom k _ ih =>
      rw [(fillFrom_reading k).1]
      exact ih
  | readline _ _ ih => exact readline_linelen _ ih

/-- The part of a line that the caller's buffer starts with. -/
theorem reading_part (s : Nbbio) (linebuf : ℕ → Byte) :
    Reading s linebuf ⟨(List.range s.linelen).map linebuf, s.lastchar⟩ := by
  refine ⟨by simp, rfl, ?_⟩
  intro i hi
  simp

end Nbbio

namespace Session
open FtpClientProto Nbbio LineSplit FuelLoop

/-- The string that starts a line buffer. -/
def lineText (iline : ℕ → Byte) : List Byte := ((List.range ilineSize).map iline).takeWhile (· ≠ 0)

/-- What the buffers' own operations and those of the protocol keep. -/
structure Readable (s : Session) : Prop where
  proto : s.proto.Disciplined
  ibuf : s.ibuf.Valid
  linelen : s.ibuf.linelen ≤ ilineSize
  obuf : s.obuf.Valid

/-- No LF lies in the line, or the part of one, that `m_iline` holds. -/
structure NoLf (s : Session) : Prop where
  line : s.ilineFull = true → LF ∉ lineText s.iline
  part : ∀ i < s.ibuf.linelen, s.iline i ≠ LF

/-- There is no line to read, neither in `m_ibuf` nor in `m_iline`. -/
def NoLine (s : Session) : Prop := s.ibuf.held = [] ∧ s.ilineFull = false

/-- The line of output does not fit in the free space of `m_obuf`. -/
def NoRoom (s : Session) : Prop :=
  ∀ p len, s.proto.getOutput = some (p, len) → s.obuf.bytesFree < (p.take len).length

/-- No work is left behind. -/
structure Drained (s : Session) : Prop where
  input : s.proto.isInputReady = true → NoLine s
  output : s.proto.isOutputReady = true → NoRoom s

/-- The state between two iterations. -/
structure LoopState where
  geterr : ℤ
  puterr : ℤ
  session : Session

/-- An error number that is EWOULDBLOCK tells the truth. -/
structure Truthful (l : LoopState) : Prop where
  readable : Readable l.session
  input : l.geterr = EWOULDBLOCK → NoLine l.session
  output : l.session.proto.isOutputReady = true → l.puterr = EWOULDBLOCK → NoRoom l.session

/-- The condition of the loop. -/
def goesOn (l : LoopState) : Bool :=
  l.session.proto.isInputReady && l.geterr != EWOULDBLOCK || l.session.proto.isOutputReady && l.puterr != EWOULDBLOCK

/-- The body of the loop. -/
def iterate (w : World) (l : LoopState) : Except Stop (Except (ℤ × Session) LoopState) :=
  match l.session.nextLine l.geterr with
  | .error r => .ok (.error r)
  | .ok (geterr, s) =>
    match if s.ilineFull then s.takeLine w else .ok (.ok s) with
    | .error stop => .error stop
    | .ok (.error r) => .ok (.error r)
    | .ok (.ok s) =>
      match s.putOutput l.puterr with
      | .error r => .ok (.error r)
      | .ok (puterr, s) => .ok (.ok ⟨geterr, puterr, s⟩)

def loop (w : World) (fuel : ℕ) (l : LoopState) : Except Stop Part :=
  controlLoop w fuel l.geterr l.puterr l.session

/-- The iterations to come, at most. -/
def work (l : LoopState) : ℕ :=
  if goesOn l then l.session.ibuf.held.length+(if l.session.ilineFull then 2 else 1) else 0

section
variable {w : World} {s t : Session} {l l' : LoopState} {e : ℤ}

/-- The protocol and the buffers after any calls since their `init`, whatever `m_iline` holds. -/
theorem readable_of_reachable {b : Nbbio} {linebuf₀ linebuf : ℕ → Byte} {inp inp' out : List Byte}
    {bufs : List (ℕ → Byte)} (hproto : s.proto.Reachable)
    (hibuf : LineRun ilineSize b.init linebuf₀ s.ibuf linebuf inp bufs)
    (hobuf : Nbbio.Reachable s.obuf inp' out) : Readable s := by
  have hopened : Opened b.init 0 := ⟨init_valid, held_init, rfl, rfl⟩
  obtain ⟨bs, hscanned⟩ := hibuf.scanned hopened
  exact ⟨hproto.disciplined, hscanned.valid, hibuf.linelen_le (Nat.zero_le _), hobuf.valid_run.1⟩

theorem goesOn_eq_false : goesOn l = false ↔
    (l.session.proto.isInputReady = true → l.geterr = EWOULDBLOCK) ∧
    (l.session.proto.isOutputReady = true → l.puterr = EWOULDBLOCK) := by
  simp only [goesOn, Bool.or_eq_false_iff, Bool.and_eq_false_imp, bne_eq_false_iff_eq]

theorem line_text : (s.line w).text = lineText s.iline := by
  simp only [line, lineText]

theorem loop_stops (h : goesOn l = false) : Stops (loop w) l (.ok (.ok l.session)) := by
  intro fuel
  rw [loop, controlLoop, if_neg]
  obtain ⟨hin, hout⟩ := goesOn_eq_false.1 h
  intro hgo
  rcases hgo with ⟨hready, hne⟩ | ⟨hready, hne⟩
  · exact hne (hin hready)
  · exact hne (hout hready)

theorem loop_iterates (h : goesOn l = true) (fuel : ℕ) : loop w (fuel+1) l =
    match iterate w l with
    | .error stop => .error stop
    | .ok (.error r) => .ok (.error r)
    | .ok (.ok l) => loop w fuel l := by
  rw [loop, controlLoop, if_pos (by simpa [goesOn] using h), iterate]
  cases l.session.nextLine l.geterr with
  | error r => rfl
  | ok r =>
      dsimp only
      cases (if r.2.ilineFull = true then r.2.takeLine w else .ok (.ok r.2)) with
      | error stop => rfl
      | ok part =>
          cases part with
          | error r' => rfl
          | ok s =>
              dsimp only
              cases s.putOutput l.puterr with
              | error r' => rfl
              | ok r' => rfl

/-- A string ends before the NUL of the line. -/
theorem lf_not_mem_lineText {iline : ℕ → Byte} {line : List Byte} (h : HoldsLine iline line) (hlf : LF ∉ line) :
    LF ∉ lineText iline := by
  intro hmem
  obtain ⟨i, hi, heq⟩ := List.getElem_of_mem hmem
  have hinit : lineText iline <+: (List.range ilineSize).map iline := List.takeWhile_prefix _
  have hget : ∀ j (hj : j < (lineText iline).length), (lineText iline)[j] = iline j := by
    intro j hj
    rw [hinit.getElem hj]
    simp
  by_cases hlt : i < line.length
  · refine hlf (List.mem_of_getElem (h := hlt) ?_)
    rw [← h.bytes i hlt, ← hget i hi, heq]
  · -- the NUL would be part of the string
    have hnul : line.length < (lineText iline).length := by omega
    have hne := List.mem_takeWhile_imp (List.getElem_mem hnul)
    rw [hget _ hnul, h.nul] at hne
    simp at hne

/-- What reading a line may do: the session is as it was but for `m_ibuf` and `m_iline`. -/
structure ReadLine (s : Session) (e : ℤ) (t : Session) : Prop where
  readable : Readable t
  proto : t.proto = s.proto
  obuf : t.obuf = s.obuf
  noLf : NoLf s → NoLf t
  found : e = 0 ∧ t.ilineFull = true ∧ t.ibuf.held.length < s.ibuf.held.length ∨ e = EWOULDBLOCK ∧ NoLine t

theorem nextLine_spec (h : Readable s) (geterr : ℤ) (hfull : s.ilineFull = false) :
    (∃ r, s.nextLine geterr = .error r) ∨ ∃ e t, s.nextLine geterr = .ok (e, t) ∧ ReadLine s e t := by
  obtain ⟨bs, lines, hcall⟩ := readline_spec ilineSize h.ibuf (reading_part s.ibuf s.iline)
  have hlen := readline_linelen s.iline h.linelen
  have hblocked := readline_blocked h.ibuf (reading_part s.ibuf s.iline) h.linelen
  have hnoLf : NoLf s → (∀ i < (s.ibuf.readline s.iline ilineSize).2.1.linelen,
      (s.ibuf.readline s.iline ilineSize).2.2 i ≠ LF) ∧ ∀ line ∈ lines, LF ∉ line := by
    intro hno
    have hpart : LF ∉ (List.range s.ibuf.linelen).map s.iline := by
      simp only [List.mem_map, List.mem_range, not_exists, not_and]
      exact hno.part
    have hitems := items_no_lf CR LF ⟨(List.range s.ibuf.linelen).map s.iline, s.ibuf.lastchar⟩ bs hpart
    rw [hcall.took.lines] at hitems
    refine ⟨?_, hitems.2⟩
    intro i hi heq
    rw [hcall.took.reading.linelen] at hi
    have hmem := List.getElem_mem hi
    rw [← hcall.took.reading.part i hi, heq] at hmem
    exact hitems.1 hmem
  unfold nextLine
  rw [if_neg (by simp [hfull])]
  generalize s.ibuf.readline s.iline ilineSize = r at hcall hlen hblocked hnoLf
  obtain ⟨geterr', ibuf, iline⟩ := r
  dsimp only at hlen hblocked hnoLf ⊢
  split
  · next h0 =>
    obtain ⟨line, rfl, hline⟩ := hcall.line h0
    refine .inr ⟨_, _, rfl, ⟨h.proto, hcall.took.valid, hlen, h.obuf⟩, rfl, rfl, ?_, .inl ⟨h0, rfl, ?_⟩⟩
    · intro hno
      obtain ⟨hpart, hlines⟩ := hnoLf hno
      exact ⟨fun _ => lf_not_mem_lineText hline (hlines line List.mem_cons_self), hpart⟩
    · -- a line ends in the bytes that were taken
      have hheld : s.ibuf.held = bs ++ ibuf.held := hcall.took.held
      have hne : bs ≠ [] := by
        intro hnil
        have hlines := hcall.took.lines
        rw [hnil] at hlines
        cases hlines
      rw [hheld, List.length_append]
      exact Nat.lt_add_of_pos_left (List.length_pos_iff.2 hne)
  · next h0 =>
    split
    · exact .inl ⟨_, rfl⟩
    · next hblock =>
      have hblock' : geterr' = EWOULDBLOCK := not_not.1 hblock
      refine .inr ⟨_, _, rfl, ⟨h.proto, hcall.took.valid, hlen, h.obuf⟩, rfl, rfl, ?_,
        .inr ⟨hblock', hblocked hblock', hfull⟩⟩
      intro hno
      exact ⟨fun hf => absurd (hfull.symm.trans hf) Bool.false_ne_true, (hnoLf hno).1⟩

/-- What taking a line may do: the session is as it was but for the protocol. -/
structure TookLine (s t : Session) : Prop where
  readable : Readable t
  ibuf : t.ibuf = s.ibuf
  obuf : t.obuf = s.obuf
  iline : t.iline = s.iline
  ilineFull : t.ilineFull = false

theorem takeLine_spec (h : Readable s) :
    (∃ stop, stop ≠ .fuel ∧ s.takeLine w = .error stop ∧ LF ∈ lineText s.iline) ∨
    (∃ r, s.takeLine w = .ok (.error r)) ∨ ∃ t, s.takeLine w = .ok (.ok t) ∧ TookLine s t := by
  unfold takeLine giveLine
  rw [cancelTimeout_eq]
  dsimp only
  split
  · next hg =>
    refine .inl ⟨.assertion .protocol, fun hfuel => (by cases hfuel), rfl, ?_⟩
    by_contra hlf
    rw [← line_text (w := w)] at hlf
    rcases giveInput_spec h.proto hlf with ⟨_, heq⟩ | ⟨_, e, p, heq, _⟩
    · cases hg.symm.trans heq
    · cases hg.symm.trans heq
  · next e p hg =>
    right
    have hp := giveInput_disciplined h.proto hg
    have hresult := giveInput_result h.proto hg
    split
    · exact .inl ⟨_, rfl⟩
    · next herr =>
      have he : e = 0 := by
        rcases hresult with he | he | he
        · exact he
        · exact absurd ⟨by rw [he]; decide, by rw [he]; decide⟩ herr
        · exact absurd ⟨by rw [he]; decide, by rw [he]; decide⟩ herr
      split
      · exact .inl ⟨_, rfl⟩
      · refine .inr ⟨_, rfl, ⟨hp, h.ibuf, h.linelen, h.obuf⟩, rfl, rfl, rfl, ?_⟩
        subst he
        rfl

/-- What putting a line may do: the session is as it was but for `m_obuf` and the line that
is queued. -/
structure PutLine (s : Session) (e : ℤ) (t : Session) : Prop where
  readable : Readable t
  ibuf : t.ibuf = s.ibuf
  iline : t.iline = s.iline
  ilineFull : t.ilineFull = s.ilineFull
  output : t.proto.isOutputReady = true → e = EWOULDBLOCK ∧ NoRoom t

theorem putOutput_spec (h : Readable s) (puterr : ℤ) :
    (∃ r, s.putOutput puterr = .error r) ∨ ∃ e t, s.putOutput puterr = .ok (e, t) ∧ PutLine s e t := by
  cases hout : s.proto.getOutput with
  | none =>
      have hready : ¬ s.proto.isOutputReady = true := by
        intro hready
        rw [getOutput, hready] at hout
        cases hout
      right
      rw [putOutput, hout]
      exact ⟨_, _, rfl, h, rfl, rfl, rfl, fun hr => absurd hr hready⟩
  | some line =>
      obtain ⟨p, len⟩ := line
      rcases put_cases (p.take len) h.obuf with ⟨obuf, ranges, hput, hv⟩ | ⟨e, he, hput, hfull⟩
      · right
        rw [putOutput, hout]
        dsimp only
        rw [hput]
        exact ⟨0, _, rfl, ⟨⟨h.proto.outside, h.proto.inside⟩, h.ibuf, h.linelen, hv⟩, rfl, rfl, rfl,
          fun hr => absurd hr Bool.false_ne_true⟩
      · rw [putOutput, hout]
        dsimp only
        rw [hput]
        dsimp only
        split
        · next hblock =>
          refine .inr ⟨e, s, rfl, h, rfl, rfl, rfl, fun _ => ⟨hblock, ?_⟩⟩
          intro q k hq
          cases hout.symm.trans hq
          exact hfull
        · exact .inl ⟨_, rfl⟩

/-- What an iteration leaves. -/
structure Iterates (l l' : LoopState) : Prop where
  truthful : Truthful l'
  noLf : NoLf l.session → NoLf l'.session
  work : work l' < work l

/-- The second half of an iteration, where a line was taken or there was none. -/
theorem PutLine.iterates {u v : Session} {geterr puterr : ℤ} (hput : PutLine u puterr v) (hgo : goesOn l = true)
    (hfull : u.ilineFull = false) (hnoLf : NoLf l.session → ∀ i < u.ibuf.linelen, u.iline i ≠ LF)
    (hin : geterr = EWOULDBLOCK ∧ u.ibuf.held = [] ∨
      u.ibuf.held.length+1 < l.session.ibuf.held.length+(if l.session.ilineFull then 2 else 1) ∧
        geterr ≠ EWOULDBLOCK) :
    Iterates l ⟨geterr, puterr, v⟩ := by
  have hfull' : v.ilineFull = false := hput.ilineFull.trans hfull
  refine ⟨⟨hput.readable, ?_, fun hready _ => (hput.output hready).2⟩, ?_, ?_⟩
  · intro hblock
    rcases hin with ⟨_, hnil⟩ | ⟨_, hne⟩
    · exact ⟨by rw [hput.ibuf, hnil], hfull'⟩
    · exact absurd hblock hne
  · intro hno
    refine ⟨fun hf => absurd (hfull'.symm.trans hf) Bool.false_ne_true, ?_⟩
    rw [hput.ibuf, hput.iline]
    exact hnoLf hno
  · rcases hin with ⟨hblock, _⟩ | ⟨hlt, _⟩
    · have hstop : goesOn ⟨geterr, puterr, v⟩ = false :=
        goesOn_eq_false.2 ⟨fun _ => hblock, fun hready => (hput.output hready).1⟩
      simp only [work, hstop, hgo, if_true, Bool.false_eq_true, if_false]
      split <;> omega
    · unfold work
      rw [if_pos hgo, hfull', hput.ibuf]
      split
      · simpa using hlt
      · omega

/-- An iteration goes wrong at an LF in `m_iline`, returns, or leads to the next one. -/
def Steps (w : World) (l : LoopState) : Prop :=
  (∃ stop, stop ≠ .fuel ∧ iterate w l = .error stop ∧ ¬ NoLf l.session) ∨
  (∃ r, iterate w l = .ok (.error r)) ∨ ∃ l', iterate w l = .ok (.ok l') ∧ Iterates l l'

/-- An iteration with a line in `m_iline`. -/
theorem steps_of_line {u : Session} {geterr : ℤ} (hnext : l.session.nextLine l.geterr = .ok (geterr, u))
    (hu : Readable u) (hfull : u.ilineFull = true) (hnoLf : NoLf l.session → NoLf u) (hgo : goesOn l = true)
    (hlt : u.ibuf.held.length+1 < l.session.ibuf.held.length+(if l.session.ilineFull then 2 else 1))
    (hne : geterr ≠ EWOULDBLOCK) : Steps w l := by
  unfold Steps iterate
  rw [hnext]
  dsimp only
  rw [if_pos hfull]
  rcases takeLine_spec (w := w) hu with ⟨stop, hstop, htake, hlf⟩ | ⟨r, htake⟩ | ⟨t, htake, ht⟩
  · rw [htake]
    exact .inl ⟨stop, hstop, rfl, fun hno => (hnoLf hno).line hfull hlf⟩
  · rw [htake]
    exact .inr (.inl ⟨r, rfl⟩)
  · rw [htake]
    dsimp only
    rcases putOutput_spec ht.readable l.puterr with ⟨r, hput⟩ | ⟨e, v, hput, hv⟩
    · rw [hput]
      exact .inr (.inl ⟨r, rfl⟩)
    · rw [hput]
      refine .inr (.inr ⟨_, rfl, hv.iterates hgo ht.ilineFull ?_ (.inr ⟨?_, hne⟩)⟩)
      · rw [ht.ibuf, ht.iline]
        exact fun hno => (hnoLf hno).part
      · rw [ht.ibuf]
        exact hlt

/-- An iteration without a line. -/
theorem steps_of_noLine {u : Session} (hnext : l.session.nextLine l.geterr = .ok (EWOULDBLOCK, u))
    (hu : Readable u) (hno : NoLine u) (hnoLf : NoLf l.session → NoLf u) (hgo : goesOn l = true) : Steps w l := by
  unfold Steps iterate
  rw [hnext]
  dsimp only
  rw [if_neg (by simp [hno.2])]
  dsimp only
  rcases putOutput_spec hu l.puterr with ⟨r, hput⟩ | ⟨e, v, hput, hv⟩
  · rw [hput]
    exact .inr (.inl ⟨r, rfl⟩)
  · rw [hput]
    exact .inr (.inr ⟨_, rfl, hv.iterates hgo hno.2 (fun hno => (hnoLf hno).part) (.inl ⟨rfl, hno.1⟩)⟩)

theorem steps_of_truthful (h : Truthful l) (hgo : goesOn l = true) : Steps w l := by
  cases hfull : l.session.ilineFull with
  | true =>
      have hnext : l.session.nextLine l.geterr = .ok (l.geterr, l.session) := by
        rw [nextLine, if_pos hfull]
      have hne : l.geterr ≠ EWOULDBLOCK := by
        intro hblock
        cases hfull.symm.trans (h.input hblock).2
      refine steps_of_line hnext h.readable hfull id hgo ?_ hne
      rw [if_pos hfull]
      exact Nat.lt_succ_self _
  | false =>
      rcases nextLine_spec h.readable l.geterr hfull with ⟨r, hnext⟩ | ⟨e, u, hnext, hu⟩
      · refine .inr (.inl ⟨r, ?_⟩)
        rw [iterate, hnext]
      · rcases hu.found with ⟨rfl, hline, hlt⟩ | ⟨rfl, hno⟩
        · refine steps_of_line hnext hu.readable hline hu.noLf hgo ?_ (by decide)
          rw [if_neg (by simp [hfull])]
          exact Nat.succ_lt_succ hlt
        · exact steps_of_noLine hnext hu.readable hno hu.noLf hgo

/-- Without an LF in `m_iline` no assertion fails, and where the loop ends without returning
no work is left behind. -/
structure Concludes (s : Session) (r : Except Stop Part) : Prop where
  ended : r ≠ .error .fuel
  asserts : NoLf s → ∀ stop, r ≠ .error stop
  drained : ∀ t, r = .ok (.ok t) → Drained t

theorem Truthful.drained (h : Truthful l) (hstop : goesOn l = false) : Drained l.session := by
  obtain ⟨hin, hout⟩ := goesOn_eq_false.1 hstop
  exact ⟨fun hready => h.input (hin hready), fun hready => h.output hready (hout hready)⟩

theorem concludes_drained (h : Drained t) : Concludes s (.ok (.ok t)) := by
  refine ⟨?_, ?_, ?_⟩
  · intro heq
    cases heq
  · intro _ stop heq
    cases heq
  · intro u heq
    cases heq
    exact h

theorem concludes_returned (r : ℤ × Session) : Concludes s (.ok (.error r)) := by
  refine ⟨?_, ?_, ?_⟩
  · intro heq
    cases heq
  · intro _ stop heq
    cases heq
  · intro u heq
    cases heq

theorem concludes_stopped {stop : Stop} (hstop : stop ≠ .fuel) (hlf : ¬ NoLf s) : Concludes s (.error stop) := by
  refine ⟨?_, fun hno => absurd hno hlf, ?_⟩
  · intro heq
    cases heq
    exact hstop rfl
  · intro u heq
    cases heq

theorem loop_progresses (s : Session) :
    Progresses (loop w) work (fun l => Truthful l ∧ (NoLf s → NoLf l.session)) (Concludes s) := by
  intro l hl
  cases hgo : goesOn l with
  | false => exact .inl ⟨.ok (.ok l.session), concludes_drained (hl.1.drained hgo), loop_stops hgo⟩
  | true =>
      rcases steps_of_truthful (w := w) hl.1 hgo with ⟨stop, hstop, heq, hlf⟩ | ⟨r, heq⟩ | ⟨l', heq, hl'⟩
      · refine .inl ⟨.error stop, concludes_stopped hstop fun hno => hlf (hl.2 hno), fun fuel => ?_⟩
        rw [loop_iterates hgo, heq]
      · refine .inl ⟨.ok (.error r), concludes_returned r, fun fuel => ?_⟩
        rw [loop_iterates hgo, heq]
      · refine .inr ⟨l', ⟨hl'.truthful, fun hno => hl'.noLf (hl.2 hno)⟩, hl'.work, fun fuel => ?_⟩
        rw [loop_iterates hgo, heq]

theorem work_le (l : LoopState) : work l ≤ l.session.ibuf.held.length+2 := by
  unfold work
  split
  · split <;> omega
  · omega

/-- The loop ends, and leaves no work behind. -/
theorem control_loop_ends (h : Readable s) :
    ∃ r, Concludes s r ∧ ∀ fuel, s.ibuf.held.length+2 < fuel → controlLoop w fuel 0 0 s = r := by
  have hne : (0 : ℤ) ≠ EWOULDBLOCK := by decide
  have h0 : Truthful ⟨0, 0, s⟩ := ⟨h, fun h0 => absurd h0 hne, fun _ h0 => absurd h0 hne⟩
  obtain ⟨r, hr, hfuel⟩ := (loop_progresses s).ends ⟨h0, id⟩
  refine ⟨r, hr, ?_⟩
  intro fuel hlt
  exact hfuel fuel (lt_of_le_of_lt (work_le ⟨0, 0, s⟩) hlt)

end

/-- A pipe that has just been set up, with the hello in its input buffer. -/
def greeted : Session := { fresh blank 28000 with ibuf := (blank.ibuf.init.put (ascii "220 hi\n")).2.1 }

theorem control_loop_ends_greeted : ∃ r, Concludes greeted r ∧
    ∀ fuel, greeted.ibuf.held.length+2 < fuel → controlLoop (calm 0 []) fuel 0 0 greeted = r := by
  have hibuf : LineRun ilineSize blank.ibuf.init blank.iline greeted.ibuf blank.iline _ _ :=
    .put (ascii "220 hi\n") .start
  have hobuf : Nbbio.Reachable greeted.obuf [] [] := .init blank.obuf
  exact control_loop_ends (readable_of_reachable ⟨zeroed, [], rfl⟩ hibuf hobuf)

end Session
end Dkftpbench
