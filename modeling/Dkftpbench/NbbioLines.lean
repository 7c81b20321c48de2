import Dkftpbench.LineSplit
import Dkftpbench.NbbioQueue
import Mathlib.Data.List.Forall2

/-!
# The lines that readline returns

Between two calls of `readline` the partial line lies in the caller's buffer, and its
length and the last byte read lie in the object: together they are a scan, and a call
feeds it the bytes that it takes off the queue. So the lines depend on the bytes alone and
not on how they came in. They are the lines of the text, except that an LF is passed over
behind a CR LF too.
-/
namespace Dkftpbench.Nbbio
open CLib LineSplit

/-- The bytes at the start of the caller's buffer. -/
def Starts (linebuf : ℕ → Byte) (bs : List Byte) : Prop := ∀ i (h : i < bs.length), linebuf i = bs[i]

/-- A line and its NUL lie in the caller's buffer. -/
structure HoldsLine (linebuf : ℕ → Byte) (line : List Byte) : Prop where
  bytes : Starts linebuf line
  nul : linebuf line.length = 0

/-- How far `readline` has come. -/
structure Reading (s : Nbbio) (linebuf : ℕ → Byte) (scan : Scan Byte) : Prop where
  linelen : s.linelen = scan.part.length
  lastchar : s.lastchar = scan.last
  part : Starts linebuf scan.part

/-- These bytes were taken off the queue, and these lines end in them. -/
structure Took (s : Nbbio) (scan : Scan Byte) (bs : List Byte) (lines : List (List Byte)) (s' : Nbbio)
    (linebuf : ℕ → Byte) : Prop where
  held : s.held = bs ++ s'.held
  valid : s'.Valid
  reading : Reading s' linebuf (scan.items CR LF bs).1
  lines : (scan.items CR LF bs).2 = lines

/-- The loop of `readline` ends a line, or it stops where nothing is held or the caller's
buffer is full. -/
def Loops (maxlen : ℕ) (s : Nbbio) (scan : Scan Byte) (r : Option ℤ × Nbbio × (ℕ → Byte)) : Prop :=
  (∃ bs line, r.1 = some 0 ∧ Took s scan bs [line] r.2.1 r.2.2 ∧ HoldsLine r.2.2 line) ∨
  ∃ bs, r.1 = none ∧ Took s scan bs [] r.2.1 r.2.2 ∧ (r.2.1.held = [] ∨ maxlen ≤ r.2.1.linelen)

section
variable {s s' t : Nbbio} {linebuf linebuf' : ℕ → Byte} {scan : Scan Byte} {bs cs line : List Byte}
variable {lines : List (List Byte)} {c : Byte} {maxlen : ℕ}

theorem Starts.nil : Starts linebuf [] := fun _ h => absurd h (Nat.not_lt_zero _)

theorem Starts.update (h : Starts linebuf bs) (c : Byte) :
    Starts (Function.update linebuf bs.length c) (bs ++ [c]) := by
  intro i hi
  rw [List.length_append, List.length_singleton] at hi
  by_cases heq : i = bs.length
  · simp [heq]
  · have hlt : i < bs.length := by omega
    rw [Function.update_of_ne heq, h i hlt, List.getElem_append_left hlt]

theorem Starts.terminate (h : Starts linebuf bs) : HoldsLine (Function.update linebuf bs.length 0) bs where
  bytes i hi := by
    rw [Function.update_of_ne hi.ne]
    exact h i hi
  nul := Function.update_self ..

theorem Took.rfl (hv : s.Valid) (hr : Reading s linebuf scan) : Took s scan [] [] s linebuf :=
  ⟨by simp, hv, hr, by simp [Scan.items]⟩

/-- One byte off the queue, and what follows. -/
theorem Took.cons (hheld : s.held = c :: t.held) (hitem : (scan.item CR LF c).2 = [])
    (h : Took t (scan.item CR LF c).1 cs lines s' linebuf) : Took s scan (c :: cs) lines s' linebuf where
  held := by rw [hheld, h.held, List.cons_append]
  valid := h.valid
  reading := h.reading
  lines := by rw [Scan.items, hitem, List.nil_append, h.lines]

theorem Took.single (hheld : s.held = c :: s'.held) (hv : s'.Valid)
    (hitem : scan.item CR LF c = (⟨[], c⟩, [line])) (hlen : s'.linelen = 0) (hlast : s'.lastchar = c) :
    Took s scan [c] [line] s' linebuf where
  held := hheld
  valid := hv
  reading := by
    rw [Scan.items, hitem]
    exact ⟨hlen, hlast, .nil⟩
  lines := by simp [Scan.items, hitem]

theorem held_eq_nil_iff (hv : s.Valid) : s.held = [] ↔ s.isEmpty = true := by
  obtain ⟨h1, h2, h3, h4⟩ := hv
  rw [← List.length_eq_zero_iff, ← Int.natCast_eq_zero, held_length, bytesUsed, isEmpty, beq_iff_eq]
  unfold nbbioBufLen at *
  omega

theorem Loops.cons {r : Option ℤ × Nbbio × (ℕ → Byte)} (hheld : s.held = c :: t.held)
    (hitem : (scan.item CR LF c).2 = []) (h : Loops maxlen t (scan.item CR LF c).1 r) :
    Loops maxlen s scan r := by
  rcases h with ⟨bs, line, hr, htook, hline⟩ | ⟨bs, hr, htook, hstop⟩
  · exact .inl ⟨c :: bs, line, hr, htook.cons hheld hitem, hline⟩
  · exact .inr ⟨c :: bs, hr, htook.cons hheld hitem, hstop⟩

theorem Loops.single (hheld : s.held = c :: s'.held) (hv : s'.Valid)
    (hitem : scan.item CR LF c = (⟨[], c⟩, [scan.part])) (hpart : Starts linebuf scan.part)
    (hlen : s'.linelen = 0) (hlast : s'.lastchar = c) :
    Loops maxlen s scan (some 0, s', Function.update linebuf scan.part.length 0) :=
  .inl ⟨[c], scan.part, rfl, .single hheld hv hitem hlen hlast, hpart.terminate⟩

theorem readc_spec (hv : s.Valid) (hne : s.isEmpty = false) :
    ∃ c t ranges, s.readc = (c, t, ranges) ∧ s.held = c :: t.held ∧ t.Valid ∧
      t.linelen = s.linelen ∧ t.lastchar = s.lastchar := by
  have hm := readc_moves hv hne
  exact ⟨s.readc.1, s.readc.2.1, s.readc.2.2, rfl, by simpa using hm.held, hm.valid, rfl, rfl⟩

theorem readlineLoop_spec {fuel : ℕ} (maxlen : ℕ) (hv : s.Valid) (hr : Reading s linebuf scan)
    (hfuel : s.held.length ≤ fuel) : Loops maxlen s scan (readlineLoop maxlen fuel s linebuf) := by
  induction fuel generalizing s linebuf scan with
  | zero =>
      have hnil : s.held = [] := List.eq_nil_of_length_eq_zero (by omega)
      exact .inr ⟨[], rfl, .rfl hv hr, .inl hnil⟩
  | succ fuel ih =>
      rw [readlineLoop]
      split
      · next hgo =>
        obtain ⟨c, t, ranges, heq, hheld, hvalid, hlen, hlast⟩ := readc_spec hv (by simpa using hgo.1)
        have hfuel' : t.held.length ≤ fuel := by
          rw [hheld, List.length_cons] at hfuel
          omega
        rw [hr.linelen] at hlen
        rw [hr.lastchar] at hlast
        rw [heq]
        dsimp only
        rw [hlen, hlast]
        split
        · next hlf =>
          subst hlf
          split
          · next hcr =>
            -- A plain LF, or a line that an LF ends.
            have hitem : scan.item CR LF LF = (⟨[], LF⟩, [scan.part]) := by simp [Scan.item, hcr]
            exact .single (c := LF) hheld ⟨hvalid.1, hvalid.2, hvalid.3, hvalid.4⟩ hitem hr.part rfl rfl
          · next hcr =>
            -- The LF is passed over, and `lastchar` stays CR.
            have hitem : scan.item CR LF LF = (scan, []) := by simpa [Scan.item] using hcr
            refine .cons hheld (by rw [hitem]) ?_
            rw [hitem]
            exact ih hvalid ⟨hlen, hlast, hr.part⟩ hfuel'
        · next hlf =>
          split
          · next hcr =>
            subst hcr
            have hitem : scan.item CR LF CR = (⟨[], CR⟩, [scan.part]) := by simp [Scan.item, hlf]
            exact .single (c := CR) hheld ⟨hvalid.1, hvalid.2, hvalid.3, hvalid.4⟩ hitem hr.part rfl rfl
          · next hcr =>
            have hitem : scan.item CR LF c = (⟨scan.part ++ [c], c⟩, []) := by simp [Scan.item, hlf, hcr]
            refine .cons (t := { t with lastchar := c, linelen := scan.part.length+1 }) hheld
              (by rw [hitem]) ?_
            rw [hitem]
            exact ih ⟨hvalid.1, hvalid.2, hvalid.3, hvalid.4⟩ ⟨by simp, rfl, hr.part.update c⟩ hfuel'
      · next hstop =>
        refine .inr ⟨[], rfl, .rfl hv hr, ?_⟩
        rw [held_eq_nil_iff hv]
        by_contra hno
        rw [not_or] at hno
        exact hstop ⟨by simpa using hno.1, not_le.1 hno.2⟩

/-- One call: it returns a line, or it would block, or there is no room. -/
structure Call (maxlen : ℕ) (s : Nbbio) (scan : Scan Byte) (r : ℤ × Nbbio × (ℕ → Byte)) (bs : List Byte)
    (lines : List (List Byte)) : Prop where
  took : Took s scan bs lines r.2.1 r.2.2
  line : r.1 = 0 → ∃ line, lines = [line] ∧ HoldsLine r.2.2 line
  wait : r.1 ≠ 0 → lines = []
  code : r.1 = 0 ∨ r.1 = EWOULDBLOCK ∧ (r.2.1.held = [] ∨ maxlen ≤ r.2.1.linelen) ∨
    r.1 = ENOSPC ∧ r.2.1.linelen = maxlen

theorem readline_spec (maxlen : ℕ) (hv : s.Valid) (hr : Reading s linebuf scan) :
    ∃ bs lines, Call maxlen s scan (s.readline linebuf maxlen) bs lines := by
  unfold readline
  split
  · next hempty =>
    have hnil := (held_eq_nil_iff hv).2 hempty
    exact ⟨[], [], .rfl hv hr, nofun, fun _ => rfl, .inr (.inl ⟨rfl, .inl hnil⟩)⟩
  · have hfuel : s.held.length ≤ s.bytesUsed.toNat := by
      rw [← held_length, Int.toNat_natCast]
    have hloop := readlineLoop_spec maxlen hv hr hfuel
    generalize readlineLoop maxlen s.bytesUsed.toNat s linebuf = r at hloop ⊢
    obtain ⟨o, s', linebuf'⟩ := r
    rcases hloop with ⟨bs, line, heq, htook, hline⟩ | ⟨bs, heq, htook, hstop⟩
    · cases heq
      exact ⟨bs, [line], htook, fun _ => ⟨line, rfl, hline⟩, fun h => absurd rfl h, .inl rfl⟩
    · cases heq
      dsimp only at *
      split
      · next hfull => exact ⟨bs, [], htook, nofun, fun _ => rfl, .inr (.inr ⟨rfl, hfull⟩)⟩
      · exact ⟨bs, [], htook, nofun, fun _ => rfl, .inr (.inl ⟨rfl, hstop⟩)⟩

theorem Took.trans {ls : List (List Byte)} (h : Took s scan bs lines t linebuf)
    (h' : Took t (scan.items CR LF bs).1 cs ls s' linebuf') :
    Took s scan (bs ++ cs) (lines ++ ls) s' linebuf' where
  held := by rw [h.held, h'.held, List.append_assoc]
  valid := h'.valid
  reading := by
    rw [items_append]
    exact h'.reading
  lines := by rw [items_append, h.lines, h'.lines]

end

/-- The scan of a buffer from which no line was read yet. -/
def fresh : Scan Byte := ⟨[], 0⟩

/-- Nothing was read since `init`. -/
structure Unread (s : Nbbio) : Prop where
  valid : s.Valid
  linelen : s.linelen = 0
  lastchar : s.lastchar = 0

/-- Every run of bytes between ends of lines is shorter than the caller's buffer. -/
def Fits (maxlen : ℕ) (bs : List Byte) : Prop :=
  ∀ l, l <:+: bs → (∀ c ∈ l, c ≠ CR ∧ c ≠ LF) → l.length < maxlen

/-- Calls of `readline` until one does not return 0: the buffer after each line, and what
the last call comes to. -/
def readLines (maxlen : ℕ) : ℕ → Nbbio → (ℕ → Byte) → List (ℕ → Byte) × ℤ × Nbbio × (ℕ → Byte)
  | 0, s, linebuf => ([], 0, s, linebuf)
  | calls+1, s, linebuf =>
    let r := s.readline linebuf maxlen
    if r.1 = 0 then
      let t := readLines maxlen calls r.2.1 r.2.2
      (r.2.2 :: t.1, t.2)
    else ([], r)

/-- The lines of a text were returned, and its unterminated tail is left. -/
structure ReadsLines (bs : List Byte) (r : List (ℕ → Byte) × ℤ × Nbbio × (ℕ → Byte)) : Prop where
  ended : r.2.1 = EWOULDBLOCK
  lines : List.Forall₂ HoldsLine r.1 (split CR LF bs).1
  tail : Starts r.2.2.2 (split CR LF bs).2
  linelen : r.2.2.1.linelen = (split CR LF bs).2.length

section
variable {s s' t : Nbbio} {linebuf linebuf' : ℕ → Byte} {scan : Scan Byte} {bs cs line : List Byte}
variable {lines : List (List Byte)} {c : Byte} {maxlen calls : ℕ}

theorem Unread.reading (h : s.Unread) (linebuf : ℕ → Byte) : Reading s linebuf fresh :=
  ⟨h.linelen, h.lastchar, .nil⟩

/-- What was read of a line that has not ended fits. -/
theorem Fits.part_lt (h : Fits maxlen (bs ++ cs)) : (fresh.items CR LF bs).1.part.length < maxlen := by
  obtain ⟨hfree, hsuffix⟩ := items_part CR LF fresh bs (fun _ => rfl) nofun
  exact h _ (hsuffix.isInfix.trans (List.infix_append [] bs cs)) hfree

/-- The calls take everything off the queue. -/
theorem readLines_spec (cs : List Byte) (hv : s.Valid) (hr : Reading s linebuf (fresh.items CR LF cs).1)
    (hfits : Fits maxlen (cs ++ s.held)) (hcalls : s.held.length < calls) :
    ∃ bufs lines s' linebuf', readLines maxlen calls s linebuf = (bufs, EWOULDBLOCK, s', linebuf') ∧
      Took s (fresh.items CR LF cs).1 s.held lines s' linebuf' ∧ List.Forall₂ HoldsLine bufs lines := by
  induction calls generalizing s linebuf cs with
  | zero => omega
  | succ calls ih =>
      obtain ⟨bs, lines, hcall⟩ := readline_spec maxlen hv hr
      have htook := hcall.took
      have hreading := htook.reading
      rw [readLines]
      generalize s.readline linebuf maxlen = r at hcall htook hreading ⊢
      obtain ⟨err, t, linebuf₁⟩ := r
      dsimp only at *
      have hcons : (fresh.items CR LF (cs ++ bs)).1 = ((fresh.items CR LF cs).1.items CR LF bs).1 := by
        rw [items_append]
      rw [htook.held, ← List.append_assoc] at hfits
      rw [← hcons] at hreading
      split
      · next h0 =>
        obtain ⟨line, rfl, hline⟩ := hcall.line h0
        have hbs : bs ≠ [] := by
          rintro rfl
          cases htook.lines
        have hlt : t.held.length < calls := by
          rw [htook.held, List.length_append] at hcalls
          have := List.length_pos_of_ne_nil hbs
          omega
        obtain ⟨bufs, ls, s', linebuf', heq, htook', hlines⟩ := ih _ htook.valid hreading hfits hlt
        rw [heq]
        rw [hcons] at htook'
        refine ⟨_, _, _, _, rfl, ?_, .cons hline hlines⟩
        rw [htook.held]
        exact htook.trans htook'
      · next hne =>
        have hlt := hfits.part_lt
        rw [← hreading.linelen] at hlt
        rcases hcall.code with h0 | ⟨hblock, hstop⟩ | ⟨_, hfull⟩
        · exact absurd h0 hne
        · have hnil : t.held = [] := hstop.resolve_right (not_le.2 hlt)
          have hall : s.held = bs := by rw [htook.held, hnil, List.append_nil]
          have hnone := hcall.wait hne
          rw [hnone] at htook
          dsimp only at hblock
          rw [hblock, hall]
          exact ⟨[], [], t, linebuf₁, rfl, htook, .nil⟩
        · exact absurd hfull hlt.ne

/-- `readline` returns the lines of what is held exactly where no LF follows a CR LF. -/
theorem readline_lines_iff (h : s.Unread) (hfits : Fits maxlen s.held) (hcalls : s.held.length < calls) :
    ReadsLines s.held (readLines maxlen calls s linebuf) ↔ ¬ [CR, LF, LF] <:+: s.held := by
  obtain ⟨bufs, lines, s', linebuf', heq, htook, hlines⟩ :=
    readLines_spec [] h.valid (h.reading linebuf) hfits hcalls
  have hcrlf : CR ≠ LF := by decide
  change Took s fresh s.held lines s' linebuf' at htook
  rw [heq]
  constructor
  · intro hreads hin
    have hlt := (items_length (s := fresh) hcrlf).2 (.inr hin)
    rw [htook.lines, ← hlines.length_eq, hreads.lines.length_eq] at hlt
    exact absurd hlt (lt_irrefl _)
  · intro hno
    have hkept : ¬ Swallows CR LF fresh.last s.held := by
      rintro (⟨hlast, _⟩ | hin)
      · exact absurd hlast (by decide)
      · exact hno hin
    have hsplit := items_eq_split hcrlf hkept
    rw [show fresh.part = [] from rfl, prepend_nil] at hsplit
    constructor
    · rfl
    · rw [← hsplit, htook.lines]
      exact hlines
    · rw [← hsplit]
      exact htook.reading.part
    · rw [← hsplit]
      exact htook.reading.linelen

theorem fits_of_length (h : bs.length < maxlen) : Fits maxlen bs :=
  fun _ hl _ => hl.length_le.trans_lt h

end

/-- A buffer that was just initialised and filled. -/
def filled (bs : List Byte) : Nbbio := (put (init ⟨fun _ => 7, 5, 7, 3, 10⟩) bs).2.1

/-- The line "ab" and the tail "c". -/
theorem readline_lines_ab :
    ReadsLines (filled [97, 98, 13, 10, 99]).held (readLines 9 6 (filled [97, 98, 13, 10, 99]) fun _ => 1) := by
  have hunread : (filled [97, 98, 13, 10, 99]).Unread :=
    ⟨⟨by decide, by decide, by decide, by decide⟩, by decide, by decide⟩
  exact (readline_lines_iff hunread (fits_of_length (by decide)) (by decide)).2 (by decide)

/-- The empty line behind "ab" CR LF is lost. -/
theorem readline_loses_empty_line : ¬ ∀ (s : Nbbio) (linebuf : ℕ → Byte) (maxlen calls : ℕ), s.Unread →
    Fits maxlen s.held → s.held.length < calls → ReadsLines s.held (readLines maxlen calls s linebuf) := by
  intro hall
  have hunread : (filled [97, 98, 13, 10, 10, 99]).Unread :=
    ⟨⟨by decide, by decide, by decide, by decide⟩, by decide, by decide⟩
  have hreads := hall _ (fun _ => 1) 9 7 hunread (fits_of_length (by decide)) (by decide)
  have hlength := hreads.lines.length_eq
  revert hlength
  decide

/-- What the buffer is given from a start on, the line buffers that `readline` returned,
and no call for which there was no room. -/
inductive LineRun (maxlen : ℕ) (s₀ : Nbbio) (linebuf₀ : ℕ → Byte) :
    Nbbio → (ℕ → Byte) → List Byte → List (ℕ → Byte) → Prop
  | start : LineRun maxlen s₀ linebuf₀ s₀ linebuf₀ [] []
  | put {s : Nbbio} {linebuf : ℕ → Byte} {inp : List Byte} {bufs : List (ℕ → Byte)} (p : List Byte) :
      LineRun maxlen s₀ linebuf₀ s linebuf inp bufs →
      LineRun maxlen s₀ linebuf₀ (s.put p).2.1 linebuf (if (s.put p).1 = 0 then inp ++ p else inp) bufs
  | fillFrom {s : Nbbio} {linebuf : ℕ → Byte} {inp : List Byte} {bufs : List (ℕ → Byte)} (k : Kernel) :
      LineRun maxlen s₀ linebuf₀ s linebuf inp bufs →
      LineRun maxlen s₀ linebuf₀ (s.fillFrom k).2.1 linebuf (inp ++ (s.fillFrom k).2.2.1) bufs
  | readline {s : Nbbio} {linebuf : ℕ → Byte} {inp : List Byte} {bufs : List (ℕ → Byte)} :
      LineRun maxlen s₀ linebuf₀ s linebuf inp bufs → (s.readline linebuf maxlen).1 ≠ ENOSPC →
      LineRun maxlen s₀ linebuf₀ (s.readline linebuf maxlen).2.1 (s.readline linebuf maxlen).2.2 inp
        (if (s.readline linebuf maxlen).1 = 0 then bufs ++ [(s.readline linebuf maxlen).2.2] else bufs)

/-- Empty, at whatever offset, and no part of a line was read. -/
structure Opened (s : Nbbio) (lastchar : Byte) : Prop where
  valid : s.Valid
  held : s.held = []
  linelen : s.linelen = 0
  lastchar : s.lastchar = lastchar

/-- The same lines were returned, and the same part of a line is left. -/
structure SameLines (s s' : Nbbio) (linebuf linebuf' : ℕ → Byte) (bufs bufs' : List (ℕ → Byte)) : Prop where
  lines : ∃ lines, List.Forall₂ HoldsLine bufs lines ∧ List.Forall₂ HoldsLine bufs' lines
  linelen : s.linelen = s'.linelen
  lastchar : s.lastchar = s'.lastchar
  part : ∀ i < s.linelen, linebuf i = linebuf' i

/-- What was taken off the queue is the input up to what is held, and was scanned. -/
structure Scanned (last : Byte) (s : Nbbio) (linebuf : ℕ → Byte) (inp bs : List Byte) (bufs : List (ℕ → Byte)) :
    Prop where
  valid : s.Valid
  input : inp = bs ++ s.held
  reading : Reading s linebuf (Scan.items CR LF ⟨[], last⟩ bs).1
  lines : List.Forall₂ HoldsLine bufs (Scan.items CR LF ⟨[], last⟩ bs).2

section
variable {s s' s₀ t : Nbbio} {linebuf linebuf' linebuf₀ : ℕ → Byte} {bs inp got : List Byte} {bufs : List (ℕ → Byte)}
variable {lines : List (List Byte)} {last : Byte} {maxlen : ℕ} {ranges : List Access}

theorem put_reading (p : List Byte) :
    (s.put p).2.1.linelen = s.linelen ∧ (s.put p).2.1.lastchar = s.lastchar := by
  simp only [put]
  split_ifs <;> exact ⟨rfl, rfl⟩

theorem fillFrom_reading (k : Kernel) :
    (s.fillFrom k).2.1.linelen = s.linelen ∧ (s.fillFrom k).2.1.lastchar = s.lastchar := by
  unfold fillFrom
  dsimp only
  split
  · exact ⟨rfl, rfl⟩
  · split
    · exact ⟨rfl, rfl⟩
    · split_ifs
      · exact ⟨rfl, rfl⟩
      · exact ⟨rfl, rfl⟩
      · split <;> exact ⟨rfl, rfl⟩
      · exact ⟨rfl, rfl⟩
      · exact ⟨rfl, rfl⟩

theorem Opened.scanned (h : Opened s last) (linebuf : ℕ → Byte) : Scanned last s linebuf [] [] [] :=
  ⟨h.valid, by rw [h.held, List.append_nil], ⟨h.linelen, h.lastchar, .nil⟩, .nil⟩

/-- What comes in changes nothing of what was read. -/
theorem Scanned.fill (h : Scanned last s linebuf inp bs bufs) (hm : Moves s t got [] ranges)
    (hread : t.linelen = s.linelen ∧ t.lastchar = s.lastchar) :
    Scanned last t linebuf (inp ++ got) bs bufs where
  valid := hm.valid
  input := by
    have hheld : s.held ++ got = t.held := by simpa using hm.held
    rw [h.input, List.append_assoc, hheld]
  reading := ⟨hread.1.trans h.reading.linelen, hread.2.trans h.reading.lastchar, h.reading.part⟩
  lines := h.lines

theorem Scanned.read (h : Scanned last s linebuf inp bs bufs) : ∃ bs',
    Scanned last (s.readline linebuf maxlen).2.1 (s.readline linebuf maxlen).2.2 inp bs'
      (if (s.readline linebuf maxlen).1 = 0 then bufs ++ [(s.readline linebuf maxlen).2.2] else bufs) := by
  obtain ⟨cs, lines, hcall⟩ := readline_spec maxlen h.valid h.reading
  generalize s.readline linebuf maxlen = r at hcall ⊢
  obtain ⟨err, t, linebuf'⟩ := r
  have htook : Took s _ cs lines t linebuf' := hcall.took
  refine ⟨bs ++ cs, htook.valid, ?_, ?_, ?_⟩
  · rw [h.input, htook.held, List.append_assoc]
  · rw [items_append]
    exact htook.reading
  · rw [items_append, htook.lines]
    dsimp only
    split
    · next h0 =>
      obtain ⟨line, rfl, hline⟩ := hcall.line h0
      exact List.rel_append h.lines (.cons hline .nil)
    · next hne =>
      rw [hcall.wait hne, List.append_nil]
      exact h.lines

theorem LineRun.scanned (h : LineRun maxlen s₀ linebuf₀ s linebuf inp bufs) (h₀ : Opened s₀ last) :
    ∃ bs, Scanned last s linebuf inp bs bufs := by
  induction h with
  | start => exact ⟨[], h₀.scanned linebuf₀⟩
  | @put s linebuf inp bufs p _ ih =>
      obtain ⟨bs, hs⟩ := ih
      refine ⟨bs, ?_⟩
      rcases lt_or_ge s.bytesFree p.length with hfull | hroom
      · obtain ⟨e, he, hput⟩ := put_refused hfull
        rw [hput, if_neg he]
        exact hs
      · obtain ⟨t, ranges, hput, hm⟩ := put_accepted hs.valid hroom
        have hread := put_reading (s := s) p
        rw [hput] at hread ⊢
        rw [if_pos rfl]
        exact hs.fill hm hread
  | fillFrom k _ ih =>
      obtain ⟨bs, hs⟩ := ih
      exact ⟨bs, hs.fill (fillFrom_moves k hs.valid) (fillFrom_reading k)⟩
  | readline _ _ ih =>
      obtain ⟨bs, hs⟩ := ih
      exact hs.read

/-- The lines do not depend on the pieces in which the bytes came in, nor on the place. -/
theorem readline_unchunked {s₀' : Nbbio} {linebuf₀' : ℕ → Byte} {bufs' : List (ℕ → Byte)}
    (h₀ : Opened s₀ last) (h₀' : Opened s₀' last) (h : LineRun maxlen s₀ linebuf₀ s linebuf inp bufs)
    (h' : LineRun maxlen s₀' linebuf₀' s' linebuf' inp bufs') (hall : s.held = []) (hall' : s'.held = []) :
    SameLines s s' linebuf linebuf' bufs bufs' := by
  obtain ⟨bs, hs⟩ := h.scanned h₀
  obtain ⟨bs', hs'⟩ := h'.scanned h₀'
  have heq : bs = bs' := by
    have hinput := hs.input
    have hinput' := hs'.input
    rw [hall, List.append_nil] at hinput
    rw [hall', List.append_nil] at hinput'
    exact hinput.symm.trans hinput'
  subst heq
  refine ⟨⟨_, hs.lines, hs'.lines⟩, ?_, ?_, ?_⟩
  · rw [hs.reading.linelen, hs'.reading.linelen]
  · rw [hs.reading.lastchar, hs'.reading.lastchar]
  · intro i hi
    rw [hs.reading.linelen] at hi
    rw [hs.reading.part i hi, hs'.reading.part i hi]

theorem LineRun.put_of_ok (h : LineRun maxlen s₀ linebuf₀ s linebuf inp bufs) (p : List Byte)
    (hp : (s.put p).1 = 0) : LineRun maxlen s₀ linebuf₀ (s.put p).2.1 linebuf (inp ++ p) bufs := by
  have hrun := h.put p
  rwa [if_pos hp] at hrun

end

/-- An empty buffer at an offset. -/
def emptyAt (off : ℤ) : Nbbio := ⟨fun _ => 7, off, off, 0, 0⟩

/-- "a", CR, LF and "b" in one piece, and cut between the CR and the LF at the end of the array. -/
theorem readline_unchunked_crlf : ∃ s s' linebuf linebuf' bufs bufs',
    SameLines s s' linebuf linebuf' bufs bufs' ∧ bufs.length = 1 ∧ s.linelen = 1 := by
  have hopened : ∀ off ∈ [(0 : ℤ), 1022], Opened (emptyAt off) 0 := by
    intro off hoff
    simp only [List.mem_cons, List.not_mem_nil, or_false] at hoff
    rcases hoff with rfl | rfl
    · exact ⟨⟨by decide, by decide, by decide, by decide⟩, by decide, by decide, by decide⟩
    · exact ⟨⟨by decide, by decide, by decide, by decide⟩, by decide, by decide, by decide⟩
  have started (off : ℤ) (c : Byte) : LineRun 9 (emptyAt off) (fun _ => c) (emptyAt off) (fun _ => c) [] [] := .start
  have hwhole : LineRun 9 (emptyAt 0) (fun _ => 1) _ _ [97, 13, 10, 98] _ :=
    (((started 0 1).put_of_ok [97, 13, 10, 98]
      (by decide)).readline (by decide)).readline (by decide)
  have hcut : LineRun 9 (emptyAt 1022) (fun _ => 2) _ _ [97, 13, 10, 98] _ :=
    ((((started 1022 2).put_of_ok [97, 13]
      (by decide)).readline (by decide)).put_of_ok [10, 98] (by decide)).readline (by decide)
  exact ⟨_, _, _, _, _, _, readline_unchunked (hopened 0 (by simp)) (hopened 1022 (by simp)) hwhole hcut
    (by decide) (by decide), by decide, by decide⟩

end Dkftpbench.Nbbio
