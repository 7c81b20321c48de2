import Dkftpbench.PasvReply
import Mathlib.Data.List.GetD

/-!
# What giveInput reads of its buffer

The functions of the C library read up to the NUL at most. What the result depends on is
among the bytes read; so where these are those of the line, nothing around it counts. The
fixed index 3 lies behind a line of fewer than three bytes, and the scan back over the
digits in front of the first comma leaves a line that has nothing else there.
-/
namespace Dkftpbench
open CLib

/-- `ibuf[i]`, also in front of the line. -/
def Line.byteAt (ibuf : Line) (i : ℤ) : Byte :=
  if 0 ≤ i then ibuf.at i.toNat else ibuf.before.getD (-i-1).toNat 0

namespace FtpClientProto

/-- `n` indices from `i` on. -/
def reads (i : ℤ) (n : ℕ) : List ℤ := (List.range n).map fun k : ℕ => i+k

/-- How many bytes `strchr` looks at. -/
def strchrSpan (cs : List Byte) (c : Byte) : ℕ := (cs.takeWhile (· != c)).length+1

/-- How many bytes `strncpy` looks at. -/
def strncpySpan (cs : List Byte) (n : ℕ) : ℕ := min (cs.length+1) n

/-- How many bytes `strtol` looks at: those up to the end of the number, and the next. -/
def strtolSpan (cs : List Byte) : ℕ :=
  cs.length-((takeSign (cs.dropWhile isspace)).2.dropWhile isdigit).length+1

/-- How many bytes `sscanf` looks at. -/
def sscanfSpan : ℕ → List Byte → ℕ
  | 0, _ => 0
  | 1, cs => strtolSpan cs
  | n+2, cs =>
    match strtol cs with
    | some (_, c :: rest) => if c = COMMA then cs.length-rest.length+sscanfSpan (n+1) rest else strtolSpan cs
    | _ => strtolSpan cs

/-- The bytes in front of the first comma, from the nearest on. -/
def backFrom (ibuf : Line) : List Byte := (ibuf.text.takeWhile (· != COMMA)).reverse ++ ibuf.before

/-- What is read once there is a comma: the digits in front of it, the byte where the scan
back stops, and then the text from those digits on. -/
def addressReads (ibuf : Line) : List ℤ :=
  match addressText ibuf.before ibuf.text with
  | none => []
  | some p =>
    let comma : ℤ := (ibuf.text.takeWhile (· != COMMA)).length
    let back := ((backFrom ibuf).takeWhile isdigit).length
    reads (comma-back-1) (back+1) ++ reads (comma-back) (sscanfSpan 6 p)

/-- The indices of `ibuf` that `giveInput` reads. -/
def examined (s : FtpClientProto) (ibuf : Line) : List ℤ :=
  reads 0 (strchrSpan ibuf.text LF) ++
    if LF ∈ ibuf.text then []
    else reads 0 (strtolSpan ibuf.text) ++
      if s.multiline then [3]
      else reads 0 (strncpySpan ibuf.text lineLen) ++ 3 ::
        if s.state = .pasv ∧ is2xx (atoi ibuf.text) then
          reads 0 (strchrSpan ibuf.text COMMA) ++ addressReads ibuf
        else []

/-- The reads stay in the line, and what is around it does not count. -/
structure ReadsItsLine (s : FtpClientProto) (ibuf : Line) : Prop where
  within : ∀ i ∈ examined s ibuf, 0 ≤ i ∧ i ≤ ibuf.text.length
  same : ∀ ibuf' : Line, ibuf'.text = ibuf.text → s.giveInput ibuf' = s.giveInput ibuf

/-- The line is parsed as a reply to PASV, and only digits are in front of its first comma. -/
structure DigitsFirst (s : FtpClientProto) (ibuf : Line) : Prop where
  multiline : s.multiline = false
  state : s.state = .pasv
  status : is2xx (atoi ibuf.text) = true
  comma : COMMA ∈ ibuf.text
  digits : ∀ c ∈ ibuf.text.takeWhile (· != COMMA), isdigit c = true

section
variable {s : FtpClientProto} {ibuf a b : Line} {t : List Byte} {c : Byte} {i j : ℤ} {n : ℕ}

theorem mem_reads : j ∈ reads i n ↔ i ≤ j ∧ j < i+n := by
  rw [reads, List.mem_map]
  constructor
  · rintro ⟨k, hk, rfl⟩
    have := List.mem_range.1 hk
    omega
  · rintro ⟨hle, hlt⟩
    exact ⟨(j-i).toNat, List.mem_range.2 (by omega), by omega⟩

theorem reads_self : i ∈ reads i (n+1) := mem_reads.2 ⟨Int.le_refl _, by omega⟩

theorem strchrSpan_le : strchrSpan t c ≤ t.length+1 := Nat.succ_le_succ (List.takeWhile_prefix _).length_le

theorem strncpySpan_le : strncpySpan t n ≤ t.length+1 := min_le_left _ _

theorem strtolSpan_le : strtolSpan t ≤ t.length+1 := Nat.succ_le_succ (Nat.sub_le _ _)

/-- `sscanf` reads up to the NUL at most. -/
theorem sscanfSpan_le : sscanfSpan n t ≤ t.length+1 := by
  induction n, t using sscanfSpan.induct with
  | case1 t => exact Nat.zero_le _
  | case2 t => exact strtolSpan_le
  | case3 n t v rest hv ih =>
      obtain ⟨ds, hcs, -⟩ := number_of_strtol hv
      have hlen := congrArg List.length hcs
      rw [List.length_append, List.length_cons] at hlen
      rw [sscanfSpan, hv]
      simp only [if_true]
      omega
  | case4 n t v c rest hv hc =>
      rw [sscanfSpan, hv]
      simp only [if_neg hc]
      exact strtolSpan_le
  | case5 n t hno =>
      rw [sscanfSpan]
      split
      · next v c rest hv => exact absurd hv (hno v c rest)
      · exact strtolSpan_le

/-- The texts on which `addressText` gives none are those without a comma. -/
theorem addressText_none_iff : addressText ibuf.before ibuf.text = none ↔ COMMA ∉ ibuf.text := by
  rw [addressText]
  split
  · next hnil =>
    rw [List.dropWhile_eq_nil_iff] at hnil
    simp only [true_iff]
    intro hin
    simpa using hnil COMMA hin
  · next rest hne =>
    simp only [reduceCtorEq, false_iff, not_not]
    by_contra hno
    exact hne (by rw [List.dropWhile_eq_nil_iff]; exact before_comma hno)

/-- The text given to `sscanf` ends where the line does. -/
theorem addressText_length {p : List Byte} (h : addressText ibuf.before ibuf.text = some p) :
    (p.length : ℤ) = ibuf.text.length-(ibuf.text.takeWhile (· != COMMA)).length+
      ((backFrom ibuf).takeWhile isdigit).length := by
  have hcut := congrArg List.length
    (List.takeWhile_append_dropWhile (p := (· != COMMA)) (l := ibuf.text))
  rw [List.length_append] at hcut
  rw [addressText] at h
  split at h
  · cases h
  · cases h
    rw [List.length_append, List.length_reverse, backFrom]
    omega

/-- The scan back stays in the line where it finds no digit there. -/
theorem back_lt_iff : ((backFrom ibuf).takeWhile isdigit).length < (ibuf.text.takeWhile (· != COMMA)).length ↔
    ¬ ∀ c ∈ ibuf.text.takeWhile (· != COMMA), isdigit c = true := by
  rw [backFrom]
  generalize ibuf.text.takeWhile (· != COMMA) = xs
  constructor
  · intro hlt hall
    rw [List.takeWhile_append_of_pos (by simpa using hall), List.length_append, List.length_reverse] at hlt
    omega
  · intro hno
    have hne : (xs.reverse.takeWhile isdigit).length ≠ xs.reverse.length := by
      intro hlen
      have heq := (List.takeWhile_prefix isdigit).eq_of_length hlen
      refine hno fun c hc => ?_
      rw [← List.mem_reverse, ← heq] at hc
      exact List.mem_takeWhile_imp hc
    have hle := (List.takeWhile_prefix (l := xs.reverse) isdigit).length_le
    rw [List.takeWhile_append, if_neg hne]
    rw [List.length_reverse] at hle hne
    omega

theorem reads_within (h : n ≤ t.length+1) : ∀ i ∈ reads 0 n, 0 ≤ i ∧ i ≤ t.length := by
  intro i hi
  have hi := mem_reads.1 hi
  omega

theorem addressReads_within_iff : (∀ i ∈ addressReads ibuf, 0 ≤ i ∧ i ≤ ibuf.text.length) ↔
    ¬ (COMMA ∈ ibuf.text ∧ ∀ c ∈ ibuf.text.takeWhile (· != COMMA), isdigit c = true) := by
  rw [addressReads]
  cases hp : addressText ibuf.before ibuf.text with
  | none => simp [addressText_none_iff.1 hp]
  | some p =>
      have hcomma : COMMA ∈ ibuf.text := by
        by_contra hno
        cases hp.symm.trans (addressText_none_iff.2 hno)
      have hlen := addressText_length hp
      have hspan := sscanfSpan_le (n := 6) (t := p)
      have hcut := (List.takeWhile_prefix (l := ibuf.text) (· != COMMA)).length_le
      rw [and_iff_right hcomma, ← back_lt_iff]
      constructor
      · intro hall
        have hstop := (hall _ (List.mem_append_left _ reads_self)).1
        omega
      · intro hlt i hi
        rcases List.mem_append.1 hi with hi | hi
        · have hi := mem_reads.1 hi
          omega
        · have hi := mem_reads.1 hi
          omega

/-- The indices read are in the line where it has three bytes, and the scan back, if there
is one, stops in it. -/
theorem examined_within_iff (hlf : LF ∉ ibuf.text) :
    (∀ i ∈ examined s ibuf, 0 ≤ i ∧ i ≤ ibuf.text.length) ↔ 3 ≤ ibuf.text.length ∧ ¬ DigitsFirst s ibuf := by
  have hchr := reads_within (strchrSpan_le (t := ibuf.text) (c := LF))
  have htol := reads_within (strtolSpan_le (t := ibuf.text))
  have hcpy := reads_within (strncpySpan_le (t := ibuf.text) (n := lineLen))
  have hcomma := reads_within (strchrSpan_le (t := ibuf.text) (c := COMMA))
  rw [examined, if_neg hlf]
  cases hm : s.multiline with
  | true =>
      have hnot : ¬ DigitsFirst s ibuf := by
        intro h
        cases hm.symm.trans h.multiline
      simp only [if_true, List.forall_mem_append, List.forall_mem_singleton, hnot, not_false_eq_true, and_true]
      constructor
      · rintro ⟨-, -, h3⟩
        omega
      · intro h3
        exact ⟨hchr, htol, by omega⟩
  | false =>
      have hdigits : ¬ DigitsFirst s ibuf ↔ (s.state = .pasv ∧ is2xx (atoi ibuf.text) = true →
          ∀ i ∈ addressReads ibuf, 0 ≤ i ∧ i ≤ ibuf.text.length) := by
        rw [addressReads_within_iff]
        constructor
        · rintro hno ⟨hst, h2⟩ ⟨hin, hall⟩
          exact hno ⟨hm, hst, h2, hin, hall⟩
        · intro himp h
          exact himp ⟨h.state, h.status⟩ ⟨h.comma, h.digits⟩
      rw [hdigits]
      simp only [Bool.false_eq_true, if_false, List.forall_mem_append, List.forall_mem_cons]
      constructor
      · rintro ⟨-, -, -, h3, haddr⟩
        refine ⟨by omega, fun hcond => ?_⟩
        rw [if_pos hcond, List.forall_mem_append] at haddr
        exact haddr.2
      · rintro ⟨h3, haddr⟩
        refine ⟨hchr, htol, hcpy, by omega, ?_⟩
        by_cases hcond : s.state = .pasv ∧ is2xx (atoi ibuf.text) = true
        · rw [if_pos hcond, List.forall_mem_append]
          exact ⟨hcomma, haddr hcond⟩
        · rw [if_neg hcond]
          exact List.forall_mem_nil _

/-! ## What is not read does not count -/

theorem byteAt_natCast (k : ℕ) : ibuf.byteAt k = ibuf.at k := by
  rw [Line.byteAt, if_pos (Int.natCast_nonneg _), Int.toNat_natCast]

theorem at_length : ibuf.at ibuf.text.length = 0 := by simp [Line.at]

theorem at_ne_zero {k : ℕ} (h : k < ibuf.text.length) : ibuf.at k ≠ 0 := by
  rw [Line.at_of_lt h]
  intro h0
  exact ibuf.nul_free (h0 ▸ List.getElem_mem h)

/-- The bytes up to the NUL are the text. -/
theorem text_eq_of_at (h : ∀ k ≤ a.text.length, a.at k = b.at k) : a.text = b.text := by
  have hlen : a.text.length = b.text.length := by
    rcases lt_trichotomy a.text.length b.text.length with hlt | heq | hgt
    · exact absurd ((h _ le_rfl).symm.trans at_length) (at_ne_zero hlt)
    · exact heq
    · exact absurd ((h _ hgt.le).trans at_length) (at_ne_zero hgt)
  refine List.ext_getElem hlen fun k hk hk' => ?_
  rw [← Line.at_of_lt hk, ← Line.at_of_lt hk', h k hk.le]

theorem takeWhile_eq_of_agree {p : Byte → Bool} {xs ys : List Byte} (h0 : p 0 = false)
    (h : ∀ k ≤ (xs.takeWhile p).length, xs.getD k 0 = ys.getD k 0) : xs.takeWhile p = ys.takeWhile p := by
  induction xs generalizing ys with
  | nil =>
      cases ys with
      | nil => rfl
      | cons y ys =>
          have hy : (0 : Byte) = y := h 0 (Nat.zero_le _)
          rw [List.takeWhile_nil, List.takeWhile_cons_of_neg (by simp [← hy, h0])]
  | cons x xs ih =>
      have hhead : x = ys.getD 0 0 := h 0 (Nat.zero_le _)
      cases hx : p x with
      | false =>
          cases ys with
          | nil => rw [List.takeWhile_cons_of_neg (by simp [hx]), List.takeWhile_nil]
          | cons y ys =>
              have hxy : x = y := hhead
              rw [List.takeWhile_cons_of_neg (by simp [hx]), List.takeWhile_cons_of_neg (by simp [← hxy, hx])]
      | true =>
          rw [List.takeWhile_cons_of_pos hx, List.length_cons] at h
          cases ys with
          | nil =>
              have hx0 : x = 0 := hhead
              rw [hx0, h0] at hx
              cases hx
          | cons y ys =>
              have hxy : x = y := hhead
              subst hxy
              rw [List.takeWhile_cons_of_pos hx, List.takeWhile_cons_of_pos hx,
                ih fun k hk => by simpa using h (k+1) (Nat.succ_le_succ hk)]

/-- The bytes that the scan back passes, by their indices. -/
theorem byteAt_backFrom (k : ℕ) :
    ibuf.byteAt ((ibuf.text.takeWhile (· != COMMA)).length-1-k) = (backFrom ibuf).getD k 0 := by
  have hcut := (List.takeWhile_prefix (l := ibuf.text) (· != COMMA)).length_le
  rw [backFrom]
  rcases Nat.lt_or_ge k (ibuf.text.takeWhile (· != COMMA)).length with hlt | hge
  · have hindex : ((ibuf.text.takeWhile (· != COMMA)).length-1-k : ℤ) =
        ((ibuf.text.takeWhile (· != COMMA)).length-1-k : ℕ) := by omega
    have hget := (List.takeWhile_prefix (l := ibuf.text) (· != COMMA)).getElem
      (i := (ibuf.text.takeWhile (· != COMMA)).length-1-k) (by omega)
    rw [hindex, byteAt_natCast, Line.at_of_lt (by omega), ← hget, List.getD_append _ _ _ _ (by simpa using hlt),
      List.getD_eq_getElem _ _ (by simpa using hlt), List.getElem_reverse]
  · have hneg : ¬ 0 ≤ ((ibuf.text.takeWhile (· != COMMA)).length-1-k : ℤ) := by omega
    have hindex : (-((ibuf.text.takeWhile (· != COMMA)).length-1-k : ℤ)-1).toNat =
        k-(ibuf.text.takeWhile (· != COMMA)).length := by omega
    rw [Line.byteAt, if_neg hneg, hindex, List.getD_append_right _ _ _ _ (by simpa using hge),
      List.length_reverse]

/-- Where a comma is in the line, the text for `sscanf` depends on the bytes that the scan
back reads. -/
theorem addressText_eq_of_agree (htext : a.text = b.text)
    (h : ∀ i ∈ addressReads a, a.byteAt i = b.byteAt i) :
    addressText a.before a.text = addressText b.before b.text := by
  cases ha : addressText a.before a.text with
  | none => rw [addressText_none_iff.2 (htext ▸ addressText_none_iff.1 ha)]
  | some p =>
      rw [addressReads, ha] at h
      have hdigits : (backFrom a).takeWhile isdigit = (backFrom b).takeWhile isdigit := by
        refine takeWhile_eq_of_agree (by decide) fun k hk => ?_
        rw [← byteAt_backFrom, ← byteAt_backFrom, ← htext]
        exact h _ (List.mem_append_left _ (mem_reads.2 ⟨by omega, by omega⟩))
      rw [← ha, addressText, addressText, ← htext]
      unfold backFrom at hdigits
      rw [← htext] at hdigits
      split
      · rfl
      · simp only [hdigits]

/-- Elsewhere the switch looks at the status alone. -/
theorem takeReply_of_not_pasv {status : ℤ} (h : ¬ (s.state = .pasv ∧ is2xx status = true)) :
    s.takeReply a status = s.takeReply b status := by
  unfold takeReply
  cases hst : s.state with
  | pasv =>
      have h2 : is2xx status = false := by
        by_contra h2
        exact h ⟨hst, by simpa using h2⟩
      rw [h2]
  | init | user | pass | cwd | type | size | port | retr | uninit | connected | idle | quit => rfl

/-- The result depends on the bytes that are read. -/
theorem giveInput_of_agree (hlf : LF ∉ a.text) (h : ∀ i ∈ examined s a, a.byteAt i = b.byteAt i) :
    s.giveInput a = s.giveInput b := by
  rw [examined, if_neg hlf] at h
  have hchr : strchrSpan a.text LF = a.text.length+1 := by
    rw [strchrSpan, List.takeWhile_eq_self_iff.2]
    simpa using fun c hc => show c ≠ LF from fun heq => hlf (heq ▸ hc)
  have htext : a.text = b.text := by
    refine text_eq_of_at fun k hk => ?_
    rw [← byteAt_natCast, ← byteAt_natCast]
    exact h k (List.mem_append_left _ (mem_reads.2 ⟨by omega, by omega⟩))
  have hrest := fun i hi => h i (List.mem_append_right _ (List.mem_append_right _ hi))
  have h3 : a.at 3 = b.at 3 := by
    rw [← byteAt_natCast, ← byteAt_natCast]
    refine hrest 3 ?_
    split
    · exact List.mem_singleton_self _
    · exact List.mem_append_right _ (List.mem_cons_self ..)
  have hsave : s.saveStatus a = s.saveStatus b := by rw [saveStatus, saveStatus, htext, h3]
  unfold giveInput
  rw [← htext, if_neg hlf, if_neg hlf, h3, ← hsave]
  dsimp only
  split
  · rfl
  · next hm =>
    rw [if_neg hm] at hrest
    by_cases hcond : s.state = .pasv ∧ is2xx (atoi a.text) = true
    · rw [if_pos hcond] at hrest
      refine takeReply_congr ?_
      rw [parsePasv, parsePasv, addressText_eq_of_agree htext fun i hi => hrest i ?_]
      exact List.mem_append_right _ (List.mem_cons_of_mem _ (List.mem_append_right _ hi))
    · exact takeReply_of_not_pasv hcond

/-- `giveInput` reads only its line exactly where the line has three bytes and is not one
of a reply to PASV with only digits before its comma. -/
theorem reads_its_line_iff (hlf : LF ∉ ibuf.text) :
    ReadsItsLine s ibuf ↔ 3 ≤ ibuf.text.length ∧ ¬ DigitsFirst s ibuf := by
  rw [← examined_within_iff hlf]
  constructor
  · exact ReadsItsLine.within
  · intro hwithin
    refine ⟨hwithin, fun ibuf' htext => (giveInput_of_agree hlf fun i hi => ?_).symm⟩
    obtain ⟨k, rfl⟩ := Int.eq_ofNat_of_zero_le (hwithin i hi).1
    have hk := (hwithin k hi).2
    rw [byteAt_natCast, byteAt_natCast, Line.at, Line.at, htext]
    split
    · rfl
    · rw [if_pos (by omega), if_pos (by omega)]

end

theorem reads_its_line_hello : ReadsItsLine zeroed.init (.ofAscii "220 hi" (by decide)) :=
  (reads_its_line_iff (by decide)).2 ⟨by decide, fun h => by cases h.state⟩

/-- A reply of six numbers alone: the digits in front of the buffer's line change the address. -/
theorem reads_before_line : ¬ ∀ (s : FtpClientProto) (ibuf : Line), s.Reachable → LF ∉ ibuf.text →
    ReadsItsLine s ibuf := by
  intro hall
  have hreads := hall _ (.ofAscii "227,1,2,3,4,5" (by decide)) ⟨zeroed, loginScript ++ [getFile], rfl⟩ (by decide)
  have hsame := hreads.same ⟨ascii "227,1,2,3,4,5", by decide, ascii "1", fun _ => 0⟩ rfl
  have haddr := congrArg (Option.map fun r => r.2.address.s_addr) hsame
  revert haddr
  decide

end FtpClientProto
end Dkftpbench
