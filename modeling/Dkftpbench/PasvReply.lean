import Dkftpbench.ReplyFraming
import Dkftpbench.ProtoStatus
import Dkftpbench.Scanf

/-!
# The address in the reply to PASV

A reply tells an address as six numbers with commas between them. What giveInput takes for
numbers is what `%d` takes, and it casts them to `unsigned char`; so more lines are taken
than have six numbers of up to 255. Digits in front of the line belong to the first number
where nothing else stands between. The numbers of a PORT line come back where its port was
the first half of its address.
-/
namespace Dkftpbench.FtpClientProto
open CLib

/-- From the digits in front of its first comma on, the line is six texts with commas
between them, and does not go on with a digit. -/
structure Fields (P : List Byte → Prop) (line : List Byte) (fields : List (List Byte)) : Prop where
  line : ∃ pre rest, line = pre ++ (commas fields ++ rest) ∧ COMMA ∉ pre ∧
    (∀ c ∈ pre.getLast?, isdigit c = false) ∧ Stops rest
  length : fields.length = 6
  first : ∀ d ∈ fields.head?, ∀ c ∈ d, isdigit c = true
  all : ∀ d ∈ fields, P d

/-- Digits only, up to 255. -/
def Octet (d : List Byte) : Prop := Digits d ∧ digitsValue d ≤ 255

/-- The address that six numbers tell. -/
def addressOf : List ℕ → Option SockaddrIn
  | [n1, n2, n3, n4, n5, n6] =>
    some ⟨AF_INET, htonl (BitVec.ofNat 32 (n1*2^24+n2*2^16+n3*2^8+n4)), htons (BitVec.ofNat 16 (256*n5+n6))⟩
  | _ => none

/-- The digits in front of the line that the backward scan takes. -/
def strayDigits (ibuf : Line) : List Byte :=
  if (ibuf.text.takeWhile (· != COMMA)).all isdigit then (ibuf.before.takeWhile isdigit).reverse else []

section
variable {a b : ℕ} {x y : BitVec 32} {ibuf : Line} {pre d tail rest : List Byte} {fields : List (List Byte)}

theorem append_toNat (u : BitVec a) (v : BitVec b) : (u ++ v).toNat = u.toNat*2^b+v.toNat := by
  rw [BitVec.toNat_append, ← Nat.shiftLeft_add_eq_or_of_lt v.isLt, Nat.shiftLeft_eq]

/-- The octets change places. -/
theorem htonl_octets {b3 b2 b1 b0 : ℕ} (h3 : b3 < 256) (h2 : b2 < 256) (h1 : b1 < 256) (h0 : b0 < 256)
    (hx : x.toNat = b3*2^24+b2*2^16+b1*2^8+b0) : (htonl x).toNat = b0*2^24+b1*2^16+b2*2^8+b3 := by
  have e0 : x.toNat/2^0 % 2^8 = b0 := by omega
  have e1 : x.toNat/2^8 % 2^8 = b1 := by omega
  have e2 : x.toNat/2^16 % 2^8 = b2 := by omega
  have e3 : x.toNat/2^24 % 2^8 = b3 := by omega
  simp only [htonl, append_toNat, BitVec.extractLsb'_toNat, Nat.shiftRight_eq_div_pow, e0, e1, e2, e3]
  omega

theorem exists_octets (x : BitVec 32) : ∃ b3 b2 b1 b0, b3 < 256 ∧ b2 < 256 ∧ b1 < 256 ∧ b0 < 256 ∧
    x.toNat = b3*2^24+b2*2^16+b1*2^8+b0 := by
  have hx := x.isLt
  exact ⟨x.toNat/2^24, x.toNat/2^16 % 256, x.toNat/2^8 % 256, x.toNat % 256, by omega, by omega, by omega,
    by omega, by omega⟩

theorem htonl_htonl : htonl (htonl x) = x := by
  obtain ⟨b3, b2, b1, b0, h3, h2, h1, h0, hx⟩ := exists_octets x
  have hswap := htonl_octets h3 h2 h1 h0 hx
  apply BitVec.eq_of_toNat_eq
  rw [htonl_octets h0 h1 h2 h3 hswap, hx]

theorem htons_octets {u : BitVec 16} {b1 b0 : ℕ} (h0 : b0 < 256) (hu : u.toNat = b1*2^8+b0) :
    (htons u).toNat = b0*2^8+b1 := by
  simp only [htons, append_toNat, BitVec.extractLsb'_toNat, Nat.shiftRight_eq_div_pow, hu]
  omega

theorem htons_htons (u : BitVec 16) : htons (htons u) = u := by
  have hu := u.isLt
  have hoctets : u.toNat = u.toNat/2^8*2^8+u.toNat % 256 := by omega
  have hswap := htons_octets (by omega) hoctets
  apply BitVec.eq_of_toNat_eq
  rw [htons_octets (by omega) hswap, ← hoctets]

theorem uchar_toNat (n : ℤ) : ((uchar n).toNat : ℤ) = n % 256 := by
  have hn := Int.emod_nonneg n (show (256 : ℤ) ≠ 0 by decide)
  have hlt := Int.emod_lt_of_pos n (show (0 : ℤ) < 256 by decide)
  rw [uchar, BitVec.toNat_setWidth, BitVec.toNat_ofInt]
  omega

theorem makeInt32_toNat (n1 n2 n3 n4 : ℤ) : ((makeInt32 n1 n2 n3 n4).toNat : ℤ) =
    n1 % 256*2^24+n2 % 256*2^16+n3 % 256*2^8+n4 % 256 := by
  have h1 := uchar_toNat n1
  have h2 := uchar_toNat n2
  have h3 := uchar_toNat n3
  have h4 := uchar_toNat n4
  simp only [makeInt32, BitVec.toNat_add, BitVec.toNat_shiftLeft, Nat.shiftLeft_eq]
  omega

theorem comma_notMem_of_digits (h : ∀ c ∈ d, isdigit c = true) : COMMA ∉ d := by
  intro hin
  exact absurd (h COMMA hin) (by decide)

theorem before_comma (h : COMMA ∉ d) : ∀ c ∈ d, (c != COMMA) = true := by
  intro c hc
  rw [bne_iff_ne]
  rintro rfl
  exact h hc

theorem takeWhile_comma (h : COMMA ∉ d) : (d ++ COMMA :: tail).takeWhile (· != COMMA) = d := by
  simp [List.takeWhile_append_of_pos (before_comma h)]

theorem dropWhile_comma (h : COMMA ∉ d) : (d ++ COMMA :: tail).dropWhile (· != COMMA) = COMMA :: tail := by
  simp [List.dropWhile_append_of_pos (before_comma h)]

/-- The backward scan stops in front of the digits, or goes on before the line. -/
theorem addressText_eq (hpre : COMMA ∉ pre) (hlast : ∀ c ∈ pre.getLast?, isdigit c = false)
    (hd : ∀ c ∈ d, isdigit c = true) (htext : ibuf.text = pre ++ (d ++ COMMA :: tail)) :
    addressText ibuf.before ibuf.text = some (strayDigits ibuf ++ (d ++ COMMA :: tail)) := by
  have hcomma : COMMA ∉ pre ++ d := by
    rw [List.mem_append, not_or]
    exact ⟨hpre, comma_notMem_of_digits hd⟩
  have hdigits : ∀ c ∈ d.reverse, isdigit c = true := by simpa using hd
  rw [addressText, strayDigits, htext, ← List.append_assoc, takeWhile_comma hcomma, dropWhile_comma hcomma]
  simp only [List.reverse_append, List.append_assoc, List.takeWhile_append_of_pos hdigits,
    List.reverse_reverse, Option.some.injEq, List.append_cancel_right_eq]
  rcases List.eq_nil_or_concat pre with rfl | ⟨pre, c, rfl⟩
  · simp [List.all_eq_true.2 hd]
  · have hc : isdigit c = false := hlast c (by simp)
    simp [hc]

/-- A text ends in digits. -/
theorem exists_digits (t : List Byte) : ∃ pre d, t = pre ++ d ∧ (∀ c ∈ pre.getLast?, isdigit c = false) ∧
    ∀ c ∈ d, isdigit c = true := by
  induction t using List.reverseRecOn with
  | nil => exact ⟨[], [], rfl, nofun, nofun⟩
  | append_singleton t c ih =>
      cases hc : isdigit c with
      | false => exact ⟨t ++ [c], [], by simp, by simpa using hc, nofun⟩
      | true =>
          obtain ⟨pre, d, rfl, hpre, hd⟩ := ih
          refine ⟨pre, d ++ [c], by simp, hpre, ?_⟩
          intro x hx
          rcases List.mem_append.1 hx with hx | hx
          · exact hd x hx
          · rw [List.mem_singleton.1 hx]
            exact hc

/-- A text with a comma in it, cut in front of the digits before the first one. -/
theorem exists_comma_split {t : List Byte} (h : addressText ibuf.before ibuf.text = some t) :
    ∃ pre d tail, COMMA ∉ pre ∧ (∀ c ∈ pre.getLast?, isdigit c = false) ∧ (∀ c ∈ d, isdigit c = true) ∧
      ibuf.text = pre ++ (d ++ COMMA :: tail) := by
  have hcut := List.takeWhile_append_dropWhile (p := (· != COMMA)) (l := ibuf.text)
  cases hrest : ibuf.text.dropWhile (· != COMMA) with
  | nil => simp [addressText, hrest] at h
  | cons c tail =>
      have hc : c = COMMA := by
        have hhead := List.head_dropWhile_not (· != COMMA) (l := ibuf.text) (by simp [hrest])
        simpa [hrest] using hhead
      subst hc
      obtain ⟨pre, d, htake, hpre, hd⟩ := exists_digits (ibuf.text.takeWhile (· != COMMA))
      refine ⟨pre, d, tail, ?_, hpre, hd, ?_⟩
      · intro hin
        have hmem : COMMA ∈ ibuf.text.takeWhile (· != COMMA) := by
          rw [htake]
          exact List.mem_append_left _ hin
        simpa using List.mem_takeWhile_imp hmem
      · rw [← List.append_assoc, ← htake, ← hrest, hcut]

theorem isdigit_of_mem_strayDigits {c : Byte} (hc : c ∈ strayDigits ibuf) : isdigit c = true := by
  rw [strayDigits] at hc
  split at hc
  · exact List.mem_takeWhile_imp (List.mem_reverse.1 hc)
  · cases hc

/-- The backward scan leaves the line only where nothing but digits is before the comma. -/
theorem strayDigits_eq_nil (hpre : COMMA ∉ pre) (hlast : ∀ c ∈ pre.getLast?, isdigit c = false)
    (hd : ∀ c ∈ d, isdigit c = true) (htext : ibuf.text = pre ++ (d ++ COMMA :: tail)) (hne : pre ≠ []) :
    strayDigits ibuf = [] := by
  have hcomma : COMMA ∉ pre ++ d := by
    rw [List.mem_append, not_or]
    exact ⟨hpre, comma_notMem_of_digits hd⟩
  obtain ⟨pre, c, rfl⟩ := (List.eq_nil_or_concat pre).resolve_left hne
  have hc : isdigit c = false := hlast c (by simp)
  rw [strayDigits, htext, ← List.append_assoc, takeWhile_comma hcomma]
  simp [hc]

theorem atoi_comma : atoi (COMMA :: tail) = 0 := by
  have hspace : isspace COMMA = false := by decide
  have hdigit : isdigit COMMA = false := by decide
  have hsign : takeSign (COMMA :: tail) = (false, COMMA :: tail) := rfl
  simp [atoi, strtol, hspace, hdigit, hsign]

/-- The numbers that `sscanf` finds in a line of six fields. -/
theorem sscanf_fields {e : List Byte} {es : List (List Byte)} (h : Fields Number ibuf.text (d :: e :: es)) :
    (addressText ibuf.before ibuf.text).bind (sscanfInts 6) =
      some (((strayDigits ibuf ++ d) :: e :: es).map atoi) := by
  obtain ⟨pre, rest, htext, hpre, hlast, hstops⟩ := h.line
  have hd : ∀ c ∈ d, isdigit c = true := h.first d rfl
  rw [commas_cons_cons, List.append_assoc, List.cons_append] at htext
  have hfields : ∀ f ∈ (strayDigits ibuf ++ d) :: e :: es, Number f := by
    intro f hf
    rcases List.mem_cons.1 hf with rfl | hf
    · refine Digits.number ⟨?_, ?_⟩
      · intro hnil
        exact (h.all d (by simp)).ne_nil (List.append_eq_nil_iff.1 hnil).2
      · intro c hc
        exact (List.mem_append.1 hc).elim isdigit_of_mem_strayDigits (hd c)
    · exact h.all f (List.mem_cons_of_mem _ hf)
  have hlen := h.length
  have hscan := sscanfInts_commas (by simp) hfields hstops
  rw [List.length_cons] at hlen hscan
  rw [hlen, commas_cons_cons] at hscan
  rw [addressText_eq hpre hlast hd htext, Option.bind_some, ← hscan]
  simp only [List.append_assoc, List.cons_append]

theorem comma_notMem_of_number (h : Number d) : COMMA ∉ d := by
  obtain ⟨blanks, sign, ds, rfl, hblanks, hsign, hds⟩ := h.split
  rw [List.mem_append, List.mem_append]
  rintro (hin | hin | hin)
  · exact absurd (hblanks COMMA hin) (by decide)
  · rcases hsign with rfl | rfl | rfl
    · cases hin
    · exact absurd hin (by decide)
    · exact absurd hin (by decide)
  · exact comma_notMem_of_digits hds.all hin

theorem comma_split_unique {d' tail' : List Byte} (h : COMMA ∉ d) (h' : COMMA ∉ d')
    (heq : d ++ COMMA :: tail = d' ++ COMMA :: tail') : d = d' ∧ tail = tail' := by
  have hd : d = d' := by
    have htake := congrArg (List.takeWhile (· != COMMA)) heq
    rwa [takeWhile_comma h, takeWhile_comma h'] at htake
  subst hd
  simpa using heq

/-- What `sscanf` finds in a line is six fields. -/
theorem fields_of_sscanf {vs : List ℤ} (h2 : atoi ibuf.text ≠ 0)
    (h : (addressText ibuf.before ibuf.text).bind (sscanfInts 6) = some vs) :
    ∃ fields, Fields Number ibuf.text fields := by
  obtain ⟨t, ht, hscan⟩ := Option.bind_eq_some_iff.1 h
  obtain ⟨pre, d, tail, hpre, hlast, hd, htext⟩ := exists_comma_split ht
  rw [addressText_eq hpre hlast hd htext] at ht
  obtain ⟨fields, rest, hcs, hlen, hall, hstops, -⟩ := commas_of_sscanfInts hscan
  obtain ⟨f, fields, rfl⟩ := List.exists_cons_of_length_eq_add_one hlen
  obtain ⟨e, es, rfl⟩ := List.exists_cons_of_length_eq_add_one (by simpa using hlen)
  have hf := hall f (by simp)
  cases ht
  rw [commas_cons_cons, List.append_assoc, List.cons_append, ← List.append_assoc] at hcs
  have hcomma : COMMA ∉ strayDigits ibuf ++ d := by
    rw [List.mem_append, not_or]
    exact ⟨comma_notMem_of_digits fun _ => isdigit_of_mem_strayDigits, comma_notMem_of_digits hd⟩
  obtain ⟨rfl, rfl⟩ := comma_split_unique hcomma (comma_notMem_of_number hf) hcs
  have hne : d ≠ [] := by
    rintro rfl
    by_cases hnil : pre = []
    · rw [htext, hnil] at h2
      exact h2 atoi_comma
    · rw [strayDigits_eq_nil hpre hlast hd htext hnil] at hf
      exact hf.ne_nil rfl
  refine ⟨d :: e :: es, ⟨pre, rest, ?_, hpre, hlast, hstops⟩, hlen, ?_, ?_⟩
  · rw [commas_cons_cons, List.append_assoc, List.cons_append, htext]
  · intro x hx
    cases hx
    exact hd
  · intro x hx
    rcases List.mem_cons.1 hx with rfl | hx
    · exact Digits.number ⟨hne, hd⟩
    · exact hall x (List.mem_cons_of_mem _ hx)

theorem exists_six (h : fields.length = 6) : ∃ d1 d2 d3 d4 d5 d6, fields = [d1, d2, d3, d4, d5, d6] := by
  match fields, h with
  | [d1, d2, d3, d4, d5, d6], _ => exact ⟨d1, d2, d3, d4, d5, d6, rfl⟩

theorem parsePasv_fields {d1 d2 d3 d4 d5 d6 : List Byte}
    (h : Fields Number ibuf.text [d1, d2, d3, d4, d5, d6]) : parsePasv ibuf =
      some ⟨AF_INET, htonl (makeInt32 (atoi (strayDigits ibuf ++ d1)) (atoi d2) (atoi d3) (atoi d4)),
        htons ((makeInt32 0 0 (atoi d5) (atoi d6)).setWidth 16)⟩ := by
  rw [parsePasv, sscanf_fields h]
  rfl

/-- The lines of which an address is taken. -/
theorem parsePasv_isSome_iff (h2 : atoi ibuf.text ≠ 0) :
    (parsePasv ibuf).isSome = true ↔ ∃ fields, Fields Number ibuf.text fields := by
  constructor
  · intro hsome
    cases hscan : (addressText ibuf.before ibuf.text).bind (sscanfInts 6) with
    | none =>
        rw [parsePasv, hscan] at hsome
        cases hsome
    | some vs => exact fields_of_sscanf h2 hscan
  · intro ⟨fields, h⟩
    obtain ⟨d1, d2, d3, d4, d5, d6, rfl⟩ := exists_six h.length
    rw [parsePasv_fields h]
    rfl

theorem Octet.atoi_eq (h : Octet d) : atoi d = digitsValue d := by
  obtain ⟨hdigits, hle⟩ := h
  exact atoi_of_digits hdigits (by omega)

theorem Fields.number (h : Fields Octet ibuf.text fields) : Fields Number ibuf.text fields :=
  ⟨h.line, h.length, h.first, fun d hd => (h.all d hd).1.number⟩

/-- Numbers up to 255 are cast to themselves. -/
theorem addressOf_octets {d1 d2 d3 d4 d5 d6 : List Byte}
    (h : ∀ d ∈ [d1, d2, d3, d4, d5, d6], Octet d) : addressOf ([d1, d2, d3, d4, d5, d6].map digitsValue) =
      some ⟨AF_INET, htonl (makeInt32 (atoi d1) (atoi d2) (atoi d3) (atoi d4)),
        htons ((makeInt32 0 0 (atoi d5) (atoi d6)).setWidth 16)⟩ := by
  simp only [List.forall_mem_cons, List.not_mem_nil, false_implies, implies_true, and_true] at h
  obtain ⟨h1, h2, h3, h4, h5, h6⟩ := h
  have hmake := makeInt32_toNat (atoi d1) (atoi d2) (atoi d3) (atoi d4)
  have hport := makeInt32_toNat 0 0 (atoi d5) (atoi d6)
  rw [h1.atoi_eq, h2.atoi_eq, h3.atoi_eq, h4.atoi_eq] at hmake ⊢
  rw [h5.atoi_eq, h6.atoi_eq] at hport ⊢
  have hle1 := h1.2
  have hle2 := h2.2
  have hle3 := h3.2
  have hle4 := h4.2
  have hle5 := h5.2
  have hle6 := h6.2
  simp only [List.map_cons, List.map_nil, addressOf, Option.some.injEq, SockaddrIn.mk.injEq, true_and]
  constructor
  · congr 1
    apply BitVec.eq_of_toNat_eq
    rw [BitVec.toNat_ofNat]
    omega
  · congr 1
    apply BitVec.eq_of_toNat_eq
    rw [BitVec.toNat_ofNat, BitVec.toNat_setWidth]
    omega

/-- Without digits in front of the line, the address is that of the numbers in it. -/
theorem parsePasv_bare (h : Fields Octet ibuf.text fields) :
    parsePasv { ibuf with before := [] } = addressOf (fields.map digitsValue) := by
  obtain ⟨d1, d2, d3, d4, d5, d6, rfl⟩ := exists_six h.length
  have hstray : strayDigits { ibuf with before := [] } = [] := by simp [strayDigits]
  have hnumbers : Fields Number (Line.text { ibuf with before := [] }) _ := h.number
  rw [parsePasv_fields hnumbers, hstray, List.nil_append, addressOf_octets h.all]

theorem parsePasv_eq (h : Fields Octet ibuf.text fields)
    (hfirst : ∀ d ∈ fields.head?, uchar (atoi (strayDigits ibuf ++ d)) = uchar (atoi d)) :
    parsePasv ibuf = addressOf (fields.map digitsValue) := by
  obtain ⟨d1, d2, d3, d4, d5, d6, rfl⟩ := exists_six h.length
  have hmake : makeInt32 (atoi (strayDigits ibuf ++ d1)) (atoi d2) (atoi d3) (atoi d4) =
      makeInt32 (atoi d1) (atoi d2) (atoi d3) (atoi d4) := by
    rw [makeInt32, hfirst d1 rfl, makeInt32]
  rw [parsePasv_fields h.number, addressOf_octets h.all, hmake]

theorem uchar_eq_of_parsePasv (h : Fields Octet ibuf.text fields)
    (heq : parsePasv ibuf = addressOf (fields.map digitsValue)) :
    ∀ d ∈ fields.head?, uchar (atoi (strayDigits ibuf ++ d)) = uchar (atoi d) := by
  obtain ⟨d1, d2, d3, d4, d5, d6, rfl⟩ := exists_six h.length
  rw [parsePasv_fields h.number, addressOf_octets h.all, Option.some.injEq, SockaddrIn.mk.injEq] at heq
  have hmake := congrArg htonl heq.2.1
  rw [htonl_htonl, htonl_htonl] at hmake
  have hnumber := congrArg (fun x : BitVec 32 => (x.toNat : ℤ)) hmake
  simp only [makeInt32_toNat] at hnumber
  intro d hd
  cases hd
  apply BitVec.eq_of_toNat_eq
  have hleft := uchar_toNat (atoi (strayDigits ibuf ++ d1))
  have hright := uchar_toNat (atoi d1)
  omega

/-- The two things that a 2xx reply to PASV leads to. -/
theorem giveInput_pasv {s : FtpClientProto} (hs : s.Disciplined) (hst : s.state = .pasv)
    (hm : s.multiline = false) (hlf : LF ∉ ibuf.text) (h2 : is2xx (atoi ibuf.text) = true) :
    (∃ a, parsePasv ibuf = some a ∧ s.giveInput ibuf = some (0, (((s.saveStatus ibuf).setAddress a).popped
      .retr).putLine (ascii "RETR " ++ s.fname ++ crlf))) ∨
    parsePasv ibuf = none ∧ s.giveInput ibuf = some (0, (s.saveStatus ibuf).popped .idle) := by
  have hstate : (s.saveStatus ibuf).state = .pasv := hst
  rcases giveInput_spec hs hlf with ⟨hm', -⟩ | ⟨-, e, s', hg, hr⟩
  · cases hm.symm.trans hm'
  · cases hr with
    | pasvOk a _ _ hparse => exact .inl ⟨a, hparse, hg⟩
    | abandoned hfail => exact .inr ⟨by simpa [hstate, h2] using hfail, hg⟩
    | helloUser hst' | hello hst' | refused hst' | askPass hst' | portOk hst' | retrMark hst'
    | retrDone hst' =>
        cases hstate.symm.trans hst'
    | loggedIn hst' | loginFailed hst' | done hst' | unexpected hst' => simp [hstate] at hst'

theorem atoi_ne_zero (h2 : is2xx (atoi ibuf.text) = true) : atoi ibuf.text ≠ 0 := by
  intro h0
  rw [h0] at h2
  cases h2

end

/-- The address comes from six numbers of up to 255, or there is none. -/
structure FollowsGrammar (s s' : FtpClientProto) (ibuf : Line) : Prop where
  accepted : ∀ fields, Fields Octet ibuf.text fields →
    s'.addressReady = true ∧ addressOf (fields.map digitsValue) = some s'.address
  refused : (¬ ∃ fields, Fields Octet ibuf.text fields) →
    s'.addressReady = s.addressReady ∧ s'.address = s.address ∧ s'.state = .idle

/-- Where six numbers can be read, they are digits only and up to 255, and no digits in
front of the line change the first of them. -/
def Orderly (ibuf : Line) : Prop :=
  (∃ fields, Fields Number ibuf.text fields) →
    ∃ fields, Fields Octet ibuf.text fields ∧
      ∀ d ∈ fields.head?, uchar (atoi (strayDigits ibuf ++ d)) = uchar (atoi d)

/-- The calls up to a session that is logged in and idle. -/
def loginScript : List Call := [earlyLogin, hello, .advanceOutput, welcome]

section
variable {s : FtpClientProto} {ibuf : Line}

/-- The address is taken as the grammar of the line has it, exactly where no other numbers
than those of the grammar can be read. -/
theorem pasv_grammar_iff (hs : s.Reachable) (hst : s.state = .pasv) (hm : s.multiline = false)
    (hlf : LF ∉ ibuf.text) (h2 : is2xx (atoi ibuf.text) = true) :
    (∃ s', s.giveInput ibuf = some (0, s') ∧ FollowsGrammar s s' ibuf) ↔ Orderly ibuf := by
  have hiff := parsePasv_isSome_iff (atoi_ne_zero h2)
  rcases giveInput_pasv hs.disciplined hst hm hlf h2 with ⟨a, hparse, hg⟩ | ⟨hparse, hg⟩
  · have hread := hiff.1 (by rw [hparse]; rfl)
    constructor
    · rintro ⟨s', hs', hfollows⟩ -
      cases hg.symm.trans hs'
      by_cases hoctets : ∃ fields, Fields Octet ibuf.text fields
      · obtain ⟨fields, hfields⟩ := hoctets
        refine ⟨fields, hfields, uchar_eq_of_parsePasv hfields ?_⟩
        rw [hparse, (hfollows.accepted fields hfields).2]
        rfl
      · cases (hfollows.refused hoctets).2.2
    · intro horderly
      obtain ⟨fields, hfields, hfirst⟩ := horderly hread
      refine ⟨_, hg, ?_, fun hnone => absurd ⟨fields, hfields⟩ hnone⟩
      intro fields' hfields'
      refine ⟨rfl, ?_⟩
      -- the line has one list of numbers, whatever is in front of it
      rw [← parsePasv_bare hfields', parsePasv_bare hfields, ← parsePasv_eq hfields hfirst, hparse]
      rfl
  · have hunread : ¬ ∃ fields, Fields Number ibuf.text fields := by
      rw [← hiff, hparse]
      exact Bool.false_ne_true
    constructor
    · intro _ hread
      exact absurd hread hunread
    · intro _
      exact ⟨_, hg, fun fields hfields => absurd ⟨fields, hfields.number⟩ hunread, fun _ => ⟨rfl, rfl, rfl⟩⟩

end

/-- The reply that giveInput's comment gives for an example. -/
def sampleReply : Line := .ofAscii "227 Entering Passive Mode (192,48,96,9,184,102)" (by decide)

theorem orderly_sampleReply : Orderly sampleReply := by
  rintro -
  refine ⟨["192", "48", "96", "9", "184", "102"].map ascii, ⟨⟨ascii "227 Entering Passive Mode (", ascii ")",
    by decide, by decide, ?_, by simp [Stops, ascii, isdigit]⟩, rfl, ?_, ?_⟩, ?_⟩
  · intro c hc
    cases hc
    rfl
  · exact fun d hd => List.all_eq_true.1 (by cases hd; decide)
  · simp only [List.map_cons, List.map_nil, List.forall_mem_cons, List.not_mem_nil, false_implies, implies_true,
      and_true]
    refine ⟨?_, ?_, ?_, ?_, ?_, ?_⟩ <;>
      exact ⟨⟨by decide, List.all_eq_true.1 (by decide)⟩, by decide⟩
  · rintro d hd
    cases hd
    decide

theorem pasv_grammar_sampleReply : ∃ s s', zeroed.init.run (loginScript ++ [getFile]) = some s ∧
    s.giveInput sampleReply = some (0, s') ∧ FollowsGrammar s s' sampleReply := by
  obtain ⟨s', hg, hfollows⟩ := (pasv_grammar_iff ⟨zeroed, loginScript ++ [getFile], rfl⟩
    rfl rfl (by decide) (by decide)).2 orderly_sampleReply
  exact ⟨_, s', rfl, hg, hfollows⟩

/-- 300 is read as 44. -/
theorem pasv_takes_300 : ¬ ∀ (s : FtpClientProto) (ibuf : Line), s.Reachable → s.state = .pasv →
    s.multiline = false → LF ∉ ibuf.text → is2xx (atoi ibuf.text) = true →
    ∃ s', s.giveInput ibuf = some (0, s') ∧ FollowsGrammar s s' ibuf := by
  intro hall
  obtain ⟨s', hg, hfollows⟩ := hall _ (.ofAscii "227 (300,2,3,4,5,6)" (by decide))
    ⟨zeroed, loginScript ++ [getFile], rfl⟩ rfl rfl (by decide) (by decide)
  have hnone : ¬ ∃ fields, Fields Octet (Line.ofAscii "227 (300,2,3,4,5,6)" (by decide)).text fields := by
    rintro ⟨fields, h⟩
    obtain ⟨d1, d2, d3, d4, d5, d6, rfl⟩ := exists_six h.length
    have hscan := sscanf_fields h.number
    have hnumbers : (addressText [] (ascii "227 (300,2,3,4,5,6)")).bind (sscanfInts 6) =
        some [300, 2, 3, 4, 5, 6] := by decide
    have hfirst := h.all d1 (by simp)
    have hatoi : atoi d1 = 300 := by
      have heq := hscan.symm.trans hnumbers
      simp only [Option.some.injEq, List.map_cons, List.cons.injEq] at heq
      exact heq.1
    rw [hfirst.atoi_eq] at hatoi
    have hle := hfirst.2
    omega
  cases hg
  cases (hfollows.refused hnone).2.2

/-! ## The numbers of a PORT line -/

section
variable {s s₀ t : FtpClientProto} {ibuf : Line} {adr : SockaddrIn} {numbers : List Byte} {f : CStr} {w k : ℕ}

theorem getByte_eq (x : BitVec w) (hw : 8 ≤ w) : getByte x k = x.toNat/2^(8*k) % 2^8 := by
  have hlt : 255 < 2^w := lt_of_lt_of_le (by decide) (Nat.pow_le_pow_right (by decide) hw)
  have hmask : BitVec.toNat (255 : BitVec w) = 2^8-1 := Nat.mod_eq_of_lt hlt
  rw [getByte, BitVec.toNat_and, BitVec.toNat_ushiftRight, Nat.shiftRight_eq_div_pow, hmask]
  exact Nat.and_two_pow_sub_one_eq_mod _ 8

theorem portNumbers_lt : ∀ n ∈ portNumbers adr, n < 256 := by
  simp only [portNumbers, getByte_eq _ (show 8 ≤ 32 by decide), getByte_eq _ (show 8 ≤ 16 by decide),
    List.forall_mem_cons, List.not_mem_nil, false_implies, implies_true, and_true]
  omega

/-- The address comes back, and its first two bytes for the port. -/
theorem addressOf_portNumbers :
    addressOf (portNumbers adr) = some ⟨AF_INET, adr.s_addr, adr.s_addr.setWidth 16⟩ := by
  simp only [portNumbers, addressOf, getByte_eq _ (show 8 ≤ 32 by decide), getByte_eq _ (show 8 ≤ 16 by decide),
    Option.some.injEq, SockaddrIn.mk.injEq, true_and]
  have haddr := (ntohl adr.s_addr).isLt
  have hport := (ntohs (adr.s_addr.setWidth 16)).isLt
  constructor
  · rw [← htonl_htonl (x := adr.s_addr)]
    congr 1
    apply BitVec.eq_of_toNat_eq
    rw [BitVec.toNat_ofNat, htonl_htonl]
    simp only [ntohl] at haddr ⊢
    omega
  · rw [← htons_htons (adr.s_addr.setWidth 16)]
    congr 1
    apply BitVec.eq_of_toNat_eq
    rw [BitVec.toNat_ofNat, htons_htons]
    simp only [ntohs] at hport ⊢
    omega

theorem octet_decimal {n : ℕ} (h : n < 256) : Octet (decimal n) := by
  obtain ⟨hdigits, hvalue⟩ := decimal_spec n
  exact ⟨hdigits, by omega⟩

/-- The reply that tells the numbers of a PORT line. -/
def passiveText (numbers : List Byte) : List Byte := ascii "227 Entering Passive Mode (" ++ (numbers ++ ascii ")")

theorem fields_passiveText (htext : ibuf.text = passiveText (commas ((portNumbers adr).map decimal))) :
    Fields Octet ibuf.text ((portNumbers adr).map decimal) := by
  have hoctets : ∀ d ∈ (portNumbers adr).map decimal, Octet d := by
    intro d hd
    obtain ⟨n, hn, rfl⟩ := List.mem_map.1 hd
    exact octet_decimal (portNumbers_lt n hn)
  refine ⟨⟨_, _, htext, by decide, ?_, ?_⟩, rfl, ?_, hoctets⟩
  · intro c hc
    cases hc
    rfl
  · intro c hc
    cases hc
    rfl
  · intro d hd
    exact (hoctets d (List.mem_of_mem_head? hd)).1.all

theorem is2xx_passiveText (htext : ibuf.text = passiveText numbers) : is2xx (atoi ibuf.text) = true := by
  have hsplit : ascii "227 Entering Passive Mode (" = ascii "227" ++ ascii " Entering Passive Mode (" := by decide
  have hcode : atoi ibuf.text = digitsValue (ascii "227") := by
    rw [htext, passiveText, hsplit, List.append_assoc]
    exact atoi_digits (by decide) (List.all_eq_true.1 (by decide)) (by simp [ascii, isdigit]) (by decide)
  rw [hcode]
  decide

/-- The reply with the numbers of a PORT line is parsed to the address, with the first two
bytes of it for the port. -/
theorem parsePasv_passiveText (htext : ibuf.text = passiveText (commas ((portNumbers adr).map decimal))) :
    parsePasv ibuf = some ⟨AF_INET, adr.s_addr, adr.s_addr.setWidth 16⟩ := by
  have hfields := fields_passiveText htext
  have hstray : strayDigits ibuf = [] := by
    have hhead : (ibuf.text.takeWhile (· != COMMA)).all isdigit = false := by
      rw [htext]
      rfl
    simp [strayDigits, hhead]
  have hvalues : ((portNumbers adr).map decimal).map digitsValue = portNumbers adr := by
    simp [Function.comp_def, decimal_spec]
  rw [parsePasv_eq hfields (by simp [hstray]), hvalues, addressOf_portNumbers]

/-- The numbers of the PORT line give back the address and port exactly where the port is
the first two bytes of the address. -/
theorem address_codec_iff (f : CStr) (adr : SockaddrIn) (numbers : List Byte) (ibuf : Line)
    (hs₀ : s₀.Reachable) (hget : s₀.get f (some adr) = some (0, t))
    (hnumbers : t.obuf = ascii "PORT " ++ numbers ++ crlf) (hs : s.Reachable) (hst : s.state = .pasv)
    (hm : s.multiline = false) (htext : ibuf.text = passiveText numbers) :
    (∃ s', s.giveInput ibuf = some (0, s') ∧ s'.addressReady = true ∧ s'.address.s_addr = adr.s_addr ∧
      s'.address.sin_port = adr.sin_port) ↔ adr.sin_port = adr.s_addr.setWidth 16 := by
  have hline : t.obuf = portLine adr := by
    rcases get_spec hs₀.disciplined f (some adr) with ⟨e, he, heq⟩ | ⟨t', heq, hi⟩
    · cases heq.symm.trans hget
      exact absurd rfl he
    · cases heq.symm.trans hget
      cases hi
      rfl
  have hnums : numbers = commas ((portNumbers adr).map decimal) := by
    rw [hline, portLine, List.append_cancel_right_eq, List.append_cancel_left_eq] at hnumbers
    exact hnumbers.symm
  subst hnums
  have hlf : LF ∉ ibuf.text := by
    have hdigits : ∀ d ∈ (portNumbers adr).map decimal, Digits d := fun d hd =>
      ((fields_passiveText htext).all d hd).1
    rw [htext, passiveText, List.mem_append, List.mem_append]
    exact fun hin => hin.elim (by decide) fun hin => hin.elim (notMem_commas hdigits (by decide) (by decide)) (by decide)
  have hparse := parsePasv_passiveText htext
  rcases giveInput_pasv hs.disciplined hst hm hlf (is2xx_passiveText htext) with ⟨a, ha, hg⟩ | ⟨hnone, -⟩
  · cases hparse.symm.trans ha
    constructor
    · rintro ⟨s', hs', -, -, hport⟩
      cases hg.symm.trans hs'
      exact hport.symm
    · intro hport
      exact ⟨_, hg, rfl, rfl, hport.symm⟩
  · cases hparse.symm.trans hnone

end

/-- Port 127*256 at 127.0.0.1. -/
def loopback : SockaddrIn := ⟨AF_INET, 0x0100007f, 0x007f⟩

def loopbackReply : Line := .ofAscii "227 Entering Passive Mode (127,0,0,1,127,0)" (by decide)

theorem loopbackReply_text : loopbackReply.text = passiveText (ascii "127,0,0,1,127,0") := by
  simp [loopbackReply, Line.ofAscii, passiveText, ascii]

theorem address_codec_loopback : ∃ s s', zeroed.init.run (loginScript ++ [getFile]) = some s ∧
    s.giveInput loopbackReply = some (0, s') ∧
    s'.address.s_addr = loopback.s_addr ∧ s'.address.sin_port = loopback.sin_port := by
  obtain ⟨s', hg, -, haddr, hport⟩ := (address_codec_iff ⟨ascii "f", no_nul_f⟩ loopback
    (ascii "127,0,0,1,127,0") loopbackReply ⟨zeroed, loginScript, rfl⟩ rfl (by decide)
    ⟨zeroed, loginScript ++ [getFile], rfl⟩ rfl rfl loopbackReply_text).2 rfl
  exact ⟨_, s', rfl, hg, haddr, hport⟩

/-- FTP's own port at 127.0.0.1 comes back as port 127*256. -/
theorem port_from_address : ¬ ∀ (s₀ t s : FtpClientProto) (f : CStr) (adr : SockaddrIn) (numbers : List Byte)
    (ibuf : Line), s₀.Reachable → s₀.get f (some adr) = some (0, t) →
    t.obuf = ascii "PORT " ++ numbers ++ crlf → s.Reachable → s.state = .pasv → s.multiline = false →
    ibuf.text = passiveText numbers → ∃ s', s.giveInput ibuf = some (0, s') ∧ s'.addressReady = true ∧
      s'.address.s_addr = adr.s_addr ∧ s'.address.sin_port = adr.sin_port := by
  intro hall
  obtain ⟨s', hg, -, -, hport⟩ := hall _ _ _ ⟨ascii "f", no_nul_f⟩ ⟨AF_INET, 0x0100007f, 0x1500⟩
    (ascii "127,0,0,1,127,0") loopbackReply ⟨zeroed, loginScript, rfl⟩ rfl (by decide)
    ⟨zeroed, loginScript ++ [getFile], rfl⟩ rfl rfl loopbackReply_text
  cases hg
  revert hport
  decide

end Dkftpbench.FtpClientProto
