import Dkftpbench.CString

/-!
# Numbers as scanf reads them

What `strtol` and `sscanf` accept, as texts: a number is white space, a sign and digits,
and `sscanf` with commas between its conversions finds numbers with commas between them.
Printed numbers are such texts.
-/
namespace Dkftpbench.CLib

/-- Digits, and at least one. -/
structure Digits (ds : List Byte) : Prop where
  ne_nil : ds ≠ []
  all : ∀ d ∈ ds, isdigit d = true

/-- What one `%d` takes. -/
structure Number (cs : List Byte) : Prop where
  split : ∃ blanks sign ds, cs = blanks ++ (sign ++ ds) ∧ (∀ c ∈ blanks, isspace c = true) ∧
    (sign = [] ∨ sign = [PLUS] ∨ sign = [MINUS]) ∧ Digits ds

/-- The text does not go on with a digit. -/
def Stops (cs : List Byte) : Prop := ∀ c ∈ cs.head?, isdigit c = false

/-- Texts with commas between them. -/
abbrev commas (ds : List (List Byte)) : List Byte := [COMMA].intercalate ds

section
variable {cs ds rest blanks sign : List Byte} {fields : List (List Byte)} {c : Byte} {v : ℤ} {n : ℕ}

theorem Digits.number (h : Digits ds) : Number ds :=
  ⟨[], [], ds, rfl, nofun, .inl rfl, h⟩

theorem Number.ne_nil (h : Number cs) : cs ≠ [] := by
  obtain ⟨blanks, sign, ds, rfl, -, -, hds⟩ := h.split
  simp [hds.ne_nil]

theorem takeWhile_digits (h : ∀ d ∈ ds, isdigit d = true) (hrest : Stops rest) :
    (ds ++ rest).takeWhile isdigit = ds := by
  rw [List.takeWhile_append_of_pos h]
  cases rest with
  | nil => simp
  | cons c cs => simp [hrest c rfl]

theorem dropWhile_digits (h : ∀ d ∈ ds, isdigit d = true) (hrest : Stops rest) :
    (ds ++ rest).dropWhile isdigit = rest := by
  rw [List.dropWhile_append_of_pos h]
  cases rest with
  | nil => simp
  | cons c cs => simp [hrest c rfl]

theorem dropWhile_blanks (hblanks : ∀ c ∈ blanks, isspace c = true)
    (hsign : sign = [] ∨ sign = [PLUS] ∨ sign = [MINUS]) (hds : Digits ds) :
    (blanks ++ (sign ++ (ds ++ rest))).dropWhile isspace = sign ++ (ds ++ rest) := by
  obtain ⟨d, ds', rfl⟩ := List.exists_cons_of_ne_nil hds.ne_nil
  have hd := isspace_of_isdigit (hds.all d (by simp))
  rw [List.dropWhile_append_of_pos hblanks]
  rcases hsign with rfl | rfl | rfl
  · simp [hd]
  · simp [show isspace PLUS = false by decide]
  · simp [show isspace MINUS = false by decide]

theorem takeSign_sign (hsign : sign = [] ∨ sign = [PLUS] ∨ sign = [MINUS]) (hds : Digits ds) :
    takeSign (sign ++ (ds ++ rest)) = (decide (sign = [MINUS]), ds ++ rest) := by
  obtain ⟨d, ds', rfl⟩ := List.exists_cons_of_ne_nil hds.ne_nil
  rcases hsign with rfl | rfl | rfl
  · exact takeSign_of_isdigit (hds.all d (by simp))
  · rfl
  · rfl

/-- `strtol` takes the longest number. -/
theorem strtol_append (h : Number cs) :
    ∃ v, ∀ rest, Stops rest → strtol (cs ++ rest) = some (v, rest) := by
  obtain ⟨blanks, sign, ds, rfl, hblanks, hsign, hds⟩ := h.split
  refine ⟨max LONG_MIN (min LONG_MAX (if sign = [MINUS] then -digitsValue ds else digitsValue ds)),
    fun rest hrest => ?_⟩
  simp only [strtol, List.append_assoc, dropWhile_blanks hblanks hsign hds, takeSign_sign hsign hds,
    takeWhile_digits hds.all hrest, dropWhile_digits hds.all hrest, if_neg hds.ne_nil, decide_eq_true_eq]

theorem strtol_number (h : Number cs) (hrest : Stops rest) :
    ∃ v, strtol (cs ++ rest) = some (v, rest) ∧ toInt32 v = atoi cs := by
  obtain ⟨v, hv⟩ := strtol_append h
  have hself := hv [] nofun
  rw [List.append_nil] at hself
  exact ⟨v, hv rest hrest, by rw [atoi, hself]⟩

theorem stops_dropWhile : Stops (cs.dropWhile isdigit) := by
  intro c hc
  cases hd : cs.dropWhile isdigit with
  | nil =>
      rw [hd] at hc
      cases hc
  | cons d ds =>
      rw [hd] at hc
      cases hc
      have := List.head_dropWhile_not isdigit (l := cs) (by simp [hd])
      simpa [hd] using this

theorem takeSign_split (cs : List Byte) : ∃ sign, cs = sign ++ (takeSign cs).2 ∧
    (sign = [] ∨ sign = [PLUS] ∨ sign = [MINUS]) := by
  cases cs with
  | nil => exact ⟨[], rfl, .inl rfl⟩
  | cons c cs =>
      rw [takeSign]
      split
      · next hm => exact ⟨[c], rfl, .inr (.inr (by rw [hm]))⟩
      · split
        · next hp => exact ⟨[c], rfl, .inr (.inl (by rw [hp]))⟩
        · exact ⟨[], rfl, .inl rfl⟩

/-- What `strtol` takes is a number. -/
theorem number_of_strtol (h : strtol cs = some (v, rest)) :
    ∃ ds, cs = ds ++ rest ∧ Number ds ∧ Stops rest ∧ toInt32 v = atoi ds := by
  obtain ⟨sign, hsplit, hsign⟩ := takeSign_split (cs.dropWhile isspace)
  generalize hbody : (takeSign (cs.dropWhile isspace)).2 = body at hsplit
  have hne : body.takeWhile isdigit ≠ [] := by
    intro hnil
    simp [strtol, hbody, hnil] at h
  have hrest : body.dropWhile isdigit = rest := by
    simp only [strtol, hbody, if_neg hne, Option.some.injEq, Prod.mk.injEq] at h
    exact h.2
  have hcs : cs = (cs.takeWhile isspace ++ (sign ++ body.takeWhile isdigit)) ++ rest := by
    rw [← hrest, List.append_assoc, List.append_assoc, List.takeWhile_append_dropWhile, ← hsplit,
      List.takeWhile_append_dropWhile]
  have hnumber : Number (cs.takeWhile isspace ++ (sign ++ body.takeWhile isdigit)) :=
    ⟨_, sign, _, rfl, fun c hc => List.mem_takeWhile_imp hc, hsign, hne, fun c hc => List.mem_takeWhile_imp hc⟩
  have hstops : Stops rest := hrest ▸ stops_dropWhile
  obtain ⟨w, hw, hatoi⟩ := strtol_number hnumber hstops
  rw [← hcs, h] at hw
  cases hw
  exact ⟨_, hcs, hnumber, hstops, hatoi⟩

theorem commas_cons_cons {ds' : List Byte} :
    commas (ds :: ds' :: fields) = ds ++ COMMA :: commas (ds' :: fields) := by
  simp [commas, List.intercalate]

/-- `sscanf` finds numbers with commas between them. -/
theorem sscanfInts_commas (hne : fields ≠ []) (h : ∀ d ∈ fields, Number d) (hrest : Stops rest) :
    sscanfInts fields.length (commas fields ++ rest) = some (fields.map atoi) := by
  induction fields with
  | nil => exact absurd rfl hne
  | cons d fields ih =>
      have hd : Number d := h d (by simp)
      cases fields with
      | nil =>
          obtain ⟨v, hv, hatoi⟩ := strtol_number hd hrest
          simp [commas, List.intercalate, sscanfInts, hv, hatoi]
      | cons d' fields =>
          have hrec := ih (by simp) fun x hx => h x (List.mem_cons_of_mem _ hx)
          have hcomma : Stops (COMMA :: (commas (d' :: fields) ++ rest)) := by
            simp [Stops, show isdigit COMMA = false by decide]
          obtain ⟨v, hv, hatoi⟩ := strtol_number hd hcomma
          rw [commas_cons_cons, List.append_assoc, List.cons_append]
          simp only [List.length_cons, sscanfInts, hv, if_true, hatoi, List.map_cons] at hrec ⊢
          rw [hrec]
          rfl

/-- What `sscanf` finds are numbers with commas between them. -/
theorem commas_of_sscanfInts {vs : List ℤ} (h : sscanfInts (n+1) cs = some vs) :
    ∃ fields rest, cs = commas fields ++ rest ∧ fields.length = n+1 ∧ (∀ d ∈ fields, Number d) ∧ Stops rest ∧
      vs = fields.map atoi := by
  induction n generalizing cs vs with
  | zero =>
      obtain ⟨⟨v, rest⟩, hv, rfl⟩ := Option.map_eq_some_iff.1 h
      obtain ⟨d, rfl, hd, hrest, hatoi⟩ := number_of_strtol hv
      exact ⟨[d], rest, by simp [commas, List.intercalate], rfl, by simpa using hd, hrest, by simp [hatoi]⟩
  | succ n ih =>
      rw [sscanfInts] at h
      split at h
      · next v c rest hv =>
        split at h
        · next hc =>
          obtain ⟨ws, hws, rfl⟩ := Option.map_eq_some_iff.1 h
          obtain ⟨d, rfl, hd, -, hatoi⟩ := number_of_strtol hv
          obtain ⟨fields, rest', rfl, hlen, hall, hrest, rfl⟩ := ih hws
          obtain ⟨d', fields, rfl⟩ := List.exists_cons_of_length_eq_add_one hlen
          refine ⟨d :: d' :: fields, rest', ?_, by simpa using hlen, ?_, hrest, ?_⟩
          · rw [commas_cons_cons, hc, List.append_assoc, List.cons_append]
          · intro x hx
            rcases List.mem_cons.1 hx with rfl | hx
            · exact hd
            · exact hall x hx
          · simp [hatoi]
        · cases h
      · cases h

/-- Nothing but digits and commas. -/
theorem notMem_commas (h : ∀ d ∈ fields, Digits d) (hdigit : isdigit c = false) (hcomma : c ≠ COMMA) :
    c ∉ commas fields := by
  induction fields with
  | nil => exact List.not_mem_nil
  | cons d fields ih =>
      have hd : c ∉ d := by
        intro hin
        rw [(h d (by simp)).all c hin] at hdigit
        cases hdigit
      cases fields with
      | nil => simpa [commas, List.intercalate] using hd
      | cons e fields =>
          have hrest := ih fun x hx => h x (List.mem_cons_of_mem _ hx)
          rw [commas_cons_cons, List.mem_append, List.mem_cons]
          exact fun hin => hin.elim hd fun hin => hin.elim hcomma hrest

theorem length_commas_le (h : ∀ d ∈ fields, d.length ≤ n) : (commas fields).length ≤ fields.length*(n+1) := by
  induction fields with
  | nil => exact Nat.zero_le _
  | cons d fields ih =>
      have hd := h d (by simp)
      have hrest := ih fun x hx => h x (List.mem_cons_of_mem _ hx)
      rw [List.length_cons, Nat.succ_mul]
      cases fields with
      | nil =>
          simp only [commas, List.intercalate_singleton, List.length_nil] at hrest ⊢
          omega
      | cons e fields =>
          rw [commas_cons_cons, List.length_append, List.length_cons]
          omega

end

/-! ## Printed numbers -/

section
variable {n : ℕ}

theorem digitChar_toNat : ∀ n < 10, (UInt8.ofNat (Nat.digitChar n).toNat).toNat = 48+n := by decide

theorem decimal_concat (h : ¬ n < 10) :
    decimal n = decimal (n/10) ++ [UInt8.ofNat (Nat.digitChar (n % 10)).toNat] := by
  rw [decimal, decimal, Nat.toDigits_eq_if (by decide), if_neg h, List.map_append]
  rfl

theorem decimal_of_lt (h : n < 10) : decimal n = [UInt8.ofNat (Nat.digitChar n).toNat] := by
  rw [decimal, Nat.toDigits_of_lt_base h]
  rfl

/-- A printed number is digits that stand for it. -/
theorem decimal_spec (n : ℕ) : Digits (decimal n) ∧ digitsValue (decimal n) = n := by
  induction n using Nat.strong_induction_on with
  | _ n ih =>
      by_cases hlt : n < 10
      · have hnat := digitChar_toNat n hlt
        rw [decimal_of_lt hlt]
        refine ⟨⟨by simp, ?_⟩, ?_⟩
        · intro d hd
          rw [List.mem_singleton] at hd
          rw [isdigit_iff, hd]
          omega
        · simp only [digitsValue, List.foldl_cons, List.foldl_nil]
          omega
      · obtain ⟨hdigits, hvalue⟩ := ih (n/10) (by omega)
        have hnat := digitChar_toNat (n % 10) (by omega)
        rw [decimal_concat hlt]
        refine ⟨⟨by simp, ?_⟩, ?_⟩
        · intro d hd
          rcases List.mem_append.1 hd with hd | hd
          · exact hdigits.all d hd
          · rw [List.mem_singleton] at hd
            rw [isdigit_iff, hd]
            omega
        · rw [digitsValue_concat, hvalue]
          omega

theorem length_decimal_le {k : ℕ} (hk : 0 < k) (h : n < 10^k) : (decimal n).length ≤ k := by
  rw [decimal, List.length_map]
  exact (Nat.length_toDigits_le_iff (by decide) hk).2 h

theorem atoi_of_digits {ds : List Byte} (h : Digits ds) (hlt : digitsValue ds < 2^31) :
    atoi ds = digitsValue ds := by
  have hend : Stops [] := nofun
  have hatoi := atoi_digits h.ne_nil h.all hend hlt
  rwa [List.append_nil] at hatoi

end
end Dkftpbench.CLib
