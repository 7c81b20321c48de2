import Dkftpbench.CLib
import Mathlib.Data.List.TakeDrop
import Mathlib.Algebra.Group.Int.Defs
import Mathlib.Algebra.Group.Nat.Defs
import Mathlib.Data.List.DropRight
import Mathlib.Tactic.Common

/-!
# Strings, numbers in them and network byte order

A C string is the list of its bytes before the NUL. `strtol` is that of a 64-bit C
library in the C locale: leading white space and one sign are skipped, and a value
outside the range of `long` becomes the nearest end of it. The byte order of the host
is little-endian.
-/
namespace Dkftpbench.CLib

/-- The bytes of a C string, without its NUL. -/
abbrev CStr := { cs : List Byte // 0 ∉ cs }

def SPACE : Byte := 0x20
def COMMA : Byte := 44
def MINUS : Byte := 45
def PLUS : Byte := 43

/-- The bytes of a string literal. -/
def ascii (s : String) : List Byte := s.toList.map fun c => UInt8.ofNat c.toNat

theorem no_nul_u : 0 ∉ ascii "u" := by decide
theorem no_nul_p : 0 ∉ ascii "p" := by decide
theorem no_nul_f : 0 ∉ ascii "f" := by decide

def crlf : List Byte := [CR, LF]

def isspace (c : Byte) : Bool := c == SPACE || (9 ≤ c && c ≤ 13)

def isdigit (c : Byte) : Bool := 48 ≤ c && c ≤ 57

def LONG_MAX : ℤ := 2^63-1
def LONG_MIN : ℤ := -2^63

/-- Conversion of a `long` to an `int` of 32 bits. -/
def toInt32 (n : ℤ) : ℤ := Int.bmod n (2^32)

/-- The number that a string of digits stands for. -/
def digitsValue (ds : List Byte) : ℕ := ds.foldl (fun n c => 10*n+(c.toNat-48)) 0

/-- One optional sign: whether it was a minus, and what follows it. -/
def takeSign : List Byte → Bool × List Byte
  | [] => (false, [])
  | c :: cs => if c = MINUS then (true, cs) else if c = PLUS then (false, cs) else (false, c :: cs)

/-- The number at the start of the string and what follows it; none without a digit. -/
def strtol (cs : List Byte) : Option (ℤ × List Byte) :=
  let (minus, cs) := takeSign (cs.dropWhile isspace)
  let ds := cs.takeWhile isdigit
  if ds = [] then none
  else
    let n : ℤ := if minus then -digitsValue ds else digitsValue ds
    some (max LONG_MIN (min LONG_MAX n), cs.dropWhile isdigit)

/-- The digits that `strtol` converts. -/
def digitRun (cs : List Byte) : List Byte := (takeSign (cs.dropWhile isspace)).2.takeWhile isdigit

def atoi (cs : List Byte) : ℤ :=
  match strtol cs with
  | none => 0
  | some (n, _) => toInt32 n

/-- `sscanf` with `n` conversions `%d` separated by commas, where all `n` succeed. -/
def sscanfInts : ℕ → List Byte → Option (List ℤ)
  | 0, _ => some []
  | 1, cs => (strtol cs).map fun r => [toInt32 r.1]
  | n+2, cs =>
    match strtol cs with
    | some (v, c :: cs) => if c = COMMA then (sscanfInts (n+1) cs).map (toInt32 v :: ·) else none
    | _ => none

/-- `sprintf` with `%d` of a number that is not negative. -/
def decimal (n : ℕ) : List Byte := (Nat.toDigits 10 n).map fun c => UInt8.ofNat c.toNat

/-- Conversion of an `int` to `unsigned char`, and back to `int`. -/
def uchar (n : ℤ) : BitVec 32 := (BitVec.ofInt 8 n).setWidth 32

/-- Between the byte orders of the host and of the network, either way. -/
def htonl (x : BitVec 32) : BitVec 32 :=
  x.extractLsb' 0 8 ++ x.extractLsb' 8 8 ++ x.extractLsb' 16 8 ++ x.extractLsb' 24 8

def ntohl (x : BitVec 32) : BitVec 32 := htonl x

def htons (x : BitVec 16) : BitVec 16 := x.extractLsb' 0 8 ++ x.extractLsb' 8 8

def ntohs (x : BitVec 16) : BitVec 16 := htons x

section
variable {c : Byte} {cs ds : List Byte} {n : ℤ}

theorem isdigit_iff : isdigit c = true ↔ 48 ≤ c.toNat ∧ c.toNat ≤ 57 := by
  simp [isdigit, UInt8.le_iff_toNat_le]

theorem isspace_of_isdigit (h : isdigit c = true) : isspace c = false := by
  rw [isdigit_iff] at h
  simp [isspace, SPACE, UInt8.le_iff_toNat_le, ← UInt8.toNat_inj]
  omega

theorem takeSign_of_isdigit (h : isdigit c = true) : takeSign (c :: cs) = (false, c :: cs) := by
  rw [isdigit_iff] at h
  have hm : c ≠ MINUS := by
    intro heq
    subst heq
    revert h
    decide
  have hp : c ≠ PLUS := by
    intro heq
    subst heq
    revert h
    decide
  rw [takeSign, if_neg hm, if_neg hp]

theorem digitsValue_concat : digitsValue (ds ++ [c]) = 10*digitsValue ds+(c.toNat-48) := by
  simp [digitsValue]

theorem digitsValue_lt (h : ∀ d ∈ ds, isdigit d = true) : digitsValue ds < 10^ds.length := by
  induction ds using List.reverseRecOn with
  | nil => decide
  | append_singleton ds c ih =>
      have hc := isdigit_iff.1 (h c (by simp))
      have hlt := ih fun d hd => h d (List.mem_append_left _ hd)
      rw [digitsValue_concat, List.length_append, List.length_singleton, Nat.pow_succ]
      omega

theorem digitsValue_inj {es : List Byte} (hlen : ds.length = es.length)
    (hds : ∀ d ∈ ds, isdigit d = true) (hes : ∀ d ∈ es, isdigit d = true)
    (h : digitsValue ds = digitsValue es) : ds = es := by
  induction ds using List.reverseRecOn generalizing es with
  | nil => exact (List.length_eq_zero_iff.1 hlen.symm).symm
  | append_singleton ds c ih =>
      rcases List.eq_nil_or_concat es with rfl | ⟨es, d, rfl⟩
      · simp at hlen
      · have hc := isdigit_iff.1 (hds c (by simp))
        have hd := isdigit_iff.1 (hes d (by simp))
        rw [List.concat_eq_append] at *
        rw [digitsValue_concat, digitsValue_concat] at h
        have hcd : c = d := by
          rw [← UInt8.toNat_inj]
          omega
        have hrest : ds = es := ih (by simpa using hlen)
          (fun x hx => hds x (List.mem_append_left _ hx))
          (fun x hx => hes x (List.mem_append_left _ hx)) (by omega)
        rw [hcd, hrest]

theorem takeSign_sublist : (takeSign cs).2.Sublist cs := by
  cases cs with
  | nil => exact .refl _
  | cons c cs =>
      rw [takeSign]
      split
      · exact List.sublist_cons_self _ _
      · split
        · exact List.sublist_cons_self _ _
        · exact .refl _

theorem digitRun_sublist : (digitRun cs).Sublist cs :=
  ((List.takeWhile_sublist _).trans takeSign_sublist).trans (List.dropWhile_sublist _)

theorem isdigit_of_mem_digitRun (h : c ∈ digitRun cs) : isdigit c = true := List.mem_takeWhile_imp h

theorem atoi_eq : atoi cs = toInt32 (max LONG_MIN (min LONG_MAX
    (if (takeSign (cs.dropWhile isspace)).1 then -digitsValue (digitRun cs)
      else digitsValue (digitRun cs)))) := by
  unfold atoi strtol digitRun
  dsimp only
  split
  · next h =>
    split at h
    · next hnil =>
      rw [hnil]
      split <;> rfl
    · cases h
  · next h =>
    split at h
    · cases h
    · cases h
      rfl

/-- Numbers in the range of `int` are read exactly. -/
theorem toInt32_clamp (h : -2^31 ≤ n) (h' : n < 2^31) :
    toInt32 (max LONG_MIN (min LONG_MAX n)) = n := by
  have hclamp : max LONG_MIN (min LONG_MAX n) = n := by
    unfold LONG_MIN LONG_MAX
    omega
  rw [hclamp]
  unfold toInt32
  rw [Int.bmod_def]
  omega

theorem atoi_digits {rest : List Byte} (hne : ds ≠ []) (hds : ∀ d ∈ ds, isdigit d = true)
    (hrest : ∀ c ∈ rest.head?, isdigit c = false) (hlt : digitsValue ds < 2^31) :
    atoi (ds ++ rest) = digitsValue ds := by
  obtain ⟨d, ds', rfl⟩ := List.exists_cons_of_ne_nil hne
  have hd := hds d (by simp)
  have hskip : (d :: ds' ++ rest).dropWhile isspace = d :: (ds' ++ rest) := by
    simp [isspace_of_isdigit hd]
  have hsign : takeSign (d :: (ds' ++ rest)) = _ := takeSign_of_isdigit hd
  have hrun : digitRun (d :: ds' ++ rest) = d :: ds' := by
    rw [digitRun, hskip, hsign, ← List.cons_append, List.takeWhile_append_of_pos hds]
    cases rest with
    | nil => simp
    | cons c cs => simp [hrest c rfl]
  rw [atoi_eq, hrun, hskip, hsign]
  exact toInt32_clamp (by simp only [Bool.false_eq_true, if_false]; omega)
    (by simp only [Bool.false_eq_true, if_false]; omega)

theorem takeSign_append (hne : ds ≠ []) :
    takeSign (ds ++ cs) = ((takeSign ds).1, (takeSign ds).2 ++ cs) := by
  cases ds with
  | nil => exact absurd rfl hne
  | cons d ds =>
      simp only [List.cons_append, takeSign]
      split
      · rfl
      · split <;> rfl

/-- A space ends the number, unless it is still part of the leading white space. -/
theorem atoi_append_space (h : ∃ c ∈ ds, isspace c = false) : atoi (ds ++ SPACE :: cs) = atoi ds := by
  have hne : ds.dropWhile isspace ≠ [] := by
    intro hnil
    obtain ⟨c, hc, hspace⟩ := h
    rw [List.dropWhile_eq_nil_iff.1 hnil c hc] at hspace
    cases hspace
  have hskip : (ds ++ SPACE :: cs).dropWhile isspace = ds.dropWhile isspace ++ SPACE :: cs := by
    rw [List.dropWhile_append, if_neg]
    simpa using hne
  have hrun : digitRun (ds ++ SPACE :: cs) = digitRun ds := by
    rw [digitRun, digitRun, hskip, takeSign_append hne, List.takeWhile_append]
    split
    · rw [List.takeWhile_cons_of_neg (by decide), List.append_nil]
      next hall => exact ((List.takeWhile_prefix _).eq_of_length hall).symm
    · rfl
  rw [atoi_eq, atoi_eq, hrun, hskip, takeSign_append hne]

theorem atoi_cons_of_isspace (h : isspace c = true) : atoi (c :: cs) = atoi cs := by
  rw [atoi_eq, atoi_eq, digitRun, digitRun, List.dropWhile_cons_of_pos h]

theorem atoi_append_of_isspace (h : ∀ d ∈ ds, isspace d = true) : atoi (ds ++ cs) = atoi cs := by
  induction ds with
  | nil => rfl
  | cons d ds ih =>
      rw [List.cons_append, atoi_cons_of_isspace (h d (by simp))]
      exact ih fun c hc => h c (List.mem_cons_of_mem _ hc)

/-- A number of at most two digits. -/
theorem natAbs_atoi_lt (h : (digitRun cs).length ≤ 2) : (atoi cs).natAbs < 100 := by
  have hlt : digitsValue (digitRun cs) < _ := digitsValue_lt fun d hd => isdigit_of_mem_digitRun hd
  have hpow : 10^(digitRun cs).length ≤ 10^2 := Nat.pow_le_pow_right (by decide) h
  rw [atoi_eq, toInt32_clamp]
  all_goals
    split <;> omega

end
end Dkftpbench.CLib
