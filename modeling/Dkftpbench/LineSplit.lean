import Mathlib.Data.List.Infix
import Mathlib.Tactic.Common

/-!
# Splitting a text into lines

Two marks end lines: `cr`, `lf`, and `cr` directly followed by `lf` as one end. `split` is
that rule. `Scan` reads a text one item at a time, and knows of what it has read only the
last item and the part of the line so far. It passes over an `lf` behind a `cr`, but still
has the `cr` in mind: it agrees with the rule except where `cr lf lf` occurs.
-/
namespace Dkftpbench.LineSplit
variable {α : Type*}

/-- A line that ends here. -/
def endLine (r : List (List α) × List α) : List (List α) × List α := ([] :: r.1, r.2)

/-- A part of a line in front of the first line, or of the rest where no line ends. -/
def prepend (part : List α) : List (List α) × List α → List (List α) × List α
  | (l :: ls, t) => ((part ++ l) :: ls, t)
  | ([], t) => ([], part ++ t)

/-- The part of a line that was read, and the item that was read last. -/
structure Scan (α : Type*) where
  part : List α
  last : α
deriving DecidableEq

/-- An end of a line is passed over: the first item behind a `cr`, or the second of two
`lf` behind a `cr`. -/
def Swallows (cr lf last : α) (cs : List α) : Prop :=
  last = cr ∧ cs.head? = some lf ∨ [cr, lf, lf] <:+: cs

section
variable {cr lf last c d : α} {part cs : List α} {r : List (List α) × List α}

theorem prepend_nil : prepend [] r = r := by
  obtain ⟨_ | ⟨l, ls⟩, t⟩ := r <;> simp [prepend]

theorem prepend_prepend {more : List α} : prepend part (prepend more r) = prepend (part ++ more) r := by
  obtain ⟨_ | ⟨l, ls⟩, t⟩ := r <;> simp [prepend]

theorem prepend_length : (prepend part r).1.length = r.1.length := by
  obtain ⟨_ | ⟨l, ls⟩, t⟩ := r <;> simp [prepend]

theorem prepend_endLine : prepend part (endLine r) = (part :: r.1, r.2) := by
  simp [prepend, endLine]

theorem infix_cons_of_ne (hc : c ≠ cr) : [cr, lf, lf] <:+: c :: cs ↔ [cr, lf, lf] <:+: cs := by
  rw [List.infix_cons_iff, List.cons_prefix_cons]
  simp [hc.symm]

theorem swallows_other (hc : c ≠ cr) (hl : c ≠ lf) :
    Swallows cr lf last (c :: cs) ↔ Swallows cr lf c cs := by
  simp [Swallows, infix_cons_of_ne hc, hc, hl]

theorem swallows_lf (hne : cr ≠ lf) (hl : last ≠ cr) :
    Swallows cr lf last (lf :: cs) ↔ Swallows cr lf lf cs := by
  simp [Swallows, infix_cons_of_ne hne.symm, hl, hne.symm]

/-- Behind `cr lf` the scan has the `cr` in mind. -/
theorem swallows_crlf (hne : cr ≠ lf) :
    Swallows cr lf last (cr :: lf :: cs) ↔ Swallows cr lf cr cs := by
  have hhead : [lf] <+: cs ↔ cs.head? = some lf := by
    cases cs with
    | nil => simp
    | cons c cs => simp [List.cons_prefix_cons, eq_comm]
  simp [Swallows, List.infix_cons_iff, List.cons_prefix_cons, hne, hhead]

theorem swallows_cr (hne : cr ≠ lf) (hd : d ≠ lf) :
    Swallows cr lf last (cr :: d :: cs) ↔ Swallows cr lf cr (d :: cs) := by
  simp [Swallows, List.infix_cons_iff, List.cons_prefix_cons, hne, hd, hd.symm]

end

variable [DecidableEq α]

/-- The lines of a text, and what follows the last end. -/
def split (cr lf : α) : List α → List (List α) × List α
  | [] => ([], [])
  | [c] => if c = cr ∨ c = lf then endLine ([], []) else prepend [c] ([], [])
  | c :: d :: cs =>
    if c = cr ∧ d = lf then endLine (split cr lf cs)
    else if c = cr ∨ c = lf then endLine (split cr lf (d :: cs))
    else prepend [c] (split cr lf (d :: cs))

/-- One item, and the line that it ends. -/
def Scan.item (cr lf : α) (s : Scan α) (c : α) : Scan α × List (List α) :=
  if c = lf then if s.last ≠ cr then (⟨[], c⟩, [s.part]) else (s, [])
  else if c = cr then (⟨[], c⟩, [s.part])
  else (⟨s.part ++ [c], c⟩, [])

def Scan.items (cr lf : α) : Scan α → List α → Scan α × List (List α)
  | s, [] => (s, [])
  | s, c :: cs =>
    let r := s.item cr lf c
    let t := Scan.items cr lf r.1 cs
    (t.1, r.2 ++ t.2)

variable {cr lf c d : α} {cs ds : List α} {s : Scan α}

theorem items_append : s.items cr lf (cs ++ ds) =
    (((s.items cr lf cs).1.items cr lf ds).1,
      (s.items cr lf cs).2 ++ ((s.items cr lf cs).1.items cr lf ds).2) := by
  induction cs generalizing s with
  | nil => rfl
  | cons c cs ih => simp [Scan.items, ih, List.append_assoc]

theorem items_other (hc : c ≠ cr) (hl : c ≠ lf) :
    s.items cr lf (c :: cs) = Scan.items cr lf ⟨s.part ++ [c], c⟩ cs := by
  simp [Scan.items, Scan.item, hc, hl]

/-- An `lf` behind a `cr` is passed over. -/
theorem items_swallowed (hl : s.last = cr) : s.items cr lf (lf :: cs) = s.items cr lf cs := by
  simp [Scan.items, Scan.item, hl]

theorem items_lf (hl : s.last ≠ cr) : s.items cr lf (lf :: cs) =
    ((Scan.items cr lf ⟨[], lf⟩ cs).1, s.part :: (Scan.items cr lf ⟨[], lf⟩ cs).2) := by
  simp [Scan.items, Scan.item, hl]

theorem items_cr (hne : cr ≠ lf) : s.items cr lf (cr :: cs) =
    ((Scan.items cr lf ⟨[], cr⟩ cs).1, s.part :: (Scan.items cr lf ⟨[], cr⟩ cs).2) := by
  simp [Scan.items, Scan.item, hne]

theorem split_other (hc : c ≠ cr) (hl : c ≠ lf) :
    split cr lf (c :: cs) = prepend [c] (split cr lf cs) := by
  cases cs with
  | nil => simp [split, hc, hl]
  | cons d cs => simp [split, hc, hl]

theorem split_lf (hne : cr ≠ lf) : split cr lf (lf :: cs) = endLine (split cr lf cs) := by
  cases cs with
  | nil => simp [split]
  | cons d cs => simp [split, hne.symm]

theorem split_crlf : split cr lf (cr :: lf :: cs) = endLine (split cr lf cs) := by
  simp [split]

theorem split_cr (hd : cs.head? ≠ some lf) : split cr lf (cr :: cs) = endLine (split cr lf cs) := by
  cases cs with
  | nil => simp [split]
  | cons d cs =>
      have hd' : d ≠ lf := by simpa using hd
      simp [split, hd']

/-- The cases of the rule. -/
theorem mark_induction (cr lf : α) {P : List α → Prop} (nil : P [])
    (other : ∀ c cs, c ≠ cr → c ≠ lf → P cs → P (c :: cs)) (lf_alone : ∀ cs, P cs → P (lf :: cs))
    (cr_lf : ∀ cs, P cs → P (cr :: lf :: cs))
    (cr_alone : ∀ cs, cs.head? ≠ some lf → P cs → P (cr :: cs)) (cs : List α) : P cs := by
  induction cs using split.induct cr lf with
  | case1 => exact nil
  | case2 c hc =>
      rcases hc with rfl | rfl
      · exact cr_alone [] (by simp) nil
      · exact lf_alone [] nil
  | case3 c hc =>
      rw [not_or] at hc
      exact other c [] hc.1 hc.2 nil
  | case4 c d cs h ih =>
      obtain ⟨rfl, rfl⟩ := h
      exact cr_lf cs ih
  | case5 c d cs h hc ih =>
      rcases hc with rfl | rfl
      · exact cr_alone (d :: cs) (by simpa using h) ih
      · exact lf_alone (d :: cs) ih
  | case6 c d cs h hc ih =>
      rw [not_or] at hc
      exact other c (d :: cs) hc.1 hc.2 ih

/-- Where no end is passed over, the scan finds the lines of the rule. -/
theorem items_eq_split (hne : cr ≠ lf) (h : ¬ Swallows cr lf s.last cs) :
    ((s.items cr lf cs).2, (s.items cr lf cs).1.part) = prepend s.part (split cr lf cs) := by
  induction cs using mark_induction cr lf generalizing s with
  | nil => simp [Scan.items, split, prepend]
  | other c cs hc hl ih =>
      rw [swallows_other hc hl] at h
      rw [items_other hc hl, split_other hc hl, prepend_prepend]
      exact ih h
  | lf_alone cs ih =>
      have hlast : s.last ≠ cr := fun hlast => h (.inl ⟨hlast, rfl⟩)
      rw [swallows_lf hne hlast] at h
      have hrest := ih (s := ⟨[], lf⟩) h
      rw [prepend_nil] at hrest
      rw [items_lf hlast, split_lf hne, prepend_endLine, ← hrest]
  | cr_lf cs ih =>
      rw [swallows_crlf hne] at h
      have hrest := ih (s := ⟨[], cr⟩) h
      rw [prepend_nil] at hrest
      rw [items_cr hne, items_swallowed (s := ⟨[], cr⟩) rfl, split_crlf, prepend_endLine, ← hrest]
  | cr_alone cs hd ih =>
      have h' : ¬ Swallows cr lf cr cs := by
        rintro (⟨_, hhead⟩ | hin)
        · exact hd hhead
        · exact h (.inr (hin.trans (List.infix_cons List.infix_rfl)))
      have hrest := ih (s := ⟨[], cr⟩) h'
      rw [prepend_nil] at hrest
      rw [items_cr hne, split_cr hd, prepend_endLine, ← hrest]

/-- Each end that is passed over is a line less. -/
theorem items_length (hne : cr ≠ lf) :
    (s.items cr lf cs).2.length ≤ (split cr lf cs).1.length ∧
      (Swallows cr lf s.last cs → (s.items cr lf cs).2.length < (split cr lf cs).1.length) := by
  induction cs using mark_induction cr lf generalizing s with
  | nil => simp [Scan.items, Swallows]
  | other c cs hc hl ih =>
      rw [swallows_other hc hl, items_other hc hl, split_other hc hl, prepend_length]
      exact ih
  | lf_alone cs ih =>
      rw [split_lf hne]
      by_cases hlast : s.last = cr
      · have hle := (ih (s := s)).1
        rw [items_swallowed hlast]
        simp only [endLine, List.length_cons]
        exact ⟨by omega, fun _ => by omega⟩
      · obtain ⟨hle, hlt⟩ := ih (s := ⟨[], lf⟩)
        rw [swallows_lf hne hlast, items_lf hlast]
        exact ⟨Nat.succ_le_succ hle, fun h => Nat.succ_lt_succ (hlt h)⟩
  | cr_lf cs ih =>
      obtain ⟨hle, hlt⟩ := ih (s := ⟨[], cr⟩)
      rw [swallows_crlf hne, items_cr hne, items_swallowed (s := ⟨[], cr⟩) rfl, split_crlf]
      exact ⟨Nat.succ_le_succ hle, fun h => Nat.succ_lt_succ (hlt h)⟩
  | cr_alone cs hd ih =>
      obtain ⟨hle, hlt⟩ := ih (s := ⟨[], cr⟩)
      have hin : Swallows cr lf s.last (cr :: cs) → Swallows cr lf cr cs := by
        cases cs with
        | nil => simp [Swallows, hne, List.infix_cons_iff]
        | cons d cs => exact (swallows_cr hne (by simpa using hd)).1
      rw [items_cr hne, split_cr hd]
      exact ⟨Nat.succ_le_succ hle, fun h => Nat.succ_lt_succ (hlt (hin h))⟩

/-- The part of a line that was read is the end of what was read, and has no mark in it. -/
theorem items_part (cr lf : α) (s : Scan α) (cs : List α) (hlast : s.last = cr → s.part = [])
    (hpart : ∀ c ∈ s.part, c ≠ cr ∧ c ≠ lf) :
    (∀ c ∈ (s.items cr lf cs).1.part, c ≠ cr ∧ c ≠ lf) ∧
      (s.items cr lf cs).1.part <:+ s.part ++ cs := by
  induction cs generalizing s with
  | nil => exact ⟨hpart, by simp [Scan.items]⟩
  | cons c cs ih =>
      have hend : ∀ (d : α), (∀ c ∈ (Scan.items cr lf ⟨[], d⟩ cs).1.part, c ≠ cr ∧ c ≠ lf) ∧
          (Scan.items cr lf ⟨[], d⟩ cs).1.part <:+ s.part ++ c :: cs := by
        intro d
        obtain ⟨hfree, hsuffix⟩ := ih ⟨[], d⟩ (fun _ => rfl) nofun
        exact ⟨hfree, hsuffix.trans ⟨s.part ++ [c], by simp⟩⟩
      rcases eq_or_ne c lf with rfl | hl
      · by_cases hcr : s.last = cr
        · have hkept := hend s.last
          rw [items_swallowed hcr]
          rwa [show (⟨[], s.last⟩ : Scan α) = s by rw [← hlast hcr]] at hkept
        · rw [items_lf hcr]
          exact hend c
      · rcases eq_or_ne c cr with rfl | hc
        · rw [items_cr hl]
          exact hend c
        · rw [items_other hc hl]
          obtain ⟨hfree, hsuffix⟩ := ih ⟨s.part ++ [c], c⟩ (fun heq => absurd heq hc) (by
            simp only [List.mem_append, List.mem_singleton]
            rintro d (hd | rfl)
            · exact hpart d hd
            · exact ⟨hc, hl⟩)
          exact ⟨hfree, by simpa using hsuffix⟩

/-- What is read up to a mark, or the part that is left, has no `lf` in it. -/
theorem items_no_lf (cr lf : α) (s : Scan α) (cs : List α) (hpart : lf ∉ s.part) :
    lf ∉ (s.items cr lf cs).1.part ∧ ∀ line ∈ (s.items cr lf cs).2, lf ∉ line := by
  induction cs generalizing s with
  | nil =>
      refine ⟨hpart, ?_⟩
      intro line hline
      cases hline
  | cons c cs ih =>
      have hitem : lf ∉ (s.item cr lf c).1.part ∧ ∀ line ∈ (s.item cr lf c).2, lf ∉ line := by
        unfold Scan.item
        split_ifs with hlf hlast hcr
        · exact ⟨List.not_mem_nil, by simpa using hpart⟩
        · exact ⟨hpart, by simp⟩
        · exact ⟨List.not_mem_nil, by simpa using hpart⟩
        · exact ⟨by simp [hpart, Ne.symm hlf], by simp⟩
      obtain ⟨hend, hlines⟩ := ih _ hitem.1
      refine ⟨hend, ?_⟩
      intro line hline
      rcases List.mem_append.1 hline with hfirst | hrest
      · exact hitem.2 line hfirst
      · exact hlines line hrest

end Dkftpbench.LineSplit
