import Mathlib.Data.Finset.Card
import Mathlib.Data.Set.Insert

/-!
# One round of a dispatcher

Between two waits a dispatcher returns the items that were found ready, one at a time,
while those who handle them take items out and put others in. A log of the round, the
newest entry first, tells which items are still due; a dispatcher that keeps to them
returns each ready item once, and nothing else. A dispatcher may also return what was put
in during the round, each time that it was put in.
-/
namespace Dkftpbench.Round
variable {ι δ : Type*}

inductive Act (ι δ : Type*)
  | returned (i : ι) (d : δ)
  | left (i : ι)
  | entered (i : ι)
  | ended
deriving DecidableEq

/-- What was ready, and was neither returned nor taken out since. -/
def due (ready : Set ι) : List (Act ι δ) → Set ι
  | [] => ready
  | .returned i _ :: log => due ready log \ {i}
  | .left i :: log => due ready log \ {i}
  | .entered _ :: log => due ready log
  | .ended :: log => due ready log

/-- The log of a round in which only what is due is returned, and the round is over when
nothing is. -/
inductive Kept (ready : Set ι) : List (Act ι δ) → Prop
  | start : Kept ready []
  | returned {log : List (Act ι δ)} {i : ι} (d : δ) : Kept ready log → i ∈ due ready log →
      Kept ready (.returned i d :: log)
  | left {log : List (Act ι δ)} (i : ι) : Kept ready log → Kept ready (.left i :: log)
  | entered {log : List (Act ι δ)} {i : ι} : Kept ready log → i ∉ due ready log →
      Kept ready (.entered i :: log)
  | ended {log : List (Act ι δ)} : Kept ready log → due ready log = ∅ → Kept ready (.ended :: log)

instance (log : List (Act ι δ)) : Decidable (.ended ∈ log) :=
  have : DecidablePred fun a : Act ι δ => a = .ended := fun a => by
    cases a <;> first | exact .isTrue rfl | exact .isFalse nofun
  decidable_of_iff (∃ a ∈ log, a = .ended) (by simp)

/-- Each ready item is returned once, if it is not taken out before, and nothing else is
returned. -/
structure Fair (ready : Set ι) (log : List (Act ι δ)) : Prop where
  returned : ∀ i d l, .returned i d :: l <:+ log →
    i ∈ ready ∧ .left i ∉ l ∧ .entered i ∉ l ∧ ∀ d', .returned i d' ∉ l
  ended : ∀ l, .ended :: l <:+ log → ∀ i ∈ ready, .left i ∉ l → ∃ d, .returned i d ∈ l

variable {ready : Set ι} {log l : List (Act ι δ)} {i : ι} {d : δ}

theorem mem_due : i ∈ due ready log ↔ i ∈ ready ∧ .left i ∉ log ∧ ∀ d, .returned i d ∉ log := by
  induction log with
  | nil => simp [due]
  | cons a log ih =>
      cases a with
      | returned j e =>
          have hne : (∀ d, Act.returned i d ≠ .returned j e) ↔ i ≠ j := by
            constructor
            · intro h heq
              exact h e (congrArg (fun i => Act.returned i e) heq)
            · intro h d heq
              cases heq
              exact h rfl
          simp only [due, Set.mem_sdiff, Set.mem_singleton_iff, ih, List.mem_cons, not_or, forall_and, hne]
          grind
      | left j =>
          simp only [due, Set.mem_sdiff, Set.mem_singleton_iff, ih, List.mem_cons, not_or, Act.left.injEq]
          grind
      | entered | ended => simp [due, ih]

theorem due_cons (a : Act ι δ) : due ready (a :: log) ⊆ due ready log := by
  intro i hi
  obtain ⟨hr, hl, hn⟩ := mem_due.1 hi
  exact mem_due.2 ⟨hr, fun hm => hl (.tail _ hm), fun d hm => hn d (.tail _ hm)⟩

theorem Kept.of_suffix (h : Kept ready log) (hl : l <:+ log) : Kept ready l := by
  induction h with
  | start =>
      rw [List.suffix_nil.1 hl]
      exact .start
  | returned d h hi ih =>
      rcases List.suffix_cons_iff.1 hl with rfl | hl
      · exact .returned d h hi
      · exact ih hl
  | left i h ih =>
      rcases List.suffix_cons_iff.1 hl with rfl | hl
      · exact .left i h
      · exact ih hl
  | entered h hi ih =>
      rcases List.suffix_cons_iff.1 hl with rfl | hl
      · exact .entered h hi
      · exact ih hl
  | ended h hd ih =>
      rcases List.suffix_cons_iff.1 hl with rfl | hl
      · exact .ended h hd
      · exact ih hl

/-- What was put in during the round is not due. -/
theorem Kept.entered_not_due (h : Kept ready log) (hi : .entered i ∈ log) : i ∉ due ready log := by
  induction h with
  | start => cases hi
  | returned d _ _ ih | left i _ ih | ended _ _ ih =>
      rcases List.mem_cons.1 hi with heq | hi
      · cases heq
      · exact fun hd => ih hi (due_cons _ hd)
  | entered _ hj ih =>
      rcases List.mem_cons.1 hi with heq | hi
      · cases heq
        exact hj
      · exact ih hi

theorem Kept.fair (h : Kept ready log) : Fair ready log where
  returned i d l hl := by
    cases h.of_suffix hl with
    | returned _ h hi =>
        obtain ⟨hr, hleft, hreturned⟩ := mem_due.1 hi
        exact ⟨hr, hleft, fun he => h.entered_not_due he hi, hreturned⟩
  ended l hl i hi hleft := by
    cases h.of_suffix hl with
    | ended h hd =>
        by_contra hnone
        have hdue : i ∈ due ready l := mem_due.2 ⟨hi, hleft, fun d hm => hnone ⟨d, hm⟩⟩
        rw [hd] at hdue
        exact hdue

/-- A set has at most so many elements. -/
def AtMost (s : Set ι) (n : ℤ) : Prop := ∃ F : Finset ι, s ⊆ ↑F ∧ F.card ≤ n

theorem atMost_empty : AtMost (∅ : Set ι) 0 := ⟨∅, Set.empty_subset _, le_rfl⟩

theorem AtMost.mono {s t : Set ι} {n : ℤ} (h : AtMost s n) (ht : t ⊆ s) : AtMost t n := by
  obtain ⟨F, hs, hn⟩ := h
  exact ⟨F, ht.trans hs, hn⟩

theorem AtMost.diff [DecidableEq ι] {s : Set ι} {n : ℤ} (h : AtMost s n) (hi : i ∈ s) :
    AtMost (s \ {i}) (n-1) := by
  obtain ⟨F, hs, hn⟩ := h
  refine ⟨F.erase i, ?_, ?_⟩
  · intro j hj
    exact Finset.mem_coe.2 (Finset.mem_erase.2 ⟨hj.2, hs hj.1⟩)
  · have hcard := Finset.card_erase_add_one (Finset.mem_coe.1 (hs hi))
    omega

theorem AtMost.nonneg {s : Set ι} {n : ℤ} (h : AtMost s n) : 0 ≤ n := by
  obtain ⟨F, _, hn⟩ := h
  omega

theorem AtMost.image {κ : Type*} [DecidableEq κ] {s : Set ι} {n : ℤ} (h : AtMost s n) (f : ι → κ) :
    AtMost (Set.image f s) n := by
  obtain ⟨F, hs, hn⟩ := h
  refine ⟨F.image f, ?_, ?_⟩
  · rw [Finset.coe_image]
    exact Set.image_mono hs
  · have hcard : (F.image f).card ≤ F.card := Finset.card_image_le
    omega

/-- The indices that a loop counts. -/
theorem atMost_countP (f : ℤ → Bool) (n : ℤ) :
    AtMost {i | 0 ≤ i ∧ i < n ∧ f i = true} ((List.range n.toNat).countP fun i : ℕ => f i) := by
  refine ⟨(((List.range n.toNat).filter fun i : ℕ => f i).map fun i : ℕ => (i : ℤ)).toFinset, ?_, ?_⟩
  · intro i ⟨h0, hi, hf⟩
    have hcast : (i.toNat : ℤ) = i := Int.toNat_of_nonneg h0
    rw [Finset.mem_coe, List.mem_toFinset, List.mem_map]
    refine ⟨i.toNat, ?_, hcast⟩
    rw [List.mem_filter, List.mem_range, hcast]
    exact ⟨by omega, hf⟩
  · rw [List.countP_eq_length_filter]
    have hle := List.toFinset_card_le (((List.range n.toNat).filter fun i : ℕ => f i).map fun i : ℕ => (i : ℤ))
    rw [List.length_map] at hle
    exact_mod_cast hle

theorem AtMost.eq_empty {s : Set ι} {n : ℤ} (h : AtMost s n) (hn : n < 1) : s = ∅ := by
  obtain ⟨F, hs, hF⟩ := h
  have hzero : F.card = 0 := by omega
  rw [Finset.card_eq_zero.1 hzero, Finset.coe_empty] at hs
  exact Set.subset_empty_iff.1 hs

theorem AtMost.insert [DecidableEq ι] {s : Set ι} {n : ℤ} (h : AtMost s n) (i : ι) :
    AtMost (Insert.insert i s) (n+1) := by
  obtain ⟨F, hs, hn⟩ := h
  refine ⟨Insert.insert i F, ?_, ?_⟩
  · rw [Finset.coe_insert]
    exact Set.insert_subset_insert hs
  · have hcard := Finset.card_insert_le i F
    omega

/-! ## Items that come in again -/

/-- What is in. -/
def present (ready : Set ι) : List (Act ι δ) → Set ι
  | [] => ready
  | .returned _ _ :: log => present ready log
  | .left i :: log => present ready log \ {i}
  | .entered i :: log => insert i (present ready log)
  | .ended :: log => present ready log

/-- What was not returned since it came in. -/
def pending (ready : Set ι) : List (Act ι δ) → Set ι
  | [] => ready
  | .returned i _ :: log => pending ready log \ {i}
  | .left i :: log => pending ready log \ {i}
  | .entered i :: log => insert i (pending ready log)
  | .ended :: log => pending ready log

/-- The log of a round in which what is pending is returned, also what came in during it. -/
inductive Queued (ready : Set ι) : List (Act ι δ) → Prop
  | start : Queued ready []
  | returned {log : List (Act ι δ)} {i : ι} (d : δ) : Queued ready log → i ∈ pending ready log →
      Queued ready (.returned i d :: log)
  | left {log : List (Act ι δ)} (i : ι) : Queued ready log → Queued ready (.left i :: log)
  | entered {log : List (Act ι δ)} {i : ι} : Queued ready log → i ∉ present ready log →
      Queued ready (.entered i :: log)
  | ended {log : List (Act ι δ)} : Queued ready log → pending ready log = ∅ → Queued ready (.ended :: log)

def Act.isReturned : Act ι δ → Bool
  | .returned _ _ => true
  | .left _ | .entered _ | .ended => false

def Act.isEntered : Act ι δ → Bool
  | .entered _ => true
  | .returned _ _ | .left _ | .ended => false

/-- What is returned is in, and is returned again only if it left and came in again in
between; what was ready and stays is returned; and no more is returned than was ready and
came in. -/
structure Served (ready : Set ι) (log : List (Act ι δ)) : Prop where
  returned : ∀ i d l, .returned i d :: l <:+ log → i ∈ present ready l
  again : ∀ i d d' l l', .returned i d :: (l ++ .returned i d' :: l') <:+ log →
    ∃ l₁ l₂, l = l₁ ++ .entered i :: l₂ ∧ .left i ∈ l₂
  ended : ∀ l, .ended :: l <:+ log → ∀ i ∈ ready, .left i ∉ l → ∃ d, .returned i d ∈ l
  ends : ∀ n, AtMost ready n → log.countP Act.isReturned ≤ n + log.countP Act.isEntered

theorem Queued.of_suffix (h : Queued ready log) (hl : l <:+ log) : Queued ready l := by
  induction h with
  | start =>
      rw [List.suffix_nil.1 hl]
      exact .start
  | returned d h hi ih =>
      rcases List.suffix_cons_iff.1 hl with rfl | hl
      · exact .returned d h hi
      · exact ih hl
  | left i h ih =>
      rcases List.suffix_cons_iff.1 hl with rfl | hl
      · exact .left i h
      · exact ih hl
  | entered h hi ih =>
      rcases List.suffix_cons_iff.1 hl with rfl | hl
      · exact .entered h hi
      · exact ih hl
  | ended h hp ih =>
      rcases List.suffix_cons_iff.1 hl with rfl | hl
      · exact .ended h hp
      · exact ih hl

theorem pending_subset (ready : Set ι) (log : List (Act ι δ)) : pending ready log ⊆ present ready log := by
  induction log with
  | nil => exact subset_rfl
  | cons a log ih =>
      cases a with
      | returned i d => exact Set.sdiff_subset.trans ih
      | left i => exact Set.sdiff_subset_sdiff_left ih
      | entered i => exact Set.insert_subset_insert ih
      | ended => exact ih

/-- What comes to be pending came in. -/
theorem Queued.entered_of_pending (h : Queued ready (l ++ log)) (hi : i ∈ pending ready (l ++ log))
    (hno : i ∉ pending ready log) :
    ∃ l₁ l₂, l = l₁ ++ .entered i :: l₂ ∧ i ∉ present ready (l₂ ++ log) := by
  induction l with
  | nil => exact absurd hi hno
  | cons a l ih =>
      have hl := h.of_suffix (List.suffix_cons a (l ++ log))
      have hfrom : i ∈ pending ready (l ++ log) →
          ∃ l₁ l₂, a :: l = l₁ ++ .entered i :: l₂ ∧ i ∉ present ready (l₂ ++ log) := by
        intro hi
        obtain ⟨l₁, l₂, heq, hnot⟩ := ih hl hi
        exact ⟨a :: l₁, l₂, congrArg (a :: ·) heq, hnot⟩
      cases a with
      | returned j e | left j => exact hfrom hi.1
      | ended => exact hfrom hi
      | entered j =>
          rcases Set.mem_insert_iff.1 hi with heq | hi
          · cases h with
            | entered _ hnot => exact ⟨[], l, congrArg (Act.entered · :: l) heq.symm, heq ▸ hnot⟩
          · exact hfrom hi

/-- What is no more in left. -/
theorem left_of_present (hi : i ∈ present ready log) (hno : i ∉ present ready (l ++ log)) : .left i ∈ l := by
  induction l with
  | nil => exact absurd hi hno
  | cons a l ih =>
      cases a with
      | returned | ended => exact .tail _ (ih hno)
      | left j =>
          by_cases heq : i = j
          · rw [heq]
            exact List.mem_cons_self
          · exact .tail _ (ih fun hin => hno ⟨hin, heq⟩)
      | entered j => exact .tail _ (ih fun hin => hno (Set.mem_insert_of_mem j hin))

/-- What was ready stays pending until it leaves or is returned. -/
theorem pending_of_ready (hi : i ∈ ready) (hleft : .left i ∉ log) (hreturned : ∀ d, .returned i d ∉ log) :
    i ∈ pending ready log := by
  induction log with
  | nil => exact hi
  | cons a log ih =>
      have hlog : i ∈ pending ready log := ih (fun hm => hleft (.tail _ hm)) fun d hm => hreturned d (.tail _ hm)
      cases a with
      | returned j e =>
          refine ⟨hlog, fun heq => hreturned e ?_⟩
          rw [show i = j from heq]
          exact List.mem_cons_self
      | left j =>
          refine ⟨hlog, fun heq => hleft ?_⟩
          rw [show i = j from heq]
          exact List.mem_cons_self
      | entered j => exact Set.mem_insert_of_mem j hlog
      | ended => exact hlog

theorem Queued.atMost [DecidableEq ι] {n : ℤ} (h : Queued ready log) (hn : AtMost ready n) :
    AtMost (pending ready log) (n + log.countP Act.isEntered - log.countP Act.isReturned) := by
  induction h with
  | start =>
      rw [List.countP_nil, List.countP_nil, Int.natCast_zero, Int.add_zero, Int.sub_zero]
      exact hn
  | returned d h hi ih =>
      rw [List.countP_cons_of_neg (by nofun), List.countP_cons_of_pos rfl, Int.natCast_succ, ← Int.sub_sub]
      exact ih.diff hi
  | left i h ih =>
      rw [List.countP_cons_of_neg (by nofun), List.countP_cons_of_neg (by nofun)]
      exact ih.mono Set.sdiff_subset
  | @entered log i h hi ih =>
      rw [List.countP_cons_of_pos rfl, List.countP_cons_of_neg (by nofun), Int.natCast_succ]
      have hsum : n + (↑(log.countP Act.isEntered) + 1) - ↑(log.countP Act.isReturned) =
          n + ↑(log.countP Act.isEntered) - ↑(log.countP Act.isReturned) + 1 := by omega
      rw [hsum]
      exact ih.insert i
  | ended h hp ih =>
      rw [List.countP_cons_of_neg (by nofun), List.countP_cons_of_neg (by nofun)]
      exact ih

theorem Queued.served [DecidableEq ι] (h : Queued ready log) : Served ready log where
  returned i d l hl := by
    cases h.of_suffix hl with
    | returned _ _ hi => exact pending_subset ready l hi
  again i d d' l l' hl := by
    cases h.of_suffix hl with
    | returned _ h hi =>
        have hno : i ∉ pending ready (.returned i d' :: l') := fun hm => hm.2 rfl
        obtain ⟨l₁, l₂, heq, hnot⟩ := h.entered_of_pending hi hno
        cases h.of_suffix (List.suffix_append l _) with
        | returned _ _ hi' =>
            have hin : i ∈ present ready (.returned i d' :: l') := pending_subset ready l' hi'
            exact ⟨l₁, l₂, heq, left_of_present hin hnot⟩
  ended l hl i hi hleft := by
    cases h.of_suffix hl with
    | ended h hp =>
        by_contra hnone
        have hpending : i ∈ pending ready l := pending_of_ready hi hleft fun d hm => hnone ⟨d, hm⟩
        rw [hp] at hpending
        exact hpending
  ends n hn := by
    have hnonneg := (h.atMost hn).nonneg
    omega

end Dkftpbench.Round
