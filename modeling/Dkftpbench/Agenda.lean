import Mathlib.Data.Multiset.Count
import Mathlib.Data.Multiset.Filter
import Mathlib.Data.Multiset.UnionInter
import Mathlib.Data.List.Basic
import Mathlib.Tactic.Common

/-!
# Agendas: what a timed queue is for

An agenda is a multiset of pairs of a client and a time. A trace records what
happened to it: a client was added, deleted or called. A trace is permitted when
every call takes a pair whose time is due and has no earlier one beside it, while
no client has two pairs. From this alone follow the laws of a timed queue: calls
never outnumber additions, a deleted client is called only after a new addition,
and if all additions are for later, the calls are the due pairs in order of time.
-/
namespace Dkftpbench.Agenda

inductive Event (Client T : Type) where
  | called (c : Client) (t : T)
  | added (c : Client) (t : T)
  | deleted (c : Client)
deriving DecidableEq, Repr

section
variable {Client T : Type} [DecidableEq Client]

abbrev Pairs (Client T : Type) := Multiset (Client × T)

/-- The pairs of one client. -/
def held (c : Client) (p : Pairs Client T) : ℕ := p.countP fun q => c = q.1

def calls (c : Client) (evs : List (Event Client T)) : ℕ :=
  evs.countP fun e => match e with
    | .called d _ => c = d
    | _ => false

def adds (c : Client) (evs : List (Event Client T)) : ℕ :=
  evs.countP fun e => match e with
    | .added d _ => c = d
    | _ => false

section
variable (c d : Client) (t : T) (evs : List (Event Client T))

@[simp] theorem calls_called :
    calls c (.called d t :: evs) = calls c evs + if c = d then 1 else 0 := by
  simp [calls, List.countP_cons]

@[simp] theorem calls_added : calls c (.added d t :: evs) = calls c evs := by simp [calls]

@[simp] theorem calls_deleted : calls c (.deleted d :: evs) = calls c evs := by simp [calls]

@[simp] theorem adds_called : adds c (.called d t :: evs) = adds c evs := by simp [adds]

@[simp] theorem adds_added :
    adds c (.added d t :: evs) = adds c evs + if c = d then 1 else 0 := by
  simp [adds, List.countP_cons]

@[simp] theorem adds_deleted : adds c (.deleted d :: evs) = adds c evs := by simp [adds]

end

/-- The times of the calls, in order. -/
def callTimes : List (Event Client T) → List T
  | [] => []
  | .called _ t :: evs => t :: callTimes evs
  | _ :: evs => callTimes evs

theorem held_eq_zero_iff {c : Client} {p : Pairs Client T} :
    held c p = 0 ↔ ∀ t, (c, t) ∉ p := by
  rw [held, Multiset.countP_eq_zero]
  exact ⟨fun h t ht => h _ ht rfl, fun h q hq he => h q.2 (by rwa [he])⟩

theorem held_le_one {c : Client} {p : Pairs Client T} (h : (p.map Prod.fst).Nodup) :
    held c p ≤ 1 := by
  have hc := Multiset.nodup_iff_count_le_one.mp h c
  rwa [Multiset.count_map, ← Multiset.countP_eq_card_filter] at hc

theorem adds_eq_zero_iff {c : Client} {evs : List (Event Client T)} :
    adds c evs = 0 ↔ ∀ t, .added c t ∉ evs := by
  rw [adds, List.countP_eq_zero]
  constructor
  · exact fun h t ht => h _ ht (by simp)
  · intro h e he
    cases e with
    | added d t =>
        intro hd
        simp only [decide_eq_true_eq] at hd
        exact h t (hd ▸ he)
    | _ => simp

omit [DecidableEq Client] in
theorem exists_called_of_mem {u : T} {evs : List (Event Client T)} (hu : u ∈ callTimes evs) :
    ∃ c, .called c u ∈ evs := by
  induction evs with
  | nil => simp [callTimes] at hu
  | cons e evs ih =>
      cases e with
      | called c y =>
          rcases List.mem_cons.mp hu with rfl | hu
          · exact ⟨c, by simp⟩
          · obtain ⟨c, hc⟩ := ih hu
            exact ⟨c, by simp [hc]⟩
      | _ =>
          obtain ⟨c, hc⟩ := ih hu
          exact ⟨c, by simp [hc]⟩

variable [DecidableEq T]

def step (p : Pairs Client T) : Event Client T → Pairs Client T
  | .called c t => p.erase (c, t)
  | .added c t => (c, t) ::ₘ p
  | .deleted c => p.filter fun q => q.1 ≠ c

def after (p : Pairs Client T) (evs : List (Event Client T)) : Pairs Client T := evs.foldl step p

@[simp] theorem after_nil (p : Pairs Client T) : after p [] = p := rfl

@[simp] theorem after_cons (p : Pairs Client T) (e : Event Client T) (evs : List (Event Client T)) :
    after p (e :: evs) = after (step p e) evs := rfl

@[simp] theorem after_append (p : Pairs Client T) (evs fvs : List (Event Client T)) :
    after p (evs ++ fvs) = after (after p evs) fvs := List.foldl_append

@[simp] theorem held_deleted (c : Client) (p : Pairs Client T) : held c (step p (.deleted c)) = 0 :=
  held_eq_zero_iff.mpr fun _ ht => (Multiset.mem_filter.mp ht).2 rfl

variable (due : T → Prop) (late : T → T → Prop)

/-- What a call must find: its pair, due and with no earlier one, and no client twice. -/
structure CallOf (p : Pairs Client T) (c : Client) (t : T) : Prop where
  mem : (c, t) ∈ p
  first : ∀ q ∈ p, ¬ late t q.2
  isDue : due t
  nodup : (p.map Prod.fst).Nodup

def Permitted : Pairs Client T → List (Event Client T) → Prop
  | _, [] => True
  | p, .called c t :: evs => CallOf due late p c t ∧ Permitted (step p (.called c t)) evs
  | p, e :: evs => Permitted (step p e) evs

variable {due late} {p : Pairs Client T} {evs fvs : List (Event Client T)} {c : Client} {t : T}

theorem Permitted.tail {e : Event Client T} (h : Permitted due late p (e :: evs)) :
    Permitted due late (step p e) evs := by
  cases e with
  | called c t => exact h.2
  | added c t => exact h
  | deleted c => exact h

theorem permitted_append : Permitted due late p (evs ++ fvs) ↔
    Permitted due late p evs ∧ Permitted due late (after p evs) fvs := by
  induction evs generalizing p with
  | nil => simp [Permitted]
  | cons e evs ih =>
      cases e with
      | called c t => simp only [List.cons_append, Permitted, ih, after_cons, and_assoc]
      | added c t => exact ih
      | deleted c => exact ih

/-- A call is paid for by an addition or by a pair that was there. -/
theorem Permitted.calls_le (h : Permitted due late p evs) :
    calls c evs + held c (after p evs) ≤ adds c evs + held c p := by
  induction evs generalizing p with
  | nil => simp [calls, adds]
  | cons e evs ih =>
      have hi := ih h.tail
      rw [after_cons]
      cases e with
      | called d t =>
          have hm := h.1.mem
          have hh : held c p = held c (step p (.called d t)) + if c = d then 1 else 0 := by
            conv_lhs => rw [← Multiset.cons_erase hm]
            simp only [held, Multiset.countP_cons, step]
          simp only [calls_called, adds_called]
          omega
      | added d t =>
          have hh : held c (step p (.added d t)) = held c p + if c = d then 1 else 0 := by
            simp only [held, Multiset.countP_cons, step]
          simp only [calls_added, adds_added]
          omega
      | deleted d =>
          have hh : held c (step p (.deleted d)) ≤ held c p :=
            Multiset.countP_le_of_le _ (Multiset.filter_le _ _)
          simp only [calls_deleted, adds_deleted]
          omega

/-- Between two calls of a client there is an addition of it. -/
theorem Permitted.added_between {pre mid post : List (Event Client T)} {t' : T}
    (h : Permitted due late p (pre ++ .called c t :: (mid ++ .called c t' :: post))) :
    ∃ x, .added c x ∈ mid := by
  obtain ⟨_, hm⟩ := permitted_append.mp h
  have hone := held_le_one (c := c) hm.1.nodup
  obtain ⟨hmid, hlast⟩ := permitted_append.mp hm.tail
  by_contra hno
  have hz := adds_eq_zero_iff.mpr (not_exists.mp hno)
  have hle := hmid.calls_le (c := c)
  have herase : held c (after p pre) = held c (step (after p pre) (.called c t)) + 1 := by
    conv_lhs => rw [← Multiset.cons_erase hm.1.mem]
    simp only [held, Multiset.countP_cons_of_pos, step]
  have hnone := held_eq_zero_iff.mp
    (show held c (after (step (after p pre) (.called c t)) mid) = 0 by omega)
  exact hnone t' hlast.1.mem

/-- A deleted client is called only after a new addition. -/
theorem Permitted.added_of_deleted {pre mid post : List (Event Client T)}
    (h : Permitted due late p (pre ++ .deleted c :: (mid ++ .called c t :: post))) :
    ∃ x, .added c x ∈ mid := by
  obtain ⟨_, hm⟩ := permitted_append.mp h
  obtain ⟨hmid, hlast⟩ := permitted_append.mp hm.tail
  by_contra hno
  have hz := adds_eq_zero_iff.mpr (not_exists.mp hno)
  have hle := hmid.calls_le (c := c)
  rw [hz, held_deleted] at hle
  exact held_eq_zero_iff.mp (by omega) t hlast.1.mem

section Later
variable (hlater : ∀ c x, .added c x ∈ evs → ¬ due x)
include hlater

/-- If all additions are for later, the pairs called were there and due. -/
theorem Permitted.mem_of_called (h : Permitted due late p evs) (hc : .called c t ∈ evs) :
    (c, t) ∈ p ∧ due t := by
  induction evs generalizing p with
  | nil => simp at hc
  | cons e evs ih =>
      have hl' : ∀ c x, .added c x ∈ evs → ¬ due x := fun c x hx => hlater c x (by simp [hx])
      rcases List.mem_cons.mp hc with rfl | hc
      · exact ⟨h.1.mem, h.1.isDue⟩
      · obtain ⟨hm, hd⟩ := ih hl' h.tail hc
        refine ⟨?_, hd⟩
        cases e with
        | called d x => exact Multiset.mem_of_mem_erase hm
        | added d x =>
            rcases Multiset.mem_cons.mp hm with he | hm
            · cases he
              exact (hlater c t (by simp) hd).elim
            · exact hm
        | deleted d => exact (Multiset.mem_filter.mp hm).1

theorem Permitted.callTimes_sorted (h : Permitted due late p evs) :
    (callTimes evs).Pairwise fun t u => ¬ late t u := by
  induction evs generalizing p with
  | nil => exact .nil
  | cons e evs ih =>
      have hl' : ∀ c x, .added c x ∈ evs → ¬ due x := fun c x hx => hlater c x (by simp [hx])
      cases e with
      | called d x =>
          refine .cons (fun u hu => ?_) (ih hl' h.tail)
          obtain ⟨c, hc⟩ := exists_called_of_mem hu
          have hm := (h.tail.mem_of_called hl' hc).1
          exact h.1.first (c, u) (Multiset.mem_of_mem_erase hm)
      | added d x => exact ih hl' h.tail
      | deleted d => exact ih hl' h.tail

end Later

section Measure
variable [DecidablePred due]

variable (due) in
/-- How many pairs are due: the measure by which calls come to an end. -/
def dueCount (p : Pairs Client T) : ℕ := p.countP fun q => due q.2

theorem CallOf.dueCount (h : CallOf due late p c t) :
    dueCount due p = dueCount due (step p (.called c t)) + 1 := by
  conv_lhs => rw [← Multiset.cons_erase h.mem]
  exact Multiset.countP_cons_of_pos (p := fun q : Client × T => due q.2) _ h.isDue

theorem dueCount_after_le (hlater : ∀ c x, .added c x ∈ evs → ¬ due x) :
    dueCount due (after p evs) ≤ dueCount due p := by
  induction evs generalizing p with
  | nil => exact le_rfl
  | cons e evs ih =>
      refine (ih fun c x hx => hlater c x (List.mem_cons_of_mem _ hx)).trans ?_
      cases e with
      | called c t => exact Multiset.countP_le_of_le _ (Multiset.erase_le _ _)
      | added c t =>
          exact (Multiset.countP_cons_of_neg (p := fun q : Client × T => due q.2) _ (hlater c t (by simp))).le
      | deleted c => exact Multiset.countP_le_of_le _ (Multiset.filter_le _ _)

end Measure

/-- A pair that is gone was called or its client deleted, whichever came first. -/
theorem first_removal (hm : (c, t) ∈ p) (hg : (c, t) ∉ after p evs) :
    ∃ pre post, (evs = pre ++ .called c t :: post ∨ evs = pre ++ .deleted c :: post) ∧
      .called c t ∉ pre ∧ .deleted c ∉ pre := by
  induction evs generalizing p with
  | nil => exact (hg hm).elim
  | cons e evs ih =>
      by_cases he : e = .called c t
      · exact ⟨[], evs, .inl (by rw [he]; rfl), by simp, by simp⟩
      by_cases hd : e = .deleted c
      · exact ⟨[], evs, .inr (by rw [hd]; rfl), by simp, by simp⟩
      have hm' : (c, t) ∈ step p e := by
        cases e with
        | called d x =>
            refine (Multiset.mem_erase_of_ne fun h => he ?_).mpr hm
            cases h
            rfl
        | added d x => exact Multiset.mem_cons_of_mem hm
        | deleted d => exact Multiset.mem_filter.mpr ⟨hm, fun h => hd (by rw [← h])⟩
      obtain ⟨pre, post, hs, h1, h2⟩ := ih hm' hg
      refine ⟨e :: pre, post, ?_, ?_, ?_⟩
      · rcases hs with hs | hs
        · exact .inl (by rw [hs]; rfl)
        · exact .inr (by rw [hs]; rfl)
      · simp only [List.mem_cons, not_or]
        exact ⟨fun h => he h.symm, h1⟩
      · simp only [List.mem_cons, not_or]
        exact ⟨fun h => hd h.symm, h2⟩

/-- If all additions are for later and nothing due is left, the pairs called are the
due ones that were there and that no deletion preceded. -/
theorem Permitted.called_iff (h : Permitted due late p evs)
    (hlater : ∀ c x, .added c x ∈ evs → ¬ due x) (hleft : ∀ q ∈ after p evs, ¬ due q.2) :
    .called c t ∈ evs ↔ ((c, t) ∈ p ∧ due t) ∧
      ∀ pre post, evs = pre ++ .deleted c :: post → .called c t ∈ pre := by
  constructor
  · intro hc
    refine ⟨h.mem_of_called hlater hc, fun pre post hs => ?_⟩
    rw [hs, List.mem_append, List.mem_cons] at hc
    rcases hc with hc | hc | hc
    · exact hc
    · cases hc
    · rw [hs] at h
      have hl' : ∀ c x, .added c x ∈ post → ¬ due x := fun c x hx => hlater c x (by simp [hs, hx])
      have hm := ((permitted_append.mp h).2.tail.mem_of_called hl' hc).1
      exact ((Multiset.mem_filter.mp hm).2 rfl).elim
  · intro hx
    obtain ⟨⟨hm, hd⟩, hno⟩ := hx
    have hgone : (c, t) ∉ after p evs := fun hg => hleft _ hg hd
    obtain ⟨pre, post, hs | hs, h1, _⟩ := first_removal hm hgone
    · simp [hs]
    · exact (h1 (hno pre post hs)).elim

end
end Dkftpbench.Agenda
