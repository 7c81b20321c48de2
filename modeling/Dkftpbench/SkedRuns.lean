import Dkftpbench.SkedHeap

/-!
# Runs of the scheduler

A well-formed queue is a heap whose back-pointers are exact; every operation on a
well-formed queue succeeds or leaves it alone, and changes what is pending as its
name says. A run carries beside the queue the multiset of pairs that were added
and not yet deleted or popped, which is computed from the operations alone.
-/
namespace Dkftpbench.Sked
open CLib EventClock HeapOrder
variable {Client : Type} {w : ℕ}

/-- The invariant between operations, for a window that holds the pending times. -/
structure WellFormed (base : BitVec w) (s : Sked Client w) : Prop where
  heap : IsHeap (key base s) s.used
  slots : Slots s.used s
  unqueued : ∀ c, ¬ Owns s.used s c → s.skedIndex c = 0
  room : s.used < s.allocated
  window : ∀ i, 1 ≤ i → i ≤ s.used → InWindow base (s.records i).when

theorem mem_pairs {n : ℕ} {s : Sked Client w} {c : Client} {t : BitVec w} :
    (c, t) ∈ pairs n s ↔ ∃ i, 1 ≤ i ∧ i ≤ n ∧ (s.records i).skc = c ∧ (s.records i).when = t := by
  simp only [pairs, Multiset.mem_map, Finset.mem_val, Finset.mem_Icc, Prod.mk.injEq, and_assoc]

theorem owns_iff_mem {s : Sked Client w} {c : Client} :
    Owns s.used s c ↔ ∃ t, (c, t) ∈ pending s := by
  simp only [pending, mem_pairs, Owns]
  constructor
  · intro hx
    obtain ⟨i, hi, hin, hc⟩ := hx
    exact ⟨_, i, hi, hin, hc, rfl⟩
  · intro hx
    obtain ⟨t, i, hi, hin, hc, _⟩ := hx
    exact ⟨i, hi, hin, hc⟩

namespace WellFormed
variable {base : BitVec w} {s : Sked Client w}

/-- The order of a heap is the order of the clock, whatever window is used to see it. -/
theorem after_parent (h : WellFormed base s) {i : ℕ} (h2 : 2 ≤ i) (hi : i ≤ s.used) :
    eclockAfter (s.records (i/2)).when (s.records i).when = false :=
  (eclockAfter_eq_false_iff (h.window _ (by omega) (by omega)) (h.window _ (by omega) hi)).mpr
    (h.heap i h2 hi)

theorem rebase (h : WellFormed base s) {base' : BitVec w}
    (hw : ∀ i, 1 ≤ i → i ≤ s.used → InWindow base' (s.records i).when) :
    WellFormed base' s :=
  { h with
    heap := fun i h2 hi => (eclockAfter_eq_false_iff (hw _ (by omega) (by omega))
      (hw _ (by omega) hi)).mp (h.after_parent h2 hi)
    window := hw }

theorem window_mem (h : WellFormed base s) {q : Client × BitVec w} (hq : q ∈ pending s) :
    InWindow base q.2 := by
  obtain ⟨i, hi, hin, _, ht⟩ := mem_pairs.mp hq
  rw [← ht]
  exact h.window i hi hin

theorem skedIndex_eq_zero_iff (h : WellFormed base s) (c : Client) :
    s.skedIndex c = 0 ↔ ¬ Owns s.used s c := by
  refine ⟨fun h0 ho => ?_, h.unqueued c⟩
  obtain ⟨i, hi, hin, hc⟩ := ho
  have hs := h.slots i hi hin
  rw [hc, h0] at hs
  omega

/-- The back-pointer of a queued client is the one slot that it owns. -/
theorem skedIndex_slot (h : WellFormed base s) {c : Client} (hc : s.skedIndex c ≠ 0) :
    1 ≤ s.skedIndex c ∧ s.skedIndex c ≤ s.used ∧ (s.records (s.skedIndex c)).skc = c := by
  obtain ⟨i, hi, hin, rfl⟩ := not_not.mp fun ho => hc (h.unqueued c ho)
  rw [h.slots i hi hin]
  exact ⟨hi, hin, rfl⟩

/-- Nothing pending is before the root. -/
theorem top_min (h : WellFormed base s) {r : SkedRecord Client w} (ht : s.top = some r)
    {q : Client × BitVec w} (hq : q ∈ pending s) : eclockAfter r.when q.2 = false := by
  unfold Sked.top at ht
  split_ifs at ht with he
  simp only [Option.some.injEq] at ht
  simp only [Sked.empty, Sked.size, beq_iff_eq] at he
  obtain ⟨i, hi, hin, _, hw⟩ := mem_pairs.mp hq
  rw [← ht, ← hw]
  exact (eclockAfter_eq_false_iff (h.window 1 le_rfl (by omega)) (h.window i hi hin)).mpr
    (h.heap.root_le hi hin)

end WellFormed

theorem init_wellFormed (base : BitVec w) (m r : Memory Client w) :
    WellFormed base ((fresh r).init (some m)).2 where
  heap i h2 hi := by
    simp only [Sked.init] at hi
    omega
  slots i hi hin := by
    simp only [Sked.init] at hin
    omega
  unqueued c _ := rfl
  room := by simp [Sked.init]
  window i hi hin := by
    simp only [Sked.init] at hin
    omega

/-- What `refill` leaves is well formed as soon as the dropped client is marked absent. -/
theorem Refilled.wellFormed {base : BitVec w} {t u : Sked Client w} (hr : Refilled base t u)
    (ha : t.used < t.allocated) (f : Client → ℕ) (hf : ∀ c, Owns t.used u c → f c = u.skedIndex c)
    (h0 : ∀ c, ¬ Owns t.used u c → f c = 0) : WellFormed base { u with skedIndex := f } where
  heap := by
    rw [show Sked.used _ = t.used from hr.used]
    exact hr.heap
  slots := by
    rw [show Sked.used _ = t.used from hr.used]
    intro i hi hin
    exact (hf _ ⟨i, hi, hin, rfl⟩).trans (hr.slots i hi hin)
  unqueued c hc := h0 c fun ho => hc (by rwa [show Sked.used _ = t.used from hr.used])
  room := by
    change u.used < u.allocated
    rw [hr.used, hr.allocated]
    exact ha
  window := by
    rw [show Sked.used _ = t.used from hr.used]
    exact hr.window

/-- The client that is dropped owns no slot any more. -/
theorem Refilled.gone {base : BitVec w} {t u : Sked Client w} {c : Client} (hr : Refilled base t u)
    (hne : ∀ i, 2 ≤ i → i ≤ t.used+1 → (t.records i).skc ≠ c) : ¬ Owns t.used u c := by
  rw [hr.owns]
  intro hx
  obtain ⟨i, hi, hin, he⟩ := hx
  exact hne i hi hin he

/-- The client of the root is dropped and marked absent, and nothing else changes. -/
theorem Refilled.drops {base : BitVec w} {t u : Sked Client w} {c : Client} {f : Client → ℕ}
    (hr : Refilled base t u) (ha : t.used < t.allocated) (hc : (t.records 1).skc = c)
    (hne : ∀ i, 2 ≤ i → i ≤ t.used+1 → (t.records i).skc ≠ c)
    (hoff : ∀ d, d ≠ c → ¬ Owns (t.used+1) t d → t.skedIndex d = 0)
    (hf : ∀ d, d ≠ c → f d = u.skedIndex d) (hf0 : f c = 0) :
    WellFormed base { u with skedIndex := f } ∧
    Sked.pairs (t.used+1) t = (c, (t.records 1).when) ::ₘ pending { u with skedIndex := f } := by
  have hgone := hr.gone hne
  constructor
  · apply hr.wellFormed ha
    · intro d hd
      apply hf
      intro heq
      exact hgone (heq ▸ hd)
    · intro d hd
      by_cases hdc : d = c
      · rw [hdc, hf0]
      · rw [hf d hdc, hr.frame d hd]
        apply hoff d hdc
        intro hx
        obtain ⟨j, hj, hjn, hjd⟩ := hx
        have hj1 : j ≠ 1 := fun heq => hdc (by rw [← hjd, heq, hc])
        exact hd ((hr.owns d).mpr ⟨j, by omega, hjn, hjd⟩)
  · rw [pending, show Sked.used _ = t.used from hr.used, ← hr.pairs, hc]
    rfl

section Operations
variable [DecidableEq Client] {base : BitVec w} {s : Sked Client w}

/-- Appending a record and sifting it up, whatever the memory above the heap holds. -/
theorem append_spec (h : WellFormed base s) {t : Sked Client w} (c : Client) (when : BitVec w)
    (ht : t.used = s.used) (hr : ∀ i, 1 ≤ i → i ≤ s.used → t.records i = s.records i)
    (hx : t.skedIndex = s.skedIndex) (ha : s.used+1 < t.allocated)
    (hc : ¬ Owns s.used s c) (hw : InWindow base when) :
    WellFormed base (({ t with used := t.used+1 }.storeAt (t.used+1) ⟨c, when⟩).siftUp (t.used+1)) ∧
    pending (({ t with used := t.used+1 }.storeAt (t.used+1) ⟨c, when⟩).siftUp (t.used+1)) =
      (c, when) ::ₘ pending s := by
  obtain ⟨u, hu⟩ : ∃ u, u = { t with used := t.used+1 }.storeAt (t.used+1) ⟨c, when⟩ := ⟨_, rfl⟩
  rw [← hu, ht]
  have huse : u.used = s.used+1 := by rw [hu, Sked.storeAt_used, ht]
  have hlast : u.records (s.used+1) = ⟨c, when⟩ := by
    rw [hu, ht]
    exact Function.update_self _ _ t.records
  have hold : ∀ i, 1 ≤ i → i ≤ s.used → u.records i = s.records i := by
    intro i hi hin
    rw [hu, ht, ← hr i hi hin]
    exact Function.update_of_ne (by omega) _ t.records
  have hidx : ∀ d, d ≠ c → u.skedIndex d = s.skedIndex d := by
    intro d hd
    rw [hu, ← hx]
    exact Function.update_of_ne hd _ t.skedIndex
  have hslots : Slots (s.used+1) u := by
    intro i hi hin
    by_cases hl : i = s.used+1
    · rw [hl, hlast, hu, ht]
      exact Function.update_self c _ t.skedIndex
    · have hin' : i ≤ s.used := by omega
      rw [hold i hi hin', hidx, h.slots i hi hin']
      exact fun he => hc ⟨i, hi, hin', he⟩
  have hwin : ∀ i, 1 ≤ i → i ≤ s.used+1 → InWindow base (u.records i).when := by
    intro i hi hin
    by_cases hl : i = s.used+1
    · rw [hl, hlast]
      exact hw
    · rw [hold i hi (by omega)]
      exact h.window i hi (by omega)
  have hup : UpAt (key base u) (s.used+1) (s.used+1) := by
    have hk : ∀ i, 1 ≤ i → i ≤ s.used → key base u i = key base s i := fun i hi hin => by
      simp only [key, hold i hi hin]
    refine ⟨⟨fun i h2 hi hne hp => ?_, fun i hi hp hh => by omega⟩, fun i hi hp => by omega⟩
    rw [hk i (by omega) (by omega), hk (i/2) (by omega) (by omega)]
    exact h.heap i h2 (by omega)
  obtain ⟨hsh, hheap⟩ := siftUp_spec hslots hwin (by omega) le_rfl hup
  have hpairs : pairs (s.used+1) u = (c, when) ::ₘ pending s := by
    rw [pairs_succ, hlast, pairs_congr hold, pending]
  have hpend : pending (u.siftUp (s.used+1)) = (c, when) ::ₘ pending s := by
    rw [pending, hsh.used, huse, hsh.pairs_eq, hpairs]
  refine ⟨⟨?_, ?_, ?_, ?_, ?_⟩, hpend⟩
  · rw [hsh.used, huse]
    exact hheap
  · rw [hsh.used, huse]
    exact hsh.slots
  · rw [hsh.used, huse]
    intro d hd
    have hd' : ¬ Owns (s.used+1) u d := fun ho => hd ((hsh.owns_iff d).mpr ho)
    rw [hsh.frame d hd', hidx, h.unqueued]
    · intro hx
      obtain ⟨i, hi, hin, hs⟩ := hx
      exact hd' ⟨i, hi, by omega, by rw [hold i hi hin, hs]⟩
    · intro heq
      subst heq
      exact hd' ⟨s.used+1, by omega, le_rfl, by rw [hlast]⟩
  · rw [hsh.used, huse, hsh.allocated, hu]
    exact ha
  · rw [hsh.used, huse]
    exact hsh.forall_records (P := fun r => InWindow base r.when) hwin

theorem push_fail (r : SkedRecord Client w) (hf : s.used+1 = s.allocated) :
    s.push r none = (ENOMEM, s) := by
  simp only [Sked.push, if_pos hf]

theorem push_spec (h : WellFormed base s) (c : Client) (when : BitVec w)
    (realloc : Option (Memory Client w)) (hc : ¬ Owns s.used s c) :
    s.push ⟨c, when⟩ realloc = (ENOMEM, s) ∨
    ∃ t, s.push ⟨c, when⟩ realloc = (0, t) ∧
      (InWindow base when → WellFormed base t ∧ pending t = (c, when) ::ₘ pending s) := by
  have hroom := h.room
  by_cases hf : s.used+1 = s.allocated
  · cases realloc with
    | none => exact .inl (push_fail _ hf)
    | some m =>
        refine .inr ⟨_, by simp only [Sked.push, if_pos hf]; rfl, fun hw => ?_⟩
        refine append_spec h c when (t := ⟨fun i => if i < s.allocated then s.records i else m i,
          s.allocated*2, s.used, s.skedIndex⟩) rfl (fun i hi hin => ?_) rfl ?_ hc hw
        · exact if_pos (by omega)
        · change s.used+1 < s.allocated*2
          omega
  · refine .inr ⟨_, by simp only [Sked.push, if_neg hf]; rfl, fun hw => ?_⟩
    exact append_spec h c when rfl (fun _ _ _ => rfl) rfl (by omega) hc hw

theorem addClient_spec (h : WellFormed base s) (c : Client) (when : BitVec w)
    (realloc : Option (Memory Client w)) (hc : ¬ Owns s.used s c) :
    s.addClient c when realloc = some (ENOMEM, s) ∨
    ∃ t, s.addClient c when realloc = some (0, t) ∧
      (InWindow base when → WellFormed base t ∧ pending t = (c, when) ::ₘ pending s) := by
  have ha : s.addClient c when realloc = some (s.push ⟨c, when⟩ realloc) :=
    if_neg (not_not.mpr (h.unqueued c hc))
  rw [ha]
  rcases push_spec h c when realloc hc with hp | ⟨t, hp, ht⟩
  · exact .inl (by rw [hp])
  · exact .inr ⟨t, by rw [hp], ht⟩

/-- The only record leaves the queue by a decrement alone. -/
theorem emptied_wellFormed (h : WellFormed base s) (h1 : s.used = 1) :
    WellFormed base
      { s with
        skedIndex := Function.update s.skedIndex (s.records 1).skc 0
        used := s.used-1 } where
  heap i h2 hi := by
    change i ≤ s.used-1 at hi
    omega
  slots i hi hin := by
    change i ≤ s.used-1 at hin
    omega
  unqueued c _ := by
    by_cases hc : c = (s.records 1).skc
    · rw [hc]
      exact Function.update_self _ _ s.skedIndex
    · refine (Function.update_of_ne hc _ s.skedIndex).trans (h.unqueued c ?_)
      intro hx
      obtain ⟨i, hi, hin, he⟩ := hx
      obtain rfl : i = 1 := by omega
      exact hc he.symm
  room := by
    have hr := h.room
    change s.used-1 < s.allocated
    omega
  window i hi hin := by
    change i ≤ s.used-1 at hin
    omega

theorem pop_empty (h0 : s.used = 0) : s.pop = some s := by
  simp [Sked.pop, Sked.empty, Sked.size, h0]

/-- `pop` removes the root and nothing else. -/
theorem pop_spec (h : WellFormed base s) (hu : 0 < s.used) :
    ∃ t, s.pop = some t ∧ WellFormed base t ∧
      pending s = ((s.records 1).skc, (s.records 1).when) ::ₘ pending t ∧
      t.skedIndex (s.records 1).skc = 0 := by
  obtain ⟨f, hf⟩ : ∃ f, f = Function.update s.skedIndex (s.records 1).skc 0 := ⟨_, rfl⟩
  have hfirst : s.skedIndex (s.records 1).skc = 1 := h.slots 1 le_rfl hu
  have hpop : s.pop =
      if 0 < s.used-1 then
        let t := ({ s with skedIndex := f, used := s.used-1 } : Sked Client w).refill
        if t.skedIndex (t.records 1).skc = 1 then some t else none
      else some { s with skedIndex := f, used := s.used-1 } := by
    have he : s.empty = false := by simpa [Sked.empty, Sked.size] using by omega
    rw [Sked.pop, he, if_neg Bool.false_ne_true, if_neg (not_not.mpr hfirst), hf]
    rfl
  have hf0 : f (s.records 1).skc = 0 := by
    rw [hf]
    exact Function.update_self _ _ s.skedIndex
  have hother : ∀ c, c ≠ (s.records 1).skc → f c = s.skedIndex c := fun c hc => by
    rw [hf]
    exact Function.update_of_ne hc _ s.skedIndex
  by_cases h1 : s.used = 1
  · refine ⟨{ s with skedIndex := f, used := s.used-1 }, ?_, ?_, ?_, hf0⟩
    · rw [hpop, if_neg (by omega)]
    · rw [hf]
      exact emptied_wellFormed h h1
    · change pairs s.used s = _ ::ₘ pairs (s.used-1) s
      rw [h1, pairs_succ]
  obtain ⟨t, ht⟩ : ∃ t, t = ({ s with skedIndex := f, used := s.used-1 } : Sked Client w) := ⟨_, rfl⟩
  have htu : t.used+1 = s.used := by
    rw [ht]
    exact Nat.sub_add_cancel hu
  have htr : t.records = s.records := by rw [ht]
  have htx : t.skedIndex = f := by rw [ht]
  have hne : ∀ i, 2 ≤ i → i ≤ s.used → (s.records i).skc ≠ (s.records 1).skc := by
    intro i hi hin he
    have := h.slots.inj (by omega) hin le_rfl hu he
    omega
  have hr : Refilled base t t.refill := by
    refine refill_spec (by omega) ?_ ?_ ?_
    · intro i hi hin
      rw [htr, htx, hother _ (hne i hi (by omega)), h.slots i (by omega) (by omega)]
    · intro i hi hin
      rw [htr]
      exact h.window i (by omega) (by omega)
    · rw [htu, show key base t = key base s by funext i; rw [key, key, htr]]
      exact h.heap.hole 1
  have hne' : ∀ i, 2 ≤ i → i ≤ t.used+1 → (t.records i).skc ≠ (s.records 1).skc := by
    rw [htr, htu]
    exact hne
  have ha : t.used < t.allocated := by
    have hroom := h.room
    rw [ht] at htu ⊢
    change s.used-1 < s.allocated
    omega
  have hoff : ∀ d, d ≠ (s.records 1).skc → ¬ Owns (t.used+1) t d → t.skedIndex d = 0 := by
    intro d hd hno
    rw [htx, hother d hd]
    apply h.unqueued
    rwa [Owns, htu, htr] at hno
  have hzero : t.refill.skedIndex (s.records 1).skc = 0 := by
    rw [hr.frame _ (hr.gone hne'), htx, hf0]
  obtain ⟨hwf, hall⟩ := hr.drops ha (by rw [htr]) hne' hoff (fun _ _ => rfl) hzero
  refine ⟨t.refill, ?_, hwf, ?_, hzero⟩
  · rw [hpop, if_pos (by omega), ← ht]
    exact if_pos (hwf.slots 1 le_rfl (by rw [show Sked.used _ = t.used from hr.used]; omega))
  · rw [htu, htr] at hall
    exact (pairs_congr fun i _ _ => by rw [htr]).symm.trans hall

theorem pending_filter_self {c : Client} (hc : ¬ Owns s.used s c) :
    (pending s).filter (fun q => q.1 ≠ c) = pending s := by
  rw [Multiset.filter_eq_self]
  intro pair hq heq
  obtain ⟨d, t⟩ := pair
  subst heq
  exact hc (owns_iff_mem.mpr ⟨t, hq⟩)

theorem delClient_absent {c : Client} (h0 : s.skedIndex c = 0) :
    s.delClient c = some (0, s) := if_pos h0

/-- `delClient` removes the pair of its client, wherever the heap holds it. -/
theorem delClient_spec (h : WellFormed base s) (c : Client) :
    ∃ t, s.delClient c = some (0, t) ∧ WellFormed base t ∧
      pending t = (pending s).filter (fun q => q.1 ≠ c) ∧ t.skedIndex c = 0 := by
  by_cases h0 : s.skedIndex c = 0
  · exact ⟨s, delClient_absent h0, h,
      (pending_filter_self ((h.skedIndex_eq_zero_iff c).mp h0)).symm, h0⟩
  obtain ⟨hi1, hin, hslot⟩ := h.skedIndex_slot h0
  obtain ⟨r, hrdef⟩ : ∃ r, r = ({ s with used := s.used-1 } : Sked Client w) := ⟨_, rfl⟩
  have hdel : s.delClient c =
      some (0, if 1 < s.used then
        { (r.lift (s.skedIndex c)).refill with
          skedIndex := Function.update (r.lift (s.skedIndex c)).refill.skedIndex c 0 }
        else { r with skedIndex := Function.update r.skedIndex c 0 }) := by
    rw [Sked.delClient, if_neg h0, if_neg (by omega), Sked.remove, if_neg (by omega), ← hrdef]
    split_ifs <;> rfl
  by_cases h1 : s.used = 1
  · have hc : c = (s.records 1).skc := by rw [← hslot, show s.skedIndex c = 1 by omega]
    refine ⟨_, hdel, ?_⟩
    rw [if_neg (by omega), hrdef, hc]
    refine ⟨emptied_wellFormed h h1, ?_, Function.update_self _ _ s.skedIndex⟩
    change pairs (s.used-1) s = (pairs s.used s).filter _
    rw [h1, pairs_succ, Multiset.filter_cons_of_neg _ (fun hn => hn rfl)]
    rfl
  have hru : r.used+1 = s.used := by
    rw [hrdef]
    exact Nat.sub_add_cancel (by omega)
  have hrr : r.records = s.records := by rw [hrdef]
  have hrx : r.skedIndex = s.skedIndex := by rw [hrdef]
  have hrslots : Slots s.used r := by
    intro i hi hin
    rw [hrr, hrx, h.slots i hi hin]
  have hrhole : Hole (key base r) s.used (s.skedIndex c) := by
    rw [show key base r = key base s by funext i; rw [key, key, hrr]]
    exact h.heap.hole _
  obtain ⟨hsh, hhole, hroot⟩ := lift_spec hrslots hi1 hin hrhole
  obtain ⟨l, hl⟩ : ∃ l, l = r.lift (s.skedIndex c) := ⟨_, rfl⟩
  rw [← hl] at hsh hhole hroot hdel
  rw [hrr] at hroot
  have hlu : l.used+1 = s.used := by rw [hsh.used, hru]
  have hlc : (l.records 1).skc = c := by rw [hroot, hslot]
  have hwin := hsh.forall_records (P := fun r => InWindow base r.when)
    (by rw [hrr]; exact h.window)
  have hr : Refilled base l l.refill := by
    refine refill_spec (by omega) (fun i hi hin => hsh.slots i (by omega) (by omega)) ?_ ?_
    · exact fun i hi hin => hwin i (by omega) (by omega)
    · rw [hlu]
      exact hhole
  have hne : ∀ i, 2 ≤ i → i ≤ l.used+1 → (l.records i).skc ≠ c := by
    intro i hi hin he
    have := hsh.slots.inj (by omega) (by omega) le_rfl (by omega) (he.trans hlc.symm)
    omega
  have ha : l.used < l.allocated := by
    have hroom := h.room
    rw [hsh.allocated, hrdef]
    change l.used < s.allocated
    omega
  have hoff : ∀ d, d ≠ c → ¬ Owns (l.used+1) l d → l.skedIndex d = 0 := by
    intro d _ hno
    rw [hlu, hsh.owns_iff] at hno
    rw [hsh.frame d hno, hrx]
    apply h.unqueued
    rwa [Owns, hrr] at hno
  have hself : Function.update l.refill.skedIndex c 0 c = 0 := Function.update_self _ _ l.refill.skedIndex
  obtain ⟨hwf, hall⟩ := hr.drops (f := Function.update l.refill.skedIndex c 0) ha hlc hne hoff
    (fun d hd => Function.update_of_ne hd _ l.refill.skedIndex) hself
  refine ⟨_, hdel.trans (by rw [if_pos (by omega)]), hwf, ?_, hself⟩
  have hpending : pending s = pairs s.used r := pairs_congr fun i _ _ => by rw [hrr]
  have hnot := (hwf.skedIndex_eq_zero_iff c).mp hself
  rw [hpending, ← hsh.pairs_eq, ← hlu, hall, Multiset.filter_cons_of_neg _ (fun hn => hn rfl), pending_filter_self hnot]

end Operations

section Runs
variable [DecidableEq Client]

/-- States of one scheduler, each with the pairs added and not yet deleted or popped.
A client is added only while it has no such pair, and what is pending fits a window. -/
inductive Reachable : Sked Client w → Multiset (Client × BitVec w) → Prop
  | init (m r : Memory Client w) : Reachable ((fresh r).init (some m)).2 0
  | addClient {s t : Sked Client w} {p : Multiset (Client × BitVec w)} (c : Client)
      (when : BitVec w) (realloc : Option (Memory Client w)) (err : ℤ) : Reachable s p →
      (∀ x, (c, x) ∉ p) → s.addClient c when realloc = some (err, t) →
      (err = 0 → ∃ base, InWindow base when ∧ ∀ q ∈ p, InWindow base q.2) →
      Reachable t (if err = 0 then (c, when) ::ₘ p else p)
  | delClient {s t : Sked Client w} {p : Multiset (Client × BitVec w)} (c : Client) (err : ℤ) :
      Reachable s p → s.delClient c = some (err, t) → Reachable t (p.filter fun q => q.1 ≠ c)
  | pop {s t : Sked Client w} {p : Multiset (Client × BitVec w)} : Reachable s p →
      s.pop = some t →
      Reachable t (match s.top with | none => p | some r => p.erase (r.skc, r.when))

theorem Reachable.wellFormed {s : Sked Client w} {p : Multiset (Client × BitVec w)}
    (h : Reachable s p) : (∃ base, WellFormed base s) ∧ pending s = p := by
  induction h with
  | init m r => exact ⟨⟨0, init_wellFormed 0 m r⟩, rfl⟩
  | @addClient s t p c when realloc err _ hc ha hw ih =>
      obtain ⟨⟨base, hs⟩, hp⟩ := ih
      have hno : ¬ Owns s.used s c := by
        rw [owns_iff_mem, hp]
        exact fun ⟨x, hx⟩ => hc x hx
      rcases addClient_spec hs c when realloc hno with he | ⟨u, he, hu⟩
      · cases ha.symm.trans he
        exact ⟨⟨base, hs⟩, hp⟩
      · cases ha.symm.trans he
        obtain ⟨base', hwhen, hall⟩ := hw rfl
        have hs' : WellFormed base' s := hs.rebase fun i hi hin =>
          hall ((s.records i).skc, (s.records i).when)
            (by rw [← hp]; exact mem_pairs.mpr ⟨i, hi, hin, rfl, rfl⟩)
        rcases addClient_spec hs' c when realloc hno with he' | ⟨v, he', hv⟩
        · cases he'.symm.trans he
        · cases he'.symm.trans he
          exact ⟨⟨base', (hv hwhen).1⟩, by rw [(hv hwhen).2, hp, if_pos rfl]⟩
  | delClient c err _ hd ih =>
      obtain ⟨⟨base, hs⟩, hp⟩ := ih
      obtain ⟨u, he, hu, hpu, _⟩ := delClient_spec hs c
      cases hd.symm.trans he
      exact ⟨⟨base, hu⟩, by rw [hpu, hp]⟩
  | @pop s t p _ hpop ih =>
      obtain ⟨⟨base, hs⟩, hp⟩ := ih
      rcases Nat.eq_zero_or_pos s.used with h0 | hpos
      · cases hpop.symm.trans (pop_empty h0)
        refine ⟨⟨base, hs⟩, hp.trans ?_⟩
        simp [Sked.top, Sked.empty, Sked.size, h0]
      · obtain ⟨u, he, hu, hpu, _⟩ := pop_spec hs hpos
        cases hpop.symm.trans he
        have htop : s.top = some (s.records 1) := by
          simp [Sked.top, Sked.empty, Sked.size, hpos.ne']
        refine ⟨⟨base, hu⟩, ?_⟩
        rw [htop, ← hp, hpu]
        exact (Multiset.erase_cons_head _ _).symm

/-- In every state of every run the array is a heap for the clock's order, the
back-pointers name exactly the slots in use, the queue holds what was added and not
yet removed, and there is room for the slot after the last. A push whose `realloc`
fails returns the state it was given, and no assertion of an operation fails. -/
theorem reachable_queue {s : Sked Client w} {p : Multiset (Client × BitVec w)}
    (h : Reachable s p) :
    (∀ i, 2 ≤ i → i ≤ s.used →
      eclockAfter (s.records (i/2)).when (s.records i).when = false) ∧
    (∀ c x, (c, x) ∈ p → ∃ i, 1 ≤ i ∧ i ≤ s.used ∧ s.records i = ⟨c, x⟩ ∧ s.skedIndex c = i ∧
      ∀ j, 1 ≤ j → j ≤ s.used → (s.records j).skc = c → j = i) ∧
    (∀ c, (∀ x, (c, x) ∉ p) → s.skedIndex c = 0) ∧
    (Finset.Icc 1 s.used).val.map (fun i => ((s.records i).skc, (s.records i).when)) = p ∧
    s.used < s.allocated ∧
    (∀ r, s.used+1 = s.allocated → s.push r none = (ENOMEM, s)) ∧
    s.pop.isSome ∧ (∀ c, (s.delClient c).isSome) ∧
    (∀ c when realloc, (∀ x, (c, x) ∉ p) → (s.addClient c when realloc).isSome) := by
  obtain ⟨⟨base, hs⟩, hp⟩ := h.wellFormed
  have hno : ∀ c, (∀ x, (c, x) ∉ p) → ¬ Owns s.used s c := by
    intro c hc
    rw [owns_iff_mem, hp]
    exact fun ⟨x, hx⟩ => hc x hx
  refine ⟨fun i h2 hi => hs.after_parent h2 hi, ?_, fun c hc => hs.unqueued c (hno c hc), hp,
    hs.room, fun r => push_fail r, ?_, ?_, ?_⟩
  · intro c x hx
    rw [← hp] at hx
    obtain ⟨i, hi, hin, rfl, rfl⟩ := mem_pairs.mp hx
    exact ⟨i, hi, hin, rfl, hs.slots i hi hin, fun j hj hjn he => hs.slots.inj hj hjn hi hin he⟩
  · rcases Nat.eq_zero_or_pos s.used with h0 | hpos
    · rw [pop_empty h0]
      rfl
    · obtain ⟨t, ht, _⟩ := pop_spec hs hpos
      rw [ht]
      rfl
  · intro c
    obtain ⟨t, ht, _⟩ := delClient_spec hs c
    rw [ht]
    rfl
  · intro c when realloc hc
    rcases addClient_spec hs c when realloc (hno c hc) with ha | ⟨t, ha, _⟩ <;>
      rw [ha] <;> rfl

/-- Client 8 is added behind client 7 and sifted up past it. -/
theorem reachable_queue_two :
    ∃ s : Sked ℕ 64, s.used < s.allocated ∧
      (Finset.Icc 1 s.used).val.map (fun i => ((s.records i).skc, (s.records i).when)) =
        {(8, 3), (7, 5)} := by
  let m : Memory ℕ 64 := fun _ => ⟨0, 0⟩
  let s := ((fresh m).init (some m)).2
  let t := ({ s with used := 1 } : Sked ℕ 64).storeAt 1 ⟨7, 5⟩
  have h1 : s.addClient 7 5 none = some (0, t) := by
    have hr : t.siftUp 1 = t := by rw [Sked.siftUp, if_neg (by decide)]
    rw [← hr]
    rfl
  have ht := Reachable.addClient 7 5 none 0 (.init m m) (by simp) h1
    fun _ => ⟨0, by decide, by simp⟩
  have hu := Reachable.addClient 8 3 none 0 ht (by simp) (t := (t.push ⟨8, 3⟩ none).2) rfl
    fun _ => ⟨0, by decide, by simpa using by decide⟩
  obtain ⟨-, -, -, hp, hroom, -⟩ := reachable_queue hu
  exact ⟨_, hroom, hp⟩

end Runs
end Dkftpbench.Sked
