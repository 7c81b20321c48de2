import Dkftpbench.HeapOrder
import Dkftpbench.Sked
import Mathlib.Data.Finset.Interval
import Mathlib.Data.Multiset.Basic
import Mathlib.Algebra.Order.Interval.Finset.SuccPred
import Mathlib.Order.Interval.Finset.Nat

/-!
# The scheduler keeps its heap, its back-pointers and its records

Every loop of Sked.cc only exchanges records, which `Shuffle` records: the slots in
use are permuted, the back-pointers still point at them, and the clients that own
no such slot are left alone. The order part comes from `HeapOrder` for the key of a
slot, the offset of its `when` in the window of pending times.
-/
namespace Dkftpbench.Sked
open CLib EventClock HeapOrder
variable {Client : Type} {w : ℕ}

/-- The back-pointer of the owner of each slot `1, ..., n` is that slot. -/
def Slots (n : ℕ) (s : Sked Client w) : Prop :=
  ∀ i, 1 ≤ i → i ≤ n → s.skedIndex (s.records i).skc = i

/-- Client `c` owns one of the slots `1, ..., n`. -/
def Owns (n : ℕ) (s : Sked Client w) (c : Client) : Prop :=
  ∃ i, 1 ≤ i ∧ i ≤ n ∧ (s.records i).skc = c

def key (base : BitVec w) (s : Sked Client w) (i : ℕ) : ℕ := offset base (s.records i).when

/-- The pairs of client and time in the slots `1, ..., n`. -/
def pairs (n : ℕ) (s : Sked Client w) : Multiset (Client × BitVec w) :=
  (Finset.Icc 1 n).val.map fun i => ((s.records i).skc, (s.records i).when)

/-- What is queued. -/
def pending (s : Sked Client w) : Multiset (Client × BitVec w) := pairs s.used s

theorem pairs_succ (n : ℕ) (s : Sked Client w) :
    pairs (n+1) s = ((s.records (n+1)).skc, (s.records (n+1)).when) ::ₘ pairs n s := by
  unfold pairs
  rw [← Finset.insert_Icc_right_eq_Icc_add_one (by omega), Finset.insert_val_of_notMem (by simp),
    Multiset.map_cons]

theorem pairs_congr {n : ℕ} {s t : Sked Client w} (h : ∀ i, 1 ≤ i → i ≤ n → t.records i = s.records i) :
    pairs n t = pairs n s := by
  apply Multiset.map_congr rfl
  intro i hi
  rw [h i (Finset.mem_Icc.mp hi).1 (Finset.mem_Icc.mp hi).2]

theorem Slots.inj {n : ℕ} {s : Sked Client w} (hs : Slots n s) {i j : ℕ} (hi : 1 ≤ i)
    (hin : i ≤ n) (hj : 1 ≤ j) (hjn : j ≤ n)
    (h : (s.records i).skc = (s.records j).skc) : i = j := by
  rw [← hs i hi hin, ← hs j hj hjn, h]

/-- `t` is `s` with the records of slots `1, ..., n` rearranged. -/
structure Shuffle (n : ℕ) (s t : Sked Client w) : Prop where
  used : t.used = s.used
  allocated : t.allocated = s.allocated
  perm : ∃ σ : Equiv.Perm ℕ, (∀ i, σ i ≠ i → i ∈ Finset.Icc 1 n) ∧ t.records = s.records ∘ σ
  slots : Slots n t
  frame : ∀ c, ¬ Owns n s c → t.skedIndex c = s.skedIndex c

namespace Shuffle
variable {n : ℕ} {s t u : Sked Client w}

protected theorem refl (hs : Slots n s) : Shuffle n s s :=
  ⟨rfl, rfl, ⟨Equiv.refl ℕ, fun _ h => (h rfl).elim, rfl⟩, hs, fun _ _ => rfl⟩

theorem perm_mem {σ : Equiv.Perm ℕ} (hσ : ∀ i, σ i ≠ i → i ∈ Finset.Icc 1 n) {i : ℕ}
    (hi : i ∈ Finset.Icc 1 n) : σ i ∈ Finset.Icc 1 n := by
  by_cases h : σ (σ i) = σ i
  · rwa [σ.injective h]
  · exact hσ _ h

theorem owns_iff (h : Shuffle n s t) (c : Client) : Owns n t c ↔ Owns n s c := by
  obtain ⟨σ, hσ, hr⟩ := h.perm
  constructor
  · intro hx
    obtain ⟨i, hi, hin, hc⟩ := hx
    have hm := Finset.mem_Icc.mp (perm_mem hσ (Finset.mem_Icc.mpr ⟨hi, hin⟩))
    exact ⟨σ i, hm.1, hm.2, by rw [← hc, hr]; rfl⟩
  · intro hx
    obtain ⟨i, hi, hin, hc⟩ := hx
    have hσ' : ∀ j, σ.symm j ≠ j → j ∈ Finset.Icc 1 n := fun j hj =>
      hσ j fun he => hj (by rw [Equiv.symm_apply_eq, he])
    have hm := Finset.mem_Icc.mp (perm_mem hσ' (Finset.mem_Icc.mpr ⟨hi, hin⟩))
    exact ⟨σ.symm i, hm.1, hm.2, by rw [hr, Function.comp, σ.apply_symm_apply, hc]⟩

protected theorem trans (h : Shuffle n s t) (k : Shuffle n t u) : Shuffle n s u := by
  obtain ⟨σ, hσ, hr⟩ := h.perm
  obtain ⟨τ, hτ, hq⟩ := k.perm
  refine ⟨k.used.trans h.used, k.allocated.trans h.allocated, ⟨τ.trans σ, ?_, ?_⟩, k.slots, ?_⟩
  · intro i hi
    by_cases ht : τ i = i
    · exact hσ i (by rwa [Equiv.trans_apply, ht] at hi)
    · exact hτ i ht
  · rw [hq, hr]
    rfl
  · intro c hc
    rw [k.frame c fun ho => hc ((h.owns_iff c).mp ho), h.frame c hc]

theorem pairs_eq (h : Shuffle n s t) : pairs n t = pairs n s := by
  obtain ⟨σ, hσ, hr⟩ := h.perm
  have hm : (Finset.Icc 1 n).val.map σ = (Finset.Icc 1 n).val :=
    congrArg Finset.val (Finset.map_perm (s := Finset.Icc 1 n) (σ := σ) (fun i hi => hσ i hi))
  unfold pairs
  conv_rhs => rw [← hm, Multiset.map_map]
  rw [hr]
  rfl

/-- What holds of every record in use is not disturbed. -/
theorem forall_records (h : Shuffle n s t) {P : SkedRecord Client w → Prop}
    (hs : ∀ i, 1 ≤ i → i ≤ n → P (s.records i)) : ∀ i, 1 ≤ i → i ≤ n → P (t.records i) := by
  obtain ⟨σ, hσ, hr⟩ := h.perm
  intro i hi hin
  have hm := Finset.mem_Icc.mp (perm_mem hσ (Finset.mem_Icc.mpr ⟨hi, hin⟩))
  rw [hr]
  exact hs _ hm.1 hm.2

end Shuffle

theorem leastChild_min {s : Sked Client w} {base : BitVec w} {index : ℕ}
    (hw : ∀ i, 1 ≤ i → i ≤ s.used → InWindow base (s.records i).when) (h1 : 0 < index)
    {i : ℕ} (hi : i ≤ s.used) (hp : i/2 = index) :
    key base s (s.leastChild index) ≤ key base s i := by
  have hcase : i = index*2 ∨ i = index*2+1 := by omega
  dsimp only [leastChild]
  split_ifs with hc
  · have hle := (eclockAfter_eq_false_iff (hw (index*2+1) (by omega) (by omega))
      (hw (index*2) (by omega) (by omega))).mp (by simpa using hc.2)
    rcases hcase with rfl | rfl
    · exact hle
    · exact le_rfl
  · rcases hcase with rfl | rfl
    · exact le_rfl
    · have hlt : index*2 < s.used := by omega
      have haft : eclockAfter (s.records (index*2+1)).when (s.records (index*2)).when = true := by
        by_contra hne
        exact hc ⟨hlt, by simpa using hne⟩
      exact ((eclockAfter_iff (hw (index*2+1) (by omega) (by omega))
        (hw (index*2) (by omega) (by omega))).mp haft).le

section Moves
variable [DecidableEq Client] {n i j : ℕ} {s : Sked Client w}

theorem exchange_records (s : Sked Client w) (i j : ℕ) :
    (s.exchange i j).records = s.records ∘ Equiv.swap i j := by
  funext l
  simp only [exchange, storeAt, Function.comp, Equiv.swap_apply_def, Function.update_apply]
  split_ifs <;> simp_all

theorem key_exchange (base : BitVec w) (s : Sked Client w) (i j : ℕ) :
    key base (s.exchange i j) = key base s ∘ Equiv.swap i j := by
  funext l
  simp only [key, exchange_records, Function.comp]

theorem exchange_shuffle (hs : Slots n s) (hi : 1 ≤ i) (hin : i ≤ n) (hj : 1 ≤ j) (hjn : j ≤ n)
    (hij : i ≠ j) : Shuffle n s (s.exchange i j) := by
  have hne : (s.records i).skc ≠ (s.records j).skc := fun h => hij (hs.inj hi hin hj hjn h)
  have hidx : ∀ c, (s.exchange i j).skedIndex c =
      if c = (s.records j).skc then i else if c = (s.records i).skc then j else s.skedIndex c := by
    intro c
    simp only [exchange, storeAt, Function.update_apply]
  refine ⟨rfl, rfl, ⟨Equiv.swap i j, ?_, exchange_records s i j⟩, ?_, ?_⟩
  · intro l hl
    rw [Finset.mem_Icc]
    by_cases hli : l = i
    · omega
    · by_cases hlj : l = j
      · omega
      · exact (hl (Equiv.swap_apply_of_ne_of_ne hli hlj)).elim
  · intro l hl hln
    rw [hidx, exchange_records, Function.comp]
    by_cases hli : l = i
    · rw [hli, Equiv.swap_apply_left, if_pos rfl]
    · by_cases hlj : l = j
      · rw [hlj, Equiv.swap_apply_right, if_neg hne, if_pos rfl]
      · rw [Equiv.swap_apply_of_ne_of_ne hli hlj, if_neg, if_neg, hs l hl hln]
        · exact fun h => hli (hs.inj hl hln hi hin h)
        · exact fun h => hlj (hs.inj hl hln hj hjn h)
  · intro c hc
    rw [hidx, if_neg, if_neg]
    · exact fun h => hc ⟨i, hi, hin, h.symm⟩
    · exact fun h => hc ⟨j, hj, hjn, h.symm⟩

/-- `siftUp` ends with a heap if only the pair of `index` and its parent was wrong. -/
theorem siftUp_spec {base : BitVec w} {index : ℕ} (hs : Slots n s)
    (hw : ∀ i, 1 ≤ i → i ≤ n → InWindow base (s.records i).when)
    (h1 : 1 ≤ index) (hn : index ≤ n) (hu : UpAt (key base s) n index) :
    Shuffle n s (s.siftUp index) ∧ IsHeap (key base (s.siftUp index)) n := by
  induction s, index using siftUp.induct with
  | case1 s index h2 parent hafter =>
      rw [siftUp, if_pos h2, if_pos hafter]
      refine ⟨.refl hs, hu.isHeap fun _ => ?_⟩
      exact ((eclockAfter_iff (hw _ h1 hn) (hw _ (by omega) (by omega))).mp hafter).le
  | case2 s index h2 parent hafter ih =>
      have hle := (eclockAfter_eq_false_iff (hw _ h1 hn) (hw (index/2) (by omega) (by omega))).mp
        (by simpa using hafter)
      have hx := exchange_shuffle hs h1 hn (j := index/2) (by omega) (by omega) (by omega)
      obtain ⟨hsh, hheap⟩ := ih hx.slots
        (hx.forall_records (P := fun r => InWindow base r.when) hw) (by omega) (by omega)
        (by rw [key_exchange]; exact hu.raise h2 hn hle)
      rw [siftUp, if_pos h2, if_neg hafter]
      exact ⟨hx.trans hsh, hheap⟩
  | case3 s index h2 =>
      rw [siftUp, if_neg h2]
      exact ⟨.refl hs, hu.isHeap fun h => (h2 h).elim⟩

/-- `siftDown` ends with a heap if only the pairs of `index` and its children were wrong. -/
theorem siftDown_spec {base : BitVec w} {index : ℕ} (h0 : 0 < index) (hs : Slots s.used s)
    (hw : ∀ i, 1 ≤ i → i ≤ s.used → InWindow base (s.records i).when)
    (hn : index ≤ s.used) (hd : DownAt (key base s) s.used index) :
    Shuffle s.used s (s.siftDown index h0) ∧
      IsHeap (key base (s.siftDown index h0)) s.used := by
  induction s, index, h0 using siftDown.induct with
  | case1 s index h0 hend =>
      rw [siftDown, if_pos hend]
      exact ⟨.refl hs, hd.isHeap fun i hi hp => by omega⟩
  | case2 s index h0 hend child hafter =>
      have hc : s.leastChild index ≤ s.used := s.leastChild_le (by omega)
      have hlt := s.lt_leastChild h0
      rw [siftDown, if_neg hend, if_pos hafter]
      refine ⟨.refl hs, hd.isHeap fun i hi hp => ?_⟩
      have hle := (eclockAfter_iff (hw _ (by omega) hc) (hw _ h0 hn)).mp hafter
      exact hle.le.trans (leastChild_min hw h0 hi hp)
  | case3 s index h0 hend child hafter ih =>
      have hc : s.leastChild index ≤ s.used := s.leastChild_le (by omega)
      have hlt := s.lt_leastChild h0
      have hle := (eclockAfter_eq_false_iff (hw child (by omega) hc) (hw index h0 hn)).mp
        (by simpa using hafter)
      have hx := exchange_shuffle hs (i := index) (j := child) h0 hn (by omega) hc (by omega)
      obtain ⟨hsh, hheap⟩ := ih hx.slots
        (hx.forall_records (P := fun r => InWindow base r.when) hw) hc
        (by
          rw [key_exchange, Equiv.swap_comm]
          exact hd.lower h0 (s.leastChild_div index) hc hle fun i hi hp =>
            leastChild_min hw h0 hi hp)
      rw [siftDown, if_neg hend, if_neg hafter]
      exact ⟨hx.trans hsh, hheap⟩

/-- Lifting a record to the root keeps the order of all the others. -/
theorem lift_spec {base : BitVec w} {index : ℕ} (hs : Slots n s) (h1 : 1 ≤ index)
    (hn : index ≤ n) (hh : Hole (key base s) n index) :
    Shuffle n s (s.lift index) ∧ Hole (key base (s.lift index)) n 1 ∧
      (s.lift index).records 1 = s.records index := by
  induction s, index using lift.induct with
  | case1 s index h2 parent ih =>
      have hx := exchange_shuffle hs h1 hn (j := index/2) (by omega) (by omega) (by omega)
      obtain ⟨hsh, hhole, hr⟩ := ih hx.slots (by omega) (by omega)
        (by rw [key_exchange]; exact hh.raise h2 hn)
      rw [lift, if_pos h2]
      refine ⟨hx.trans hsh, hhole, hr.trans ?_⟩
      rw [exchange_records, Function.comp, Equiv.swap_apply_right]
  | case2 s index h2 =>
      rw [lift, if_neg h2]
      obtain rfl : index = 1 := by omega
      exact ⟨.refl hs, hh, rfl⟩

/-- `t` is `s` without the record at its root, refilled from the last slot. -/
structure Refilled (base : BitVec w) (s t : Sked Client w) : Prop where
  used : t.used = s.used
  allocated : t.allocated = s.allocated
  slots : Slots s.used t
  heap : IsHeap (key base t) s.used
  window : ∀ i, 1 ≤ i → i ≤ s.used → InWindow base (t.records i).when
  pairs : ((s.records 1).skc, (s.records 1).when) ::ₘ pairs s.used t = pairs (s.used+1) s
  owns : ∀ c, Owns s.used t c ↔ ∃ i, 2 ≤ i ∧ i ≤ s.used+1 ∧ (s.records i).skc = c
  frame : ∀ c, ¬ Owns s.used t c → t.skedIndex c = s.skedIndex c

theorem pairs_root (hn : 1 ≤ n) (r : SkedRecord Client w) :
    ((s.records 1).skc, (s.records 1).when) ::ₘ pairs n (s.storeAt 1 r) =
      (r.skc, r.when) ::ₘ pairs n s := by
  induction n, hn using Nat.le_induction with
  | base =>
      rw [pairs_succ, pairs_succ]
      rw [show pairs 0 (s.storeAt 1 r) = pairs 0 s from rfl, Multiset.cons_swap]
      simp [storeAt]
  | succ n hn ih =>
      have hr : (s.storeAt 1 r).records (n+1) = s.records (n+1) :=
        Function.update_of_ne (by omega) _ _
      rw [pairs_succ, hr, Multiset.cons_swap, ih, Multiset.cons_swap, ← pairs_succ]

theorem key_storeAt (base : BitVec w) (s : Sked Client w) (i : ℕ) (r : SkedRecord Client w) :
    key base (s.storeAt i r) = Function.update (key base s) i (offset base r.when) := by
  funext l
  simp only [key, storeAt, Function.update_apply]
  split_ifs <;> rfl

theorem refill_spec {base : BitVec w} (hu : 1 ≤ s.used)
    (hs : ∀ i, 2 ≤ i → i ≤ s.used+1 → s.skedIndex (s.records i).skc = i)
    (hw : ∀ i, 2 ≤ i → i ≤ s.used+1 → InWindow base (s.records i).when)
    (hh : Hole (key base s) (s.used+1) 1) : Refilled base s s.refill := by
  obtain ⟨t, ht⟩ : ∃ t, t = s.storeAt 1 (s.records (s.used+1)) := ⟨_, rfl⟩
  have hfirst : t.records 1 = s.records (s.used+1) := by
    rw [ht]
    exact Function.update_self 1 _ s.records
  have hrest : ∀ i, 2 ≤ i → t.records i = s.records i := by
    intro i hi
    rw [ht]
    exact Function.update_of_ne (by omega) _ s.records
  have hslots : Slots s.used t := by
    intro i hi hin
    by_cases h1 : i = 1
    · rw [h1, hfirst, ht]
      exact Function.update_self _ _ _
    · rw [hrest i (by omega), ht]
      refine (Function.update_of_ne (fun he => ?_) _ _).trans (hs i (by omega) (by omega))
      have h2 := hs i (by omega) (by omega)
      rw [he, hs _ (by omega) le_rfl] at h2
      omega
  have hwin : ∀ i, 1 ≤ i → i ≤ s.used → InWindow base (t.records i).when := by
    intro i hi hin
    by_cases h1 : i = 1
    · rw [h1, hfirst]
      exact hw _ (by omega) le_rfl
    · rw [hrest i (by omega)]
      exact hw i (by omega) (by omega)
  have hdown : DownAt (key base t) s.used 1 := by
    rw [ht, key_storeAt]
    exact (hh.mono (Nat.le_succ _)).downAt_root _
  have howns : ∀ c, Owns s.used t c ↔ ∃ i, 2 ≤ i ∧ i ≤ s.used+1 ∧ (s.records i).skc = c := by
    intro c
    constructor
    · intro hx
      obtain ⟨i, hi, hin, hc⟩ := hx
      by_cases h1 : i = 1
      · exact ⟨s.used+1, by omega, le_rfl, by rw [← hfirst, ← h1, hc]⟩
      · exact ⟨i, by omega, by omega, by rw [← hrest i (by omega), hc]⟩
    · intro hx
      obtain ⟨i, hi, hin, hc⟩ := hx
      by_cases h1 : i = s.used+1
      · exact ⟨1, le_rfl, hu, by rw [hfirst, ← h1, hc]⟩
      · exact ⟨i, by omega, by omega, by rw [hrest i hi, hc]⟩
  have hframe : ∀ c, ¬ Owns s.used t c → t.skedIndex c = s.skedIndex c := by
    intro c hc
    rw [ht]
    refine Function.update_of_ne (fun he => hc ?_) _ _
    exact ⟨1, le_rfl, hu, by rw [hfirst, he]⟩
  have hpairs : ((s.records 1).skc, (s.records 1).when) ::ₘ pairs s.used t =
      pairs (s.used+1) s := by
    rw [ht, pairs_root hu, ← pairs_succ]
  have hsift : Shuffle s.used t s.refill ∧ IsHeap (key base s.refill) s.used := by
    have hr : s.refill = if 1 < t.used then t.siftDown 1 Nat.one_pos else t := by
      rw [ht]
      rfl
    have htu : t.used = s.used := by
      rw [ht]
      rfl
    rw [hr]
    split_ifs with h1
    · rw [← htu] at hslots hwin hdown hu ⊢
      exact siftDown_spec Nat.one_pos hslots hwin hu hdown
    · refine ⟨.refl hslots, fun i hi hin => by omega⟩
  obtain ⟨hsh, hheap⟩ := hsift
  refine ⟨hsh.used.trans (by rw [ht]; rfl), hsh.allocated.trans (by rw [ht]; rfl), hsh.slots,
    hheap, hsh.forall_records (P := fun r => InWindow base r.when) hwin, ?_, ?_, ?_⟩
  · rw [hsh.pairs_eq, hpairs]
  · exact fun c => (hsh.owns_iff c).trans (howns c)
  · intro c hc
    have hc' := fun ho => hc ((hsh.owns_iff c).mpr ho)
    rw [hsh.frame c hc', hframe c hc']

end Moves
end Dkftpbench.Sked
