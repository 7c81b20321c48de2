import Dkftpbench.Agenda
import Dkftpbench.SkedRuns

/-!
# Running the events that are due

`runAll` pops the root and calls its client back, again and again. A callback is
any finite sequence of additions and deletions, chosen with full knowledge of what
happened so far and of the queue; it may only add clients that are not queued, at
times in the window. The loop may never end, so its runs are cut after a number of
iterations. The trace of a run is judged as an agenda, and the queue left behind is
the agenda left behind.
-/
namespace Dkftpbench.Sked
open CLib EventClock Agenda
variable {Client : Type} {w : ℕ}

/-- What a callback may do to the queue. -/
inductive Action (Client : Type) (w : ℕ) where
  | add (c : Client) (when : BitVec w) (realloc : Option (Memory Client w))
  | del (c : Client)

inductive Iteration (Client : Type) (w : ℕ) where
  | ret (err : ℤ)
  | abort
  | call (r : SkedRecord Client w) (s : Sked Client w)

inductive Outcome where
  | running
  | returned (err : ℤ)
  | aborted
deriving DecidableEq, Repr

abbrev Trace (Client : Type) (w : ℕ) := List (Event Client (BitVec w))

section
variable [DecidableEq Client]

/-- The loop body of `runAll` up to the callback; a failed assertion aborts. -/
def iterate (s : Sked Client w) (now : BitVec w) : Iteration Client w :=
  match s.top with
  | none => .ret 0
  | some p =>
    if eclockAfter p.when now then .ret 0
    else if s.skedIndex p.skc < 1 ∨ s.used < s.skedIndex p.skc ∨
        (s.records (s.skedIndex p.skc)).skc ≠ p.skc then .ret EINVAL
    else if s.skedIndex p.skc ≠ 1 then .abort
    else
      match s.pop with
      | none => .abort
      | some t => if t.skedIndex p.skc ≠ 0 then .abort else .call p t

/-- One action of a callback, and what it adds to the trace; a refused addition
adds nothing. -/
def act (s : Sked Client w) : Action Client w → Option (Trace Client w × Sked Client w)
  | .add c when realloc =>
      (s.addClient c when realloc).map fun r => (if r.1 = 0 then [.added c when] else [], r.2)
  | .del c => (s.delClient c).map fun r => ([.deleted c], r.2)

def actAll (s : Sked Client w) : List (Action Client w) → Option (Trace Client w × Sked Client w)
  | [] => some ([], s)
  | a :: as =>
    match s.act a with
    | none => none
    | some (evs, t) => (t.actAll as).map fun r => (evs ++ r.1, r.2)

/-- What the client called in a state does, given the trace so far. -/
abbrev Callback (Client : Type) (w : ℕ) :=
  Trace Client w → Sked Client w → Client → List (Action Client w)

/-- `runAll` cut after `n` iterations, with the trace and the queue at that moment. -/
def runAll (cb : Callback Client w) (now : BitVec w) :
    ℕ → Trace Client w → Sked Client w → Outcome × Trace Client w × Sked Client w
  | 0, tr, s => (.running, tr, s)
  | n+1, tr, s =>
    match s.iterate now with
    | .ret err => (.returned err, tr, s)
    | .abort => (.aborted, tr, s)
    | .call r t =>
      match t.actAll (cb tr t r.skc) with
      | none => (.aborted, tr ++ [.called r.skc r.when], t)
      | some (evs, u) => runAll cb now n (tr ++ .called r.skc r.when :: evs) u

/-- Every addition is of a client not queued at that moment, at a time in the window. -/
def Legal (base : BitVec w) : Sked Client w → List (Action Client w) → Prop
  | _, [] => True
  | s, .add c when realloc :: as => s.skedIndex c = 0 ∧ InWindow base when ∧
      ∀ err t, s.addClient c when realloc = some (err, t) → Legal base t as
  | s, .del c :: as => ∀ err t, s.delClient c = some (err, t) → Legal base t as

/-- Callbacks that keep to the rules, whatever they are called in. -/
structure Callbacks (Client : Type) [DecidableEq Client] (w : ℕ) (base : BitVec w) where
  actions : Callback Client w
  legal : ∀ tr s c, Legal base s (actions tr s c)

/-- The callbacks only add times after `now`. -/
def Callback.AddsAfter (cb : Callback Client w) (now : BitVec w) : Prop :=
  ∀ tr s c d when realloc, .add d when realloc ∈ cb tr s c → eclockAfter when now = true

end

/-- A time is due when it is not after `now`. -/
abbrev Due (now t : BitVec w) : Prop := eclockAfter t now = false

abbrev Late (t u : BitVec w) : Prop := eclockAfter t u = true

theorem pending_nodup {base : BitVec w} {s : Sked Client w} (h : WellFormed base s) :
    ((pending s).map Prod.fst).Nodup := by
  rw [pending, pairs, Multiset.map_map]
  refine (Multiset.nodup_map_iff_inj_on (Finset.nodup _)).mpr fun i hi j hj he => ?_
  rw [Finset.mem_val, Finset.mem_Icc] at hi hj
  exact h.slots.inj hi.1 hi.2 hj.1 hj.2 he

section
variable [DecidableEq Client] {base now : BitVec w} {s : Sked Client w}

/-- On a well-formed queue the loop body returns 0 when nothing is due, and otherwise
calls a client that is due, first, and already out of the queue. -/
theorem iterate_spec (h : WellFormed base s) (now : BitVec w) :
    (s.iterate now = .ret 0 ∧ (InWindow base now → ∀ q ∈ pending s, ¬ Due now q.2)) ∨
    ∃ r t, s.iterate now = .call r t ∧ WellFormed base t ∧
      CallOf (Due now) Late (pending s) r.skc r.when ∧
      pending t = Agenda.step (pending s) (.called r.skc r.when) ∧ t.skedIndex r.skc = 0 := by
  rcases Nat.eq_zero_or_pos s.used with h0 | hpos
  · refine .inl ⟨?_, fun _ q hq => ?_⟩
    · simp [iterate, Sked.top, Sked.empty, Sked.size, h0]
    · rw [pending, h0] at hq
      simp [pairs] at hq
  have htop : s.top = some (s.records 1) := by simp [Sked.top, Sked.empty, Sked.size, hpos.ne']
  have hidx := h.slots 1 le_rfl hpos
  by_cases hafter : eclockAfter (s.records 1).when now = true
  · refine .inl ⟨?_, fun hnow q hq => ?_⟩
    · simp only [iterate, htop, if_pos hafter]
    · have hmin := (eclockAfter_eq_false_iff (h.window 1 le_rfl hpos) (h.window_mem hq)).mp
        (h.top_min htop hq)
      have hlt := (eclockAfter_iff (h.window 1 le_rfl hpos) hnow).mp hafter
      rw [Bool.not_eq_false, eclockAfter_iff (h.window_mem hq) hnow]
      exact hlt.trans_le hmin
  · obtain ⟨t, hpop, hwf, hpend, hzero⟩ := pop_spec h hpos
    have hin : ¬ (s.skedIndex (s.records 1).skc < 1 ∨ s.used < s.skedIndex (s.records 1).skc ∨
        (s.records (s.skedIndex (s.records 1).skc)).skc ≠ (s.records 1).skc) := by
      rw [hidx]
      simp only [not_or, not_lt, le_refl, ne_eq, not_not, and_true, true_and]
      omega
    refine .inr ⟨s.records 1, t, ?_, hwf, ⟨?_, ?_, ?_, pending_nodup h⟩, ?_, hzero⟩
    · simp only [iterate, htop, if_neg hafter, if_neg hin, if_neg (not_not.mpr hidx), hpop,
        if_neg (not_not.mpr hzero)]
    · rw [hpend]
      exact Multiset.mem_cons_self _ _
    · intro q hq
      rw [Bool.not_eq_true]
      exact h.top_min htop hq
    · simpa using hafter
    · rw [hpend]
      exact (Multiset.erase_cons_head _ _).symm

theorem permitted_of_no_calls {p : Agenda.Pairs Client (BitVec w)} {evs : Trace Client w}
    (h : ∀ c t, .called c t ∉ evs) : Permitted (Due now) Late p evs := by
  induction evs generalizing p with
  | nil => exact trivial
  | cons e evs ih =>
      have ht := fun p => ih (p := p) fun c t hc => h c t (List.mem_cons_of_mem _ hc)
      cases e with
      | called c t => exact (h c t (by simp)).elim
      | added c t => exact ht _
      | deleted c => exact ht _

theorem actAll_spec (h : WellFormed base s) {as : List (Action Client w)}
    (hl : Legal base s as) :
    ∃ evs t, s.actAll as = some (evs, t) ∧ WellFormed base t ∧
      pending t = after (pending s) evs ∧ (∀ c x, .called c x ∉ evs) ∧
      ∀ c x, .added c x ∈ evs → ∃ realloc, .add c x realloc ∈ as := by
  induction as generalizing s with
  | nil => exact ⟨[], s, rfl, h, rfl, by simp, by simp⟩
  | cons a as ih =>
      have hstep : ∃ evs t, s.act a = some (evs, t) ∧ WellFormed base t ∧ Legal base t as ∧
          pending t = after (pending s) evs ∧ (∀ c x, .called c x ∉ evs) ∧
          ∀ c x, .added c x ∈ evs → ∃ realloc, .add c x realloc ∈ a :: as := by
        cases a with
        | add c when realloc =>
            obtain ⟨h0, hw, hrest⟩ := hl
            have hno := (h.skedIndex_eq_zero_iff c).mp h0
            rcases addClient_spec h c when realloc hno with ha | ⟨t, ha, ht⟩
            · refine ⟨[], s, ?_, h, hrest _ _ ha, rfl, by simp, by simp⟩
              rw [act, ha]
              rfl
            · refine ⟨[.added c when], t, ?_, (ht hw).1, hrest _ _ ha, (ht hw).2, by simp, ?_⟩
              · rw [act, ha]
                rfl
              · intro d x hd
                cases List.mem_singleton.mp hd
                exact ⟨realloc, by simp⟩
        | del c =>
            obtain ⟨t, hd, ht, hp, _⟩ := delClient_spec h c
            refine ⟨[.deleted c], t, ?_, ht, hl _ _ hd, hp, by simp, by simp⟩
            rw [act, hd]
            rfl
      obtain ⟨evs, t, ha, ht, hlt, hp, hnc, hadd⟩ := hstep
      obtain ⟨fvs, u, hb, hu, hq, hnc', hadd'⟩ := ih ht hlt
      refine ⟨evs ++ fvs, u, ?_, hu, ?_, ?_, ?_⟩
      · simp only [actAll, ha, hb, Option.map_some]
      · rw [hq, hp, after_append]
      · intro c x hc
        rcases List.mem_append.mp hc with hc | hc
        · exact hnc c x hc
        · exact hnc' c x hc
      · intro c x hc
        rcases List.mem_append.mp hc with hc | hc
        · exact hadd c x hc
        · obtain ⟨r, hr⟩ := hadd' c x hc
          exact ⟨r, List.mem_cons_of_mem _ hr⟩

/-- The state and the trace after any number of iterations. -/
theorem runAll_spec (cb : Callbacks Client w base) (hnow : InWindow base now) (n : ℕ)
    (tr : Trace Client w) (h : WellFormed base s) :
    ∃ o evs u, runAll cb.actions now n tr s = (o, tr ++ evs, u) ∧ WellFormed base u ∧
      pending u = after (pending s) evs ∧ Permitted (Due now) Late (pending s) evs ∧
      (o = .running ∨ o = .returned 0 ∧ ∀ q ∈ pending u, ¬ Due now q.2) ∧
      (cb.actions.AddsAfter now → ∀ c x, .added c x ∈ evs → ¬ Due now x) := by
  induction n generalizing tr s with
  | zero => exact ⟨.running, [], s, by simp [runAll], h, rfl, trivial, .inl rfl, by simp⟩
  | succ n ih =>
      rcases iterate_spec h now with ⟨hi, hdone⟩ | ⟨r, t, hi, ht, hcall, hp, _⟩
      · refine ⟨.returned 0, [], s, ?_, h, rfl, trivial, .inr ⟨rfl, hdone hnow⟩, by simp⟩
        simp only [runAll, hi, List.append_nil]
      · obtain ⟨evs, u, ha, hu, hq, hnc, hadd⟩ := actAll_spec ht (cb.legal tr t r.skc)
        obtain ⟨o, fvs, v, hr, hv, hq', hperm, ho, hadd'⟩ :=
          ih (tr ++ .called r.skc r.when :: evs) hu
        refine ⟨o, .called r.skc r.when :: (evs ++ fvs), v, ?_, hv, ?_, ?_, ho, ?_⟩
        · simp only [runAll, hi, ha, hr, List.append_assoc, List.cons_append]
        · rw [hq', hq, hp, after_cons, after_append]
        · refine ⟨hcall, permitted_append.mpr ⟨permitted_of_no_calls hnc, ?_⟩⟩
          rwa [hq, hp] at hperm
        · intro hlater c x hx
          rcases List.mem_append.mp ((List.mem_cons.mp hx).resolve_left (by simp)) with hx | hx
          · obtain ⟨realloc, hx⟩ := hadd c x hx
            rw [Bool.not_eq_false]
            exact hlater _ _ _ c x realloc hx
          · exact hadd' hlater c x hx

/-- One more iteration than there are due pairs is enough. -/
theorem runAll_returns (cb : Callbacks Client w base) (hlater : cb.actions.AddsAfter now) (n : ℕ)
    (tr : Trace Client w) (h : WellFormed base s)
    (hn : dueCount (Due now) (pending s) < n) :
    (runAll cb.actions now n tr s).1 = .returned 0 := by
  induction n generalizing tr s with
  | zero => omega
  | succ n ih =>
      rcases iterate_spec h now with ⟨hi, _⟩ | ⟨r, t, hi, ht, hcall, hp, _⟩
      · simp only [runAll, hi]
      · obtain ⟨evs, u, ha, hu, hq, hnc, hadd⟩ := actAll_spec ht (cb.legal tr t r.skc)
        simp only [runAll, hi, ha]
        apply ih _ hu
        have hone := hcall.dueCount
        rw [← hp] at hone
        have hle : dueCount (Due now) (pending u) ≤ dueCount (Due now) (pending t) := by
          rw [hq]
          refine dueCount_after_le fun c x hx => ?_
          obtain ⟨realloc, hx⟩ := hadd c x hx
          rw [Bool.not_eq_false]
          exact hlater _ _ _ c x realloc hx
        omega

/-- Whatever the callbacks do by the rules: `runAll` runs or returns 0, each client
called is first and due and out of the queue, a deletion or a call is followed by
another call of the same client only after an addition. If they only add times after
`now`, it returns, having called the due clients that were not deleted before. -/
theorem runAll_calls_due (cb : Callbacks Client w base) (h : WellFormed base s)
    (hnow : InWindow base now) :
    (∀ n o tr u, runAll cb.actions now n [] s = (o, tr, u) →
      (o = .running ∨ o = .returned 0) ∧ pending u = after (pending s) tr ∧
      (∀ r t, u.iterate now = .call r t →
        (r.skc, r.when) ∈ pending u ∧ eclockAfter r.when now = false ∧
        (∀ q ∈ pending u, eclockAfter r.when q.2 = false) ∧
        t.skedIndex r.skc = 0 ∧ ∀ x, (r.skc, x) ∉ pending t) ∧
      (∀ c pre mid post t, tr = pre ++ .deleted c :: (mid ++ .called c t :: post) →
        ∃ x, .added c x ∈ mid) ∧
      (∀ c pre mid post t t', tr = pre ++ .called c t :: (mid ++ .called c t' :: post) →
        ∃ x, .added c x ∈ mid) ∧
      ∀ c, calls c tr ≤ adds c tr + held c (pending s)) ∧
    (cb.actions.AddsAfter now → ∃ n tr u,
      runAll cb.actions now n [] s = (.returned 0, tr, u) ∧
      (∀ c t, .called c t ∈ tr ↔ ((c, t) ∈ pending s ∧ eclockAfter t now = false) ∧
        ∀ pre post, tr = pre ++ .deleted c :: post → .called c t ∈ pre) ∧
      (callTimes tr).Pairwise (fun t u => eclockAfter t u = false) ∧
      ∀ q ∈ pending u, eclockAfter q.2 now = true) := by
  constructor
  · intro n o tr u hr
    obtain ⟨o', evs, u', hr', hu, hp, hperm, ho, _⟩ := runAll_spec cb hnow n [] h
    cases hr.symm.trans hr'
    rw [List.nil_append] at *
    refine ⟨ho.imp_right And.left, hp, ?_, ?_, ?_, ?_⟩
    · intro r t hi
      rcases iterate_spec hu now with ⟨hi', _⟩ | ⟨r', t', hi', ht, hcall, hpt, hzero⟩
      · cases hi.symm.trans hi'
      · cases hi.symm.trans hi'
        refine ⟨hcall.mem, hcall.isDue, fun q hq => ?_, hzero, fun x hx => ?_⟩
        · rw [← Bool.not_eq_true]
          exact hcall.first q hq
        · exact (ht.skedIndex_eq_zero_iff _).mp hzero (owns_iff_mem.mpr ⟨x, hx⟩)
    · intro c pre mid post t heq
      subst heq
      exact hperm.added_of_deleted
    · intro c pre mid post t t' heq
      subst heq
      exact hperm.added_between
    · intro c
      have hle := hperm.calls_le (c := c)
      omega
  · intro hlater
    obtain ⟨o, evs, u, hr, hu, hp, hperm, ho, hadd⟩ :=
      runAll_spec cb hnow (dueCount (Due now) (pending s) + 1) [] h
    have hret := runAll_returns cb hlater _ [] h (Nat.lt_succ_self _)
    rw [hr] at hret
    obtain rfl : o = .returned 0 := hret
    obtain ⟨_, hleft⟩ := ho.resolve_left (by simp)
    refine ⟨_, evs, u, hr, fun c t => ?_, ?_, ?_⟩
    · exact hperm.called_iff (hadd hlater) (by rwa [← hp])
    · exact (hperm.callTimes_sorted (hadd hlater)).imp fun hn => by simpa using hn
    · exact fun q hq => by simpa using hleft q hq

/-- Every client called adds itself again, 20 ticks after the start of the window. -/
def readd : Callbacks ℕ 64 0 where
  actions _ s c := if s.skedIndex c = 0 then [.add c 20 none] else []
  legal tr s c := by
    split_ifs with h0
    · exact ⟨h0, by decide, fun _ _ _ => trivial⟩
    · exact trivial

theorem runAll_calls_due_readd :
    ∃ s : Sked ℕ 64, pending s = {(7, 5)} ∧ ∃ n tr u,
      runAll readd.actions 10 n [] s = (.returned 0, tr, u) ∧
      ∀ q ∈ pending u, eclockAfter q.2 10 = true := by
  have hlater : readd.actions.AddsAfter (10 : BitVec 64) := by
    intro tr s c d when realloc hm
    simp only [readd] at hm
    split_ifs at hm
    · cases List.mem_singleton.mp hm
      decide
    · cases hm
  let m : Memory ℕ 64 := fun _ => ⟨0, 0⟩
  rcases addClient_spec (init_wellFormed 0 m m) 7 5 none (fun ⟨i, hi, hin, _⟩ => by
    simp only [Sked.init] at hin
    omega) with ha | ⟨s, _, hs⟩
  · have hz : (Sked.addClient ((fresh m).init (some m)).2 7 5 none).map Prod.fst = some 0 := rfl
    rw [ha] at hz
    cases hz
  obtain ⟨hwf, hp⟩ := hs (by decide)
  obtain ⟨n, tr, u, hr, _, _, hq⟩ := (runAll_calls_due readd hwf (by decide)).2 hlater
  exact ⟨s, hp, n, tr, u, hr, hq⟩

end
end Dkftpbench.Sked
