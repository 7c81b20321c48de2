import Dkftpbench.Bench
import Dkftpbench.SkedRunAll

/-!
# The scheduler as a timetable

The models of the pipe, the users and the platoon know of the scheduler only their own
entries. Here the heap of Sked.cc is seen as the table of these entries: a client has
one or none. What the models say happens to an entry is what the operations on the heap do
to the table, and an iteration of `runAll` calls the client whose entry is due first,
as long as there is one.
-/
namespace Dkftpbench
open CLib EventClock

namespace Sked
variable {Client : Type} {w : ℕ} {base now when t : BitVec w} {s u : Sked Client w} {c : Client}

/-- When a client is to be called, if it is in the queue. -/
def table (s : Sked Client w) (c : Client) : Option (BitVec w) :=
  if s.skedIndex c = 0 then none else some (s.records (s.skedIndex c)).when

theorem table_eq_none_iff : s.table c = none ↔ s.skedIndex c = 0 := by
  unfold table
  split
  · next h0 => exact iff_of_true rfl h0
  · next h0 => exact iff_of_false (Option.some_ne_none _) h0

theorem table_eq_some_iff (h : WellFormed base s) : s.table c = some t ↔ (c, t) ∈ pending s := by
  rw [pending, mem_pairs]
  unfold table
  constructor
  · intro heq
    split at heq
    · cases heq
    · next hc =>
      obtain ⟨hpos, hle, hslot⟩ := h.skedIndex_slot hc
      exact ⟨s.skedIndex c, hpos, hle, hslot, Option.some.inj heq⟩
  · rintro ⟨i, hpos, hle, rfl, rfl⟩
    rw [h.slots i hpos hle, if_neg (by omega)]

theorem table_eq (hs : WellFormed base s) (hu : WellFormed base u) (h : ∀ x, (c, x) ∈ pending u ↔ (c, x) ∈ pending s) :
    u.table c = s.table c := by
  apply Option.ext
  intro x
  rw [table_eq_some_iff hu, table_eq_some_iff hs]
  exact h x

variable [DecidableEq Client]

/-- A client that is queued must not be added again. Any other is added, unless there is no memory. -/
theorem addClient_table (h : WellFormed base s) (c : Client) (realloc : Option (Memory Client w))
    (hw : InWindow base when) : s.addClient c when realloc = none ∧ s.table c ≠ none ∨
      ∃ err u, s.addClient c when realloc = some (err, u) ∧ s.table c = none ∧ WellFormed base u ∧
        u.table = if err = 0 then Function.update s.table c (some when) else s.table := by
  by_cases h0 : s.skedIndex c = 0
  · right
    have hnone := table_eq_none_iff.2 h0
    rcases addClient_spec h c when realloc ((h.skedIndex_eq_zero_iff c).1 h0) with ha | ⟨u, ha, hu⟩
    · exact ⟨ENOMEM, s, ha, hnone, h, (if_neg (by decide)).symm⟩
    · obtain ⟨hwf, hpending⟩ := hu hw
      refine ⟨0, u, ha, hnone, hwf, ?_⟩
      rw [if_pos rfl]
      funext d
      by_cases hd : d = c
      · rw [hd, Function.update_self, table_eq_some_iff hwf, hpending]
        exact Multiset.mem_cons_self _ _
      · rw [Function.update_of_ne hd]
        apply table_eq h hwf
        intro x
        rw [hpending, Multiset.mem_cons]
        exact or_iff_right fun heq => hd (congrArg Prod.fst heq)
  · exact .inl ⟨if_pos h0, fun hnone => h0 (table_eq_none_iff.1 hnone)⟩

theorem delClient_table (h : WellFormed base s) (c : Client) :
    ∃ u, s.delClient c = some (0, u) ∧ WellFormed base u ∧ u.table = Function.update s.table c none := by
  obtain ⟨u, hdel, hwf, hpending, hzero⟩ := delClient_spec h c
  refine ⟨u, hdel, hwf, ?_⟩
  funext d
  by_cases hd : d = c
  · rw [hd, Function.update_self, table_eq_none_iff, hzero]
  · rw [Function.update_of_ne hd]
    apply table_eq h hwf
    intro x
    rw [hpending, Multiset.mem_filter]
    exact and_iff_left hd

/-- `runAll` returns when nothing is due. Before that it calls the client whose entry is the
first, and which has none any more. -/
theorem iterate_table (h : WellFormed base s) (hnow : InWindow base now) :
    s.iterate now = .ret 0 ∧ (∀ c x, s.table c = some x → eclockAfter x now = true) ∨
      ∃ r u, s.iterate now = .call r u ∧ WellFormed base u ∧ s.table r.skc = some r.when ∧
        eclockAfter r.when now = false ∧ (∀ c x, s.table c = some x → eclockAfter r.when x = false) ∧
        u.table = Function.update s.table r.skc none := by
  rcases iterate_spec h now with ⟨hret, hlate⟩ | ⟨r, u, hcall, hwf, hfirst, hpending, hzero⟩
  · refine .inl ⟨hret, fun c x hx => ?_⟩
    exact Bool.not_eq_false _ ▸ hlate hnow (c, x) ((table_eq_some_iff h).1 hx)
  · refine .inr ⟨r, u, hcall, hwf, (table_eq_some_iff h).2 hfirst.mem, hfirst.isDue, fun c x hx => ?_, ?_⟩
    · exact Bool.eq_false_iff.2 (hfirst.first (c, x) ((table_eq_some_iff h).1 hx))
    · funext d
      by_cases hd : d = r.skc
      · rw [hd, Function.update_self, table_eq_none_iff, hzero]
      · rw [Function.update_of_ne hd]
        apply table_eq h hwf
        intro x
        rw [hpending, Agenda.step]
        exact Multiset.mem_erase_of_ne fun heq : (d, x) = (r.skc, r.when) => hd (congrArg Prod.fst heq)

end Sked

/-- The entries of a platoon in its scheduler: its own, that of each robouser, and that of each
robouser's pipe. -/
inductive Timer
  | platoon
  | user (id : ℕ)
  | pipe (id : ℕ)
deriving DecidableEq

namespace Platoon
variable {base now when : Clock} {p : Platoon} {sk : Sked Timer 64} {id : ℕ} {r : Robouser}

/-- When the entries are to be called. -/
def table (p : Platoon) : Timer → Option Clock
  | .platoon => p.queued
  | .user id => (p.robousers id).bind Robouser.queued
  | .pipe id => (p.robousers id).bind fun r => r.fcp.queued

/-- The platoon with one of its entries as it is when its callback begins. -/
def taken (p : Platoon) : Timer → Platoon
  | .platoon => { p with queued := none }
  | .user id =>
    match p.robousers id with
    | none => p
    | some r => p.setUser id { r with queued := none }
  | .pipe id =>
    match p.robousers id with
    | none => p
    | some r => p.setUser id { r with fcp := r.fcp.delClient }

/-- The heap holds just the entries of the platoon. -/
structure OnHeap (base : Clock) (sk : Sked Timer 64) (p : Platoon) : Prop where
  wellFormed : Sked.WellFormed base sk
  table : sk.table = p.table

/-- A change of a robouser changes its own entry and that of its pipe. -/
theorem setUser_table (p : Platoon) (id : ℕ) (r : Robouser) : (p.setUser id r).table =
    Function.update (Function.update p.table (.user id) r.queued) (.pipe id) r.fcp.queued := by
  funext c
  cases c with
  | platoon => rfl
  | user i =>
      rw [Function.update_of_ne (by simp)]
      by_cases hi : i = id
      · rw [hi, Function.update_self]
        unfold table setUser
        dsimp only
        rw [Function.update_self]
        rfl
      · rw [Function.update_of_ne (by simp [hi])]
        unfold table setUser
        dsimp only
        rw [Function.update_of_ne hi]
  | pipe i =>
      by_cases hi : i = id
      · rw [hi, Function.update_self]
        unfold table setUser
        dsimp only
        rw [Function.update_self]
        rfl
      · rw [Function.update_of_ne (by simp [hi]), Function.update_of_ne (by simp)]
        unfold table setUser
        dsimp only
        rw [Function.update_of_ne hi]

theorem user_table (h : p.robousers id = some r) :
    p.table (.user id) = r.queued ∧ p.table (.pipe id) = r.fcp.queued := by
  unfold table
  dsimp only
  rw [h]
  exact ⟨rfl, rfl⟩

theorem nobody_table (h : p.robousers id = none) : p.table (.user id) = none ∧ p.table (.pipe id) = none := by
  unfold table
  dsimp only
  rw [h]
  exact ⟨rfl, rfl⟩

theorem setUser_user (h : p.robousers id = some r) (q : Option Clock) :
    (p.setUser id { r with queued := q }).table = Function.update p.table (.user id) q := by
  rw [setUser_table, Function.update_comm (by simp), ← (user_table h).2, Function.update_eq_self]

theorem setUser_pipe (h : p.robousers id = some r) (s : Session) :
    (p.setUser id { r with fcp := s }).table = Function.update p.table (.pipe id) s.queued := by
  rw [setUser_table, ← (user_table h).1, Function.update_eq_self]

theorem taken_user (h : p.robousers id = some r) : p.taken (.user id) = p.setUser id { r with queued := none } := by
  unfold taken
  dsimp only
  rw [h]

theorem taken_pipe (h : p.robousers id = some r) :
    p.taken (.pipe id) = p.setUser id { r with fcp := r.fcp.delClient } := by
  unfold taken
  dsimp only
  rw [h]

theorem taken_nobody (h : p.robousers id = none) : p.taken (.user id) = p ∧ p.taken (.pipe id) = p := by
  unfold taken
  dsimp only
  rw [h]
  exact ⟨rfl, rfl⟩

theorem taken_table (p : Platoon) (c : Timer) : (p.taken c).table = Function.update p.table c none := by
  cases c with
  | platoon =>
      funext c
      cases c with
      | platoon => rfl
      | user | pipe => rfl
  | user id =>
      cases hid : p.robousers id with
      | none => rw [(taken_nobody hid).1, ← (nobody_table hid).1, Function.update_eq_self]
      | some r =>
          rw [taken_user hid]
          exact setUser_user hid none
  | pipe id =>
      cases hid : p.robousers id with
      | none => rw [(taken_nobody hid).2, ← (nobody_table hid).2, Function.update_eq_self]
      | some r =>
          rw [taken_pipe hid]
          exact setUser_pipe hid _

/-- Nothing is queued at first. -/
theorem init_onHeap (settings : Settings) (m r : Memory Timer 64) :
    OnHeap base ((Sked.fresh r).init (some m)).2 (init settings) where
  wellFormed := Sked.init_wellFormed base m r
  table := by
    funext c
    cases c with
    | platoon | user | pipe => rfl

/-- Whatever entry is taken out of the heap is gone. -/
theorem OnHeap.delClient (h : OnHeap base sk p) (c : Timer) :
    ∃ u, sk.delClient c = some (0, u) ∧ OnHeap base u (p.taken c) := by
  obtain ⟨u, hdel, hwf, htable⟩ := Sked.delClient_table h.wellFormed c
  refine ⟨u, hdel, hwf, ?_⟩
  rw [htable, h.table, taken_table]

theorem wakeUp_table (p : Platoon) (k : Wake) :
    (p.wakeUp k).table = Function.update p.table .platoon (if k.enqueue then some k.now else none) := by
  funext c
  cases c with
  | platoon => rfl
  | user | pipe => rfl

/-- The two calls that `wakeUp` makes. The heap tells whether there is memory. -/
theorem OnHeap.wakeUp (h : OnHeap base sk p) (hnow : InWindow base now) (realloc : Option (Memory Timer 64)) :
    ∃ t, sk.delClient .platoon = some (0, t) ∧ ∃ err u, t.addClient .platoon now realloc = some (err, u) ∧
      OnHeap base u (p.wakeUp ⟨now, err = 0⟩) := by
  obtain ⟨t, hdel, ht⟩ := h.delClient .platoon
  refine ⟨t, hdel, ?_⟩
  have hnone : t.table .platoon = none := by
    rw [ht.table]
    rfl
  rcases Sked.addClient_table ht.wellFormed .platoon realloc hnow with ⟨-, hsome⟩ | ⟨err, u, hadd, -, hwf, htable⟩
  · exact absurd hnone hsome
  · refine ⟨err, u, hadd, hwf, ?_⟩
    rw [htable, wakeUp_table, ht.table, taken_table]
    by_cases herr : err = 0
    · rw [if_pos herr, if_pos (decide_eq_true herr), Function.update_idem]
    · rw [if_neg herr, if_neg (by simpa using herr)]

/-- `addClient` on the pipe of a robouser, with its assertion. -/
theorem OnHeap.addClient (h : OnHeap base sk p) (hid : p.robousers id = some r) (hwhen : InWindow base when)
    (w : World) (realloc : Option (Memory Timer 64)) :
    sk.addClient (.pipe id) when realloc = none ∧ r.fcp.addClient w when = .error (.assertion .addClient) ∨
      ∃ err u s, sk.addClient (.pipe id) when realloc = some (err, u) ∧
        r.fcp.addClient { w with enqueue := err = 0 } when = .ok s ∧
          OnHeap base u (p.setUser id { r with fcp := s }) := by
  have hqueued : sk.table (.pipe id) = r.fcp.queued := by
    rw [h.table]
    exact (user_table hid).2
  rcases Sked.addClient_table h.wellFormed (.pipe id) realloc hwhen with ⟨hadd, hsome⟩ | ⟨err, u, hadd, hnone, hwf, htable⟩
  · left
    refine ⟨hadd, if_pos ?_⟩
    rw [hqueued] at hsome
    exact Option.isSome_iff_ne_none.2 hsome
  · right
    rw [hqueued] at hnone
    have hfree : ¬ r.fcp.queued.isSome := by
      rw [hnone]
      exact Bool.false_ne_true
    refine ⟨err, u, _, hadd, if_neg hfree, hwf, ?_⟩
    rw [htable, setUser_pipe hid, h.table]
    by_cases herr : err = 0
    · rw [if_pos herr, if_pos (decide_eq_true herr)]
    · rw [if_neg herr, if_neg (by simpa using herr), ← (user_table hid).2, Function.update_eq_self]

/-- `addClient` in `robouser_t::start`. -/
theorem OnHeap.addUser (h : OnHeap base sk p) (hid : p.robousers id = some r) (hnone : r.queued = none)
    (hnow : InWindow base now) (realloc : Option (Memory Timer 64)) :
    ∃ err u, sk.addClient (.user id) now realloc = some (err, u) ∧
      OnHeap base u (p.setUser id { r with queued := if err = 0 then some now else none }) := by
  have hqueued : sk.table (.user id) = none := by
    rw [h.table, (user_table hid).1, hnone]
  rcases Sked.addClient_table h.wellFormed (.user id) realloc hnow with ⟨-, hsome⟩ | ⟨err, u, hadd, -, hwf, htable⟩
  · exact absurd hqueued hsome
  · refine ⟨err, u, hadd, hwf, ?_⟩
    rw [htable, setUser_user hid, h.table]
    by_cases herr : err = 0
    · rw [if_pos herr, if_pos herr]
    · rw [if_neg herr, if_neg herr, ← hnone, ← (user_table hid).1, Function.update_eq_self]

end Platoon

namespace Session
variable {s : Session} {w : World} {now : Clock}

theorem runTimer_due (h : isDue s.queued now = true) : s.runTimer w now = s.delClient.skedCallback w now := by
  unfold runTimer
  cases hq : s.queued with
  | none =>
      rw [hq] at h
      cases h
  | some when =>
      rw [hq] at h
      exact if_neg (by simpa [isDue] using h)

theorem runTimer_late (h : isDue s.queued now = false) : s.runTimer w now = .error .disabled := by
  unfold runTimer
  cases hq : s.queued with
  | none => rfl
  | some when =>
      rw [hq] at h
      exact if_pos (by simpa [isDue] using h)

theorem callsDataIo_late (h : isDue s.queued now = false) : s.callsDataIo w (.timer now) = false := by
  have hnone : s.dataEvents (.timer now) = none := by
    unfold dataEvents
    exact if_neg fun hdue => Bool.false_ne_true (h.symm.trans hdue.1)
  unfold callsDataIo
  rw [hnone]

end Session

namespace Platoon
variable {base now : Clock} {p : Platoon} {sk : Sked Timer 64} {id : ℕ} {r : Robouser} {k : Act}

theorem callPipe_late {w : World} {io : DataIo} {as : List LoopAnswers} (hid : p.robousers id = some r)
    (hlate : isDue r.fcp.queued now = false) : p.callPipe id (.timer now) w io as = .error (.stop .disabled) := by
  have huser : p.user id = .ok r := by
    unfold user
    rw [hid]
  have hdata : p.serveData id r.fcp (.timer now) (p.answered id w io) io = .ok p := by
    unfold serveData
    rw [Session.callsDataIo_late hlate]
    rfl
  unfold callPipe
  rw [huser]
  dsimp only [Bind.bind, Except.bind]
  rw [hdata]
  unfold runPipe
  dsimp only [Bind.bind, Except.bind]
  rw [huser]
  unfold Session.receive
  dsimp only
  rw [Session.runTimer_late hlate]
  rfl

/-- With nothing due, nothing can be called. -/
theorem step_late (h : ∀ c, isDue (p.table c) now = false) (hk : Bench.isTimer now k = true) :
    p.step k = .error (.stop .disabled) := by
  cases k with
  | platoonTimer t as =>
      cases eq_of_beq hk
      have hlate : isDue p.queued now = false := h .platoon
      unfold Platoon.step
      dsimp only
      rw [hlate]
      rfl
  | userTimer id t as =>
      cases eq_of_beq hk
      unfold Platoon.step
      dsimp only
      cases hid : p.robousers id with
      | none => rfl
      | some r =>
          have hlate := h (.user id)
          rw [(user_table hid).1] at hlate
          dsimp only
          rw [hlate]
          rfl
  | pipe id c w io as =>
      cases c with
      | event => cases hk
      | timer t =>
          cases eq_of_beq hk
          unfold Platoon.step
          dsimp only
          cases hid : p.robousers id with
          | none => rfl
          | some r =>
              have hlate := h (.pipe id)
              rw [(user_table hid).2] at hlate
              unfold callUser
              dsimp only
              rw [callPipe_late (show (p.during id).robousers id = some r from hid) hlate]
              rfl
  | setNuserTarget | setNconnectingTarget | setLastConnectingState | reap | getStatus => cases hk

/-- What the platoon does when this entry is called begins with its callback, in the state in which
the entry has been taken out. -/
def Begins (p : Platoon) (now : Clock) : Timer → Prop
  | .platoon => ∀ as, p.step (.platoonTimer now as) = (p.taken .platoon).skedCallback as
  | .user id => (p.robousers id).isSome = true ∧
      ∀ as, p.step (.userTimer id now as) = (p.taken (.user id)).callUser id fun q => ftpCmdDone as q id 0 (-1)
  | .pipe id => ∃ r, p.robousers id = some r ∧
      (p.taken (.pipe id)).robousers id = some { r with fcp := r.fcp.delClient } ∧
        ∀ w, r.fcp.receive w (.timer now) = r.fcp.delClient.skedCallback w now

theorem begins_of_due {c : Timer} (h : isDue (p.table c) now = true) : Begins p now c := by
  cases c with
  | platoon => exact fun as => if_pos h
  | user id =>
      cases hid : p.robousers id with
      | none =>
          rw [(nobody_table hid).1] at h
          cases h
      | some r =>
          rw [(user_table hid).1] at h
          refine ⟨by rw [hid]; rfl, fun as => ?_⟩
          rw [taken_user hid]
          unfold Platoon.step
          dsimp only
          rw [hid]
          exact if_pos h
  | pipe id =>
      cases hid : p.robousers id with
      | none =>
          rw [(nobody_table hid).2] at h
          cases h
      | some r =>
          rw [(user_table hid).2] at h
          refine ⟨r, hid, ?_, fun w => Session.runTimer_due h⟩
          rw [taken_pipe hid]
          exact Function.update_self _ _ _

/-- An iteration of `runAll` on the heap of a platoon. It returns only when none of the platoon's timers can be
called. Before that it calls the one whose entry is the first, which the platoon lets be
called, and the heap holds the platoon's entries again when the callback begins. -/
theorem heap_serves (h : OnHeap base sk p) (hnow : InWindow base now) :
    sk.iterate now = .ret 0 ∧ (∀ k, Bench.isTimer now k = true → p.step k = .error (.stop .disabled)) ∨
      ∃ r u, sk.iterate now = .call r u ∧ p.table r.skc = some r.when ∧
        (∀ c x, p.table c = some x → eclockAfter r.when x = false) ∧ OnHeap base u (p.taken r.skc) ∧
          Begins p now r.skc := by
  rcases Sked.iterate_table h.wellFormed hnow with ⟨hret, hlate⟩ | ⟨r, u, hcall, hwf, hentry, hdue, hfirst, htable⟩
  · refine .inl ⟨hret, fun k hk => step_late (fun c => ?_) hk⟩
    rw [h.table] at hlate
    cases hc : p.table c with
    | none => rfl
    | some x =>
        unfold isDue
        dsimp only
        rw [hlate c x hc]
        rfl
  · rw [h.table] at hentry hfirst htable
    refine .inr ⟨r, u, hcall, hentry, hfirst, ⟨hwf, htable.trans (taken_table p r.skc).symm⟩, begins_of_due ?_⟩
    rw [hentry]
    unfold isDue
    dsimp only
    rw [hdue]
    rfl

/-- A platoon that has just been woken up. -/
theorem heap_serves_woken : ∃ (sk : Sked Timer 64) (p : Platoon), OnHeap 0 sk p ∧ p.table .platoon = some 5 ∧
    ∃ r u, sk.iterate 10 = .call r u ∧ OnHeap 0 u (p.taken r.skc) ∧ Begins p 10 r.skc := by
  let m : Memory Timer 64 := fun _ => ⟨.platoon, 0⟩
  let p := (init modest).wakeUp ⟨5, true⟩
  have hinit : OnHeap 0 ((Sked.fresh m).init (some m)).2 (init modest) := init_onHeap modest m m
  obtain ⟨t, hdel, err, u, hadd, hu⟩ := hinit.wakeUp (show InWindow 0 5 by decide) none
  have hsame : ((Sked.fresh m).init (some m)).2.delClient .platoon = some (0, ((Sked.fresh m).init (some m)).2) := rfl
  have hroom : (((Sked.fresh m).init (some m)).2.addClient .platoon 5 none).map Prod.fst = some 0 := rfl
  cases hdel.symm.trans hsame
  rw [hadd] at hroom
  cases hroom
  have hp : OnHeap 0 u p := hu
  refine ⟨u, p, hp, rfl, ?_⟩
  rcases heap_serves hp (show InWindow 0 10 by decide) with ⟨-, hlate⟩ | ⟨r, v, hcall, -, -, hv, hbegins⟩
  · cases hlate (.platoonTimer 10 []) rfl
  · exact ⟨r, v, hcall, hv, hbegins⟩

end Platoon
end Dkftpbench
