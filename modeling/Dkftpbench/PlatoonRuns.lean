import Dkftpbench.PlatoonCalls
import Dkftpbench.Watch
import Mathlib.Algebra.BigOperators.Ring.Finset

/-!
# The runs of a platoon

The steps come in any order, so main may `reap` after each `runAll`, or wait longer.
The counts are right in every run in which no login's first line is refused by the
kernel while `ftpCmdDone` waits for `login` to return. If also nothing is reported as
failed to a robouser on the dead list, and no bytes come for it, then every robouser dies
once.
-/
namespace Dkftpbench.Platoon
open CLib Census Faults Robouser Watch

/-- The runs from `init` on. -/
def platoons : System Platoon Act Unit where
  start p _ := ∃ settings, p = init settings
  step p k t := p.step k = .ok t
  note _ _ _ _ := ()

/-- No login is refused its first line while it is on the stack. -/
def LoginsKept (p : Platoon) : Act → Prop
  | .userTimer _ _ as => ∀ a ∈ as.head?, KeepsLogin p a
  | _ => True

/-- A robouser on the dead list hears of no failure and reads no bytes. -/
def DeadSpared (p : Platoon) : Act → Prop
  | .pipe id c w io _ => ∀ r, p.robousers id = some r → id ∈ p.deadlist →
      Spared r.fcp c ((p.during id).answered id w io) io
  | _ => True

/-- The counts are those of the robousers that are there, and `getStatus` reports them. -/
structure Counted (p : Platoon) : Prop where
  alive : ∀ s, s.IsAlive → p.nInState s = p.headcount s
  dead : p.nInState .stopped = p.everDead.toFinset.card
  status : ∀ w st t, p.getStatus w = .ok (st, t) →
    st.nalive = ((Finset.range maxUsers).filter fun i => (t.users i).isSome).card ∧
    st.ndead = p.everDead.toFinset.card ∧
    (t.lastConnectingState ≠ .stopped → st.nconnecting =
      ((Finset.range maxUsers).filter fun i => ∃ s, t.roll i = some s ∧ s.code ≤ t.lastConnectingState.code).card)

/-- No robouser is on the dead list twice or comes back to life, and `reap` and `reset`
delete each at most once. -/
structure DieOnce (p : Platoon) : Prop where
  nodup : p.deadlist.Nodup
  stopped : ∀ id ∈ p.everDead, ∀ r, p.robousers id = some r → r.state = .stopped
  reap : ∀ w, p.reap w ≠ .error .freed ∧ p.reap w ≠ .error .executing
  reset : ∀ w, p.reset w ≠ .error .freed ∧ p.reset w ≠ .error .executing
  deleted : (p.deleted.map Prod.fst).Nodup ∧ ∀ w t, p.reset w = .ok t → (t.deleted.map Prod.fst).Nodup

section
variable {once : Prop} {p t : Platoon} {id : ℕ} {r : Robouser} {last : RobouserState} {k : Act} {w : World}

theorem headcount_init (settings : Settings) (s : RobouserState) : (init settings).headcount s = 0 := by
  have hroll : (init settings).roll = fun _ => none := rfl
  rw [headcount, hroll, tally_empty]

theorem init_robousers (settings : Settings) {id : ℕ} {r : Robouser} (h : (init settings).robousers id = some r) :
    False := by
  rw [show (init settings).robousers = fun _ => none from rfl] at h
  cases h

theorem init_linked (settings : Settings) : Linked (init settings) := by
  constructor
  · intro i id h
    rw [show (init settings).users = fun _ => none from rfl] at h
    cases h
  · exact fun id r h => (init_robousers settings h).elim
  · exact fun _ _ => rfl
  · exact fun x hx => absurd hx List.not_mem_nil
  · exact List.nodup_nil

theorem init_sound (settings : Settings) : Sound once none (init settings) := by
  constructor
  · exact init_linked settings
  · rfl
  · exact fun id r h => (init_robousers settings h).elim
  · exact fun id r h => (init_robousers settings h).elim
  · exact fun id h => absurd h List.not_mem_nil
  · exact fun id r h => (init_robousers settings h).elim
  · exact fun id r h => (init_robousers settings h).elim
  · exact fun id h => absurd h List.not_mem_nil
  · intro s _
    rw [headcount_init]
    rfl
  · rfl
  · exact fun _ => ⟨List.nodup_nil, fun id h => absurd h List.not_mem_nil⟩

theorem Sound.during (h : Sound once none p) (id : ℕ) : Sound once (some id) (p.during id) :=
  ⟨⟨h.slot, h.held, h.fresh, h.deleted, h.nodup⟩, rfl, fun j r hr _ => h.resting j r hr nofun, h.started, h.everDead,
    h.stopped, h.listed, h.dead, h.counts, h.ndead, h.once⟩

/-- The robouser's callback has returned. -/
theorem Serving.returns (h : Serving once id Resting p) : Sound once none { p with executing := none } := by
  obtain ⟨h, r, hr, hrest⟩ := h
  refine ⟨⟨h.slot, h.held, h.fresh, h.deleted, h.nodup⟩, rfl, ?_, h.started, h.everDead, h.stopped, h.listed, h.dead,
    h.counts, h.ndead, h.once⟩
  intro j q hq _
  by_cases hj : j = id
  · subst hj
    have heq : q = r := Option.some.inj (hq.symm.trans hr)
    exact heq ▸ hrest
  · exact h.resting j q hq fun heq => hj (Option.some.inj heq).symm

theorem callUser_holds {f : Platoon → Except Fault Platoon}
    (hf : Holds (Tolerated once) (Serving once id Resting) (f (p.during id))) :
    Holds (Tolerated once) (Sound once none) (p.callUser id f) :=
  hf.bind fun _ ht => ht.returns

theorem getStatus_holds (h : Sound once none p) :
    Holds (Tolerated once) (fun x => Sound once none x.2) (p.getStatus w) := by
  apply (h.reap fun _ _ => nofun).bind
  exact fun _ ht => ht.1

/-- What one step preserves. -/
theorem step_holds (h : Sound once none p) (hlogin : LoginsKept p k) (hspared : once → DeadSpared p k) :
    Holds (Tolerated once) (Sound once none) (p.step k) := by
  cases k with
  | platoonTimer now as =>
      rw [step]
      split
      · exact (h.others p.lastConnectingState p.nconnectingTarget p.nuserTarget p.nreads p.bytesFetched none).skedCallback
      · exact tolerated_stop .disabled
  | userTimer id now as =>
      rw [step]
      split
      · exact tolerated_stop .disabled
      · next r hr =>
        split
        · next hdue =>
          have hqueued : r.queued ≠ none := by
            intro hq
            rw [hq] at hdue
            cases hdue
          have hrest := h.resting id r hr nofun
          have hrest' : { r with queued := none }.Resting := ⟨hrest.inside, absurd rfl, hrest.unconnected⟩
          have hset : Sound once none (p.setUser id { r with queued := none }) :=
            h.setUser hr rfl rfl fun _ => hrest'
          apply callUser_holds
          exact ftpCmdDone_connect (hset.during id) setUser_self hrest' (hrest.queued hqueued) rfl hlogin
        · exact tolerated_stop .disabled
  | pipe id c w io as =>
      rw [step]
      split
      · exact tolerated_stop .disabled
      · next r hr =>
        apply callUser_holds
        apply callPipe_holds (h.during id) hr (h.resting id r hr nofun)
        exact fun ho hs => hspared ho r hr ((h.mem_deadlist hr).2 hs)
  | setNuserTarget utarget k => exact h.others ..
  | setNconnectingTarget ctarget k => exact h.others ..
  | setLastConnectingState s k => exact h.others ..
  | reap w => exact (h.reap fun _ _ => nofun).mono fun _ ht => ht.1
  | getStatus w => exact (getStatus_holds h).map fun _ hx => hx

/-- What a whole run preserves. -/
theorem run_sound {g : Unit} {ok : Platoon → Unit → Act → Prop}
    (hok : ∀ p g k, ok p g k → LoginsKept p k ∧ (once → DeadSpared p k)) (h : Run platoons ok p g) :
    Sound once none p := by
  apply h.invariant (I := fun p _ => Sound once none p)
  · rintro _ _ ⟨settings, rfl⟩
    exact init_sound settings
  · intro p g k t hp hk hs
    exact (step_holds hp (hok p g k hk).1 (hok p g k hk).2).result hs

theorem roll_eq_some {i : ℕ} {s : RobouserState} (h : p.roll i = some s) :
    ∃ id r, p.users i = some id ∧ id ∉ p.deadlist ∧ p.robousers id = some r ∧ r.state = s := by
  unfold roll at h
  split at h
  · cases h
  · next id hid =>
    split at h
    · cases h
    · next hm =>
      obtain ⟨r, hr, hs⟩ := Option.map_eq_some_iff.1 h
      exact ⟨id, r, hid, hm, hr, hs⟩

/-- The states that are summed. -/
def upTo (last : RobouserState) : List RobouserState :=
  RobouserState.all.filter fun s => RobouserState.connect.code ≤ s.code ∧ s.code ≤ last.code

theorem mem_upTo {s : RobouserState} : s ∈ upTo last ↔ s ≠ .uninit ∧ s.code ≤ last.code := by
  rw [upTo, List.mem_filter, decide_eq_true_eq]
  cases s with
  | uninit => exact iff_of_false (fun h => absurd h.2.1 (by decide)) fun h => h.1 rfl
  | connect | connecting | startType | finishType | get | getting | stopped =>
      exact ⟨fun h => ⟨nofun, h.2.2⟩, fun h => ⟨by decide, by decide, h.2⟩⟩

theorem isAlive_of_mem_upTo {s : RobouserState} (hlast : last ≠ .stopped) (h : s ∈ upTo last) : s.IsAlive := by
  obtain ⟨hs, hle⟩ := mem_upTo.1 h
  rcases s.isAlive_or hs with h | rfl
  · exact h
  · cases last with
    | stopped => exact absurd rfl hlast
    | uninit | connect | connecting | startType | finishType | get | getting => exact absurd hle (by decide)

/-- A sum of counts is the number of users in one of these states. -/
theorem sumInState_eq (h : Sound once none p) (hlast : last ≠ .stopped) : p.sumInState .connect last =
    ((Finset.range maxUsers).filter fun i => ∃ s, p.roll i = some s ∧ s.code ≤ last.code).card := by
  have hcounts : (upTo last).map p.nInState = (upTo last).map fun s => (p.headcount s : ℤ) :=
    List.map_congr_left fun s hs => h.counts s (isAlive_of_mem_upTo hlast hs)
  have hsum : ((upTo last).map p.headcount).sum =
      ((Finset.range maxUsers).filter fun i => ∃ k ∈ upTo last, p.roll i = some k).card :=
    sum_tally (List.Nodup.filter _ (by decide))
  have hcard : (Finset.range maxUsers).filter (fun i => ∃ k ∈ upTo last, p.roll i = some k) =
      (Finset.range maxUsers).filter fun i => ∃ s, p.roll i = some s ∧ s.code ≤ last.code := by
    apply Finset.filter_congr
    intro i _
    constructor
    · rintro ⟨s, hs, hroll⟩
      exact ⟨s, hroll, (mem_upTo.1 hs).2⟩
    · rintro ⟨s, hroll, hle⟩
      obtain ⟨id, r, _, _, hr, hs⟩ := roll_eq_some hroll
      exact ⟨s, mem_upTo.2 ⟨hs ▸ h.started id r hr, hle⟩, hroll⟩
  rw [← hcard, ← hsum, Nat.cast_list_sum, List.map_map]
  exact congrArg List.sum hcounts

/-- After a `reap` the slots in use are those of users that are alive. -/
theorem slots_alive (h : Sound once none p) (hdead : p.deadlist = []) (i : ℕ) :
    (∃ s, p.roll i = some s ∧ s.code ≤ RobouserState.getting.code) ↔ (p.users i).isSome := by
  constructor
  · rintro ⟨s, hroll, _⟩
    obtain ⟨id, r, hid, _⟩ := roll_eq_some hroll
    rw [hid]
    rfl
  · intro hsome
    obtain ⟨id, hid⟩ := Option.isSome_iff_exists.1 hsome
    obtain ⟨_, r, hr, rfl⟩ := h.slot i id hid
    have hnot : id ∉ p.deadlist := by simp [hdead]
    have hroll := roll_user h.toLinked hr
    rw [if_neg hnot] at hroll
    refine ⟨r.state, hroll, ?_⟩
    rcases r.state.isAlive_or (h.started id r hr) with hs | hs
    · exact hs.2
    · exact absurd ((h.mem_deadlist hr).2 hs) hnot

theorem Sound.counted (h : Sound once none p) : p.Counted where
  alive := h.counts
  dead := h.ndead
  status := by
    intro w st t ht
    have hreap := h.reap (w := w) fun _ _ => nofun
    unfold getStatus at ht
    cases hr : p.reap w with
    | error f =>
        rw [hr] at ht
        cases ht
    | ok u =>
        rw [hr] at ht hreap
        obtain ⟨hu, _, users, robousers, deleted, heq⟩ := hreap
        have hdead : u.deadlist = [] := by rw [heq]
        have halive := sumInState_eq hu (show RobouserState.getting ≠ .stopped by decide)
        simp only [slots_alive hu hdead] at halive
        have hstopped : u.sumInState .stopped .stopped = p.everDead.toFinset.card := by
          rw [← h.ndead, show p.nInState = u.nInState by rw [heq]]
          exact add_zero _
        cases ht
        exact ⟨halive, hstopped, fun hlast => sumInState_eq hu hlast⟩

/-- In every run that meets the condition the counts are right. -/
theorem platoon_counts {g : Unit} (h : Run platoons (fun p _ k => LoginsKept p k) p g) : p.Counted :=
  have hsound : Sound False none p := run_sound (fun _ _ _ hk => ⟨hk, False.elim⟩) h
  hsound.counted

end

/-- Parameters for a few tests. -/
def modest : Settings :=
  ⟨⟨⟨ascii "f", no_nul_f⟩, by decide⟩, 28000, 1500, 21, ⟨⟨ascii "u", no_nul_u⟩, by decide⟩,
    ⟨⟨ascii "p", no_nul_p⟩, by decide⟩⟩

def prompt : Wake := ⟨0, true⟩

/-- The connection is there at once, with descriptor 3, and so is everything else. -/
def smooth : LoopAnswers := ⟨Session.calm 3 [], Session.calm 0 [], 0, false, prompt⟩

/-- A kernel that refuses every line. -/
def refusing : Kernel where
  read _ _ := .error EWOULDBLOCK
  read_le := by
    intro i n bs h
    cases h
  write _ _ := .error EPIPE
  write_le := by
    intro i bs n h
    cases h

/-- The connection is there at once, and the line is refused. -/
def rough : LoopAnswers := { smooth with command := { Session.calm 0 [] with kernel := refusing } }

/-- The server is not known. -/
def lost : LoopAnswers := { smooth with connect := { Session.calm 0 [] with lookup := none } }

/-- One user is wanted, and started. -/
def oneUser : List Act :=
  [.setNuserTarget 1 prompt, .platoonTimer 0 [⟨Session.blank, 0, true, prompt⟩], .reap (Session.calm 0 [])]

/-- The runs of one platoon along a list of labels. -/
theorem run_modest {ok : Platoon → Unit → Act → Prop} {ks : List Act} {t : Platoon} {g : Unit}
    (hok : ∀ k ∈ ks, ∀ p g, ok p g k)
    (h : follow (fun p _ k => (p.step k).toOption) platoons.note (init modest) () ks = some (t, g)) :
    Run platoons ok t g :=
  Run.follow_all (fun _ _ _ => eq_ok_of_toOption) hok (.start ⟨modest, rfl⟩) h

theorem keepsLogin_calm (p : Platoon) (a : LoopAnswers) (h : a.command = Session.calm 0 []) : KeepsLogin p a := by
  intro _ err hwrite
  rw [h] at hwrite
  cases hwrite

theorem loginsKept_oneUser {k : Act} (h : k ∈ oneUser) (p : Platoon) : LoginsKept p k ∧ DeadSpared p k := by
  rcases List.mem_cons.1 h with rfl | h
  · exact ⟨trivial, trivial⟩
  · rcases List.mem_cons.1 h with rfl | h
    · exact ⟨trivial, trivial⟩
    · rcases List.mem_cons.1 h with rfl | h
      · exact ⟨trivial, trivial⟩
      · cases h

theorem allowed_after_oneUser {a : LoopAnswers} (ha : a.command = Session.calm 0 []) {k : Act}
    (h : k ∈ oneUser ++ [.userTimer 0 0 [a]]) (p : Platoon) : LoginsKept p k ∧ DeadSpared p k := by
  rcases List.mem_append.1 h with h | h
  · exact loginsKept_oneUser h p
  · cases List.mem_singleton.1 h
    refine ⟨fun b hb => ?_, trivial⟩
    cases hb
    exact keepsLogin_calm p a ha

/-- One user is logging in. -/
theorem platoon_counts_one : ∃ p g, Run platoons (fun p _ k => LoginsKept p k) p g ∧
    p.nInState .connecting = 1 ∧ p.Counted := by
  have hfollow : (follow (fun p _ k => (p.step k).toOption) platoons.note (init modest) ()
      (oneUser ++ [.userTimer 0 0 [smooth]])).map (fun r => r.1.nInState .connecting) = some 1 := by
    decide +kernel
  obtain ⟨⟨p, g⟩, hr, hone⟩ := Option.map_eq_some_iff.1 hfollow
  have hrun : Run platoons (fun p _ k => LoginsKept p k) p g :=
    run_modest (fun k hk p _ => (allowed_after_oneUser rfl hk p).1) hr
  exact ⟨p, g, hrun, hone, platoon_counts hrun⟩

/-- A user whose first line is refused is dead and counted as connecting, also after
the next `reap`. -/
theorem platoon_counts_dead_as_connecting : ¬ ∀ p g, Run platoons (fun _ _ _ => True) p g → p.Counted := by
  intro hall
  have hfollow : (follow (fun p _ k => (p.step k).toOption) platoons.note (init modest) ()
      (oneUser ++ [.userTimer 0 0 [rough, rough], .reap (Session.calm 0 [])])).map
        (fun r => (r.1.nInState .connecting, r.1.nInState .stopped, r.1.everDead)) = some (1, 0, [0]) := by
    decide +kernel
  obtain ⟨⟨p, g⟩, hr, heq⟩ := Option.map_eq_some_iff.1 hfollow
  have hdead := (hall p g (run_modest (fun _ _ _ _ => trivial) hr)).dead
  rw [Prod.mk.injEq, Prod.mk.injEq] at heq
  rw [heq.2.1, heq.2.2] at hdead
  exact absurd hdead (by decide)

section
variable {once : Prop} {p t : Platoon} {w : World}

/-- `reset` deletes whoever is left. -/
theorem reset_holds (h : Sound once none p) :
    Holds (Tolerated once) (fun t => (t.deleted.map Prod.fst).Nodup) (p.reset w) := by
  unfold reset
  generalize List.range maxUsers = is
  apply (h.reap fun _ _ => nofun).bind
  rintro u ⟨hu, _⟩
  obtain ⟨t, ht, _, hlinked, _⟩ := resetLoop_invariant (w := w) (I := fun _ => True) is (fun _ _ _ _ _ _ => trivial)
    hu.toLinked hu.executing trivial
  have hloop : Holds (Tolerated once) Linked (resetLoop w is u) := Holds.of_ok ht hlinked
  apply hloop.bind
  intro t ht
  dsimp only
  split
  · exact ht.nodup
  · exact fun _ => ⟨nofun, nofun⟩

theorem ne_of_tolerated {α : Type} {Q : α → Prop} {x : Except Fault α} (h : Holds (Tolerated True) Q x) :
    x ≠ .error .freed ∧ x ≠ .error .executing :=
  ⟨fun hx => (h.failure hx trivial).1 rfl, fun hx => (h.failure hx trivial).2 rfl⟩

theorem Sound.dieOnce (h : Sound True none p) : p.DieOnce where
  nodup := (h.once trivial).1
  stopped := fun id hid r hr => (h.stopped id r hr).2 hid
  reap := fun _ => ne_of_tolerated (h.reap fun _ _ => nofun)
  reset := fun _ => ne_of_tolerated (reset_holds h)
  deleted := ⟨h.nodup, fun _ _ ht => (reset_holds h).result ht⟩

/-- In every run that meets the condition each robouser dies once, and no step uses a
robouser that was deleted or deletes one while it executes. -/
theorem robousers_die_once {g : Unit} (h : Run platoons (fun p _ k => LoginsKept p k ∧ DeadSpared p k) p g) :
    p.DieOnce ∧ ∀ k, LoginsKept p k → DeadSpared p k →
      p.step k ≠ .error .freed ∧ p.step k ≠ .error .executing := by
  have hsound : Sound True none p := run_sound (fun _ _ _ hk => ⟨hk.1, fun _ => hk.2⟩) h
  exact ⟨hsound.dieOnce, fun k hlogin hdead => ne_of_tolerated (step_holds hsound hlogin fun _ => hdead)⟩

end

/-- A user that cannot connect. -/
theorem robousers_die_once_lost : ∃ p g,
    Run platoons (fun p _ k => LoginsKept p k ∧ DeadSpared p k) p g ∧ p.deadlist = [0] ∧
      (p.DieOnce ∧ ∀ k, LoginsKept p k → DeadSpared p k →
        p.step k ≠ .error .freed ∧ p.step k ≠ .error .executing) := by
  have hfollow : (follow (fun p _ k => (p.step k).toOption) platoons.note (init modest) ()
      (oneUser ++ [.userTimer 0 0 [lost]])).map (fun r => r.1.deadlist) = some [0] := by
    decide +kernel
  obtain ⟨⟨p, g⟩, hr, hdead⟩ := Option.map_eq_some_iff.1 hfollow
  have hrun : Run platoons (fun p _ k => LoginsKept p k ∧ DeadSpared p k) p g :=
    run_modest (fun k hk p _ => allowed_after_oneUser rfl hk p) hr
  exact ⟨p, g, hrun, hdead, robousers_die_once hrun⟩

/-- A user whose server hung up hears of it again when its time is out, before the next
`reap`. -/
theorem robousers_die_twice : ¬ ∀ p g, Run platoons (fun _ _ _ => True) p g → p.DieOnce ∧
    ∀ k, p.step k ≠ .error .freed ∧ p.step k ≠ .error .executing := by
  intro hall
  have hfollow : (follow (fun p _ k => (p.step k).toOption) platoons.note (init modest) ()
      (oneUser ++ [.userTimer 0 0 [smooth], .reap (Session.calm 0 []),
        .pipe 0 (.event 3 POLLHUP) (Session.calm 0 []) ⟨.error EWOULDBLOCK, 0, false, prompt, Session.calm 0 []⟩ [smooth],
        .pipe 0 (.timer 50000) (Session.calm 0 []) ⟨.error EWOULDBLOCK, 0, false, prompt, Session.calm 0 []⟩
          [smooth]])).map (fun r => r.1.deadlist) = some [0, 0] := by
    decide +kernel
  obtain ⟨⟨p, g⟩, hr, hdead⟩ := Option.map_eq_some_iff.1 hfollow
  have hnodup := (hall p g (run_modest (fun _ _ _ _ => trivial) hr)).1.nodup
  rw [hdead] at hnodup
  exact absurd hnodup (by decide)

end Dkftpbench.Platoon
