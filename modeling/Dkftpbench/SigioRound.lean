import Dkftpbench.Round
import Dkftpbench.SigioSound
import Mathlib.Data.List.Basic

/-!
# One round of Poller_sigio

The cursor splits the ready list: what is pending lies from it on, and what comes onto the
list goes to the end, so that it is pending too. `readyListDel` moves the cursor on when
its descriptor comes off, from the end of the list back to the head, where all that was
returned lies. `getNextEvent` does not do so; but it takes descriptor 0 for the end.
-/
namespace Dkftpbench.PollerSigio
open CLib Watch Round
variable {Client : Type*}

/-- The descriptors monitored, those that were on the ready list at the wait, and the log
of the round. -/
structure Notes (Client : Type*) where
  monitored : Finset ℤ
  ready : Set ℤ
  log : List (Round.Act ℤ (PollEvent Client))

/-- A monitored descriptor is on the ready list. -/
def listing (s : PollerSigio Client) (M : Finset ℤ) (fd : ℤ) : Bool := decide (fd ∈ M) && (s.fds fd).isOnReadyList

/-- The log, when a descriptor was on the list or not before and is or is not after a call. -/
def moved (log : List (Round.Act ℤ (PollEvent Client))) (fd : ℤ) : Bool → Bool → List (Round.Act ℤ (PollEvent Client))
  | true, false => .left fd :: log
  | false, true => .entered fd :: log
  | true, true | false, false => log

def Notes.after (g : Notes Client) (s : PollerSigio Client) (c : Call Client) (t : PollerSigio Client) : Notes Client :=
  { g with
    monitored := monitors g.monitored s c
    log :=
      match c.fd with
      | some fd => moved g.log fd (s.listing g.monitored fd) (t.listing (monitors g.monitored s c) fd)
      | none =>
        match s.getNextEvent.2.1 with
        | some e => .returned e.fd e :: g.log
        | none => .ended :: g.log }

/-- What a handler and the dispatcher may call until the round is over. -/
def Notes.Allows (g : Notes Client) (c : Call Client) : Prop :=
  .ended ∉ g.log ∧ match c with
    | .init .. | .waitForEvents .. => False
    | c => PollerSigio.Allows g.monitored c

/-- The rounds that begin when, in a run, `waitForEvents` has returned 0. -/
def rounds : System (PollerSigio Client) (Call Client) (Notes Client) where
  start s g := ∃ s₀ signals overflow, Run sigios (fun _ M c => PollerSigio.Allows M c) s₀ g.monitored ∧
    s₀.waitForEvents signals overflow = some (0, s) ∧ g.ready = {fd | s.listing g.monitored fd = true} ∧ g.log = []
  step s c t := ∃ err ev, s.call c = some (err, ev, t)
  note := Notes.after

/-- The descriptor is the cursor's and the last of several. -/
def AtEnd (s : PollerSigio Client) (fd : ℤ) : Prop :=
  fd = s.readyNext ∧ fd ≠ s.readyHead ∧ (s.fds fd).next = s.readyHead

/-- The cursor is not taken for the end, and not taken back to the head. -/
def Clear (s : PollerSigio Client) (c : Call Client) : Prop :=
  match c with
  | .getNextEvent => s.readyNext ≠ 0
  | c => ∀ fd ∈ c.fd, Drops s c → ¬s.AtEnd fd

section
variable {s t : PollerSigio Client} {g : Notes Client} {M : Finset ℤ} {L K K' L' : List ℤ} {fd c c' : ℤ}

theorem listing_iff (h : Listed s M L) : s.listing M fd = true ↔ fd ∈ L := by
  unfold listing
  rw [Bool.and_eq_true, decide_eq_true_iff]
  constructor
  · intro ⟨hM, hon⟩
    exact (h.isOnReadyList hM).1 hon
  · intro hL
    exact ⟨h.mem fd hL, (h.isOnReadyList (h.mem fd hL)).2 hL⟩

/-- What is before the cursor and what is from it on, after an update of a descriptor. -/
inductive Split (fd : ℤ) : List ℤ → List ℤ → List ℤ → List ℤ → Prop
  | same {K K' : List ℤ} : Split fd K K' K K'
  | entered {K K' : List ℤ} : fd ∉ K ++ K' → Split fd K K' K (K' ++ [fd])
  | before {A B K' : List ℤ} : Split fd (A ++ fd :: B) K' (A ++ B) K'
  | behind {K A B : List ℤ} : Split fd K (A ++ fd :: B) K (A ++ B)

/-- The descriptor leaves from before the cursor. -/
theorem cursor_before {A B : List ℤ} (hc : c = K'.head?.getD (-1)) (hnodup : (A ++ fd :: B ++ K').Nodup)
    (h0 : 0 ≤ fd) : c ≠ fd := by
  intro heq
  cases K' with
  | nil =>
      have hcy : c = -1 := hc
      omega
  | cons y l =>
      have hcy : c = y := hc
      rw [List.append_assoc] at hnodup
      apply (List.nodup_cons.1 (List.nodup_middle.1 hnodup)).1
      rw [← heq, hcy]
      exact List.mem_append_right A (List.mem_append_right B List.mem_cons_self)

/-- The descriptor leaves from the cursor on. -/
theorem cursor_behind {A B : List ℤ} (hc : c = (A ++ fd :: B).head?.getD (-1))
    (hnodup : (K ++ (A ++ fd :: B)).Nodup) (hend : A ++ fd :: B = [fd] → K = []) :
    (if c = fd then (B ++ (K ++ A)).head?.getD (-1) else c) = (A ++ B).head?.getD (-1) := by
  cases A with
  | nil =>
      have hcy : c = fd := hc
      rw [if_pos hcy, List.append_nil, List.nil_append]
      cases B with
      | nil => rw [hend rfl, List.nil_append]
      | cons z l => rfl
  | cons y l =>
      have hcy : c = y := hc
      have hne : y ≠ fd := by
        intro heq
        rw [heq, ← List.append_assoc] at hnodup
        apply (List.nodup_cons.1 (List.nodup_middle.1 hnodup)).1
        exact List.mem_append_left B (List.mem_append_right K List.mem_cons_self)
      rw [hcy, if_neg hne]
      rfl

/-- An update keeps the cursor where it splits the list, if it is not at the end. -/
theorem Moved.split (h : Moved fd (K ++ K') c L' c') (hc : c = K'.head?.getD (-1)) (hnodup : (K ++ K').Nodup)
    (hnonneg : ∀ x ∈ K ++ K', 0 ≤ x) (hend : fd ∉ L' → K' = [fd] → K = []) :
    ∃ N N', L' = N ++ N' ∧ c' = N'.head?.getD (-1) ∧ Split fd K K' N N' := by
  generalize hL : K ++ K' = L at h
  cases h with
  | same => exact ⟨K, K', hL.symm, hc, .same⟩
  | entered hfd =>
      refine ⟨K, K' ++ [fd], by rw [← List.append_assoc, hL], ?_, .entered (hL ▸ hfd)⟩
      cases K' with
      | nil => exact if_pos hc
      | cons y l =>
          have hcy : c = y := hc
          have hy := hnonneg y (List.mem_append_right K List.mem_cons_self)
          rw [if_neg (by omega)]
          exact hc
  | @left A B =>
      have h0 : 0 ≤ fd := hnonneg fd (hL ▸ List.mem_append_right A List.mem_cons_self)
      have hnot : fd ∉ A ++ B := (List.nodup_cons.1 (List.nodup_middle.1 (hL ▸ hnodup))).1
      rcases List.append_eq_append_iff.1 hL with ⟨D, hA, hK'⟩ | ⟨D, hK, hB⟩
      · refine ⟨K, D ++ B, by rw [hA, List.append_assoc], ?_, hK' ▸ .behind⟩
        rw [hK'] at hc hnodup hend
        rw [hA]
        exact cursor_behind hc hnodup (hend hnot)
      · cases D with
        | nil =>
            rw [List.append_nil] at hK
            rw [List.nil_append] at hB
            rw [← hB] at hc hnodup hend ⊢
            rw [← hK] at hnot hend ⊢
            have hkept := cursor_behind (A := []) hc hnodup (hend hnot)
            rw [List.append_nil] at hkept
            exact ⟨K, B, rfl, hkept, .behind (A := [])⟩
        | cons x D =>
            cases hB
            refine ⟨A ++ D, K', (List.append_assoc ..).symm, ?_, hK ▸ .before⟩
            rw [hK] at hnodup
            rw [if_neg (cursor_before hc hnodup h0)]
            exact hc

/-- The ready list and its cursor, as the log has them. -/
structure InRound (s : PollerSigio Client) (g : Notes Client) (K K' : List ℤ) : Prop where
  sound : Sound s g.monitored (K ++ K')
  cursor : s.readyNext = K'.head?.getD (-1)
  present : ∀ fd, fd ∈ K ++ K' ↔ fd ∈ present g.ready g.log
  pending : ∀ fd, fd ∈ K' ↔ fd ∈ pending g.ready g.log
  queued : Queued g.ready g.log

theorem start_inRound (h : rounds.start s g) : ∃ L, InRound s g [] L := by
  obtain ⟨s₀, signals, overflow, hrun, hwait, hready, hlog⟩ := h
  obtain ⟨L, hsound⟩ := sigios_sound hrun
  obtain ⟨err, t, L', ht, hw, -⟩ := waitForEvents_sound hsound signals overflow
  rw [hwait] at ht
  cases ht
  have hL : ∀ fd, fd ∈ L' ↔ fd ∈ g.ready := by
    intro fd
    rw [hready]
    exact (listing_iff hw.toListed).symm
  refine ⟨L', hw.toSound, hw.atHead, ?_, ?_, ?_⟩
  all_goals rw [hlog]
  · exact hL
  · exact hL
  · exact .start

theorem moved_same (log : List (Round.Act ℤ (PollEvent Client))) (b : Bool) :
    Dkftpbench.PollerSigio.moved log fd b b = log := by
  cases b with
  | true => rfl
  | false => rfl

/-- What the log says of the list after an update. -/
theorem InRound.split {N N' : List ℤ} {M' : Finset ℤ} (h : InRound s g K K') (hsplit : Split fd K K' N N')
    (ht : Sound t M' (N ++ N')) (hcursor : t.readyNext = N'.head?.getD (-1)) :
    InRound t ⟨M', g.ready, moved g.log fd (s.listing g.monitored fd) (t.listing M' fd)⟩ N N' := by
  have hs : s.listing g.monitored fd = true ↔ fd ∈ K ++ K' := listing_iff h.sound.toListed
  have ht' : t.listing M' fd = true ↔ fd ∈ N ++ N' := listing_iff ht.toListed
  have hnodup := h.sound.nodup
  cases hsplit with
  | same =>
      rw [Bool.eq_iff_iff.2 (hs.trans ht'.symm), moved_same]
      exact ⟨ht, hcursor, h.present, h.pending, h.queued⟩
  | entered hfd =>
      have hout : s.listing g.monitored fd = false := Bool.eq_false_iff.2 (hfd ∘ hs.1)
      have hin : t.listing M' fd = true := ht'.2 (by simp)
      rw [hout, hin]
      refine ⟨ht, hcursor, fun x => ?_, fun x => ?_, .entered h.queued (hfd ∘ (h.present fd).2)⟩
      · rw [← List.append_assoc, List.mem_append, List.mem_singleton, h.present]
        exact or_comm
      · rw [List.mem_append, List.mem_singleton, h.pending]
        exact or_comm
  | @before A B =>
      have hmiddle : (A ++ fd :: (B ++ K')).Nodup := by rwa [List.append_assoc] at hnodup
      have hnot : fd ∉ A ++ (B ++ K') := (List.nodup_cons.1 (List.nodup_middle.1 hmiddle)).1
      have hin : s.listing g.monitored fd = true := hs.2 (by simp)
      have hout : t.listing M' fd = false := by
        rw [Bool.eq_false_iff, Ne, ht', List.append_assoc]
        exact hnot
      rw [hin, hout]
      refine ⟨ht, hcursor, fun x => ?_, fun x => ?_, .left fd h.queued⟩
      · have hx := h.present x
        simp only [moved, Round.present, Set.mem_sdiff, Set.mem_singleton_iff, ← hx]
        grind
      · have hx := h.pending x
        simp only [moved, Round.pending, Set.mem_sdiff, Set.mem_singleton_iff, ← hx]
        grind
  | @behind _ A B =>
      have hmiddle : (K ++ A ++ fd :: B).Nodup := by rwa [← List.append_assoc] at hnodup
      have hnot : fd ∉ K ++ A ++ B := (List.nodup_cons.1 (List.nodup_middle.1 hmiddle)).1
      have hin : s.listing g.monitored fd = true := hs.2 (by simp)
      have hout : t.listing M' fd = false := by
        rw [Bool.eq_false_iff, Ne, ht', ← List.append_assoc]
        exact hnot
      rw [hin, hout]
      refine ⟨ht, hcursor, fun x => ?_, fun x => ?_, .left fd h.queued⟩
      · have hx := h.present x
        simp only [moved, Round.present, Set.mem_sdiff, Set.mem_singleton_iff, ← hx]
        grind
      · have hx := h.pending x
        simp only [moved, Round.pending, Set.mem_sdiff, Set.mem_singleton_iff, ← hx]
        grind

/-- The cursor is the last of several if only it is left, behind others. -/
theorem atEnd_of_split (h : Listed s M (K ++ [fd])) (hcursor : s.readyNext = fd) (hne : K ≠ []) : s.AtEnd fd := by
  obtain ⟨y, l, rfl⟩ := List.exists_cons_of_ne_nil hne
  have hhead : s.readyHead = y := h.head
  have hnext : s.nexts fd = y := h.links.1
  refine ⟨hcursor.symm, ?_, hnext.trans hhead.symm⟩
  rw [hhead]
  intro heq
  apply (List.nodup_cons.1 h.nodup).1
  rw [← heq]
  exact List.mem_append_right l List.mem_cons_self

theorem update_inRound {ca : Call Client} (h : InRound s g K K') (hc : PollerSigio.Allows g.monitored ca)
    (hfd : ca.fd = some fd) (hclear : Drops s ca → ¬s.AtEnd fd) :
    ∃ err t N N', s.call ca = some (err, none, t) ∧ InRound t (g.after s ca t) N N' := by
  obtain ⟨err, t, L', ht, hsound, hmoved, hdrops⟩ := call_moved h.sound hc hfd
  have hend : fd ∉ L' → K' = [fd] → K = [] := by
    intro hL hK'
    by_contra hne
    have hlist := h.sound.toListed
    have hcursor := h.cursor
    rw [hK'] at hlist hcursor hdrops
    exact hclear (hdrops (List.mem_append_right K List.mem_cons_self) hL) (atEnd_of_split hlist hcursor hne)
  obtain ⟨N, N', rfl, hcursor, hsplit⟩ := hmoved.split h.cursor h.sound.nodup (fun x hx => h.sound.nonneg hx) hend
  refine ⟨err, t, N, N', ht, ?_⟩
  have hin := h.split hsplit hsound hcursor
  unfold Notes.after
  rw [hfd]
  exact hin

theorem next_inRound (h : InRound s g K K') (hclear : s.readyNext ≠ 0) :
    ∃ N N', InRound s.getNextEvent.2.2 (g.after s .getNextEvent s.getNextEvent.2.2) N N' := by
  have hcursor := h.cursor
  cases K' with
  | nil =>
      have hend : s.readyNext = -1 := hcursor
      have hempty : Round.pending g.ready g.log = ∅ := by
        apply Set.eq_empty_of_forall_notMem
        intro fd hfd
        cases (h.pending fd).2 hfd
      have hover := getNextEvent_over (s := s) (by omega)
      refine ⟨K, [], ?_⟩
      simp only [Notes.after, Call.fd, monitors, hover]
      exact ⟨h.sound, h.cursor, h.present, h.pending, .ended h.queued hempty⟩
  | cons fd l =>
      have hfd : s.readyNext = fd := hcursor
      have h0 := h.sound.nonneg (List.mem_append_right K (List.mem_cons_self (a := fd)))
      obtain ⟨event, t, hevent, ht, hsound, hnext⟩ := getNextEvent_sound h.sound hfd (by omega)
      have hnodup := (List.nodup_append.1 h.sound.nodup).2.1
      have hnot : fd ∉ l := (List.nodup_cons.1 hnodup).1
      refine ⟨K ++ [fd], l, ?_⟩
      simp only [Notes.after, Call.fd, monitors, ht, hevent]
      refine ⟨?_, hnext, fun x => ?_, fun x => ?_, .returned event h.queued ((h.pending fd).1 List.mem_cons_self)⟩
      · rwa [List.append_assoc]
      · rw [List.append_assoc]
        exact h.present x
      · have hx := h.pending x
        simp only [Round.pending, Set.mem_sdiff, Set.mem_singleton_iff, ← hx]
        grind

/-- What a call that is `Clear` keeps. -/
theorem step_inRound {ca : Call Client} {err : ℤ} {ev : Option (PollEvent Client)} (h : InRound s g K K')
    (hc : g.Allows ca) (hclear : Clear s ca) (ht : s.call ca = some (err, ev, t)) :
    ∃ N N', InRound t (g.after s ca t) N N' := by
  cases hfd : ca.fd with
  | some fd =>
      have hallows : PollerSigio.Allows g.monitored ca := by
        cases ca with
        | init | waitForEvents | getNextEvent => cases hfd
        | _ => exact hc.2
      have hdrops : Drops s ca → ¬s.AtEnd fd := by
        cases ca with
        | init | waitForEvents | getNextEvent => cases hfd
        | _ => exact hclear fd hfd
      obtain ⟨err', t', N, N', ht', hin⟩ := update_inRound h hallows hfd hdrops
      rw [ht] at ht'
      cases ht'
      exact ⟨N, N', hin⟩
  | none =>
      cases ca with
      | init | waitForEvents => exact hc.2.elim
      | getNextEvent =>
          have hin := next_inRound h hclear
          have heq : s.getNextEvent.2.2 = t := congrArg (fun r => r.2.2) (Option.some.inj ht)
          rwa [heq] at hin
      | add | del | setMask | orMask | andMask | clearReadiness => cases hfd

theorem rounds_inRound (h : Run rounds (fun s g c => g.Allows c ∧ Clear s c) s g) : ∃ K K', InRound s g K K' := by
  apply h.invariant
  · intro s g hstart
    obtain ⟨L, hin⟩ := start_inRound hstart
    exact ⟨[], L, hin⟩
  · intro s g c t ⟨K, K', hin⟩ ⟨hc, hclear⟩ ⟨err, ev, ht⟩
    exact step_inRound hin hc hclear ht

/-- As long as the calls are `Clear`, each descriptor that is on the list is returned once
for each time that it came onto it, and what is returned is monitored and ready. -/
theorem sigio_round (h : Run rounds (fun s g c => g.Allows c ∧ Clear s c) s g) :
    Served g.ready g.log ∧
    (∀ fd, fd ∈ Round.present g.ready g.log ↔ fd ∈ g.monitored ∧ (s.fds fd).isReady = true) ∧
    ∀ e, s.getNextEvent.2.1 = some e → e.fd ∈ g.monitored ∧ (s.fds e.fd).isReady = true := by
  obtain ⟨K, K', hin⟩ := rounds_inRound h
  have hmem : ∀ fd ∈ K ++ K', fd ∈ g.monitored ∧ (s.fds fd).isReady = true := by
    intro fd hfd
    have hM := hin.sound.mem fd hfd
    exact ⟨hM, (hin.sound.ready fd hM).1 hfd⟩
  refine ⟨hin.queued.served, fun fd => ?_, fun e he => ?_⟩
  · rw [← hin.present]
    constructor
    · exact hmem fd
    · intro ⟨hM, hr⟩
      exact (hin.sound.ready fd hM).2 hr
  · by_cases hcursor : 1 ≤ s.readyNext
    · have hon : s.readyNext ∈ K ++ K' := hin.sound.cursor.resolve_left (by omega)
      have heq : e.fd = s.readyNext := by
        unfold getNextEvent at he
        rw [if_neg (by omega)] at he
        cases he
        rfl
      rw [heq]
      exact hmem _ hon
    · rw [getNextEvent_over (not_le.1 hcursor)] at he
      cases he

instance (g : Notes Client) : (c : Call Client) → Decidable (g.Allows c)
  | .init .. | .waitForEvents .. => inferInstanceAs (Decidable (.ended ∉ g.log ∧ False))
  | .add fd .. => inferInstanceAs (Decidable (.ended ∉ g.log ∧ 0 ≤ fd ∧ fd ∉ g.monitored))
  | .del fd .. | .setMask fd _ | .orMask fd _ | .andMask fd _ | .clearReadiness fd _ =>
    inferInstanceAs (Decidable (.ended ∉ g.log ∧ fd ∈ g.monitored))
  | .getNextEvent => inferInstanceAs (Decidable (.ended ∉ g.log ∧ True))

instance (s : PollerSigio Client) (fd : ℤ) : Decidable (s.AtEnd fd) :=
  inferInstanceAs (Decidable (fd = s.readyNext ∧ fd ≠ s.readyHead ∧ (s.fds fd).next = s.readyHead))

instance (s : PollerSigio Client) : (c : Call Client) → Decidable (Drops s c)
  | .del _ fcntl _ => inferInstanceAs (Decidable (delFcntls.findSome? fcntl = none))
  | .setMask fd eventmask =>
    inferInstanceAs (Decidable ({ s.fds fd with mask := eventmask : FdState Client }.isReady = false))
  | .orMask fd eventmask =>
    inferInstanceAs (Decidable ({ s.fds fd with mask := (s.fds fd).mask ||| eventmask : FdState Client }.isReady = false))
  | .andMask fd eventmask =>
    inferInstanceAs (Decidable ({ s.fds fd with mask := (s.fds fd).mask &&& eventmask : FdState Client }.isReady = false))
  | .clearReadiness fd eventmask =>
    inferInstanceAs (Decidable
      ({ s.fds fd with readybits := (s.fds fd).readybits &&& ~~~eventmask : FdState Client }.isReady = false))
  | .init .. | .add .. | .waitForEvents .. | .getNextEvent => inferInstanceAs (Decidable False)

/-- Of a call that drops no descriptor at the end. -/
def decidableKeeps (s : PollerSigio Client) (c : Call Client) : Decidable (∀ fd ∈ c.fd, Drops s c → ¬s.AtEnd fd) :=
  inferInstance

instance (s : PollerSigio Client) : (c : Call Client) → Decidable (Clear s c)
  | .getNextEvent => inferInstanceAs (Decidable (s.readyNext ≠ 0))
  | .init memory backup => s.decidableKeeps (.init memory backup)
  | .add fd client eventmask ans => s.decidableKeeps (.add fd client eventmask ans)
  | .del fd fcntl backup => s.decidableKeeps (.del fd fcntl backup)
  | .setMask fd eventmask => s.decidableKeeps (.setMask fd eventmask)
  | .orMask fd eventmask => s.decidableKeeps (.orMask fd eventmask)
  | .andMask fd eventmask => s.decidableKeeps (.andMask fd eventmask)
  | .clearReadiness fd eventmask => s.decidableKeeps (.clearReadiness fd eventmask)
  | .waitForEvents signals overflow => s.decidableKeeps (.waitForEvents signals overflow)

end

/-- These calls are made after `init`, and then `waitForEvents` returns 0. -/
def opened (cs : List (Call ℕ)) : Option (PollerSigio ℕ × Notes ℕ) :=
  (follow (guarded (fun _ M c => Allows M c) run) sigios.note (init raw (some fun _ => .clear) 0).2 ∅ cs).bind fun r =>
    (r.1.waitForEvents [] none).bind fun w =>
      if w.1 = 0 then some (w.2, ⟨r.2, {fd | w.2.listing r.2 fd = true}, []⟩) else none

theorem opened_start {cs : List (Call ℕ)} {s : PollerSigio ℕ} {g : Notes ℕ} (h : opened cs = some (s, g)) :
    rounds.start s g := by
  obtain ⟨⟨s₀, M⟩, hr, h⟩ := Option.bind_eq_some_iff.1 h
  obtain ⟨⟨err, t⟩, hw, h⟩ := Option.bind_eq_some_iff.1 h
  have hrun : Run sigios (fun _ M c => Allows M c) s₀ M :=
    Run.follow_guarded (fun _ _ _ => exists_of_map_snd) (.start ⟨raw, _, 0, rfl, rfl⟩) hr
  split at h
  · next herr =>
      have herr : err = 0 := herr
      rw [herr] at hw
      cases h
      exact ⟨s₀, [], none, hrun, hw, rfl, rfl⟩
  · cases h

/-- 0, 5 and 6 are monitored. -/
def three : List (Call ℕ) := [.add 5 (some 5) POLLIN willing, .add 6 (some 6) POLLIN willing, .add 0 (some 0) 0 willing]

/-- The handler of 5 clears it and deletes 6, and 5 comes back before the round is over. -/
theorem sigio_round_again : ∃ (s : PollerSigio ℕ) (g : Notes ℕ),
    Run rounds (fun s g c => g.Allows c ∧ Clear s c) s g ∧ g.log = [.ended, .returned 5 ⟨5, POLLIN ||| POLLOUT, some 5⟩,
      .entered 5, .left 5, .returned 6 ⟨6, POLLIN, some 6⟩, .returned 5 ⟨5, POLLIN, some 5⟩] ∧
    Served g.ready g.log := by
  have hfollow : (((opened three).bind fun r => follow (guarded (fun s g c => g.Allows c ∧ Clear s c) run) rounds.note
      r.1 r.2 [.getNextEvent, .getNextEvent, .setMask 5 0, .setMask 5 (POLLIN ||| POLLOUT), .getNextEvent,
        .getNextEvent]).map fun r => r.2.log) = some [.ended, .returned 5 ⟨5, POLLIN ||| POLLOUT, some 5⟩,
          .entered 5, .left 5, .returned 6 ⟨6, POLLIN, some 6⟩, .returned 5 ⟨5, POLLIN, some 5⟩] := by
    decide +kernel
  obtain ⟨⟨s, g⟩, hr, hlog⟩ := Option.map_eq_some_iff.1 hfollow
  obtain ⟨r, hopened, hr⟩ := Option.bind_eq_some_iff.1 hr
  have hrun : Run rounds (fun s g c => g.Allows c ∧ Clear s c) s g :=
    Run.follow_guarded (fun _ _ _ => exists_of_map_snd) (.start (opened_start hopened)) hr
  exact ⟨s, g, hrun, hlog, (sigio_round hrun).1⟩

/-- The handler of 5 deletes 6, the last one, and 5 is returned again; and a round is over
at once when 0 comes first, though 0 and 5 are ready. -/
theorem sigio_round_wraps :
    (¬ ∀ (s : PollerSigio ℕ) (g : Notes ℕ), Run rounds (fun _ g c => g.Allows c) s g → Served g.ready g.log) ∧
    ∃ (s : PollerSigio ℕ) (g : Notes ℕ), rounds.start s g ∧ 0 ∈ g.ready ∧ 5 ∈ g.ready ∧
      s.getNextEvent = (EWOULDBLOCK, none, s) := by
  constructor
  · intro hall
    have hfollow : (((opened three).bind fun r => follow (guarded (fun _ g c => g.Allows c) run) rounds.note
        r.1 r.2 [.getNextEvent, .del 6 (fun _ => none) 0, .getNextEvent]).map fun r => r.2.log) =
          some [.returned 5 ⟨5, POLLIN, some 5⟩, .left 6, .returned 5 ⟨5, POLLIN, some 5⟩] := by
      decide +kernel
    obtain ⟨⟨s, g⟩, hr, hlog⟩ := Option.map_eq_some_iff.1 hfollow
    obtain ⟨r, hopened, hr⟩ := Option.bind_eq_some_iff.1 hr
    have hrun : Run rounds (fun _ g c => g.Allows c) s g :=
      Run.follow_guarded (fun _ _ _ => exists_of_map_snd) (.start (opened_start hopened)) hr
    have hserved := hall s g hrun
    rw [hlog] at hserved
    obtain ⟨l₁, l₂, heq, -⟩ := hserved.again 5 _ _ [.left 6] [] (List.suffix_refl _)
    have hin : Round.Act.entered 5 ∈ l₁ ++ .entered 5 :: l₂ := List.mem_append_right l₁ List.mem_cons_self
    rw [← heq] at hin
    cases List.mem_singleton.1 hin
  · have hopened : ((opened [.add 0 (some 0) POLLIN willing, .add 5 (some 5) POLLIN willing]).map fun r =>
        (r.1.readyNext, r.1.listing r.2.monitored 0, r.1.listing r.2.monitored 5)) = some (0, true, true) := by
      decide +kernel
    obtain ⟨⟨s, g⟩, ho, heq⟩ := Option.map_eq_some_iff.1 hopened
    rw [Prod.mk.injEq, Prod.mk.injEq] at heq
    obtain ⟨hnext, h0, h5⟩ := heq
    have hstart := opened_start ho
    have hready : g.ready = {fd | s.listing g.monitored fd = true} := by
      obtain ⟨_, _, _, _, _, hready, _⟩ := hstart
      exact hready
    have hcursor : s.readyNext < 1 := by
      rw [show s.readyNext = 0 from hnext]
      exact Int.one_pos
    refine ⟨s, g, hstart, ?_, ?_, getNextEvent_over hcursor⟩
    · rw [hready]
      exact h0
    · rw [hready]
      exact h5

end Dkftpbench.PollerSigio
