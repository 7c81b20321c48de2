import Dkftpbench.DevpollRound

/-!
# Poller_devpoll when a call fails

`del` writes to the driver before it changes the table. `add` and the mask functions change
the table first, and do not change it back when the write fails. A descriptor that is left
with a client but was not counted cannot be added again, and the assertion of `del` may fail.
-/
namespace Dkftpbench.DevpollWorld
open CLib Watch
variable {Client : Type*}

/-- The client and the recorded mask of each descriptor that is monitored. -/
def registry (w : DevpollWorld Client) (fd : ℤ) : Option (Client × Revents) :=
  if 0 ≤ fd ∧ fd < w.poller.cliventAlloc then
    (w.poller.clivents fd).client.map fun client => (client, (w.poller.clivents fd).events)
  else none

/-- What a call that fails should leave as it was. -/
structure Kept (w q : DevpollWorld Client) : Prop where
  registry : q.registry = w.registry
  pfdsUsed : q.poller.pfdsUsed = w.poller.pfdsUsed

/-- So many descriptors are monitored. -/
def Counted (w : DevpollWorld Client) : Prop :=
  ∃ F : Finset ℤ, (∀ fd, fd ∈ F ↔ w.registry fd ≠ none) ∧ (F.card : ℤ) = w.poller.pfdsUsed

/-- The calls that may change the table. -/
def Updates : Call Client → Prop
  | .waitForEvents _ | .getNextEvent => False
  | _ => True

/-- No assertion fails, a failure changes nothing, and the count is right. -/
def Keeps (solaris : Bool) (w : DevpollWorld Client) (c : Call Client) : Prop :=
  ∃ err q, w.call solaris c = some (err, none, q) ∧ (err ≠ 0 → Kept w q) ∧ Counted q

/-- A larger array is needed, and there is no memory. -/
def Refused (p : PollerDevpoll Client) (fd : ℤ) (heap : DevpollHeap Client) : Prop :=
  fd ≥ p.cliventAlloc ∧ heap.clivents = none ∨ p.pfdsUsed = p.pfdsAlloc ∧ heap.pfds = none

/-- The write is taken where the table was changed before. A null client is no change. -/
def Written (solaris : Bool) (w : DevpollWorld Client) : Call Client → Prop
  | .add fd client _ heap taken =>
    fd < 0 ∨ w.registry fd ≠ none ∨ Refused w.poller fd heap ∨ (0 < taken ↔ client ≠ none)
  | .setMask fd eventmask taken =>
    ∀ e ∈ w.registry fd, (replacing solaris fd eventmask).length ≤ taken ∨ eventmask = e.2
  | .orMask fd eventmask taken => ∀ e ∈ w.registry fd, 1 ≤ taken ∨ e.2 ||| eventmask = e.2
  | .andMask fd eventmask taken =>
    ∀ e ∈ w.registry fd, (replacing solaris fd (e.2 &&& eventmask)).length ≤ taken ∨ e.2 &&& eventmask = e.2
  | _ => True

section
variable {w q : DevpollWorld Client} {p r : PollerDevpoll Client} {fd : ℤ} {taken : ℕ}
variable {heap : DevpollHeap Client} {client : Option Client} {eventmask : Revents} {cv : Clivent Client}
variable {e : Client × Revents} {solaris : Bool} {c : Call Client} {g : Notes Client}

theorem registry_of_mem (h0 : 0 ≤ fd) (hlt : fd < w.poller.cliventAlloc) :
    w.registry fd = (w.poller.clivents fd).client.map fun client => (client, (w.poller.clivents fd).events) :=
  if_pos ⟨h0, hlt⟩

/-- The driver is not looked at. -/
theorem registry_congr (h : q.poller = w.poller) : q.registry = w.registry := by
  unfold registry
  rw [h]

theorem registry_eq_some (h : w.registry fd = some e) :
    (0 ≤ fd ∧ fd < w.poller.cliventAlloc) ∧ w.poller.clivents fd = ⟨some e.1, e.2⟩ := by
  unfold registry at h
  split at h
  · next hrange =>
    obtain ⟨client, hclient, he⟩ := Option.map_eq_some_iff.1 h
    rw [← he, ← hclient]
    exact ⟨hrange, rfl⟩
  · cases h

theorem client_eq_none (h0 : 0 ≤ fd) (hlt : fd < w.poller.cliventAlloc) :
    (w.poller.clivents fd).client = none ↔ w.registry fd = none := by
  rw [registry_of_mem h0 hlt, Option.map_eq_none_iff]

theorem Kept.rfl' : Kept w w := ⟨rfl, rfl⟩

theorem Kept.trans {u : DevpollWorld Client} (h : Kept w q) (h' : Kept q u) : Kept w u :=
  ⟨h'.registry.trans h.registry, h'.pfdsUsed.trans h.pfdsUsed⟩

/-- The old elements are there, and the new ones have no client. -/
theorem registry_clear {n : ℤ} (hn : p.cliventAlloc ≤ n) (cells : ℤ → Clivent Client) (driver : ℤ → Bool) :
    registry ⟨{ p with
      clivents := clearNew (fun cv => { cv with client := none }) (realloc p.clivents p.cliventAlloc cells) p.cliventAlloc n
      cliventAlloc := n }, driver⟩ = registry ⟨p, driver⟩ := by
  funext i
  unfold registry
  dsimp only
  by_cases hi : i < p.cliventAlloc
  · have hold : clearNew (fun cv => { cv with client := none }) (realloc p.clivents p.cliventAlloc cells) p.cliventAlloc n i = p.clivents i :=
      (clearNew_of_lt hi).trans (if_pos hi)
    rw [hold]
    simp only [hi, hi.trans_le hn, and_true]
  · rw [if_neg (show ¬(0 ≤ i ∧ i < p.cliventAlloc) from fun h => hi h.2)]
    split
    · next hrange =>
      rw [clearNew_of_ge (not_lt.1 hi) hrange.2]
      rfl
    · rfl

theorem growClivents_kept (h : p.growClivents fd heap = .ok r) (driver : ℤ → Bool) :
    Kept ⟨p, driver⟩ ⟨r, driver⟩ ∧ r.pfdsAlloc = p.pfdsAlloc := by
  unfold PollerDevpoll.growClivents at h
  split at h
  · next hge =>
    dsimp only at h
    split at h
    · cases h
    · cases h
      refine ⟨⟨registry_clear ?_ _ driver, rfl⟩, rfl⟩
      split <;> omega
  · cases h
    exact ⟨⟨rfl, rfl⟩, rfl⟩

theorem growPfds_kept (h : p.growPfds heap = .ok r) (driver : ℤ → Bool) :
    Kept ⟨p, driver⟩ ⟨r, driver⟩ ∧ r.cliventAlloc = p.cliventAlloc := by
  unfold PollerDevpoll.growPfds at h
  split at h
  · split at h
    · cases h
    · cases h
      exact ⟨⟨rfl, rfl⟩, rfl⟩
  · cases h
    exact ⟨⟨rfl, rfl⟩, rfl⟩

theorem growClivents_error_iff : (∃ err, p.growClivents fd heap = .error err) ↔ fd ≥ p.cliventAlloc ∧ heap.clivents = none := by
  unfold PollerDevpoll.growClivents
  split
  · next hge =>
    cases hcells : heap.clivents with
    | none => simp [hge]
    | some cells => simp
  · next hlt => simp [hlt]

theorem growPfds_error_iff : (∃ err, p.growPfds heap = .error err) ↔ p.pfdsUsed = p.pfdsAlloc ∧ heap.pfds = none := by
  unfold PollerDevpoll.growPfds
  split
  · next hfull =>
    cases hcells : heap.pfds with
    | none => simp [hfull]
    | some cells => simp
  · next hfree => simp [hfree]

theorem registry_putClivent (h0 : 0 ≤ fd) (hlt : fd < p.cliventAlloc) (driver : ℤ → Bool) :
    registry ⟨p.putClivent fd cv, driver⟩ =
      Function.update (registry ⟨p, driver⟩) fd (cv.client.map fun client => (client, cv.events)) := by
  funext i
  by_cases hi : i = fd
  · rw [hi, Function.update_self, registry_of_mem h0 hlt]
    simp only [PollerDevpoll.putClivent, Function.update_self]
  · rw [Function.update_of_ne hi]
    simp only [registry, PollerDevpoll.putClivent, Function.update_of_ne hi]

/-! ## What the functions do -/

theorem add_rejected (h : fd < 0 ∨ w.registry fd ≠ none) : w.add fd client eventmask heap taken = (EINVAL, w) := by
  unfold add
  split
  · rfl
  · next h0 =>
    obtain ⟨e, he⟩ := Option.ne_none_iff_exists'.1 (h.resolve_left h0)
    obtain ⟨hrange, hcv⟩ := registry_eq_some he
    rw [if_pos ⟨hrange.2, by rw [hcv]; rfl⟩]

/-- A descriptor that is not monitored is put in, also where the write fails. -/
theorem add_spec (h0 : 0 ≤ fd) (hnone : w.registry fd = none) :
    (Refused w.poller fd heap ∧ ∃ q, w.add fd client eventmask heap taken = (ENOMEM, q) ∧ Kept w q) ∨
    (¬Refused w.poller fd heap ∧ ∃ q, w.add fd client eventmask heap taken = (if 0 < taken then 0 else EINVAL, q) ∧
      q.registry = Function.update w.registry fd (client.map fun client => (client, eventmask)) ∧
      q.poller.pfdsUsed = w.poller.pfdsUsed+(if 0 < taken then 1 else 0)) := by
  have hfree : ¬(fd < w.poller.cliventAlloc ∧ (w.poller.clivents fd).client.isSome = true) := by
    rintro ⟨hlt, hsome⟩
    rw [(client_eq_none h0 hlt).2 hnone] at hsome
    cases hsome
  unfold add
  rw [if_neg (not_lt.2 h0), if_neg hfree]
  split
  · next r hr =>
    left
    rw [growClivents_error hr]
    exact ⟨.inl (growClivents_error_iff.1 ⟨_, hr⟩), _, rfl, .rfl'⟩
  · next p hp =>
    obtain ⟨hkept, halloc⟩ := growClivents_kept hp w.driver
    have hlt := (growClivents_still hp).2
    have hcells : ¬(fd ≥ w.poller.cliventAlloc ∧ heap.clivents = none) := by
      intro hno
      obtain ⟨err, herr⟩ := growClivents_error_iff.2 hno
      rw [hp] at herr
      cases herr
    have hused : p.pfdsUsed = w.poller.pfdsUsed := hkept.pfdsUsed
    split
    · next r hr =>
      left
      rw [growPfds_error hr]
      have hfull := growPfds_error_iff.1 ⟨_, hr⟩
      rw [hused, halloc] at hfull
      exact ⟨.inr hfull, _, rfl, hkept⟩
    · next r hr =>
      right
      obtain ⟨hkept', hsame⟩ := growPfds_kept hr w.driver
      have hroom : ¬(p.pfdsUsed = p.pfdsAlloc ∧ heap.pfds = none) := by
        intro hno
        obtain ⟨err, herr⟩ := growPfds_error_iff.2 hno
        rw [hr] at herr
        cases herr
      rw [hused, halloc] at hroom
      have hregistry : registry ⟨r.putClivent fd ⟨client, eventmask⟩, w.driver⟩ =
          Function.update w.registry fd (client.map fun client => (client, eventmask)) := by
        rw [registry_putClivent h0 (by omega) w.driver, (hkept.trans hkept').registry]
      have hcount : r.pfdsUsed = w.poller.pfdsUsed := (hkept.trans hkept').pfdsUsed
      refine ⟨not_or.2 ⟨hcells, hroom⟩, ?_⟩
      cases taken with
      | zero => exact ⟨_, rfl, (registry_congr rfl).trans hregistry, hcount.trans (add_zero _).symm⟩
      | succ n =>
          refine ⟨⟨{ r.putClivent fd ⟨client, eventmask⟩ with pfdsUsed := r.pfdsUsed+1 },
            enter w.driver (fd, eventmask)⟩, ?_, (registry_congr rfl).trans hregistry, ?_⟩
          · simp [write, setPoller, PollerDevpoll.putClivent]
          · rw [if_pos n.succ_pos, ← hcount]

/-- `del` does nothing before the write. -/
theorem del_spec (hused : w.registry fd ≠ none → 0 < w.poller.pfdsUsed) :
    (w.registry fd = none ∧ w.del fd taken = some (EINVAL, w)) ∨
    (w.registry fd ≠ none ∧ ((∃ q, w.del fd taken = some (EINVAL, q) ∧ Kept w q) ∨
      ∃ q, w.del fd taken = some (0, q) ∧ q.registry = Function.update w.registry fd none ∧
        q.poller.pfdsUsed = w.poller.pfdsUsed-1)) := by
  unfold del
  split
  · next hout => exact .inl ⟨if_neg (by omega), rfl⟩
  · next hin =>
    have h0 : 0 ≤ fd := by omega
    have hlt : fd < w.poller.cliventAlloc := by omega
    split
    · next hnone => exact .inl ⟨(client_eq_none h0 hlt).1 (Option.isNone_iff_eq_none.1 hnone), rfl⟩
    · next hsome =>
      have hne := mt (client_eq_none h0 hlt).2 (mt Option.isNone_iff_eq_none.2 hsome)
      refine .inr ⟨hne, ?_⟩
      rw [if_neg (not_not.2 (hused hne))]
      rcases write_one w (fd, POLLREMOVE) taken with heq | heq
      · rw [heq]
        exact .inl ⟨_, rfl, .rfl'⟩
      · rw [heq]
        have hregistry : registry ⟨w.poller.putClivent fd ⟨none, (w.poller.clivents fd).events⟩, w.driver⟩ =
            Function.update w.registry fd none := registry_putClivent h0 hlt w.driver
        exact .inr ⟨_, rfl, (registry_congr rfl).trans hregistry, rfl⟩

/-- The mask is recorded before the write. -/
theorem updateMask_spec {f : Revents → Revents} {entries : Revents → List (ℤ × Revents)} :
    (w.registry fd = none ∧ w.updateMask fd f entries taken = (EINVAL, w)) ∨
    ∃ e q, w.registry fd = some e ∧
      w.updateMask fd f entries taken = (if (entries (f e.2)).length ≤ taken then 0 else EINVAL, q) ∧
      q.registry = Function.update w.registry fd (some (e.1, f e.2)) ∧ q.poller.pfdsUsed = w.poller.pfdsUsed := by
  unfold updateMask
  split
  · next hout => exact .inl ⟨if_neg (by omega), rfl⟩
  · next hin =>
    have h0 : 0 ≤ fd := by omega
    have hlt : fd < w.poller.cliventAlloc := by omega
    split
    · next hnone => exact .inl ⟨(client_eq_none h0 hlt).1 (Option.isNone_iff_eq_none.1 hnone), rfl⟩
    · next hsome =>
      right
      obtain ⟨e, he⟩ := Option.ne_none_iff_exists'.1 (mt (client_eq_none h0 hlt).2 (mt Option.isNone_iff_eq_none.2 hsome))
      obtain ⟨_, hcv⟩ := registry_eq_some he
      have hregistry : registry ⟨w.poller.putClivent fd ⟨some e.1, f e.2⟩, w.driver⟩ =
          Function.update w.registry fd (some (e.1, f e.2)) := registry_putClivent h0 hlt w.driver
      rw [hcv]
      refine ⟨e, ((w.setPoller (w.poller.putClivent fd ⟨some e.1, f e.2⟩)).write (entries (f e.2)) taken).2, he, ?_,
        (registry_congr rfl).trans hregistry, rfl⟩
      by_cases hle : (entries (f e.2)).length ≤ taken
      · simp [write, hle]
      · simp [write, hle]

/-! ## The count -/

theorem Counted.congr (h : Counted w) (hsame : ∀ fd, q.registry fd = none ↔ w.registry fd = none)
    (hused : q.poller.pfdsUsed = w.poller.pfdsUsed) : Counted q := by
  obtain ⟨F, hF, hcard⟩ := h
  refine ⟨F, fun fd => (hF fd).trans (not_congr (hsame fd).symm), ?_⟩
  rw [hused, hcard]

theorem Counted.kept (h : Counted w) (hq : Kept w q) : Counted q := by
  refine h.congr (fun fd => ?_) hq.pfdsUsed
  rw [hq.registry]

theorem Counted.put (h : Counted w) (hnone : w.registry fd = none)
    (hq : q.registry = Function.update w.registry fd (some e)) (hused : q.poller.pfdsUsed = w.poller.pfdsUsed+1) :
    Counted q := by
  obtain ⟨F, hF, hcard⟩ := h
  have hnot : fd ∉ F := fun hmem => (hF fd).1 hmem hnone
  refine ⟨insert fd F, fun x => ?_, ?_⟩
  · rw [hq, Finset.mem_insert, hF x]
    by_cases hx : x = fd
    · rw [hx, Function.update_self]
      simp
    · rw [Function.update_of_ne hx]
      simp [hx]
  · rw [Finset.card_insert_of_notMem hnot, hused, ← hcard]
    rfl

theorem Counted.left (h : Counted w) (hsome : w.registry fd ≠ none)
    (hq : q.registry = Function.update w.registry fd none) (hused : q.poller.pfdsUsed = w.poller.pfdsUsed-1) :
    Counted q := by
  obtain ⟨F, hF, hcard⟩ := h
  have hmem : fd ∈ F := (hF fd).2 hsome
  refine ⟨F.erase fd, fun x => ?_, ?_⟩
  · rw [hq, Finset.mem_erase, hF x]
    by_cases hx : x = fd
    · rw [hx, Function.update_self]
      simp
    · rw [Function.update_of_ne hx]
      simp [hx]
  · have hone := Finset.card_erase_add_one hmem
    omega

theorem Counted.pos (h : Counted w) (hsome : w.registry fd ≠ none) : 0 < w.poller.pfdsUsed := by
  obtain ⟨F, hF, hcard⟩ := h
  have hpos := Finset.card_pos.2 ⟨fd, (hF fd).2 hsome⟩
  omega

/-- The count belongs to the descriptors. -/
theorem Counted.pfdsUsed_eq (h : Counted w) (h' : Counted q) (hsame : q.registry = w.registry) :
    q.poller.pfdsUsed = w.poller.pfdsUsed := by
  obtain ⟨F, hF, hcard⟩ := h
  obtain ⟨G, hG, hcard'⟩ := h'
  have hFG : G = F := by
    ext fd
    rw [hF, hG, hsame]
  rw [← hcard, ← hcard', hFG]

/-! ## When a failure changes nothing -/

theorem Keeps.of_call {err : ℤ} (hcall : w.call solaris c = some (err, none, q)) :
    Keeps solaris w c ↔ (err ≠ 0 → Kept w q) ∧ Counted q := by
  constructor
  · intro ⟨err', q', hcall', hkeeps⟩
    rw [hcall] at hcall'
    cases hcall'
    exact hkeeps
  · exact fun h => ⟨err, q, hcall, h⟩

theorem add_keeps_iff (h : Counted w) :
    Keeps solaris w (.add fd client eventmask heap taken) ↔ Written solaris w (.add fd client eventmask heap taken) := by
  by_cases hbad : fd < 0 ∨ w.registry fd ≠ none
  · have hcall : w.call solaris (.add fd client eventmask heap taken) = some (EINVAL, none, w) := by
      rw [call, add_rejected hbad]
      rfl
    refine iff_of_true ⟨EINVAL, w, hcall, fun _ => .rfl', h⟩ ?_
    exact hbad.imp_right .inl
  · rw [not_or, not_lt, not_not] at hbad
    obtain ⟨h0, hnone⟩ := hbad
    rcases add_spec h0 hnone with ⟨href, q, hq, hkept⟩ | ⟨hroom, q, hq, hregistry, hused⟩
    · have hcall : w.call solaris (.add fd client eventmask heap taken) = some (ENOMEM, none, q) := by
        rw [call, hq]
        rfl
      exact iff_of_true ⟨ENOMEM, q, hcall, fun _ => hkept, h.kept hkept⟩ (.inr (.inr (.inl href)))
    · have hcall : w.call solaris (.add fd client eventmask heap taken) =
          some (if 0 < taken then 0 else EINVAL, none, q) := by
        rw [call, hq]
        rfl
      have hwritten : Written solaris w (.add fd client eventmask heap taken) ↔ (0 < taken ↔ client ≠ none) := by
        unfold Written
        simp only [not_lt.2 h0, hnone, hroom, ne_eq, not_true, false_or]
      rw [Keeps.of_call hcall, hwritten]
      cases client with
      | none =>
          have hsame : q.registry = w.registry := by
            rw [hregistry, Option.map_none, ← hnone, Function.update_eq_self]
          by_cases htaken : 0 < taken
          · -- what is counted is not monitored
            rw [if_pos htaken] at hused
            refine iff_of_false ?_ fun hiff => hiff.1 htaken rfl
            intro hkeeps
            have hcount := h.pfdsUsed_eq hkeeps.2 hsame
            omega
          · rw [if_neg htaken, add_zero] at hused
            have hkept : Kept w q := ⟨hsame, hused⟩
            exact iff_of_true ⟨fun _ => hkept, h.kept hkept⟩ (iff_of_false htaken fun hne => hne rfl)
      | some client =>
          by_cases htaken : 0 < taken
          · rw [if_pos htaken] at hused ⊢
            exact iff_of_true ⟨fun h0 => absurd rfl h0, h.put hnone hregistry hused⟩ (iff_of_true htaken (by simp))
          · -- the client stays
            rw [if_neg htaken]
            refine iff_of_false ?_ fun hiff => htaken (hiff.2 (by simp))
            intro hkeeps
            have hat := congrFun (hkeeps.1 (by decide)).registry fd
            rw [hregistry, Function.update_self, hnone] at hat
            cases hat

theorem updateMask_keeps_iff (f : Revents → Revents) (entries : Revents → List (ℤ × Revents)) (h : Counted w)
    (hc : w.call solaris c = some (code (w.updateMask fd f entries taken))) :
    Keeps solaris w c ↔ ∀ e ∈ w.registry fd, (entries (f e.2)).length ≤ taken ∨ f e.2 = e.2 := by
  rcases updateMask_spec with ⟨hnone, hq⟩ | ⟨e, q, he, hq, hregistry, hused⟩
  · rw [hq] at hc
    refine iff_of_true ⟨EINVAL, w, hc, fun _ => .rfl', h⟩ ?_
    intro e he
    rw [hnone] at he
    cases he
  · rw [hq] at hc
    have hcounted : Counted q := by
      refine h.congr (fun x => ?_) hused
      rw [hregistry]
      by_cases hx : x = fd
      · rw [hx, Function.update_self, he]
        simp
      · rw [Function.update_of_ne hx]
    rw [Keeps.of_call hc, and_iff_left hcounted]
    constructor
    · intro hkept e' he'
      rw [he] at he'
      cases he'
      by_cases hle : (entries (f e.2)).length ≤ taken
      · exact .inl hle
      · rw [if_neg hle] at hkept
        have hfailed : EINVAL ≠ 0 := by decide
        have hat := congrFun (hkept hfailed).registry fd
        rw [hregistry, Function.update_self, he, Option.some.injEq] at hat
        exact .inr (congrArg Prod.snd hat)
    · intro hwritten herr
      have hsame : f e.2 = e.2 := (hwritten e he).resolve_left fun hle => herr (if_pos hle)
      rw [hsame, ← he, Function.update_eq_self] at hregistry
      exact ⟨hregistry, hused⟩

theorem del_keeps (h : Counted w) : Keeps solaris w (.del fd taken) := by
  rcases del_spec h.pos with ⟨_, hq⟩ | ⟨_, ⟨q, hq, hkept⟩ | ⟨q, hq, hregistry, hused⟩⟩
  · exact ⟨EINVAL, w, by rw [call, hq]; rfl, fun _ => .rfl', h⟩
  · exact ⟨EINVAL, q, by rw [call, hq]; rfl, fun _ => hkept, h.kept hkept⟩
  · exact ⟨0, q, by rw [call, hq]; rfl, fun h0 => absurd rfl h0, h.left ‹_› hregistry hused⟩

theorem keeps_iff (h : Counted w) (hc : Updates c) : Keeps solaris w c ↔ Written solaris w c := by
  cases c with
  | add fd client eventmask heap taken => exact add_keeps_iff h
  | del fd taken => exact iff_of_true (del_keeps h) trivial
  | setMask fd eventmask taken => exact updateMask_keeps_iff (fun _ => eventmask) (replacing solaris fd) h rfl
  | orMask fd eventmask taken => exact updateMask_keeps_iff (fun mask => mask ||| eventmask) (fun mask => [(fd, mask)]) h rfl
  | andMask fd eventmask taken => exact updateMask_keeps_iff (fun mask => mask &&& eventmask) (replacing solaris fd) h rfl
  | waitForEvents ioctl | getNextEvent => exact hc.elim

theorem init_counted (h : (devpolls solaris).start w g) : Counted w := by
  obtain ⟨⟨p, heap, hp⟩, _, _⟩ := h
  unfold PollerDevpoll.init at hp
  dsimp only at hp
  split at hp
  · cases hp
  · split at hp
    · cases hp
    · obtain ⟨_, hp⟩ := Prod.mk.inj hp
      refine ⟨∅, fun fd => ?_, ?_⟩
      · unfold registry
        rw [← hp]
        dsimp only
        split
        · simp
        · simp
      · rw [← hp]
        rfl

theorem nextEvent_frame {n : ℕ} {err : ℤ} {ev : Option (PollEvent Client)} (h : p.nextEvent n = some (err, ev, r)) :
    ∃ k, r = { p with rfds := k } := by
  induction n with
  | zero =>
      cases h
      exact ⟨0, rfl⟩
  | succ n ih =>
      rw [PollerDevpoll.nextEvent] at h
      split at h
      · cases h
      · split at h
        · cases h
        · split at h
          · exact ih h
          · cases h
            exact ⟨n, rfl⟩

/-- The other calls do not touch the table. -/
theorem poll_kept {err : ℤ} {ev : Option (PollEvent Client)} (hc : ¬Updates c)
    (h : w.call solaris c = some (err, ev, q)) : Kept w q := by
  cases c with
  | add | del | setMask | orMask | andMask => exact absurd trivial hc
  | waitForEvents ioctl =>
      cases ioctl with
      | error e =>
          cases h
          exact ⟨rfl, rfl⟩
      | ok l =>
          cases h
          exact ⟨rfl, rfl⟩
  | getNextEvent =>
      obtain ⟨⟨err', ev', r⟩, hr, hq⟩ := Option.map_eq_some_iff.1 h
      cases hq
      unfold PollerDevpoll.getNextEvent at hr
      split at hr
      · cases hr
        exact ⟨rfl, rfl⟩
      · obtain ⟨k, hk⟩ := nextEvent_frame hr
        rw [hk]
        exact ⟨rfl, rfl⟩

theorem written_counted (h : Run (devpolls solaris) (fun w _ c => Written solaris w c) w g) : Counted w := by
  apply h.invariant
  · intro w g hstart
    exact init_counted hstart
  · intro w g c q h hwritten ⟨err, ev, hq⟩
    by_cases hc : Updates c
    · obtain ⟨err', q', hq', _, hcounted⟩ := (keeps_iff h hc).2 hwritten
      rw [hq] at hq'
      cases hq'
      exact hcounted
    · exact h.kept (poll_kept hc hq)

/-- With memory and a driver that takes the entry a descriptor that is not monitored is added. -/
theorem add_succeeds (h0 : 0 ≤ fd) (hnone : w.registry fd = none) (hclivents : heap.clivents ≠ none)
    (hpfds : heap.pfds ≠ none) (htaken : 0 < taken) : (w.add fd client eventmask heap taken).1 = 0 := by
  rcases add_spec h0 hnone with ⟨href, _⟩ | ⟨_, q, hq, _⟩
  · rcases href with ⟨_, hno⟩ | ⟨_, hno⟩
    · exact absurd hno hclivents
    · exact absurd hno hpfds
  · rw [hq]
    exact if_pos htaken

/-- In every run whose writes are taken where the table was changed before, the count is
right, no assertion of `del` fails, and a call that fails changes nothing if and only if its
write is such a write. An `add` that failed so can then be made again. -/
theorem devpoll_failure_iff (h : Run (devpolls solaris) (fun w _ c => Written solaris w c) w g) :
    Counted w ∧ (∀ c, Updates c → (Keeps solaris w c ↔ Written solaris w c)) ∧
      ∀ fd client eventmask heap taken err q, Written solaris w (.add fd client eventmask heap taken) →
        w.add fd client eventmask heap taken = (err, q) → err ≠ 0 → 0 ≤ fd → w.registry fd = none →
        ∀ heap' taken', heap'.clivents ≠ none → heap'.pfds ≠ none → 0 < taken' →
          (q.add fd client eventmask heap' taken').1 = 0 := by
  have hw := written_counted h
  refine ⟨hw, fun c hc => keeps_iff hw hc, ?_⟩
  intro fd client eventmask heap taken err q hwritten hq herr h0 hnone heap' taken' hclivents hpfds htaken
  obtain ⟨err', q', hcall, hkept, _⟩ := (add_keeps_iff hw).2 hwritten
  rw [call, hq] at hcall
  cases hcall
  refine add_succeeds h0 ?_ hclivents hpfds htaken
  rw [(hkept herr).registry, hnone]

instance (p : PollerDevpoll Client) (fd : ℤ) (heap : DevpollHeap Client) : Decidable (Refused p fd heap) :=
  inferInstanceAs (Decidable (fd ≥ p.cliventAlloc ∧ heap.clivents = none ∨ p.pfdsUsed = p.pfdsAlloc ∧ heap.pfds = none))

instance (solaris : Bool) (w : DevpollWorld Client) : (c : Call Client) → Decidable (Written solaris w c)
  | .add fd client _ heap taken => inferInstanceAs
    (Decidable (fd < 0 ∨ w.registry fd ≠ none ∨ Refused w.poller fd heap ∨ (0 < taken ↔ client ≠ none)))
  | .setMask fd eventmask taken => inferInstanceAs
    (Decidable (∀ e ∈ w.registry fd, (replacing solaris fd eventmask).length ≤ taken ∨ eventmask = e.2))
  | .orMask fd eventmask taken => inferInstanceAs
    (Decidable (∀ e ∈ w.registry fd, 1 ≤ taken ∨ e.2 ||| eventmask = e.2))
  | .andMask fd eventmask taken => inferInstanceAs (Decidable (∀ e ∈ w.registry fd,
    (replacing solaris fd (e.2 &&& eventmask)).length ≤ taken ∨ e.2 &&& eventmask = e.2))
  | .del _ _ | .waitForEvents _ | .getNextEvent => inferInstanceAs (Decidable True)

end

/-- Memory is refused, and a mask stays the same while the write fails. -/
theorem devpoll_failure_full : ∃ (w : DevpollWorld ℕ) (g : Notes ℕ),
    Run (devpolls true) (fun w _ c => Written true w c) w g ∧ w.registry 5 = some (50, POLLIN) ∧
      w.registry 20 = none ∧ (Keeps true w (.setMask 5 POLLOUT 1) ↔ Written true w (.setMask 5 POLLOUT 1)) := by
  have hfollow : ((follow (guarded (fun w _ c => Written true w c) (run true)) (devpolls true).note opened
      ⟨fun _ => none, [], []⟩
      [.add 5 (some 50) POLLIN sevens 1, .add 20 (some 200) POLLIN ⟨none, none⟩ 1, .orMask 5 POLLIN 0,
        .del 5 0]).map fun r => (r.1.registry 5, r.1.registry 20)) = some (some (50, POLLIN), none) := by
    decide +kernel
  obtain ⟨⟨w, g⟩, hr, heq⟩ := Option.map_eq_some_iff.1 hfollow
  have hrun : Run (devpolls true) (fun w _ c => Written true w c) w g :=
    Run.follow_guarded (fun _ _ _ => exists_of_map_snd) (.start opened_start) hr
  exact ⟨w, g, hrun, congrArg Prod.fst heq, congrArg Prod.snd heq, (devpoll_failure_iff hrun).2.1 _ trivial⟩

/-- The write of an `add` fails: the same `add` fails again with everything at hand, and the
assertion of `del` fails. -/
theorem devpoll_add_stuck : (¬ ∀ (w : DevpollWorld ℕ) (g : Notes ℕ) (c : Call ℕ),
    Run (devpolls false) (fun _ _ _ => True) w g → Updates c → Keeps false w c) ∧
    ((follow (fun w _ c => run false w c) (devpolls false).note opened ⟨fun _ => none, [], []⟩
      [.add 5 (some 50) POLLIN sevens 0]).map fun r =>
        ((r.1.add 5 (some 50) POLLIN sevens 1).1, (r.1.del 5 1).isNone)) = some (EINVAL, true) := by
  refine ⟨?_, by decide +kernel⟩
  intro hall
  obtain ⟨err, q, hcall, hkept, _⟩ := hall opened _ (.add 5 (some 50) POLLIN sevens 0) (.start opened_start) trivial
  have hchanged : (((opened.call false (.add 5 (some 50) POLLIN sevens 0)).map fun r =>
      (r.1, r.2.2.registry 5)), opened.registry 5) = (some (EINVAL, some (50, POLLIN)), none) := by
    decide +kernel
  rw [hcall, Prod.mk.injEq, Option.map_some, Option.some.injEq, Prod.mk.injEq] at hchanged
  obtain ⟨⟨herr, hafter⟩, hbefore⟩ := hchanged
  dsimp only at herr hafter
  have hfailed : err ≠ 0 := by
    rw [herr]
    decide
  rw [(hkept hfailed).registry, hbefore] at hafter
  cases hafter

end Dkftpbench.DevpollWorld
