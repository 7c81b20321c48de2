import Dkftpbench.PollTable
import Dkftpbench.PollerKqueue
import Mathlib.Data.Int.Range

/-!
# The events of Poller_kqueue

The changes that are pending, replayed, must make just the filters of the table, with no
error: then what `kevent` returns is true. A change of the mask that adds a bit loses the
client, and one that deletes a filter that is not there comes back as an event. What was
returned stays when its descriptor is deleted, and after a failure there is no end.
-/
namespace Dkftpbench.KqueueWorld
open CLib Watch PollerPoll PollerKqueue
variable {Client : Type*}

/-- What `getNextEvent` returned, and what was the case then: the table, and of the last
wait the table, what was ready and whether it returned an error. -/
structure Got (Client : Type*) where
  event : Option (PollEvent Client)
  table : Table Client
  waited : Table Client
  reported : List (ℤ × Filter)
  failed : Bool

/-- The event is of a descriptor that is monitored, with its client, and of a bit that was
asked for and ready at the wait. -/
structure Genuine (g : Got Client) (e : PollEvent Client) : Prop where
  client : ∃ eventmask, g.table e.fd = some (e.client, eventmask)
  mask : ∃ entry, g.waited e.fd = some entry ∧ entry.2.has e.revents = true
  reported : ∃ filter, (e.fd, filter) ∈ g.reported ∧ e.revents = bit filter

/-- What was returned is right. -/
structure Got.Right (g : Got Client) : Prop where
  genuine : ∀ e, g.event = some e → Genuine g e
  failed : g.failed = true → g.event = none

/-- The table, what is kept of the last wait, and all that `getNextEvent` returned. -/
structure Notes (Client : Type*) where
  table : Table Client
  waited : Table Client
  reported : List (ℤ × Filter)
  failed : Bool
  log : List (Got Client)

/-- What the kernel reports to be ready. -/
def reported (w : KqueueWorld Client) : Except ℤ (List (ℤ × Filter)) → List (ℤ × Filter)
  | .ok l => ((w.answer l).filter fun ke => ke.flags ≠ .error).map fun ke => (ke.ident, ke.filter)
  | .error _ => []

def Notes.after (g : Notes Client) (w : KqueueWorld Client) : Call Client → Notes Client
  | .add fd client eventmask _ _ => { g with table := Function.update g.table fd (some (client, eventmask)) }
  | .del fd _ => if w.poller.numFds = 0 then g else { g with table := Function.update g.table fd none }
  | .setMask fd eventmask _ _ =>
    { g with table := Function.update g.table fd ((g.table fd).map fun e => (e.1, eventmask)) }
  | .orMask fd eventmask _ =>
    { g with table := Function.update g.table fd ((g.table fd).map fun e => (e.1, e.2 ||| eventmask)) }
  | .andMask fd eventmask _ =>
    { g with table := Function.update g.table fd ((g.table fd).map fun e => (e.1, e.2 &&& eventmask)) }
  | .waitForEvents ready =>
    { g with waited := g.table, reported := w.reported ready, failed := (w.waitForEvents ready).1 != 0 }
  | .getNextEvent => { g with log := ⟨w.poller.getNextEvent.2.1, g.table, g.waited, g.reported, g.failed⟩ :: g.log }

/-- `add` is for descriptors that are not monitored, and a failure has an error number. -/
def Notes.Allows (g : Notes Client) : Call Client → Prop
  | .add fd _ _ _ _ => g.table fd = none
  | .waitForEvents (.error err) => err ≠ 0
  | _ => True

/-- The bits of the mask that are added are of a descriptor that is monitored with no client. -/
def Adds (g : Notes Client) (fd : ℤ) (eventmask : Revents) : Prop :=
  ∀ filter, eventmask.has (bit filter) = true → filter ≠ .other → (g.table fd).map Prod.fst = some none

/-- The bits that the mask does not have are set, on a descriptor that is monitored. -/
def Deletes (g : Notes Client) (fd : ℤ) (eventmask : Revents) : Prop :=
  ∀ filter, eventmask.has (bit filter) = false → filter ≠ .other →
    (g.table fd).map (fun e => e.2.has (bit filter)) = some true

/-- No client is lost, no filter is deleted that is not there, nothing that `kevent` has
returned is of a descriptor that is deleted, and nothing is taken after a failure. -/
def Notes.Clear (w : KqueueWorld Client) (g : Notes Client) : Call Client → Prop
  | .setMask fd eventmask _ _ => Adds g fd eventmask ∧ Deletes g fd eventmask
  | .orMask fd eventmask _ => Adds g fd eventmask
  | .andMask fd eventmask _ => Deletes g fd eventmask
  | .del fd _ => w.poller.numFds = 0 ∨ Deletes g fd 0 ∧
      ∀ i, w.poller.curResult ≤ i → i < w.poller.numResults → (w.poller.results i).ident ≠ fd
  | .getNextEvent => w.poller.numResults ≠ -1
  | .add .. | .waitForEvents _ => True

/-- The runs from `init` on. -/
def kqueues : System (KqueueWorld Client) (Call Client) (Notes Client) where
  start w g := (∃ s, w.poller = PollerKqueue.init s) ∧ (w.filters = fun _ _ => none) ∧ (g.table = fun _ => none) ∧
    g.failed = false ∧ g.log = []
  step w c w' := ∃ err ev, w.call c = (err, ev, w')
  note g w c _ := g.after w c

/-- The filters of a table. -/
def filtersOf (m : Table Client) : Filters Client := fun fd filter =>
  (m fd).bind fun e => if e.2.has (bit filter) = true ∧ filter ≠ .other then some e.1 else none

/-- What is still to be returned is true. -/
def Kept (s : PollerKqueue Client) (g : Notes Client) (i : ℤ) : Prop :=
  (∃ eventmask, g.table (s.results i).ident = some ((s.results i).udata, eventmask)) ∧
  (∃ entry, g.waited (s.results i).ident = some entry ∧ entry.2.has (bit (s.results i).filter) = true) ∧
  ((s.results i).ident, (s.results i).filter) ∈ g.reported

/-- The pending changes make these filters, and there is room for so many more. -/
structure Logs (q : Filters Client) (s : PollerKqueue Client) (q' : Filters Client) (room : ℤ) : Prop where
  pending : q.replay s.pending = (q', [])
  nonneg : 0 ≤ s.numChanges
  room : s.numChanges+room ≤ s.maxChanges

structure Agrees (w : KqueueWorld Client) (g : Notes Client) : Prop where
  logs : Logs w.filters w.poller (filtersOf g.table) 0
  kept : ∀ i, w.poller.curResult ≤ i → i < w.poller.numResults → Kept w.poller g i
  cursor : w.poller.numResults = -1 ∨ w.poller.curResult ≤ w.poller.numResults
  results : w.poller.numResults ≤ 2*w.poller.maxFds ∧ 0 ≤ w.poller.maxFds
  failed : g.failed = true → w.poller.numResults = -1 ∨ w.poller.curResult = w.poller.numResults
  right : ∀ r ∈ g.log, r.Right

/-- Only the log has changed. -/
structure Logged (s t : PollerKqueue Client) : Prop where
  results : t.results = s.results
  numResults : t.numResults = s.numResults
  curResult : t.curResult = s.curResult
  numFds : t.numFds = s.numFds
  maxFds : t.maxFds = s.maxFds

section
variable {w : KqueueWorld Client} {g : Notes Client} {s t : PollerKqueue Client} {m : Table Client}
variable {q : Filters Client} {fd : ℤ} {filter : Filter} {eventmask : Revents} {client : Option Client}
variable {ke : Kevent Client} {l : List (Kevent Client)}

theorem replay_append (q : Filters Client) (l : List (Kevent Client)) (ke : Kevent Client) :
    q.replay (l ++ [ke]) = (((q.replay l).1.change ke).1, (q.replay l).2 ++ ((q.replay l).1.change ke).2) := by
  induction l generalizing q with
  | nil => simp [Filters.replay]
  | cons a l ih => simp [Filters.replay, ih]

/-- The log grows by one. -/
theorem pending_push (h : 0 ≤ s.numChanges) (f : Kevent Client → Kevent Client) :
    (s.push f).pending = s.pending ++ [f (s.changes s.numChanges)] := by
  have hnat : (s.numChanges+1).toNat = s.numChanges.toNat+1 := by omega
  have hcast : (s.numChanges.toNat : ℤ) = s.numChanges := Int.toNat_of_nonneg h
  unfold PollerKqueue.pending push
  dsimp only
  rw [hnat, List.range_succ, List.map_append]
  congr 1
  · apply List.map_congr_left
    intro i hi
    have hne : (i : ℤ) ≠ s.numChanges := by
      have hlt := List.mem_range.1 hi
      omega
    rw [Function.update_of_ne hne]
  · rw [List.map_singleton, hcast, Function.update_self]

theorem Logs.reserve {q' : Filters Client} (h : Logs q s q' 0) (cells : ℤ → Kevent Client) :
    Logs q (s.reserve cells) q' 2 ∧ Logged s (s.reserve cells) := by
  have hnonneg := h.nonneg
  have hroom := h.room
  unfold PollerKqueue.reserve
  split
  · refine ⟨⟨?_, hnonneg, ?_⟩, rfl, rfl, rfl, rfl, rfl⟩
    · rw [← h.pending]
      congr 1
      apply List.map_congr_left
      intro i hi
      have hlt : i < s.numChanges.toNat := List.mem_range.1 hi
      exact if_pos (by omega)
    · dsimp only
      omega
  · exact ⟨⟨h.pending, hnonneg, by omega⟩, rfl, rfl, rfl, rfl, rfl⟩

theorem Logs.push {q₁ q₂ : Filters Client} {room : ℤ} (h : Logs q s q₁ (room+1)) (f : Kevent Client → Kevent Client)
    (hf : q₁.change (f (s.changes s.numChanges)) = (q₂, [])) :
    Logs q (s.push f) q₂ room ∧ Logged s (s.push f) := by
  have hnonneg := h.nonneg
  have hroom := h.room
  refine ⟨⟨?_, ?_, ?_⟩, rfl, rfl, rfl, rfl, rfl⟩
  · rw [pending_push hnonneg, replay_append, h.pending, hf]
    rfl
  · exact Int.add_nonneg hnonneg Int.one_nonneg
  · change s.numChanges+1+room ≤ s.maxChanges
    omega

theorem Logged.trans {u : PollerKqueue Client} (h : Logged s t) (h' : Logged t u) : Logged s u where
  results := h'.results.trans h.results
  numResults := h'.numResults.trans h.numResults
  curResult := h'.curResult.trans h.curResult
  numFds := h'.numFds.trans h.numFds
  maxFds := h'.maxFds.trans h.maxFds

theorem set_self (q : Filters Client) (fd : ℤ) (filter : Filter) (udata : Option (Option Client)) :
    q.set fd filter udata fd filter = udata := by
  rw [Filters.set, Function.update_self, Function.update_self]

theorem set_of_ne {fd' : ℤ} {filter' : Filter} (h : ¬(fd' = fd ∧ filter' = filter)) (udata : Option (Option Client)) :
    q.set fd filter udata fd' filter' = q fd' filter' := by
  unfold Filters.set
  by_cases hfd : fd' = fd
  · rw [hfd, Function.update_self, Function.update_of_ne fun heq => h ⟨hfd, heq⟩]
  · rw [Function.update_of_ne hfd]

/-- A change that may or may not be made. -/
theorem Logs.pushIf {q₁ q₂ : Filters Client} {room : ℤ} (h : Logs q s q₁ (room+1)) (b : Bool)
    (f : Kevent Client → Kevent Client) (hf : b = true → q₁.change (f (s.changes s.numChanges)) = (q₂, [])) :
    Logs q (if b then s.push f else s) (if b then q₂ else q₁) room ∧ Logged s (if b then s.push f else s) := by
  cases b with
  | true => exact h.push f (hf rfl)
  | false =>
      have hroom := h.room
      exact ⟨⟨h.pending, h.nonneg, by change s.numChanges+room ≤ s.maxChanges; omega⟩, rfl, rfl, rfl, rfl, rfl⟩

/-- The filters with those of a mask added. -/
def adds (q : Filters Client) (fd : ℤ) (eventmask : Revents) (client : Option Client) : Filters Client :=
  fun fd' filter => if fd' = fd ∧ filter ≠ .other ∧ eventmask.has (bit filter) = true then some client else q fd' filter

/-- The filters without those that are not in a mask. -/
def deletes (q : Filters Client) (fd : ℤ) (eventmask : Revents) : Filters Client :=
  fun fd' filter => if fd' = fd ∧ filter ≠ .other ∧ eventmask.has (bit filter) = false then none else q fd' filter

theorem adds_eq (q : Filters Client) (fd : ℤ) (eventmask : Revents) (client : Option Client) :
    adds q fd eventmask client =
      let q := if eventmask.has POLLIN then q.set fd .read (some client) else q
      if eventmask.has POLLOUT then q.set fd .write (some client) else q := by
  funext fd' filter
  unfold adds
  by_cases hfd : fd' = fd
  · cases filter with
    | read =>
        cases hin : eventmask.has POLLIN <;> cases hout : eventmask.has POLLOUT <;>
          simp [hfd, hin, bit, set_self, set_of_ne]
    | write =>
        cases hin : eventmask.has POLLIN <;> cases hout : eventmask.has POLLOUT <;>
          simp [hfd, hout, bit, set_self, set_of_ne]
    | other =>
        cases hin : eventmask.has POLLIN <;> cases hout : eventmask.has POLLOUT <;> simp [set_of_ne]
  · cases hin : eventmask.has POLLIN <;> cases hout : eventmask.has POLLOUT <;> simp [hfd, set_of_ne]

theorem deletes_eq (q : Filters Client) (fd : ℤ) (eventmask : Revents) :
    deletes q fd eventmask =
      let q := if !eventmask.has POLLIN then q.set fd .read none else q
      if !eventmask.has POLLOUT then q.set fd .write none else q := by
  funext fd' filter
  unfold deletes
  by_cases hfd : fd' = fd
  · cases filter with
    | read =>
        cases hin : eventmask.has POLLIN <;> cases hout : eventmask.has POLLOUT <;>
          simp [hfd, hin, bit, set_self, set_of_ne]
    | write =>
        cases hin : eventmask.has POLLIN <;> cases hout : eventmask.has POLLOUT <;>
          simp [hfd, hout, bit, set_self, set_of_ne]
    | other =>
        cases hin : eventmask.has POLLIN <;> cases hout : eventmask.has POLLOUT <;> simp [set_of_ne]
  · cases hin : eventmask.has POLLIN <;> cases hout : eventmask.has POLLOUT <;> simp [hfd, set_of_ne]

theorem setMaskInternal_logs {q' : Filters Client} (h : Logs q s q' 0) (fd : ℤ) (eventmask : Revents)
    (client : Option Client) (cells : ℤ → Kevent Client) :
    Logs q (s.setMaskInternal fd eventmask client cells).2 (adds q' fd eventmask client) 0 ∧
      Logged s (s.setMaskInternal fd eventmask client cells).2 := by
  obtain ⟨h₀, hl₀⟩ := h.reserve cells
  have hroom : Logs q (s.reserve cells) q' (0+1+1) := h₀
  obtain ⟨h₁, hl₁⟩ := hroom.pushIf (eventmask.has POLLIN) (fun _ => ⟨fd, .read, .addEnable, client⟩) fun _ => rfl
  obtain ⟨h₂, hl₂⟩ := h₁.pushIf (eventmask.has POLLOUT) (fun _ => ⟨fd, .write, .addEnable, client⟩) fun _ => rfl
  refine ⟨?_, hl₀.trans (hl₁.trans hl₂)⟩
  rw [adds_eq]
  exact h₂

/-- A filter that is there is deleted without an error. -/
theorem change_delete {q' : Filters Client} {ke : Kevent Client} (hflags : ke.flags = .delete)
    (hthere : (q' ke.ident ke.filter).isSome = true) : q'.change ke = (q'.set ke.ident ke.filter none, []) := by
  unfold Filters.change
  rw [hflags]
  exact if_pos hthere

theorem clearMaskInternal_logs {q' : Filters Client} (h : Logs q s q' 0) (fd : ℤ) (eventmask : Revents)
    (cells : ℤ → Kevent Client)
    (hthere : ∀ filter, eventmask.has (bit filter) = false → filter ≠ .other → (q' fd filter).isSome = true) :
    Logs q (s.clearMaskInternal fd eventmask cells).2 (deletes q' fd eventmask) 0 ∧
      Logged s (s.clearMaskInternal fd eventmask cells).2 := by
  obtain ⟨h₀, hl₀⟩ := h.reserve cells
  have hroom : Logs q (s.reserve cells) q' (0+1+1) := h₀
  obtain ⟨h₁, hl₁⟩ := hroom.pushIf (!eventmask.has POLLIN) (fun _ => ⟨fd, .read, .delete, none⟩) fun hin =>
    change_delete rfl (hthere .read (by simpa [bit] using hin) nofun)
  obtain ⟨h₂, hl₂⟩ := h₁.pushIf (!eventmask.has POLLOUT) (fun _ => ⟨fd, .write, .delete, none⟩) fun hout => by
    apply change_delete rfl
    have hwrite := hthere .write (by simpa [bit] using hout) nofun
    split
    · rwa [set_of_ne (by simp)]
    · exact hwrite
  refine ⟨?_, hl₀.trans (hl₁.trans hl₂)⟩
  rw [deletes_eq]
  exact h₂

/-- Both filters are deleted. -/
theorem del_logs {q' : Filters Client} (h : Logs q s q' 0) (hnum : s.numFds ≠ 0) (fd : ℤ) (cells : ℤ → Kevent Client)
    (hthere : ∀ filter, filter ≠ .other → (q' fd filter).isSome = true) :
    Logs q (s.del fd cells).2 (deletes q' fd 0) 0 ∧ (s.del fd cells).2.results = s.results ∧
      (s.del fd cells).2.numResults = s.numResults ∧ (s.del fd cells).2.curResult = s.curResult ∧
      (s.del fd cells).2.maxFds = s.maxFds := by
  obtain ⟨h₀, hl₀⟩ := h.reserve cells
  have hroom : Logs q (s.reserve cells) q' (0+1+1) := h₀
  obtain ⟨h₁, hl₁⟩ := hroom.push (fun ke => { ke with ident := fd, filter := .read, flags := .delete })
    (change_delete rfl (hthere .read nofun))
  have hwrite : (q'.set fd .read none fd .write).isSome = true := by
    rw [set_of_ne (by simp)]
    exact hthere .write nofun
  obtain ⟨h₂, hl₂⟩ := h₁.push (fun ke => { ke with ident := fd, filter := .write, flags := .delete })
    (change_delete rfl hwrite)
  have hl := hl₀.trans (hl₁.trans hl₂)
  unfold PollerKqueue.del
  rw [if_neg hnum]
  refine ⟨?_, hl.results, hl.numResults, hl.curResult, hl.maxFds⟩
  rw [deletes_eq]
  exact ⟨h₂.pending, h₂.nonneg, h₂.room⟩

theorem bit_single (h : filter ≠ .other) : (bit filter).Single := by
  cases filter with
  | read => exact Revents.single_in
  | write => exact Revents.single_out
  | other => exact absurd rfl h

/-- It is enough to look at the two filters of the descriptor. -/
theorem filtersOf_update {e : Option (Option Client × Revents)} {q' : Filters Client}
    (hother : ∀ fd' filter, fd' ≠ fd ∨ filter = .other → q' fd' filter = filtersOf m fd' filter)
    (hfd : ∀ filter, filter ≠ .other →
      q' fd filter = e.bind fun e => if e.2.has (bit filter) = true then some e.1 else none) :
    filtersOf (Function.update m fd e) = q' := by
  funext fd' filter
  by_cases hfilter : filter = .other
  · rw [hother fd' filter (.inr hfilter), filtersOf, filtersOf, hfilter]
    simp
  · by_cases heq : fd' = fd
    · rw [heq, hfd filter hfilter, filtersOf, Function.update_self]
      simp only [hfilter, ne_eq, not_false_eq_true, and_true]
    · rw [hother fd' filter (.inl heq), filtersOf, filtersOf, Function.update_of_ne heq]

theorem adds_other {fd' : ℤ} (h : fd' ≠ fd ∨ filter = .other) : adds q fd eventmask client fd' filter = q fd' filter := by
  apply if_neg
  intro ⟨hfd, hfilter, _⟩
  exact h.elim (fun hne => hne hfd) hfilter

theorem deletes_other {fd' : ℤ} (h : fd' ≠ fd ∨ filter = .other) : deletes q fd eventmask fd' filter = q fd' filter := by
  apply if_neg
  intro ⟨hfd, hfilter, _⟩
  exact h.elim (fun hne => hne hfd) hfilter

/-- What the changes of each call make of the filters of the table. -/
theorem filtersOf_add (hnone : m fd = none) (client : Option Client) (eventmask : Revents) :
    filtersOf (Function.update m fd (some (client, eventmask))) = adds (filtersOf m) fd eventmask client := by
  apply filtersOf_update
  · exact fun fd' filter hother => adds_other hother
  · intro filter hfilter
    unfold adds filtersOf
    rw [hnone]
    grind

theorem filtersOf_or (h : Adds g fd eventmask) :
    filtersOf (Function.update g.table fd ((g.table fd).map fun e => (e.1, e.2 ||| eventmask))) =
      adds (filtersOf g.table) fd eventmask none := by
  apply filtersOf_update
  · exact fun fd' filter hother => adds_other hother
  · intro filter hfilter
    have hor := fun a => (bit_single hfilter).has_or (a := a) (b := eventmask)
    have hadds := h filter
    unfold adds filtersOf
    cases hm : g.table fd with
    | none => grind
    | some e => grind

theorem filtersOf_and :
    filtersOf (Function.update g.table fd ((g.table fd).map fun e => (e.1, e.2 &&& eventmask))) =
      deletes (filtersOf g.table) fd eventmask := by
  apply filtersOf_update
  · exact fun fd' filter hother => deletes_other hother
  · intro filter hfilter
    have hand := fun a => (bit_single hfilter).has_and (a := a) (b := eventmask)
    unfold deletes filtersOf
    cases hm : g.table fd with
    | none => grind
    | some e => grind

theorem filtersOf_set (hadds : Adds g fd eventmask) :
    filtersOf (Function.update g.table fd ((g.table fd).map fun e => (e.1, eventmask))) =
      deletes (adds (filtersOf g.table) fd eventmask none) fd eventmask := by
  apply filtersOf_update
  · exact fun fd' filter hother => (deletes_other hother).trans (adds_other hother)
  · intro filter hfilter
    have hadds := hadds filter
    unfold deletes adds filtersOf
    cases hm : g.table fd with
    | none => grind
    | some e => grind

theorem filtersOf_del : filtersOf (Function.update m fd none) = deletes (filtersOf m) fd 0 := by
  apply filtersOf_update
  · exact fun fd' filter hother => deletes_other hother
  · intro filter hfilter
    exact if_pos ⟨rfl, hfilter, (bit_single hfilter).has_zero⟩

/-- The filters to delete are there. -/
theorem Deletes.there (h : Deletes g fd eventmask) (hhas : eventmask.has (bit filter) = false) (hfilter : filter ≠ .other) :
    (filtersOf g.table fd filter).isSome = true := by
  obtain ⟨e, he, hbit⟩ := Option.map_eq_some_iff.1 (h filter hhas hfilter)
  unfold filtersOf
  rw [he, Option.bind_some, if_pos ⟨hbit, hfilter⟩]
  rfl

/-- What was returned stays true as long as its descriptor keeps its client. -/
theorem Kept.congr {g' : Notes Client} {i : ℤ} (h : Kept s g i) (hresult : t.results i = s.results i)
    (htable : ∀ client eventmask, g.table (s.results i).ident = some (client, eventmask) →
      ∃ eventmask', g'.table (s.results i).ident = some (client, eventmask'))
    (hwaited : g'.waited = g.waited) (hreported : g'.reported = g.reported) : Kept t g' i := by
  obtain ⟨⟨eventmask, hclient⟩, hmask, hin⟩ := h
  unfold Kept
  rw [hresult, hwaited, hreported]
  exact ⟨htable _ _ hclient, hmask, hin⟩

/-- What was returned is there as it was. -/
structure Returned (s t : PollerKqueue Client) : Prop where
  results : ∀ i, i < s.numResults → t.results i = s.results i
  numResults : t.numResults = s.numResults
  curResult : t.curResult = s.curResult
  maxFds : s.maxFds ≤ t.maxFds

theorem Logged.returned (h : Logged s t) : Returned s t where
  results i _ := congrFun h.results i
  numResults := h.numResults
  curResult := h.curResult
  maxFds := h.maxFds.ge

/-- A call that changes the log and the table. -/
theorem Agrees.logged {m : Table Client} (h : Agrees w g) (hlogs : Logs w.filters t (filtersOf m) 0)
    (ht : Returned w.poller t)
    (htable : ∀ i client eventmask, w.poller.curResult ≤ i → i < w.poller.numResults →
      g.table (w.poller.results i).ident = some (client, eventmask) →
      ∃ eventmask', m (w.poller.results i).ident = some (client, eventmask')) :
    Agrees { w with poller := t } { g with table := m } := by
  obtain ⟨hresults, hnum, hcur, hmax⟩ := ht
  have hroom := h.results
  refine ⟨hlogs, fun i hlo hhi => ?_, ?_, ?_, ?_, h.right⟩
  · have hlo : w.poller.curResult ≤ i := hcur ▸ hlo
    have hhi : i < w.poller.numResults := hnum ▸ hhi
    exact (h.kept i hlo hhi).congr (hresults i hhi) (fun client eventmask => htable i client eventmask hlo hhi) rfl rfl
  · change t.numResults = -1 ∨ t.curResult ≤ t.numResults
    rw [hnum, hcur]
    exact h.cursor
  · change t.numResults ≤ 2*t.maxFds ∧ 0 ≤ t.maxFds
    omega
  · intro hfailed
    change t.numResults = -1 ∨ t.curResult = t.numResults
    rw [hnum, hcur]
    exact h.failed hfailed

/-- The client of each descriptor stays when its mask changes. -/
theorem mapped_client {x fd : ℤ} (f : Revents → Revents) (hx : m x = some (client, eventmask)) :
    ∃ eventmask', Function.update m fd ((m fd).map fun e => (e.1, f e.2)) x = some (client, eventmask') := by
  by_cases heq : x = fd
  · refine ⟨f eventmask, ?_⟩
    rw [← heq, Function.update_self, hx]
    rfl
  · refine ⟨eventmask, ?_⟩
    rw [Function.update_of_ne heq]
    exact hx

theorem or_agrees (h : Agrees w g) (hc : Adds g fd eventmask) (cells : ℤ → Kevent Client) :
    Agrees { w with poller := (w.poller.orMask fd eventmask cells).2 } (g.after w (.orMask fd eventmask cells)) := by
  obtain ⟨hlogs, hlogged⟩ := setMaskInternal_logs h.logs fd eventmask none cells
  apply h.logged _ hlogged.returned
  · exact fun i client mask _ _ hi => mapped_client (fun b => b ||| eventmask) hi
  · rw [filtersOf_or hc]
    exact hlogs

theorem and_agrees (h : Agrees w g) (hc : Deletes g fd eventmask) (cells : ℤ → Kevent Client) :
    Agrees { w with poller := (w.poller.andMask fd eventmask cells).2 } (g.after w (.andMask fd eventmask cells)) := by
  obtain ⟨hlogs, hlogged⟩ := clearMaskInternal_logs h.logs fd eventmask cells fun _ => hc.there
  apply h.logged _ hlogged.returned
  · exact fun i client mask _ _ hi => mapped_client (fun b => b &&& eventmask) hi
  · rw [filtersOf_and]
    exact hlogs

theorem set_agrees (h : Agrees w g) (hadds : Adds g fd eventmask) (hdeletes : Deletes g fd eventmask)
    (cells cells' : ℤ → Kevent Client) :
    Agrees { w with poller := (w.poller.setMask fd eventmask cells cells').2 }
      (g.after w (.setMask fd eventmask cells cells')) := by
  obtain ⟨hlogs, hlogged⟩ := setMaskInternal_logs h.logs fd eventmask none cells
  obtain ⟨hlogs', hlogged'⟩ := clearMaskInternal_logs hlogs fd eventmask cells' fun filter hhas hfilter => by
    have hthere := hdeletes.there hhas hfilter
    unfold adds
    rw [if_neg fun h => by simp [hhas] at h]
    exact hthere
  apply h.logged _ (hlogged.trans hlogged').returned
  · exact fun i client mask _ _ hi => mapped_client (fun _ => eventmask) hi
  · rw [filtersOf_set hadds]
    exact hlogs'

theorem add_agrees (h : Agrees w g) (hnone : g.table fd = none) (client : Option Client) (eventmask : Revents)
    (results changes : ℤ → Kevent Client) :
    Agrees { w with poller := (w.poller.add fd client eventmask results changes).2 }
      (g.after w (.add fd client eventmask results changes)) := by
  have hroom := h.results
  have hgrown : ∀ s', s' = (if w.poller.numFds = w.poller.maxFds then { w.poller with
      maxFds := w.poller.maxFds+128, results := realloc w.poller.results (2*w.poller.maxFds) results } else w.poller) →
      Logs w.filters { s' with numFds := s'.numFds+1 } (filtersOf g.table) 0 ∧
        Returned w.poller { s' with numFds := s'.numFds+1 } := by
    intro s' hs'
    rw [hs']
    split
    · refine ⟨⟨h.logs.pending, h.logs.nonneg, h.logs.room⟩, fun i hi => ?_, rfl, rfl, ?_⟩
      · exact realloc_of_lt (by omega)
      · dsimp only
        omega
    · exact ⟨⟨h.logs.pending, h.logs.nonneg, h.logs.room⟩, fun _ _ => rfl, rfl, rfl, le_rfl⟩
  obtain ⟨hlogs, hreturned⟩ := hgrown _ rfl
  obtain ⟨hlogs', hlogged⟩ := setMaskInternal_logs hlogs fd eventmask client changes
  have hfinal : Returned w.poller (w.poller.add fd client eventmask results changes).2 := by
    refine ⟨fun i hi => ?_, ?_, ?_, ?_⟩
    · exact (congrFun hlogged.results i).trans (hreturned.results i hi)
    · exact hlogged.numResults.trans hreturned.numResults
    · exact hlogged.curResult.trans hreturned.curResult
    · exact hreturned.maxFds.trans hlogged.maxFds.ge
  apply h.logged _ hfinal
  · intro i client' mask _ _ hi
    have hne : (w.poller.results i).ident ≠ fd := by
      intro heq
      rw [heq, hnone] at hi
      cases hi
    rw [Function.update_of_ne hne]
    exact ⟨mask, hi⟩
  · rw [filtersOf_add hnone]
    exact hlogs'

theorem del_agrees {cells : ℤ → Kevent Client} (h : Agrees w g) (hc : g.Clear w (.del fd cells)) :
    Agrees { w with poller := (w.poller.del fd cells).2 } (g.after w (.del fd cells)) := by
  by_cases hnum : w.poller.numFds = 0
  · rw [PollerKqueue.del, if_pos hnum, Notes.after, if_pos hnum]
    exact h
  · obtain ⟨hdeletes, hout⟩ := hc.resolve_left hnum
    obtain ⟨hlogs, hresults, hnumResults, hcur, hmax⟩ := del_logs h.logs hnum fd cells fun filter hfilter =>
      hdeletes.there (bit_single hfilter).has_zero hfilter
    rw [Notes.after, if_neg hnum]
    apply h.logged _ ⟨fun i _ => congrFun hresults i, hnumResults, hcur, hmax.ge⟩
    · intro i client mask hlo hhi hi
      rw [Function.update_of_ne (hout i hlo hhi)]
      exact ⟨mask, hi⟩
    · rw [filtersOf_del]
      exact hlogs

/-- What is ready is of the table. -/
theorem answer_kept (h : Agrees w g) {l : List (ℤ × Filter)} (hke : ke ∈ w.answer l) :
    (∃ e, g.table ke.ident = some e ∧ e.1 = ke.udata ∧ e.2.has (bit ke.filter) = true) ∧
      (ke.ident, ke.filter) ∈ w.reported (.ok l) := by
  have hready : ke ∈ (filtersOf g.table).ready l := by
    have hmem := List.mem_of_mem_take hke
    rwa [h.logs.pending] at hmem
  obtain ⟨⟨fd, filter⟩, -, hfound⟩ := List.mem_filterMap.1 hready
  obtain ⟨udata, hudata, heq⟩ := Option.map_eq_some_iff.1 hfound
  obtain ⟨e, he, hsome⟩ := Option.bind_eq_some_iff.1 hudata
  obtain ⟨⟨hhas, -⟩, hclient⟩ := Option.ite_none_right_eq_some.1 hsome
  rw [← heq]
  refine ⟨⟨e, he, Option.some.inj hclient, hhas⟩, ?_⟩
  apply List.mem_map.2
  refine ⟨ke, ?_, by rw [← heq]⟩
  rw [List.mem_filter]
  refine ⟨hke, ?_⟩
  rw [← heq]
  rfl

theorem wait_agrees {ready : Except ℤ (List (ℤ × Filter))} (h : Agrees w g) (hc : g.Allows (.waitForEvents ready)) :
    Agrees (w.waitForEvents ready).2.2 (g.after w (.waitForEvents ready)) := by
  have hroom := h.results
  have hlog := h.logs
  have hnonneg := hlog.nonneg
  have hchanges := hlog.room
  cases ready with
  | error err =>
      refine ⟨⟨?_, le_rfl, ?_⟩, fun i hlo hhi => ?_, .inl rfl, ⟨?_, hroom.2⟩, fun _ => .inl rfl, h.right⟩
      · change (w.filters.replay w.poller.pending).1.replay [] = _
        rw [hlog.pending]
        rfl
      · change 0+0 ≤ w.poller.maxChanges
        omega
      · have hlo : 0 ≤ i := hlo
        have hhi : i < -1 := hhi
        omega
      · change -1 ≤ 2*w.poller.maxFds
        omega
  | ok l =>
      have hlength : (w.answer l).length ≤ 2*w.poller.maxFds := by
        have htake : (w.answer l).length ≤ (2*w.poller.maxFds).toNat := List.length_take_le ..
        omega
      refine ⟨⟨?_, le_rfl, ?_⟩, fun i hlo hhi => ?_, .inr (Int.natCast_nonneg _), ⟨hlength, hroom.2⟩, fun hfailed => ?_,
        h.right⟩
      · change (w.filters.replay w.poller.pending).1.replay [] = _
        rw [hlog.pending]
        rfl
      · change 0+0 ≤ w.poller.maxChanges
        omega
      · have hlo : 0 ≤ i := hlo
        have hhi : i < (w.answer l).length := hhi
        have hlt : i.toNat < (w.answer l).length := by omega
        have hresult : ((w.waitForEvents (.ok l)).2.2.poller.results i) = (w.answer l)[i.toNat] := by
          change (if 0 ≤ i then (w.answer l)[i.toNat]?.getD (w.poller.results i) else w.poller.results i) = _
          rw [if_pos hlo, List.getElem?_eq_getElem hlt]
          rfl
        obtain ⟨⟨e, he, hclient, hhas⟩, hreported⟩ := answer_kept h (List.getElem_mem hlt)
        unfold Kept
        rw [hresult, ← hclient]
        exact ⟨⟨e.2, he⟩, ⟨e, he, hhas⟩, hreported⟩
      · right
        change (0 : ℤ) = (w.answer l).length
        have hcode : (if (w.answer l).length = 0 then EWOULDBLOCK else 0) ≠ 0 := bne_iff_ne.1 hfailed
        by_contra hne
        rw [if_neg (by omega)] at hcode
        exact hcode rfl

theorem getNextEvent_agrees (h : Agrees w g) (hc : w.poller.numResults ≠ -1) :
    Agrees { w with poller := w.poller.getNextEvent.2.2 } (g.after w .getNextEvent) := by
  have hcursor := h.cursor.resolve_left hc
  have hfailed : g.failed = true → w.poller.curResult = w.poller.numResults := fun hf => (h.failed hf).resolve_left hc
  by_cases hend : w.poller.curResult = w.poller.numResults
  · have hnone : w.poller.getNextEvent = (EWOULDBLOCK, none, w.poller) := if_pos hend
    rw [Notes.after, hnone]
    refine ⟨h.logs, h.kept, h.cursor, h.results, h.failed, fun r hr => ?_⟩
    rcases List.mem_cons.1 hr with rfl | hr
    · exact ⟨nofun, fun _ => rfl⟩
    · exact h.right r hr
  · let ke := w.poller.results w.poller.curResult
    have hsome : w.poller.getNextEvent = (0, some ⟨ke.ident, bit ke.filter, ke.udata⟩,
        { w.poller with curResult := w.poller.curResult+1 }) := if_neg hend
    obtain ⟨hclient, hmask, hreported⟩ := h.kept w.poller.curResult le_rfl (by omega)
    have hnot : g.failed = false := Bool.eq_false_iff.2 (hend ∘ hfailed)
    rw [Notes.after, hsome]
    refine ⟨⟨h.logs.pending, h.logs.nonneg, h.logs.room⟩, fun i hlo hhi => ?_, .inr ?_, h.results, fun hf => ?_,
      fun r hr => ?_⟩
    · have hlo : w.poller.curResult+1 ≤ i := hlo
      exact h.kept i (by omega) hhi
    · change w.poller.curResult+1 ≤ w.poller.numResults
      omega
    · exact absurd (hfailed hf) hend
    · rcases List.mem_cons.1 hr with rfl | hr
      · refine ⟨fun e he => ?_, fun hf => ?_⟩
        · cases he
          exact ⟨hclient, hmask, ke.filter, hreported, rfl⟩
        · exact absurd (hfailed hf) hend
      · exact h.right r hr

theorem start_agrees (h : kqueues.start w g) : Agrees w g := by
  obtain ⟨⟨s, hs⟩, hfilters, htable, hfailed, hlog⟩ := h
  refine ⟨⟨?_, ?_, ?_⟩, fun i hlo hhi => ?_, .inr ?_, ⟨?_, ?_⟩, ?_, ?_⟩
  · rw [hs, hfilters, htable]
    rfl
  · rw [hs]
    exact le_rfl
  · rw [hs]
    exact le_rfl
  · rw [hs] at hlo hhi
    have hlo : 0 ≤ i := hlo
    have hhi : i < 0 := hhi
    omega
  · rw [hs]
    exact le_rfl
  · rw [hs]
    exact le_rfl
  · rw [hs]
    exact le_rfl
  · rw [hfailed]
    nofun
  · rw [hlog]
    nofun

theorem step_agrees {c : Call Client} (h : Agrees w g) (hc : g.Allows c) (hclear : g.Clear w c) :
    Agrees (w.call c).2.2 (g.after w c) := by
  cases c with
  | add fd client eventmask results changes => exact add_agrees h hc client eventmask results changes
  | del fd cells => exact del_agrees h hclear
  | setMask fd eventmask cells cells' => exact set_agrees h hclear.1 hclear.2 cells cells'
  | orMask fd eventmask cells => exact or_agrees h hclear cells
  | andMask fd eventmask cells => exact and_agrees h hclear cells
  | waitForEvents ready => exact wait_agrees h hc
  | getNextEvent => exact getNextEvent_agrees h hclear

/-- As long as the calls are `Clear`, all that `getNextEvent` returns is right. -/
theorem kqueue_events (h : Run kqueues (fun w g c => g.Allows c ∧ g.Clear w c) w g) : ∀ r ∈ g.log, r.Right := by
  have hagrees : Agrees w g := by
    apply h.invariant
    · exact fun w g hstart => start_agrees hstart
    · intro w g c w' hagrees ⟨hc, hclear⟩ ⟨err, ev, hw⟩
      have hstep := step_agrees hagrees hc hclear
      rwa [hw] at hstep
  exact hagrees.right

instance (p : Filter → Prop) [DecidablePred p] : Decidable (∀ filter, p filter) :=
  decidable_of_iff (p .read ∧ p .write ∧ p .other) ⟨fun h filter => by cases filter <;> grind, fun h => ⟨h _, h _, h _⟩⟩

instance (g : Notes Client) : (c : Call Client) → Decidable (g.Allows c)
  | .add fd _ _ _ _ => inferInstanceAs (Decidable (g.table fd = none))
  | .waitForEvents (.error err) => inferInstanceAs (Decidable (err ≠ 0))
  | .del _ _ | .setMask _ _ _ _ | .orMask _ _ _ | .andMask _ _ _ | .waitForEvents (.ok _) | .getNextEvent =>
    inferInstanceAs (Decidable True)

end

instance (g : Notes ℕ) (fd : ℤ) (eventmask : Revents) : Decidable (Adds g fd eventmask) :=
  inferInstanceAs (Decidable (∀ filter, eventmask.has (bit filter) = true → filter ≠ .other →
    (g.table fd).map Prod.fst = some none))

instance (g : Notes ℕ) (fd : ℤ) (eventmask : Revents) : Decidable (Deletes g fd eventmask) :=
  inferInstanceAs (Decidable (∀ filter, eventmask.has (bit filter) = false → filter ≠ .other →
    (g.table fd).map (fun e => e.2.has (bit filter)) = some true))

instance (w : KqueueWorld ℕ) (g : Notes ℕ) : (c : Call ℕ) → Decidable (g.Clear w c)
  | .setMask fd eventmask _ _ => inferInstanceAs (Decidable (Adds g fd eventmask ∧ Deletes g fd eventmask))
  | .orMask fd eventmask _ => inferInstanceAs (Decidable (Adds g fd eventmask))
  | .andMask fd eventmask _ => inferInstanceAs (Decidable (Deletes g fd eventmask))
  | .del fd _ => inferInstanceAs (Decidable (w.poller.numFds = 0 ∨ Deletes g fd 0 ∧
      ∀ i, w.poller.curResult ≤ i → i < w.poller.numResults → (w.poller.results i).ident ≠ fd))
  | .getNextEvent => inferInstanceAs (Decidable (w.poller.numResults ≠ -1))
  | .add .. | .waitForEvents _ => inferInstanceAs (Decidable True)

/-- The world after a call. -/
def run (w : KqueueWorld ℕ) (c : Call ℕ) : Option (KqueueWorld ℕ) := some (w.call c).2.2

theorem call_of_run {w w' : KqueueWorld ℕ} {c : Call ℕ} (h : w.run c = some w') :
    ∃ err ev, w.call c = (err, ev, w') :=
  ⟨(w.call c).1, (w.call c).2.1, by rw [← Option.some.inj h]⟩

/-- Memory that holds sevens. -/
def sevens : ℤ → Kevent ℕ := fun _ => ⟨7, .other, .other, some 7⟩

/-- After `init`. -/
def fresh : KqueueWorld ℕ := ⟨PollerKqueue.init ⟨sevens, sevens, 7, 7, 7, 7, 7, 7⟩, fun _ _ => none⟩

def freshNotes : Notes ℕ := ⟨fun _ => none, fun _ => none, [], false, []⟩

theorem fresh_start : kqueues.start fresh freshNotes := ⟨⟨_, rfl⟩, rfl, rfl, rfl, rfl⟩

/-- A mask shrinks and another one, of no client, grows; then both are ready. -/
theorem kqueue_events_two : ∃ (w : KqueueWorld ℕ) (g : Notes ℕ),
    Run kqueues (fun w g c => g.Allows c ∧ g.Clear w c) w g ∧
    (g.log.map fun r => r.event) = [none, some ⟨6, POLLOUT, none⟩, some ⟨5, POLLIN, some 5⟩] ∧ ∀ r ∈ g.log, r.Right := by
  have hfollow : ((follow (guarded (fun w g c => g.Allows c ∧ g.Clear w c) run) kqueues.note fresh freshNotes
      [.add 5 (some 5) (POLLIN ||| POLLOUT) sevens sevens, .add 6 none POLLIN sevens sevens, .andMask 5 POLLIN sevens,
        .orMask 6 POLLOUT sevens, .waitForEvents (.ok [(5, .write), (5, .read), (6, .write)]), .getNextEvent,
        .getNextEvent, .getNextEvent]).map fun r => r.2.log.map fun r => r.event) =
          some [none, some ⟨6, POLLOUT, none⟩, some ⟨5, POLLIN, some 5⟩] := by
    decide +kernel
  obtain ⟨⟨w, g⟩, hr, hlog⟩ := Option.map_eq_some_iff.1 hfollow
  have hrun : Run kqueues (fun w g c => g.Allows c ∧ g.Clear w c) w g :=
    Run.follow_guarded (fun _ _ _ => call_of_run) (.start fresh_start) hr
  exact ⟨w, g, hrun, hlog, kqueue_events hrun⟩

/-- The event is not right for one of three reasons. -/
def Got.wrong (r : Got ℕ) : Bool :=
  match r.event with
  | none => false
  | some e => r.failed || (r.table e.fd).map Prod.fst != some e.client ||
      ((r.waited e.fd).map fun entry => entry.2.has e.revents) != some true

theorem Got.wrong_not_right {r : Got ℕ} (h : r.wrong = true) : ¬r.Right := by
  intro hright
  unfold Got.wrong at h
  split at h
  · cases h
  · next e he =>
      obtain ⟨⟨mask, hclient⟩, ⟨entry, hentry, hhas⟩, -⟩ := hright.genuine e he
      have hfailed : r.failed = false := by
        rw [Bool.eq_false_iff]
        intro hf
        rw [hright.failed hf] at he
        cases he
      simp [hfailed, hclient, hentry, hhas] at h

/-- A bit is added to the mask. -/
def grown : List (Call ℕ) :=
  [.add 5 (some 5) POLLIN sevens sevens, .orMask 5 POLLOUT sevens, .waitForEvents (.ok [(5, .write)]), .getNextEvent]

/-- A bit that is not set is taken out of the mask. -/
def shrunk : List (Call ℕ) :=
  [.add 5 (some 5) POLLIN sevens sevens, .andMask 5 POLLIN sevens, .waitForEvents (.ok []), .getNextEvent]

/-- A descriptor is deleted whose event is still to be returned. -/
def deleted : List (Call ℕ) :=
  [.add 5 (some 5) POLLIN sevens sevens, .add 6 (some 6) POLLIN sevens sevens,
    .waitForEvents (.ok [(5, .read), (6, .read)]), .getNextEvent, .del 6 sevens, .getNextEvent]

/-- `kevent` is interrupted. -/
def interrupted : List (Call ℕ) :=
  [.add 5 (some 5) POLLIN sevens sevens, .waitForEvents (.error 4), .getNextEvent]

/-- A run along the calls in which something that is not right is returned. -/
def GoesWrong (cs : List (Call ℕ)) : Prop := ∃ (w : KqueueWorld ℕ) (g : Notes ℕ),
  follow (guarded (fun _ g c => g.Allows c) run) kqueues.note fresh freshNotes cs = some (w, g) ∧
  Run kqueues (fun _ g c => g.Allows c) w g ∧ ∃ r ∈ g.log, ¬r.Right

theorem goesWrong_of_follow {cs : List (Call ℕ)}
    (h : ((follow (guarded (fun _ g c => g.Allows c) run) kqueues.note fresh freshNotes cs).map
      fun r => r.2.log.any Got.wrong) = some true) : GoesWrong cs := by
  obtain ⟨⟨w, g⟩, hr, hlog⟩ := Option.map_eq_some_iff.1 h
  obtain ⟨r, hin, hwrong⟩ := List.any_eq_true.1 hlog
  exact ⟨w, g, hr, Run.follow_guarded (fun _ _ _ => call_of_run) (.start fresh_start) hr, r, hin,
    Got.wrong_not_right hwrong⟩

theorem kqueue_events_wrong : GoesWrong grown ∧ GoesWrong shrunk ∧ GoesWrong deleted ∧ GoesWrong interrupted := by
  refine ⟨goesWrong_of_follow ?_, goesWrong_of_follow ?_, goesWrong_of_follow ?_, goesWrong_of_follow ?_⟩
  · decide +kernel
  · decide +kernel
  · decide +kernel
  · decide +kernel

end Dkftpbench.KqueueWorld
