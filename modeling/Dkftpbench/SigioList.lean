import Dkftpbench.PollerSigio
import Dkftpbench.Ring
import Dkftpbench.Watch
import Mathlib.Data.Finset.Card

/-!
# The ready list of Poller_sigio

The ready list is a ring, written from `m_ready_head` on. Its members are those of the
monitored descriptors that are ready. A new one goes to the end, and one that is no more
ready is taken out where it is.
-/
namespace Dkftpbench.PollerSigio
open CLib Watch
variable {Client : Type*}

/-- The links, each as a map. -/
def nexts (s : PollerSigio Client) (fd : ℤ) : ℤ := (s.fds fd).next
def prevs (s : PollerSigio Client) (fd : ℤ) : ℤ := (s.fds fd).prev

/-- The list `L` is linked in the state, and the descriptors `M` are monitored. -/
structure Listed (s : PollerSigio Client) (M : Finset ℤ) (L : List ℤ) : Prop where
  ring : Ring s.nexts s.prevs L
  nodup : L.Nodup
  mem : ∀ fd ∈ L, fd ∈ M
  count : s.readyCount = L.length
  head : s.readyHead = L.head?.getD (-1)
  cursor : s.readyNext = -1 ∨ s.readyNext ∈ L
  unlinked : ∀ fd ∈ M, fd ∉ L → s.nexts fd = -1 ∧ s.prevs fd = -1
  clear : ∀ fd, 0 ≤ fd → fd < s.fdsAlloc → fd ∉ M → s.fds fd = .clear
  range : ∀ fd ∈ M, 0 ≤ fd ∧ fd < s.fdsAlloc
  used : s.fdsUsed = M.card
  alloc : 0 ≤ s.fdsAlloc

/-- Moreover the list holds just what is ready. -/
structure Sound (s : PollerSigio Client) (M : Finset ℤ) (L : List ℤ) : Prop extends Listed s M L where
  ready : ∀ fd ∈ M, fd ∈ L ↔ (s.fds fd).isReady = true

section
variable {s t : PollerSigio Client} {M : Finset ℤ} {L : List ℤ} {fd x : ℤ} {f : FdState Client → FdState Client}

@[simp] theorem modify_self : (s.modify fd f).fds fd = f (s.fds fd) := Function.update_self _ _ _

theorem modify_of_ne (h : x ≠ fd) : (s.modify fd f).fds x = s.fds x := Function.update_of_ne h _ _

/-- A change that leaves the links alone. -/
theorem Listed.modify (h : Listed s M L) (hfd : fd ∈ M) (hnext : (f (s.fds fd)).next = (s.fds fd).next)
    (hprev : (f (s.fds fd)).prev = (s.fds fd).prev) : Listed (s.modify fd f) M L := by
  have hlinks : ∀ x, (s.modify fd f).nexts x = s.nexts x ∧ (s.modify fd f).prevs x = s.prevs x := by
    intro x
    unfold nexts prevs
    by_cases hx : x = fd
    · rw [hx, modify_self]
      exact ⟨hnext, hprev⟩
    · rw [modify_of_ne hx]
      exact ⟨rfl, rfl⟩
  constructor
  · exact h.ring.congr fun x _ => hlinks x
  · exact h.nodup
  · exact h.mem
  · exact h.count
  · exact h.head
  · exact h.cursor
  · intro x hx hL
    rw [(hlinks x).1, (hlinks x).2]
    exact h.unlinked x hx hL
  · intro x h0 hlt hx
    have hne : x ≠ fd := fun heq => hx (heq ▸ hfd)
    rw [modify_of_ne hne]
    exact h.clear x h0 hlt hx
  · exact h.range
  · exact h.used
  · exact h.alloc

/-- The neighbours of a member. -/
theorem Listed.links {L₁ L₂ : List ℤ} (h : Listed s M (L₁ ++ fd :: L₂)) :
    s.nexts fd = (L₂ ++ (L₁ ++ [fd])).head (by simp) ∧
      s.nexts fd ∈ L₁ ++ fd :: L₂ ∧ s.prevs fd ∈ L₁ ++ fd :: L₂ := by
  have hnext : Linked s.nexts s.prevs fd
      ((L₂ ++ (L₁ ++ [fd])).head (by simp)) := by
    apply h.ring.linked
    exact List.head?_eq_some_head _
  refine ⟨hnext.1, ?_, ?_⟩
  · rw [hnext.1]
    have hmem : (L₂ ++ (L₁ ++ [fd])).head (by simp) ∈ L₂ ++ (L₁ ++ [fd]) := List.head_mem _
    simp only [List.mem_append, List.mem_cons, List.not_mem_nil, or_false] at hmem ⊢
    grind
  · have hrotated : Ring s.nexts s.prevs (fd :: (L₂ ++ L₁)) := h.ring.swap
    rw [hrotated.prev_eq]
    have hperm : (fd :: L₂ ++ L₁).Perm (L₁ ++ fd :: L₂) := List.perm_append_comm
    exact hperm.mem_iff.1 (List.getLast_mem (List.cons_ne_nil fd (L₂ ++ L₁)))

theorem Listed.nonneg (h : Listed s M L) (hx : x ∈ L) : 0 ≤ x := (h.range x (h.mem x hx)).1

/-- The flag is right. -/
theorem Listed.isOnReadyList (h : Listed s M L) (hfd : fd ∈ M) : (s.fds fd).isOnReadyList = true ↔ fd ∈ L := by
  unfold FdState.isOnReadyList
  rw [decide_eq_true_iff]
  constructor
  · intro hnext
    by_contra hL
    have hnext' : (s.fds fd).next = -1 := (h.unlinked fd hfd hL).1
    omega
  · intro hL
    obtain ⟨L₁, L₂, heq⟩ := List.append_of_mem hL
    rw [heq] at h
    exact h.nonneg h.links.2.1

theorem Listed.head_eq (h : Listed s M L) (hne : L ≠ []) : s.readyHead = L.head hne := by
  rw [h.head, List.head?_eq_some_head hne]
  rfl

/-- Only links have changed. -/
structure Relinked (s t : PollerSigio Client) : Prop where
  alloc : t.fdsAlloc = s.fdsAlloc
  used : t.fdsUsed = s.fdsUsed
  state : ∀ x, (t.fds x).client = (s.fds x).client ∧ (t.fds x).mask = (s.fds x).mask ∧
    (t.fds x).readybits = (s.fds x).readybits

/-- A change of links only. -/
theorem Relinked.modify (h : Relinked s t) (hf : ∀ v, (f v).client = v.client ∧ (f v).mask = v.mask ∧
    (f v).readybits = v.readybits) : Relinked s (t.modify fd f) where
  alloc := h.alloc
  used := h.used
  state x := by
    obtain ⟨hc, hm, hr⟩ := h.state x
    by_cases hx : x = fd
    · rw [hx] at hc hm hr ⊢
      rw [modify_self, (hf _).1, (hf _).2.1, (hf _).2.2]
      exact ⟨hc, hm, hr⟩
    · rw [modify_of_ne hx]
      exact ⟨hc, hm, hr⟩

theorem Relinked.rfl' : Relinked s s := ⟨rfl, rfl, fun _ => ⟨rfl, rfl, rfl⟩⟩

/-- A list linked in the same descriptors, where nothing else has changed. -/
theorem Listed.relink {L' : List ℤ} (h : Listed s M L) (hs : Relinked s t)
    (hring : Ring t.nexts t.prevs L') (hnodup : L'.Nodup)
    (hmem : ∀ x ∈ L', x ∈ M) (hcount : t.readyCount = L'.length) (hhead : t.readyHead = L'.head?.getD (-1))
    (hcursor : t.readyNext = -1 ∨ t.readyNext ∈ L')
    (hout : ∀ x ∈ M, x ∉ L' → t.nexts x = -1 ∧ t.prevs x = -1)
    (hrest : ∀ x, x ∉ M → t.fds x = s.fds x) : Listed t M L' where
  ring := hring
  nodup := hnodup
  mem := hmem
  count := hcount
  head := hhead
  cursor := hcursor
  unlinked := hout
  clear x h0 hlt hx := by
    rw [hs.alloc] at hlt
    rw [hrest x hx]
    exact h.clear x h0 hlt hx
  range := by
    rw [hs.alloc]
    exact h.range
  used := hs.used.trans h.used
  alloc := hs.alloc ▸ h.alloc

theorem nexts_setNext (v : ℤ) : (s.setNext fd v).nexts = Function.update s.nexts fd v := by
  funext x
  by_cases hx : x = fd
  · rw [hx, Function.update_self, nexts, setNext, modify_self]
  · rw [Function.update_of_ne hx, nexts, setNext, modify_of_ne hx, nexts]

theorem prevs_setNext (v : ℤ) : (s.setNext fd v).prevs = s.prevs := by
  funext x
  by_cases hx : x = fd
  · rw [hx, prevs, setNext, modify_self, prevs]
  · rw [prevs, setNext, modify_of_ne hx, prevs]

theorem prevs_setPrev (v : ℤ) : (s.setPrev fd v).prevs = Function.update s.prevs fd v := by
  funext x
  by_cases hx : x = fd
  · rw [hx, Function.update_self, prevs, setPrev, modify_self]
  · rw [Function.update_of_ne hx, prevs, setPrev, modify_of_ne hx, prevs]

theorem nexts_setPrev (v : ℤ) : (s.setPrev fd v).nexts = s.nexts := by
  funext x
  by_cases hx : x = fd
  · rw [hx, nexts, setPrev, modify_self, nexts]
  · rw [nexts, setPrev, modify_of_ne hx, nexts]

theorem setNext_of_ne (hx : x ≠ fd) (v : ℤ) : (s.setNext fd v).fds x = s.fds x := modify_of_ne hx

theorem setPrev_of_ne (hx : x ≠ fd) (v : ℤ) : (s.setPrev fd v).fds x = s.fds x := modify_of_ne hx

theorem Relinked.setNext (h : Relinked s t) (v : ℤ) : Relinked s (t.setNext fd v) := h.modify fun _ => ⟨rfl, rfl, rfl⟩

theorem Relinked.setPrev (h : Relinked s t) (v : ℤ) : Relinked s (t.setPrev fd v) := h.modify fun _ => ⟨rfl, rfl, rfl⟩

/-- The new element is the entire list. -/
theorem linkLast_nil (hcount : s.readyCount = 0) :
    s.linkLast fd = { (s.setNext fd fd).setPrev fd fd with readyHead := fd } := if_pos hcount

/-- The new element goes between the last and the first. -/
theorem linkLast_cons (hcount : s.readyCount ≠ 0) :
    s.linkLast fd = (((s.setPrev fd (s.prevs s.readyHead)).setNext fd s.readyHead).setNext
      (s.prevs s.readyHead) fd).setPrev s.readyHead fd := if_neg hcount

/-- What `linkLast` keeps. -/
structure Appended (s t : PollerSigio Client) (L : List ℤ) (fd : ℤ) : Prop extends Relinked s t where
  ring : Ring t.nexts t.prevs (L ++ [fd])
  head : t.readyHead = (L ++ [fd]).head?.getD (-1)
  next : t.readyNext = s.readyNext
  count : t.readyCount = s.readyCount
  rest : ∀ x, x ∉ L ++ [fd] → t.fds x = s.fds x

theorem linkLast_spec (h : Listed s M L) (hL : fd ∉ L) : Appended s (s.linkLast fd) L fd := by
  cases L with
  | nil =>
      rw [linkLast_nil h.count]
      constructor
      · exact ⟨rfl, rfl, ((Relinked.rfl'.setNext _).setPrev _).state⟩
      · have hself : Linked (Function.update s.nexts fd fd) (Function.update s.prevs fd fd) fd fd :=
          ⟨Function.update_self _ _ _, Function.update_self _ _ _⟩
        change Ring ((s.setNext fd fd).setPrev fd fd).nexts ((s.setNext fd fd).setPrev fd fd).prevs [fd]
        rw [nexts_setPrev, nexts_setNext, prevs_setPrev, prevs_setNext]
        constructor
        · exact .singleton fd
        · intro a ha b hb
          cases ha
          cases hb
          exact hself
      · rfl
      · rfl
      · rfl
      · intro x hx
        have hne : x ≠ fd := fun heq => hx (heq ▸ List.mem_cons_self ..)
        exact (setPrev_of_ne hne _).trans (setNext_of_ne hne _)
  | cons y l =>
      have hcount : s.readyCount ≠ 0 := by
        rw [h.count, List.length_cons]
        omega
      have hhead : s.readyHead = y := h.head
      have hfirst : Listed s M ([] ++ y :: l) := h
      have hprev : s.prevs y ∈ y :: l := hfirst.links.2.2
      rw [linkLast_cons hcount, hhead]
      constructor
      · exact (((Relinked.rfl'.setPrev _).setNext _).setNext _).setPrev _
      · rw [nexts_setPrev, nexts_setNext, nexts_setNext, nexts_setPrev, prevs_setPrev, prevs_setNext,
          prevs_setNext, prevs_setPrev]
        exact h.ring.link (List.nodup_cons.1 h.nodup).1 hL
      · exact hhead
      · rfl
      · rfl
      · intro x hx
        rw [List.mem_append, List.mem_singleton, not_or] at hx
        have hlast : x ≠ s.prevs y := fun heq => hx.1 (heq ▸ hprev)
        have hfirst : x ≠ y := fun heq => hx.1 (heq ▸ List.mem_cons_self ..)
        rw [setPrev_of_ne hfirst, setNext_of_ne hlast, setNext_of_ne hx.2, setPrev_of_ne hx.2]

/-- The new member goes to the end; the cursor comes to it if it was at the end. -/
theorem readyListAdd_spec (h : Listed s M L) (hfd : fd ∈ M) (hL : fd ∉ L) :
    ∃ t, s.readyListAdd fd = some t ∧ Listed t M (L ++ [fd]) ∧ Relinked s t ∧
      t.readyNext = if s.readyNext = -1 then fd else s.readyNext := by
  obtain ⟨hnext, hprev⟩ := h.unlinked fd hfd hL
  have hspec := linkLast_spec h hL
  have hlast : fd ∈ L ++ [fd] := List.mem_append_right L List.mem_cons_self
  have hmem : ∀ x ∈ L ++ [fd], x ∈ M := by
    intro x hx
    rcases List.mem_append.1 hx with hx | hx
    · exact h.mem x hx
    · rw [List.mem_singleton.1 hx]
      exact hfd
  have hadd : s.readyListAdd fd = some { s.linkLast fd with
      readyCount := (s.linkLast fd).readyCount+1
      readyNext := if (s.linkLast fd).readyNext = -1 then fd else (s.linkLast fd).readyNext } := by
    apply if_neg
    simp only [nexts, prevs] at hnext hprev
    omega
  rw [hspec.next] at hadd
  refine ⟨_, hadd, ?_, ⟨hspec.alloc, hspec.used, hspec.state⟩, rfl⟩
  refine h.relink ⟨hspec.alloc, hspec.used, hspec.state⟩ hspec.ring ?_ hmem ?_ hspec.head ?_ ?_ ?_
  · rw [← List.concat_eq_append]
    exact h.nodup.concat hL
  · rw [List.length_append, List.length_singleton, Nat.cast_add, ← h.count, ← hspec.count]
    rfl
  · right
    show (if s.readyNext = -1 then fd else s.readyNext) ∈ L ++ [fd]
    split
    · exact hlast
    · next hcursor => exact List.mem_append_left _ (h.cursor.resolve_left hcursor)
  · intro x hx hxL
    have hsame : (s.linkLast fd).fds x = s.fds x := hspec.rest x hxL
    have hold := h.unlinked x hx fun hmem => hxL (List.mem_append_left _ hmem)
    simp only [nexts, prevs] at hold ⊢
    rw [hsame]
    exact hold
  · intro x hx
    exact hspec.rest x fun hxL => hx (hmem x hxL)

theorem nexts_splice (n p : ℤ) : (s.splice fd n p).nexts = Function.update s.nexts p n := by
  unfold splice
  rw [nexts_setPrev, nexts_setNext]
  rfl

theorem prevs_splice (n p : ℤ) : (s.splice fd n p).prevs = Function.update s.prevs n p := by
  unfold splice
  rw [prevs_setPrev, prevs_setNext]
  rfl

theorem nexts_unlinked : (s.unlinked fd).nexts = Function.update s.nexts fd (-1) := by
  change ((s.setNext fd (-1)).setPrev fd (-1)).nexts = _
  rw [nexts_setPrev, nexts_setNext]

theorem prevs_unlinked : (s.unlinked fd).prevs = Function.update s.prevs fd (-1) := by
  change ((s.setNext fd (-1)).setPrev fd (-1)).prevs = _
  rw [prevs_setPrev, prevs_setNext]

theorem unlinked_of_ne (hx : x ≠ fd) : (s.unlinked fd).fds x = s.fds x :=
  (setPrev_of_ne hx _).trans (setNext_of_ne hx _)

theorem Relinked.unlinked (h : Relinked s t) : Relinked s (t.unlinked fd) := by
  have hset : Relinked s ((t.setNext fd (-1)).setPrev fd (-1)) := (h.setNext (-1)).setPrev (-1)
  exact ⟨hset.alloc, hset.used, hset.state⟩

theorem Relinked.splice (n p : ℤ) : Relinked s (s.splice fd n p) := by
  have hset : Relinked s ((s.setNext p n).setPrev n p) := (Relinked.rfl'.setNext n).setPrev p
  exact ⟨hset.alloc, hset.used, hset.state⟩

section
variable {L₁ L₂ : List ℤ}

/-- The members that stay. -/
theorem Listed.others (h : Listed s M (L₁ ++ fd :: L₂)) :
    fd ∉ L₁ ++ L₂ ∧ (L₁ ++ L₂).Nodup ∧ s.readyCount = (L₁ ++ L₂).length + 1 ∧
      ∀ x, x ≠ fd → (x ∈ L₁ ++ fd :: L₂ ↔ x ∈ L₁ ++ L₂) := by
  obtain ⟨hnot, hnodup⟩ := List.nodup_cons.1 (List.nodup_middle.1 h.nodup)
  refine ⟨hnot, hnodup, ?_, ?_⟩
  · have hcount := h.count
    simp only [List.length_append, List.length_cons] at hcount ⊢
    omega
  · intro x hne
    rw [List.mem_append, List.mem_append, List.mem_cons]
    simp only [hne, false_or]

/-- The asserts of `readyListDel` hold for a member. -/
theorem Listed.guard (h : Listed s M (L₁ ++ fd :: L₂)) :
    (s.fds fd).next ≥ 0 ∧ (s.fds fd).prev ≥ 0 ∧ s.readyCount > 0 ∧ s.readyHead ≥ 0 := by
  obtain ⟨-, hnext, hprev⟩ := h.links
  obtain ⟨-, -, hcount, -⟩ := h.others
  have hhead : s.readyHead ∈ L₁ ++ fd :: L₂ := by
    rw [h.head_eq (by simp)]
    exact List.head_mem _
  refine ⟨h.nonneg hnext, h.nonneg hprev, ?_, h.nonneg hhead⟩
  omega

/-- The only member is taken off. -/
theorem readyListDel_sole (h : Listed s M [fd]) :
    ∃ t, s.readyListDel fd = some t ∧ Listed t M [] ∧ Relinked s t ∧ t.readyNext = -1 := by
  have hfirst : Listed s M ([] ++ [fd]) := h
  obtain ⟨hself, -, hprev⟩ := hfirst.links
  have hself' : s.prevs fd = fd := List.mem_singleton.1 hprev
  have hhead : s.readyHead = fd := h.head
  have hone : s.readyCount = 1 := h.count
  have hguard := hfirst.guard
  unfold readyListDel
  dsimp only
  rw [if_neg (not_not_intro hguard), if_pos hone,
    if_neg (not_not_intro ⟨hhead.symm, hself.trans hself'.symm⟩)]
  have hlinks : Relinked s ({ s with readyHead := -1, readyNext := -1 }.unlinked fd) := by
    have hset : Relinked s (s.unlinked fd) := Relinked.rfl'.unlinked
    exact ⟨hset.alloc, hset.used, hset.state⟩
  refine ⟨_, rfl, ?_, hlinks, rfl⟩
  refine h.relink hlinks ?_ .nil nofun ?_ rfl (.inl rfl) ?_ ?_
  · exact .nil
  · change s.readyCount-1 = 0
    rw [hone]
    rfl
  · intro x hx _
    rw [nexts_unlinked, prevs_unlinked]
    by_cases heq : x = fd
    · rw [heq, Function.update_self, Function.update_self]
      exact ⟨rfl, rfl⟩
    · rw [Function.update_of_ne heq, Function.update_of_ne heq]
      exact h.unlinked x hx (heq ∘ List.mem_singleton.1)
  · intro x hx
    exact unlinked_of_ne fun heq => hx (heq ▸ h.mem fd List.mem_cons_self)

/-- The member after one that is not the only one. -/
theorem Listed.next_eq (h : Listed s M (L₁ ++ fd :: L₂)) (hrest : L₁ ++ L₂ ≠ []) :
    (L₂ ++ L₁).head? = some (s.nexts fd) := by
  have hrest' : L₂ ++ L₁ ≠ [] := by
    intro hnil
    obtain ⟨rfl, rfl⟩ := List.append_eq_nil_iff.1 hnil
    exact hrest rfl
  rw [h.links.1, ← List.head?_eq_some_head, ← List.append_assoc, List.head?_append_of_ne_nil _ hrest']

/-- One of several members is taken off. -/
theorem readyListDel_many (h : Listed s M (L₁ ++ fd :: L₂)) (hrest : L₁ ++ L₂ ≠ []) :
    ∃ t, s.readyListDel fd = some t ∧ Listed t M (L₁ ++ L₂) ∧ Relinked s t ∧
      t.readyNext = if s.readyNext = fd then s.nexts fd else s.readyNext := by
  obtain ⟨hnot, hnodup, hcount, hother⟩ := h.others
  have hnext := h.next_eq hrest
  have hnextmem : s.nexts fd ∈ L₁ ++ L₂ := List.perm_append_comm.mem_iff.1 (List.mem_of_head? hnext)
  have hfd : fd ∈ M := h.mem fd (List.mem_append_right L₁ List.mem_cons_self)
  have hmany : s.readyCount ≠ 1 := by
    have hpos := List.length_pos_of_ne_nil hrest
    omega
  have hrotated : Ring s.nexts s.prevs (fd :: (L₂ ++ L₁)) := h.ring.swap
  have hrest' : L₂ ++ L₁ ≠ [] := by
    intro hnil
    rw [hnil] at hnext
    cases hnext
  have hprevmem : s.prevs fd ∈ L₁ ++ L₂ := by
    rw [hrotated.prev_eq, List.getLast_cons hrest']
    exact List.perm_append_comm.mem_iff.1 (List.getLast_mem hrest')
  have hmem : ∀ x ∈ L₁ ++ L₂, x ∈ M := by
    intro x hx
    exact h.mem x ((hother x fun heq => hnot (heq ▸ hx)).2 hx)
  have hlinks : Relinked s ((s.splice fd (s.fds fd).next (s.fds fd).prev).unlinked fd) :=
    (Relinked.splice _ _).unlinked
  have hring : Ring (Function.update s.nexts (s.prevs fd) (s.nexts fd))
      (Function.update s.prevs (s.nexts fd) (s.prevs fd)) (L₁ ++ L₂) := by
    apply Ring.swap
    exact hrotated.unlink (hnot ∘ List.perm_append_comm.mem_iff.1) hrest'
  unfold readyListDel
  dsimp only
  rw [if_neg (not_not_intro h.guard), if_neg hmany]
  refine ⟨_, rfl, ?_, hlinks, rfl⟩
  refine h.relink hlinks ?_ hnodup hmem ?_ ?_ ?_ ?_ ?_
  · rw [nexts_unlinked, prevs_unlinked, nexts_splice, prevs_splice]
    apply hring.congr
    intro x hx
    have hne : x ≠ fd := fun heq => hnot (heq ▸ hx)
    exact ⟨Function.update_of_ne hne _ _, Function.update_of_ne hne _ _⟩
  · change s.readyCount-1 = _
    rw [hcount, Int.add_sub_cancel]
  · change (if s.readyHead = fd then s.nexts fd else s.readyHead) = _
    cases L₁ with
    | nil =>
        rw [List.append_nil] at hnext
        have hhead : s.readyHead = fd := h.head
        rw [if_pos hhead, List.nil_append, hnext]
        rfl
    | cons y l =>
        have hhead : s.readyHead = y := h.head
        have hy : y ≠ fd := fun heq => hnot (heq ▸ List.mem_cons_self)
        rw [hhead, if_neg hy]
        rfl
  · change (if s.readyNext = fd then s.nexts fd else s.readyNext) = -1 ∨
      (if s.readyNext = fd then s.nexts fd else s.readyNext) ∈ L₁ ++ L₂
    split
    · exact .inr hnextmem
    · next hne => exact h.cursor.imp_right (hother _ hne).1
  · intro x hx hxL
    rw [nexts_unlinked, prevs_unlinked, nexts_splice, prevs_splice]
    by_cases heq : x = fd
    · rw [heq, Function.update_self, Function.update_self]
      exact ⟨rfl, rfl⟩
    · have hxprev : x ≠ s.prevs fd := fun heq => hxL (heq ▸ hprevmem)
      have hxnext : x ≠ s.nexts fd := fun heq => hxL (heq ▸ hnextmem)
      rw [Function.update_of_ne heq, Function.update_of_ne heq]
      exact (Function.update_of_ne hxprev _ _).symm ▸ (Function.update_of_ne hxnext _ _).symm ▸
        h.unlinked x hx (hxL ∘ (hother x heq).1)
  · intro x hx
    have hne : x ≠ fd := fun heq => hx (heq ▸ hfd)
    have hxprev : x ≠ s.prevs fd := fun heq => hx (heq ▸ hmem _ hprevmem)
    have hxnext : x ≠ s.nexts fd := fun heq => hx (heq ▸ hmem _ hnextmem)
    rw [unlinked_of_ne hne]
    exact (setPrev_of_ne hxnext _).trans (setNext_of_ne hxprev _)

/-- A member is taken off; the cursor goes on to the next one, from the end to the head. -/
theorem readyListDel_spec (h : Listed s M (L₁ ++ fd :: L₂)) :
    ∃ t, s.readyListDel fd = some t ∧ Listed t M (L₁ ++ L₂) ∧ Relinked s t ∧
      t.readyNext = if s.readyNext = fd then (L₂ ++ L₁).head?.getD (-1) else s.readyNext := by
  by_cases hrest : L₁ ++ L₂ = []
  · obtain ⟨rfl, rfl⟩ := List.append_eq_nil_iff.1 hrest
    obtain ⟨t, hdel, hlist, hlinks, hnext⟩ := readyListDel_sole h
    refine ⟨t, hdel, hlist, hlinks, ?_⟩
    rw [hnext]
    split
    · rfl
    · next hne => exact (h.cursor.resolve_right (hne ∘ List.mem_singleton.1)).symm
  · obtain ⟨t, hdel, hlist, hlinks, hnext⟩ := readyListDel_many h hrest
    refine ⟨t, hdel, hlist, hlinks, ?_⟩
    rw [hnext, h.next_eq hrest]
    rfl

end
end
end Dkftpbench.PollerSigio
