import Dkftpbench.SigioList

/-!
# Poller_sigio keeps its ready list

A call on a descriptor moves at most this one on or off the ready list, and whatever is
waited for and returned, the list stays what it should be. So no assertion fails.
-/
namespace Dkftpbench.PollerSigio
open CLib Watch
variable {Client : Type*}

/-- What an update of a descriptor does to the ready list and the cursor. -/
inductive Moved (fd : ℤ) : List ℤ → ℤ → List ℤ → ℤ → Prop
  | same {L : List ℤ} {c : ℤ} : Moved fd L c L c
  | entered {L : List ℤ} {c : ℤ} : fd ∉ L → Moved fd L c (L ++ [fd]) (if c = -1 then fd else c)
  | left {L₁ L₂ : List ℤ} {c : ℤ} :
      Moved fd (L₁ ++ fd :: L₂) c (L₁ ++ L₂) (if c = fd then (L₂ ++ L₁).head?.getD (-1) else c)

section
variable {s t u : PollerSigio Client} {M : Finset ℤ} {L L' : List ℤ} {fd x c c' : ℤ}
variable {f : FdState Client → FdState Client}

theorem Relinked.isReady (h : Relinked s t) (x : ℤ) : (t.fds x).isReady = (s.fds x).isReady := by
  unfold FdState.isReady
  rw [(h.state x).2.1, (h.state x).2.2]

/-- Where the other descriptors are on the list just if they are ready, it is put right
for this one. -/
theorem readyListUpdate_spec (h : Listed s M L) (hfd : fd ∈ M)
    (hready : ∀ x ∈ M, x ≠ fd → (x ∈ L ↔ (s.fds x).isReady = true)) :
    ∃ t L', s.readyListUpdate fd = some t ∧ Sound t M L' ∧ Relinked s t ∧
      Moved fd L s.readyNext L' t.readyNext := by
  have hlisted := h.isOnReadyList hfd
  unfold readyListUpdate
  by_cases hL : fd ∈ L
  · rw [if_pos (hlisted.2 hL)]
    by_cases hr : (s.fds fd).isReady = true
    · rw [hr]
      refine ⟨s, L, rfl, ⟨h, fun x hx => ?_⟩, .rfl', .same⟩
      by_cases heq : x = fd
      · rw [heq]
        exact iff_of_true hL hr
      · exact hready x hx heq
    · rw [Bool.not_eq_true] at hr
      rw [hr]
      obtain ⟨L₁, L₂, rfl⟩ := List.append_of_mem hL
      obtain ⟨t, hdel, hlist, hlinks, hnext⟩ := readyListDel_spec h
      obtain ⟨hnot, -, -, hother⟩ := h.others
      refine ⟨t, L₁ ++ L₂, hdel, ⟨hlist, fun x hx => ?_⟩, hlinks, hnext ▸ .left⟩
      rw [hlinks.isReady]
      by_cases heq : x = fd
      · rw [heq, hr]
        exact iff_of_false hnot Bool.false_ne_true
      · exact (hother x heq).symm.trans (hready x hx heq)
  · rw [if_neg (hL ∘ hlisted.1)]
    by_cases hr : (s.fds fd).isReady = true
    · obtain ⟨t, hadd, hlist, hlinks, hnext⟩ := readyListAdd_spec h hfd hL
      rw [if_pos hr]
      refine ⟨t, L ++ [fd], hadd, ⟨hlist, fun x hx => ?_⟩, hlinks, hnext ▸ .entered hL⟩
      rw [hlinks.isReady, List.mem_append, List.mem_singleton]
      by_cases heq : x = fd
      · rw [heq]
        exact iff_of_true (.inr rfl) hr
      · rw [← hready x hx heq]
        exact or_iff_left heq
    · rw [if_neg hr]
      refine ⟨s, L, rfl, ⟨h, fun x hx => ?_⟩, .rfl', .same⟩
      by_cases heq : x = fd
      · rw [heq]
        exact iff_of_false hL hr
      · exact hready x hx heq

/-- A descriptor gets another mask or other readiness bits. -/
theorem Sound.update (h : Sound s M L) (hfd : fd ∈ M) (hnext : (f (s.fds fd)).next = (s.fds fd).next)
    (hprev : (f (s.fds fd)).prev = (s.fds fd).prev) :
    ∃ t L', (s.modify fd f).readyListUpdate fd = some t ∧ Sound t M L' ∧ Relinked (s.modify fd f) t ∧
      Moved fd L s.readyNext L' t.readyNext := by
  apply readyListUpdate_spec (h.toListed.modify hfd hnext hprev) hfd
  intro x hx hne
  rw [modify_of_ne hne]
  exact h.ready x hx

/-- The check at the beginning of a call. -/
theorem Listed.outside_iff (h : Listed s M L) : s.outside fd = false ↔ fd ∈ M := by
  unfold outside
  rw [Bool.or_eq_false_iff, Bool.or_eq_false_iff, Bool.or_eq_false_iff, decide_eq_false_iff_not,
    decide_eq_false_iff_not, beq_eq_false_iff_ne]
  constructor
  · intro ⟨⟨⟨h0, hlt⟩, _⟩, hclear⟩
    by_contra hM
    rw [h.clear fd (not_lt.1 h0) (not_le.1 hlt) hM] at hclear
    cases hclear
  · intro hM
    have hrange := h.range fd hM
    refine ⟨⟨⟨not_lt.2 hrange.1, not_le.2 hrange.2⟩, ?_⟩, ?_⟩
    · have hcard := Finset.card_pos.2 ⟨fd, hM⟩
      have hused := h.used
      omega
    · unfold FdState.isClear
      rw [beq_eq_false_iff_ne]
      by_cases hL : fd ∈ L
      · obtain ⟨L₁, L₂, rfl⟩ := List.append_of_mem hL
        have hprev := h.guard.2.1
        omega
      · have hprev : (s.fds fd).prev = -1 := (h.unlinked fd hM hL).2
        omega

theorem updateMask_sound (h : Sound s M L) (hfd : fd ∈ M) (g : Revents → Revents) :
    ∃ t L', s.updateMask fd g = some (0, t) ∧ Sound t M L' ∧
      Relinked (s.modify fd fun x => { x with mask := g x.mask }) t ∧ Moved fd L s.readyNext L' t.readyNext := by
  obtain ⟨t, L', hupdate, hsound, hlinks, hmoved⟩ :=
    h.update (f := fun x => { x with mask := g x.mask }) hfd rfl rfl
  refine ⟨t, L', ?_, hsound, hlinks, hmoved⟩
  unfold updateMask
  rw [h.outside_iff.2 hfd, hupdate]
  rfl

theorem updateReady_of_notMem (h : Listed s M L) (hfd : fd ∉ M) (g : Revents → Revents) :
    s.updateReady fd g = some s := by
  apply if_pos
  rw [← Bool.not_eq_false]
  exact hfd ∘ h.outside_iff.1

theorem updateReady_sound (h : Sound s M L) (hfd : fd ∈ M) (g : Revents → Revents) :
    ∃ t L', s.updateReady fd g = some t ∧ Sound t M L' ∧
      Relinked (s.modify fd fun x => { x with readybits := g x.readybits }) t ∧
      Moved fd L s.readyNext L' t.readyNext := by
  obtain ⟨t, L', hupdate, hsound, hlinks, hmoved⟩ :=
    h.update (f := fun x => { x with readybits := g x.readybits }) hfd rfl rfl
  refine ⟨t, L', ?_, hsound, hlinks, hmoved⟩
  unfold updateReady
  rw [h.outside_iff.2 hfd]
  exact hupdate

/-- More room, with nothing changed for what is monitored. -/
theorem Sound.congr (h : Sound s M L) (hsame : ∀ x ∈ M, t.fds x = s.fds x) (hhead : t.readyHead = s.readyHead)
    (hnext : t.readyNext = s.readyNext) (hcount : t.readyCount = s.readyCount) (hused : t.fdsUsed = s.fdsUsed)
    (halloc : s.fdsAlloc ≤ t.fdsAlloc)
    (hclear : ∀ x, 0 ≤ x → x < t.fdsAlloc → x ∉ M → t.fds x = .clear) : Sound t M L := by
  have hlinks : ∀ x ∈ M, t.nexts x = s.nexts x ∧ t.prevs x = s.prevs x := by
    intro x hx
    simp only [nexts, prevs, hsame x hx, and_self]
  constructor
  · constructor
    · exact h.ring.congr fun x hx => hlinks x (h.mem x hx)
    · exact h.nodup
    · exact h.mem
    · exact hcount.trans h.count
    · exact hhead.trans h.head
    · rw [hnext]
      exact h.cursor
    · intro x hx hL
      rw [(hlinks x hx).1, (hlinks x hx).2]
      exact h.unlinked x hx hL
    · exact hclear
    · intro x hx
      exact ⟨(h.range x hx).1, (h.range x hx).2.trans_le halloc⟩
    · exact hused.trans h.used
    · exact h.alloc.trans halloc
  · intro x hx
    rw [hsame x hx]
    exact h.ready x hx

/-- The array grows beyond what is monitored. -/
theorem grow_sound {memory : Option (ℤ → FdState Client)} (h : Sound s M L) (ht : s.grow fd memory = some t) :
    Sound t M L ∧ fd < t.fdsAlloc ∧ t.readyNext = s.readyNext ∧ ∀ x ∈ M, t.fds x = s.fds x := by
  unfold grow at ht
  split at ht
  · next hge =>
      obtain ⟨cells, -, ht⟩ := Option.map_eq_some_iff.1 ht
      have halloc := h.alloc
      have hroom : s.fdsAlloc ≤ t.fdsAlloc ∧ fd < t.fdsAlloc := by
        rw [← ht]
        dsimp only
        split
        all_goals omega
      have hfds : t.fds = clearNew (fun _ => .clear) (fun i => if i < s.fdsAlloc then s.fds i else cells i) s.fdsAlloc t.fdsAlloc := by
        rw [← ht]
      have hold : ∀ x, x < s.fdsAlloc → t.fds x = s.fds x := by
        intro x hx
        rw [hfds, clearNew_of_lt hx, if_pos hx]
      have hsame : ∀ x ∈ M, t.fds x = s.fds x := fun x hx => hold x (h.range x hx).2
      have hclear : ∀ x, 0 ≤ x → x < t.fdsAlloc → x ∉ M → t.fds x = .clear := by
        intro x h0 hx hM
        by_cases hlt : x < s.fdsAlloc
        · rw [hold x hlt]
          exact h.clear x h0 hlt hM
        · rw [hfds, clearNew_of_ge (not_lt.1 hlt) hx]
      have hnext : t.readyNext = s.readyNext := by rw [← ht]
      refine ⟨h.congr hsame ?_ hnext ?_ ?_ hroom.1 hclear, hroom.2, hnext, hsame⟩
      all_goals rw [← ht]
  · next hge =>
      cases ht
      exact ⟨h, not_le.1 hge, rfl, fun _ _ => rfl⟩

/-- One more descriptor is monitored, and not on the list. -/
theorem Listed.insert (h : Listed s M L) (h0 : 0 ≤ fd) (hlt : fd < s.fdsAlloc) (hfd : fd ∉ M)
    (hnext : (f (s.fds fd)).next = -1) (hprev : (f (s.fds fd)).prev = -1) :
    Listed ({ s with fdsUsed := s.fdsUsed+1 }.modify fd f) (insert fd M) L := by
  have hother : ∀ x ∈ M, ({ s with fdsUsed := s.fdsUsed+1 }.modify fd f).fds x = s.fds x := by
    intro x hx
    exact modify_of_ne fun heq => hfd (heq ▸ hx)
  have hlinks : ∀ x ∈ M, ({ s with fdsUsed := s.fdsUsed+1 }.modify fd f).nexts x = s.nexts x ∧
      ({ s with fdsUsed := s.fdsUsed+1 }.modify fd f).prevs x = s.prevs x := by
    intro x hx
    simp only [nexts, prevs, hother x hx, and_self]
  constructor
  · exact h.ring.congr fun x hx => hlinks x (h.mem x hx)
  · exact h.nodup
  · exact fun x hx => Finset.mem_insert_of_mem (h.mem x hx)
  · exact h.count
  · exact h.head
  · exact h.cursor
  · intro x hx hL
    rcases Finset.mem_insert.1 hx with heq | hx
    · rw [heq, nexts, prevs, modify_self]
      exact ⟨hnext, hprev⟩
    · rw [(hlinks x hx).1, (hlinks x hx).2]
      exact h.unlinked x hx hL
  · intro x hx0 hxlt hx
    rw [Finset.mem_insert, not_or] at hx
    rw [modify_of_ne hx.1]
    exact h.clear x hx0 hxlt hx.2
  · intro x hx
    rcases Finset.mem_insert.1 hx with heq | hx
    · rw [heq]
      exact ⟨h0, hlt⟩
    · exact h.range x hx
  · change s.fdsUsed+1 = _
    rw [Finset.card_insert_of_notMem hfd, h.used, Nat.cast_succ]
  · exact h.alloc

/-- The `fcntl` calls of `add`, in order, and those of `del`. -/
def addFcntls : List Fcntl := [.getfl, .setfl, .setsig, .setown]
def delFcntls : List Fcntl := [.getfl, .setfl]

variable (client : Option Client) (eventmask : Revents) {ans : Answers Client}

/-- An `add` that goes as far as the backup monitors its descriptor, whatever the backup says. -/
theorem add_registered (h : Sound s M L) (h0 : 0 ≤ fd) (hfd : fd ∉ M) (hu : s.grow fd ans.memory = some u)
    (hfcntl : addFcntls.findSome? ans.fcntl = none) :
    ∃ t L', s.add fd client eventmask ans = some (ans.backup, t) ∧ Sound t (insert fd M) L' ∧
      Moved fd L s.readyNext L' t.readyNext ∧ (t.fds fd).readybits = POLLIN ||| POLLOUT ∧
      ∀ x ∈ M, (t.fds x).readybits = (s.fds x).readybits := by
  obtain ⟨hs, hlt, hnext, hsame⟩ := grow_sound h hu
  let f := fun v : FdState Client =>
    { v with mask := eventmask, readybits := POLLIN ||| POLLOUT : FdState Client }.setInUse
  have hclear : u.fds fd = .clear := hs.clear fd h0 hlt hfd
  have hlist : Listed ({ u with fdsUsed := u.fdsUsed+1 }.modify fd f) (insert fd M) L := by
    apply hs.toListed.insert h0 hlt hfd
    · rw [hclear]
      rfl
    · rfl
  have hmem : fd ∈ insert fd M := Finset.mem_insert_self fd M
  obtain ⟨t, L', ht, hsound, hlinks, hmoved⟩ := readyListUpdate_spec hlist hmem fun x hx hne => by
    rw [modify_of_ne hne]
    exact hs.ready x ((Finset.mem_insert.1 hx).resolve_left hne)
  have hbits : ∀ x, ((t.modify fd fun v => { v with client := client }).fds x).readybits = (t.fds x).readybits := by
    intro x
    by_cases heq : x = fd
    · rw [heq, modify_self]
    · rw [modify_of_ne heq]
  refine ⟨t.modify fd fun v => { v with client := client }, L', ?_, ⟨?_, ?_⟩, ?_, ?_, ?_⟩
  · unfold add
    rw [hu]
    dsimp only
    rw [show [Fcntl.getfl, .setfl, .setsig, .setown].findSome? ans.fcntl = none from hfcntl]
    exact Option.map_eq_some_iff.2 ⟨t, ht, rfl⟩
  · exact hsound.toListed.modify hmem rfl rfl
  · intro x hx
    rw [hsound.ready x hx]
    by_cases heq : x = fd
    · rw [heq, modify_self]
      rfl
    · rw [modify_of_ne heq]
  · rw [← hnext]
    exact hmoved
  · rw [hbits, (hlinks.state fd).2.2, modify_self]
    rfl
  · intro x hx
    have hne : x ≠ fd := fun heq => hfd (heq ▸ hx)
    rw [hbits, (hlinks.state x).2.2, modify_of_ne hne, ← hsame x hx]

/-- An `add` that goes less far monitors nothing. -/
theorem add_refused (h : Sound s M L) (hno : ¬((s.grow fd ans.memory).isSome ∧ addFcntls.findSome? ans.fcntl = none)) :
    ∃ err t, s.add fd client eventmask ans = some (err, t) ∧ Sound t M L ∧ t.readyNext = s.readyNext ∧
      ∀ x ∈ M, (t.fds x).readybits = (s.fds x).readybits := by
  unfold add
  cases hu : s.grow fd ans.memory with
  | none => exact ⟨ENOMEM, s, rfl, h, rfl, fun _ _ => rfl⟩
  | some u =>
      obtain ⟨hs, -, hnext, hsame⟩ := grow_sound h hu
      cases hfcntl : [Fcntl.getfl, .setfl, .setsig, .setown].findSome? ans.fcntl with
      | none =>
          rw [hu] at hno
          exact absurd ⟨rfl, hfcntl⟩ hno
      | some err => exact ⟨err, u, rfl, hs, hnext, fun x hx => by rw [hsame x hx]⟩

/-- The descriptor is no more monitored, and was not on the list. -/
theorem Listed.erase (h : Listed s M L) (hfd : fd ∈ M) (hL : fd ∉ L) :
    Listed { s.modify fd fun _ => .clear with fdsUsed := s.fdsUsed-1 } (M.erase fd) L := by
  have hother : ∀ x, x ≠ fd → (s.modify fd fun _ => .clear).fds x = s.fds x := fun x hx => modify_of_ne hx
  have hlinks : ∀ x, x ≠ fd → (s.modify fd fun _ => .clear).nexts x = s.nexts x ∧
      (s.modify fd fun _ => .clear).prevs x = s.prevs x := by
    intro x hx
    simp only [nexts, prevs, hother x hx, and_self]
  have hne : ∀ x ∈ L, x ≠ fd := fun x hx heq => hL (heq ▸ hx)
  constructor
  · exact h.ring.congr fun x hx => hlinks x (hne x hx)
  · exact h.nodup
  · exact fun x hx => Finset.mem_erase_of_ne_of_mem (hne x hx) (h.mem x hx)
  · exact h.count
  · exact h.head
  · exact h.cursor
  · intro x hx hxL
    obtain ⟨hxfd, hxM⟩ := Finset.mem_erase.1 hx
    exact ⟨(hlinks x hxfd).1.trans (h.unlinked x hxM hxL).1, (hlinks x hxfd).2.trans (h.unlinked x hxM hxL).2⟩
  · intro x h0 hlt hx
    by_cases heq : x = fd
    · rw [heq]
      exact Function.update_self _ _ _
    · apply (hother x heq).trans
      exact h.clear x h0 hlt fun hM => hx (Finset.mem_erase_of_ne_of_mem heq hM)
  · exact fun x hx => h.range x (Finset.mem_of_mem_erase hx)
  · change s.fdsUsed-1 = _
    have hcard := Finset.card_erase_add_one hfd
    have hused := h.used
    omega
  · exact h.alloc

/-- A ready descriptor comes off the list first. -/
theorem delisted (h : Sound s M L) (hfd : fd ∈ M) :
    ∃ t L', (if (s.fds fd).isOnReadyList then s.readyListDel fd else some s) = some t ∧ Listed t M L' ∧
      Relinked s t ∧ Moved fd L s.readyNext L' t.readyNext ∧ fd ∉ L' ∧ ∀ x, x ≠ fd → (x ∈ L ↔ x ∈ L') := by
  by_cases hL : fd ∈ L
  · rw [if_pos ((h.isOnReadyList hfd).2 hL)]
    obtain ⟨L₁, L₂, rfl⟩ := List.append_of_mem hL
    obtain ⟨t, hdel, hlist, hlinks, hnext⟩ := readyListDel_spec h.toListed
    obtain ⟨hnot, -, -, hother⟩ := h.others
    exact ⟨t, L₁ ++ L₂, hdel, hlist, hlinks, hnext ▸ .left, hnot, hother⟩
  · rw [if_neg (hL ∘ (h.isOnReadyList hfd).1)]
    exact ⟨s, L, rfl, h.toListed, .rfl', .same, hL, fun _ _ => .rfl⟩

/-- The check at the beginning of `del`. -/
theorem Listed.inRange (h : Listed s M L) (hfd : fd ∈ M) : ¬(fd < 0 ∨ fd ≥ s.fdsAlloc ∨ s.fdsUsed = 0) := by
  have hrange := h.range fd hfd
  have hcard := Finset.card_pos.2 ⟨fd, hfd⟩
  have hused := h.used
  omega

variable {fcntl : Fcntl → Option ℤ} (backup : ℤ)

theorem del_done (h : Sound s M L) (hfd : fd ∈ M) (hfcntl : delFcntls.findSome? fcntl = none) :
    ∃ t L', s.del fd fcntl backup = some (backup, t) ∧ Sound t (M.erase fd) L' ∧
      Moved fd L s.readyNext L' t.readyNext ∧ fd ∉ L' ∧ ∀ x, x ≠ fd → (t.fds x).readybits = (s.fds x).readybits := by
  obtain ⟨t, L', hdel, hlist, hlinks, hmoved, hnot, hother⟩ := delisted h hfd
  refine ⟨{ t.modify fd fun _ => .clear with fdsUsed := t.fdsUsed-1 }, L', ?_, ⟨hlist.erase hfd hnot, ?_⟩,
    hmoved, hnot, ?_⟩
  · unfold del
    rw [if_neg (h.inRange hfd), show [Fcntl.getfl, .setfl].findSome? fcntl = none from hfcntl]
    exact Option.map_eq_some_iff.2 ⟨t, hdel, rfl⟩
  · intro x hx
    obtain ⟨hne, hM⟩ := Finset.mem_erase.1 hx
    have hsame : (t.modify fd fun _ => .clear).fds x = t.fds x := modify_of_ne hne
    change x ∈ L' ↔ ((t.modify fd fun _ => .clear).fds x).isReady = true
    rw [hsame, hlinks.isReady, ← hother x hne]
    exact h.ready x hM
  · intro x hne
    have hsame : (t.modify fd fun _ => .clear).fds x = t.fds x := modify_of_ne hne
    change ((t.modify fd fun _ => .clear).fds x).readybits = _
    rw [hsame, (hlinks.state x).2.2]

theorem del_refused {err : ℤ} (h : Sound s M L) (hfd : fd ∈ M) (hfcntl : delFcntls.findSome? fcntl = some err) :
    s.del fd fcntl backup = some (err, s) := by
  unfold del
  rw [if_neg (h.inRange hfd), show [Fcntl.getfl, .setfl].findSome? fcntl = some err from hfcntl]

theorem clearReadiness_sound (h : Sound s M L) (hfd : fd ∈ M) :
    ∃ t L', s.clearReadiness fd eventmask = some t ∧ Sound t M L' ∧
      Relinked (s.modify fd fun x => { x with readybits := x.readybits &&& ~~~eventmask }) t ∧
      Moved fd L s.readyNext L' t.readyNext :=
  updateReady_sound h hfd fun bits => bits &&& ~~~eventmask

/-- While events are taken in, the cursor stays at the head. -/
theorem Moved.head (h : Moved fd L c L' c') (hc : c = L.head?.getD (-1)) (hnodup : L.Nodup)
    (hnonneg : ∀ x ∈ L, 0 ≤ x) : c' = L'.head?.getD (-1) := by
  cases h with
  | same => exact hc
  | entered hL =>
      cases L with
      | nil =>
          have hcy : c = -1 := hc
          rw [if_pos hcy]
          rfl
      | cons y l =>
          have hy := hnonneg y List.mem_cons_self
          have hcy : c = y := hc
          rw [if_neg (by omega), hcy]
          rfl
  | @left L₁ L₂ =>
      cases L₁ with
      | nil =>
          have hcy : c = fd := hc
          rw [if_pos hcy, List.append_nil, List.nil_append]
      | cons y l =>
          have hcy : c = y := hc
          have hne : y ≠ fd := by
            intro heq
            rw [heq] at hnodup
            exact (List.nodup_middle.1 hnodup |> List.nodup_cons.1).1 List.mem_cons_self
          rw [if_neg (hcy ▸ hne), hcy]
          rfl

/-- The ready list is right and the cursor at its head. -/
structure Waiting (s : PollerSigio Client) (M : Finset ℤ) (L : List ℤ) : Prop extends Sound s M L where
  atHead : s.readyNext = L.head?.getD (-1)

theorem beginWait_waiting (h : Sound s M L) : Waiting s.beginWait M L where
  toSound := {
    h with
    cursor := by
      cases L with
      | nil => exact .inl h.head
      | cons y l =>
          have hhead : s.readyHead = y := h.head
          exact .inr (hhead.symm ▸ List.mem_cons_self) }
  atHead := h.head

theorem Waiting.updateReady (h : Waiting s M L) (fd : ℤ) (g : Revents → Revents) :
    ∃ t L', s.updateReady fd g = some t ∧ Waiting t M L' := by
  by_cases hfd : fd ∈ M
  · obtain ⟨t, L', ht, hsound, -, hmoved⟩ := updateReady_sound h.toSound hfd g
    exact ⟨t, L', ht, hsound, hmoved.head h.atHead h.nodup fun x hx => h.nonneg hx⟩
  · exact ⟨s, L, updateReady_of_notMem h.toListed hfd g, h⟩

theorem Waiting.takeBackup (h : Waiting s M L) (event : PollEvent Client) :
    ∃ t L', s.takeBackup event = some t ∧ Waiting t M L' := by
  unfold PollerSigio.takeBackup
  split
  · exact ⟨s, L, rfl, h⟩
  · split
    · exact ⟨s, L, rfl, h⟩
    · exact h.updateReady event.fd _

/-- What one event keeps, all of them keep. -/
theorem Waiting.foldlM {α : Type*} {take : PollerSigio Client → α → Option (PollerSigio Client)}
    (htake : ∀ s L a, Waiting s M L → ∃ t L', take s a = some t ∧ Waiting t M L') (h : Waiting s M L) (l : List α) :
    ∃ t L', l.foldlM take s = some t ∧ Waiting t M L' := by
  induction l generalizing s L with
  | nil => exact ⟨s, L, rfl, h⟩
  | cons a l ih =>
      obtain ⟨t, L', ht, hw⟩ := htake s L a h
      rw [List.foldlM_cons, ht]
      exact ih hw

theorem Waiting.endWait (h : Waiting s M L) : s.endWait.1 = 0 ↔ L ≠ [] := by
  have hcount := h.count
  have hne : EWOULDBLOCK ≠ 0 := by decide
  unfold PollerSigio.endWait
  rw [← List.length_pos_iff]
  split
  · exact iff_of_true rfl (by omega)
  · exact iff_of_false hne (by omega)

/-- Any signals and any events of the backup; there is an event if the list is not empty. -/
theorem waitForEvents_sound (h : Sound s M L) (signals : List (ℤ × Revents))
    (overflow : Option (List (PollEvent Client))) :
    ∃ err t L', s.waitForEvents signals overflow = some (err, t) ∧ Waiting t M L' ∧ (err = 0 ↔ L' ≠ []) := by
  obtain ⟨u, L₁, hu, hw⟩ := Waiting.foldlM (fun _ _ info hw => hw.updateReady info.1 _)
    (beginWait_waiting h) signals
  have hu' : signals.foldlM takeSignal s.beginWait = some u := hu
  unfold waitForEvents
  rw [hu']
  cases overflow with
  | none => exact ⟨_, u, L₁, rfl, hw, hw.endWait⟩
  | some events =>
      obtain ⟨t, L', ht, hw'⟩ := hw.foldlM (fun _ _ event hw => hw.takeBackup event) events
      exact ⟨_, t, L', Option.map_eq_some_iff.2 ⟨t, ht, rfl⟩, hw', hw'.endWait⟩

/-- The cursor goes on to the next member, or off the end. -/
theorem Listed.advance {L₁ L₂ : List ℤ} (h : Listed s M (L₁ ++ fd :: L₂)) :
    (if s.nexts fd = s.readyHead then -1 else s.nexts fd) = L₂.head?.getD (-1) := by
  have hnodup := h.nodup
  have hhead : s.readyHead = (L₁ ++ fd :: L₂).head (by simp) := h.head_eq _
  have hnext := h.links.1
  cases L₂ with
  | nil =>
      apply if_pos
      rw [hnext, hhead]
      cases L₁ with
      | nil => rfl
      | cons y l => rfl
  | cons z l =>
      have hz : s.nexts fd = z := hnext
      rw [hz]
      apply if_neg
      rw [hhead]
      intro heq
      have hperm : (z :: (L₁ ++ fd :: l)).Nodup := by
        have hmiddle : (L₁ ++ [fd] ++ z :: l).Nodup := by rwa [List.append_assoc]
        have hcons := List.nodup_middle.1 hmiddle
        rwa [List.append_assoc] at hcons
      apply (List.nodup_cons.1 hperm).1
      rw [heq]
      cases L₁ with
      | nil => exact List.mem_cons_self
      | cons y m => exact List.mem_cons_self

/-- The member at the cursor is returned. -/
theorem getNextEvent_sound {L₁ L₂ : List ℤ} (h : Sound s M (L₁ ++ fd :: L₂)) (hfd : s.readyNext = fd) (hpos : 1 ≤ fd) :
    ∃ event t, event.fd = fd ∧ s.getNextEvent = (0, some event, t) ∧ Sound t M (L₁ ++ fd :: L₂) ∧
      t.readyNext = L₂.head?.getD (-1) := by
  have hon : L₂.head?.getD (-1) = -1 ∨ L₂.head?.getD (-1) ∈ L₁ ++ fd :: L₂ := by
    cases L₂ with
    | nil => exact .inl rfl
    | cons y l => exact .inr (List.mem_append_right L₁ (List.mem_cons_of_mem _ List.mem_cons_self))
  let f := s.fds fd
  refine ⟨⟨fd, f.readybits &&& f.mask, f.client⟩, { s with readyNext := L₂.head?.getD (-1) },
    rfl, ?_, { h with cursor := hon }, rfl⟩
  unfold getNextEvent
  rw [if_neg (by omega), ← h.advance, hfd]
  rfl

theorem getNextEvent_over (hcursor : s.readyNext < 1) : s.getNextEvent = (EWOULDBLOCK, none, s) := if_pos hcursor

theorem init_sound (cells : ℤ → FdState Client) : Sound (s.init (some cells) backup).2 ∅ [] := by
  constructor
  · constructor
    · exact .nil
    · exact .nil
    · exact nofun
    · rfl
    · rfl
    · exact .inl rfl
    · exact nofun
    · intro x h0 hlt _
      have hnew : clearNew (fun _ => FdState.clear) cells 0 16 x = .clear := clearNew_of_ge h0 hlt
      exact hnew
    · exact nofun
    · rfl
    · exact Int.natCast_nonneg 16
  · exact nofun

/-! ## The readiness bits -/

theorem updateMask_bits (h : Sound s M L) (fd : ℤ) (g : Revents → Revents) :
    ∃ err t L', s.updateMask fd g = some (err, t) ∧ Sound t M L' ∧ ∀ x, (t.fds x).readybits = (s.fds x).readybits := by
  by_cases hfd : fd ∈ M
  · obtain ⟨t, L', ht, hsound, hlinks, -⟩ := updateMask_sound h hfd g
    refine ⟨0, t, L', ht, hsound, fun x => ?_⟩
    rw [(hlinks.state x).2.2]
    by_cases heq : x = fd
    · rw [heq, modify_self]
    · rw [modify_of_ne heq]
  · refine ⟨ENOENT, s, L, if_pos ?_, h, fun _ => rfl⟩
    rw [← Bool.not_eq_false]
    exact hfd ∘ h.outside_iff.1

theorem updateReady_bits (h : Sound s M L) (fd : ℤ) (g : Revents → Revents) :
    ∃ t L', s.updateReady fd g = some t ∧ Sound t M L' ∧ (fd ∈ M → (t.fds fd).readybits = g (s.fds fd).readybits) ∧
      ∀ x, x ≠ fd → (t.fds x).readybits = (s.fds x).readybits := by
  by_cases hfd : fd ∈ M
  · obtain ⟨t, L', ht, hsound, hlinks, -⟩ := updateReady_sound h hfd g
    refine ⟨t, L', ht, hsound, fun _ => ?_, fun x hne => ?_⟩
    · rw [(hlinks.state fd).2.2, modify_self]
    · rw [(hlinks.state x).2.2, modify_of_ne hne]
  · exact ⟨s, L, updateReady_of_notMem h.toListed hfd g, h, fun hM => absurd hM hfd, fun _ _ => rfl⟩

theorem takeBackup_bits (h : Sound s M L) (event : PollEvent Client) :
    ∃ t L', s.takeBackup event = some t ∧ Sound t M L' ∧ (event.fd ∈ M → (t.fds event.fd).readybits = event.revents) ∧
      ∀ x, x ≠ event.fd → (t.fds x).readybits = (s.fds x).readybits := by
  unfold takeBackup
  split
  · next hout =>
      refine ⟨s, L, rfl, h, fun hM => ?_, fun _ _ => rfl⟩
      rw [h.outside_iff.2 hM] at hout
      cases hout
  · split
    · next heq => exact ⟨s, L, rfl, h, fun _ => heq, fun _ _ => rfl⟩
    · exact updateReady_bits h event.fd fun _ => event.revents

theorem getNextEvent_fds : s.getNextEvent.2.2.fds = s.fds := by
  unfold getNextEvent
  split
  · rfl
  · rfl

end

/-- The descriptors monitored after a call. `add` monitors its descriptor as soon as its
`fcntl` calls have succeeded, and `del` no more as soon as its have. -/
def monitors (M : Finset ℤ) (s : PollerSigio Client) : Call Client → Finset ℤ
  | .init .. => ∅
  | .add fd _ _ ans =>
    if (s.grow fd ans.memory).isSome ∧ addFcntls.findSome? ans.fcntl = none then insert fd M else M
  | .del fd fcntl _ => if delFcntls.findSome? fcntl = none then M.erase fd else M
  | .setMask .. | .orMask .. | .andMask .. | .clearReadiness .. | .waitForEvents .. | .getNextEvent => M

/-- `init` finds memory, `add` is for descriptors that are not monitored and the others
are for those that are. -/
def Allows (M : Finset ℤ) : Call Client → Prop
  | .init memory _ => memory ≠ none
  | .add fd .. => 0 ≤ fd ∧ fd ∉ M
  | .del fd .. | .setMask fd _ | .orMask fd _ | .andMask fd _ | .clearReadiness fd _ => fd ∈ M
  | .waitForEvents .. | .getNextEvent => True

/-- The descriptor that a call is about. -/
def Call.fd : Call Client → Option ℤ
  | .add fd .. | .del fd .. | .setMask fd _ | .orMask fd _ | .andMask fd _ | .clearReadiness fd _ => some fd
  | .init .. | .waitForEvents .. | .getNextEvent => none

/-- After the call its descriptor is not ready. -/
def Drops (s : PollerSigio Client) : Call Client → Prop
  | .del _ fcntl _ => delFcntls.findSome? fcntl = none
  | .setMask fd eventmask => { s.fds fd with mask := eventmask : FdState Client }.isReady = false
  | .orMask fd eventmask => { s.fds fd with mask := (s.fds fd).mask ||| eventmask : FdState Client }.isReady = false
  | .andMask fd eventmask => { s.fds fd with mask := (s.fds fd).mask &&& eventmask : FdState Client }.isReady = false
  | .clearReadiness fd eventmask =>
    { s.fds fd with readybits := (s.fds fd).readybits &&& ~~~eventmask : FdState Client }.isReady = false
  | .init .. | .add .. | .waitForEvents .. | .getNextEvent => False

/-- The runs from `init` on, with the descriptors that are monitored. -/
def sigios : System (PollerSigio Client) (Call Client) (Finset ℤ) where
  start s M := ∃ s₀ cells backup, s = (init s₀ (some cells) backup).2 ∧ M = ∅
  step s c t := ∃ err ev, s.call c = some (err, ev, t)
  note M s c _ := monitors M s c

section
variable {s t : PollerSigio Client} {M : Finset ℤ} {L L' : List ℤ} {fd : ℤ} {c : Call Client}

theorem Sound.dropped {f : FdState Client → FdState Client} (h : Sound t M L') (hlinks : Relinked (s.modify fd f) t)
    (hfd : fd ∈ M) (hL : fd ∉ L') : (f (s.fds fd)).isReady = false := by
  have hready := mt (h.ready fd hfd).2 hL
  rwa [hlinks.isReady, modify_self, Bool.not_eq_true] at hready

/-- A call on a descriptor moves this one at most, and off the list only as `Drops` says. -/
theorem call_moved (h : Sound s M L) (hc : Allows M c) (hfd : c.fd = some fd) :
    ∃ err t L', s.call c = some (err, none, t) ∧ Sound t (monitors M s c) L' ∧
      Moved fd L s.readyNext L' t.readyNext ∧ (fd ∈ L → fd ∉ L' → Drops s c) := by
  cases c with
  | add fd client eventmask ans =>
      cases hfd
      by_cases hreg : (s.grow fd ans.memory).isSome ∧ addFcntls.findSome? ans.fcntl = none
      · obtain ⟨u, hu⟩ := Option.isSome_iff_exists.1 hreg.1
        obtain ⟨t, L', ht, hsound, hmoved, -⟩ := add_registered client eventmask h hc.1 hc.2 hu hreg.2
        refine ⟨_, t, L', Option.map_eq_some_iff.2 ⟨_, ht, rfl⟩, ?_, hmoved, fun hL => ?_⟩
        · rwa [monitors, if_pos hreg]
        · exact absurd (h.mem fd hL) hc.2
      · obtain ⟨err, t, ht, hsound, hnext, -⟩ := add_refused client eventmask h hreg
        refine ⟨_, t, L, Option.map_eq_some_iff.2 ⟨_, ht, rfl⟩, ?_, hnext ▸ .same, absurd⟩
        rwa [monitors, if_neg hreg]
  | del fd fcntl backup =>
      cases hfd
      cases hfcntl : delFcntls.findSome? fcntl with
      | none =>
          obtain ⟨t, L', ht, hsound, hmoved, -⟩ := del_done backup h hc hfcntl
          refine ⟨_, t, L', Option.map_eq_some_iff.2 ⟨_, ht, rfl⟩, ?_, hmoved, fun _ _ => hfcntl⟩
          rwa [monitors, if_pos hfcntl]
      | some err =>
          refine ⟨_, s, L, Option.map_eq_some_iff.2 ⟨_, del_refused backup h hc hfcntl, rfl⟩, ?_, .same, absurd⟩
          rwa [monitors, if_neg (by rw [hfcntl]; nofun)]
  | setMask fd eventmask | orMask fd eventmask | andMask fd eventmask =>
      cases hfd
      obtain ⟨t, L', ht, hsound, hlinks, hmoved⟩ := updateMask_sound h hc _
      exact ⟨_, t, L', Option.map_eq_some_iff.2 ⟨_, ht, rfl⟩, hsound, hmoved, fun _ => hsound.dropped hlinks hc⟩
  | clearReadiness fd eventmask =>
      cases hfd
      obtain ⟨t, L', ht, hsound, hlinks, hmoved⟩ := clearReadiness_sound eventmask h hc
      exact ⟨_, t, L', Option.map_eq_some_iff.2 ⟨_, ht, rfl⟩, hsound, hmoved, fun _ => hsound.dropped hlinks hc⟩
  | init | waitForEvents | getNextEvent => cases hfd

/-- A call has a result, and the list is right after it. -/
theorem call_sound (h : Sound s M L) (hc : Allows M c) :
    ∃ r, s.call c = some r ∧ ∃ L', Sound r.2.2 (monitors M s c) L' := by
  cases hfd : c.fd with
  | some fd =>
      obtain ⟨err, t, L', ht, hsound, -⟩ := call_moved h hc hfd
      exact ⟨_, ht, L', hsound⟩
  | none =>
      cases c with
      | init memory backup =>
          obtain ⟨cells, rfl⟩ := Option.ne_none_iff_exists'.1 hc
          exact ⟨_, rfl, [], init_sound backup cells⟩
      | waitForEvents signals overflow =>
          obtain ⟨err, t, L', ht, hw, -⟩ := waitForEvents_sound h signals overflow
          exact ⟨_, Option.map_eq_some_iff.2 ⟨_, ht, rfl⟩, L', hw.toSound⟩
      | getNextEvent =>
          refine ⟨_, rfl, L, ?_⟩
          by_cases hcursor : 1 ≤ s.readyNext
          · obtain ⟨L₁, L₂, rfl⟩ := List.append_of_mem (h.cursor.resolve_left (by omega))
            obtain ⟨event, t, -, ht, hsound, -⟩ := getNextEvent_sound h rfl hcursor
            rwa [ht]
          · rwa [getNextEvent_over (not_le.1 hcursor)]
      | add | del | setMask | orMask | andMask | clearReadiness => cases hfd

theorem sigios_sound (h : Run sigios (fun _ M c => Allows M c) s M) : ∃ L, Sound s M L := by
  apply h.invariant
  · intro s M ⟨s₀, cells, backup, hs, hM⟩
    rw [hs, hM]
    exact ⟨[], init_sound backup cells⟩
  · intro s M c t ⟨L, hsound⟩ hc ⟨err, ev, ht⟩
    obtain ⟨r, hr, hnext⟩ := call_sound hsound hc
    rw [ht] at hr
    cases hr
    exact hnext

/-- In every run the ready list is a ring of just the monitored descriptors that are ready,
with the head and the cursor on it, and no assertion fails. -/
theorem sigio_ready_list (h : Run sigios (fun _ M c => Allows M c) s M) :
    (∃ L, Sound s M L ∧ (∀ fd, fd ∈ L ↔ fd ∈ M ∧ (s.fds fd).isReady = true) ∧
      (s.readyHead = -1 ↔ L = []) ∧ (L ≠ [] → s.readyHead ∈ L)) ∧
    ∀ c, Allows M c → s.call c ≠ none := by
  obtain ⟨L, hsound⟩ := sigios_sound h
  refine ⟨⟨L, hsound, ?_, ?_, ?_⟩, ?_⟩
  · intro fd
    constructor
    · intro hL
      exact ⟨hsound.mem fd hL, (hsound.ready fd (hsound.mem fd hL)).1 hL⟩
    · intro ⟨hM, hr⟩
      exact (hsound.ready fd hM).2 hr
  · constructor
    · intro hhead
      by_contra hne
      have hnonneg := hsound.nonneg (List.head_mem hne)
      rw [hsound.head_eq hne] at hhead
      omega
    · intro hL
      rw [hsound.head, hL]
      rfl
  · intro hne
    rw [hsound.head_eq hne]
    exact List.head_mem hne
  · intro c hc
    obtain ⟨r, hr, -⟩ := call_sound hsound hc
    exact Option.ne_none_iff_exists'.2 ⟨r, hr⟩

instance (M : Finset ℤ) : (c : Call Client) → Decidable (Allows M c)
  | .init memory _ => inferInstanceAs (Decidable (memory ≠ none))
  | .add fd .. => inferInstanceAs (Decidable (0 ≤ fd ∧ fd ∉ M))
  | .del fd .. | .setMask fd _ | .orMask fd _ | .andMask fd _ | .clearReadiness fd _ => inferInstanceAs (Decidable (fd ∈ M))
  | .waitForEvents .. | .getNextEvent => inferInstanceAs (Decidable True)

end

/-- The poller after a call, if no assertion fails. -/
def run (s : PollerSigio Client) (c : Call Client) : Option (PollerSigio Client) := (s.call c).map fun r => r.2.2

/-- Everything is answered well. -/
def willing : Answers ℕ := ⟨some fun _ => .clear, fun _ => none, 0⟩

/-- Before `init`. -/
def raw : PollerSigio ℕ := ⟨7, 7, 7, fun _ => .clear, 7, 7⟩

/-- The head is at the cursor and is deleted, and one that was cleared is ready again. -/
theorem sigio_ready_list_head : ∃ (s : PollerSigio ℕ) (M : Finset ℤ), Run sigios (fun _ M c => Allows M c) s M ∧ (s.readyHead = 40 ∧
    s.readyNext = 40 ∧ M = {6, 40}) ∧ (∃ L, Sound s M L ∧ (∀ fd, fd ∈ L ↔ fd ∈ M ∧ (s.fds fd).isReady = true) ∧
      (s.readyHead = -1 ↔ L = []) ∧ (L ≠ [] → s.readyHead ∈ L)) ∧ s.call .getNextEvent ≠ none := by
  have hfollow : ((follow (guarded (fun _ M c => Allows M c) run) sigios.note
      (init raw (some fun _ => .clear) 0).2 ∅
      [.add 5 (some 0) POLLIN willing, .add 40 (some 1) POLLIN willing, .add 6 none 0 willing,
        .clearReadiness 40 POLLIN, .waitForEvents [(40, POLLIN), (99, POLLIN)] none,
        .del 5 (fun _ => none) 0]).map fun r => (r.1.readyHead, r.1.readyNext, r.2)) = some (40, 40, {6, 40}) := by
    decide +kernel
  obtain ⟨⟨s, M⟩, hr, heq⟩ := Option.map_eq_some_iff.1 hfollow
  rw [Prod.mk.injEq, Prod.mk.injEq] at heq
  have hrun : Run sigios (fun _ M c => Allows M c) s M :=
    Run.follow_guarded (fun _ _ _ => exists_of_map_snd) (.start ⟨raw, _, 0, rfl, rfl⟩) hr
  exact ⟨s, M, hrun, heq, (sigio_ready_list hrun).1, (sigio_ready_list hrun).2 .getNextEvent trivial⟩

end Dkftpbench.PollerSigio
