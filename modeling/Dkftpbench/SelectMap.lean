import Dkftpbench.SelectRound
import Mathlib.Order.Bounds.Basic

/-!
# Poller_select is a map

The table of clients, the sets of bits and the maximum amount to one map, from descriptors
to a client and a mask. A request is accepted where the map has a place for it, and then
the poller does to its three representations what the request does to the map.
-/
namespace Dkftpbench.PollerSelect
open CLib Watch
variable {Client : Type*} {urgent : Bool}

/-- The client and the mask of each descriptor that is monitored. -/
abbrev Registry (Client : Type*) := ℤ → Option (Client × Revents)

/-- What the user asks of the poller, with any descriptor and a client that is not null. -/
inductive Request (Client : Type*)
  | init
  | add (fd : ℤ) (client : Client) (eventmask : Revents)
  | del (fd : ℤ)
  | setMask (fd : ℤ) (eventmask : Revents)
  | orMask (fd : ℤ) (eventmask : Revents)
  | andMask (fd : ℤ) (eventmask : Revents)

namespace Registry

def clients (m : Registry Client) (fd : ℤ) : Option Client := (m fd).map Prod.fst

/-- The mask, and no bit where nothing is monitored. -/
def mask (m : Registry Client) (fd : ℤ) : Revents := ((m fd).map Prod.snd).getD 0

/-- Only what is new and fits in the sets can be added, the rest is for what is there. -/
def accepts (m : Registry Client) : Request Client → Bool
  | .init => true
  | .add fd _ _ => decide (0 ≤ fd ∧ fd < FD_SETSIZE) && (m fd).isNone
  | .del fd | .setMask fd _ | .orMask fd _ | .andMask fd _ => (m fd).isSome

/-- Another mask for a descriptor that is monitored. -/
def remask (m : Registry Client) (fd : ℤ) (f : Revents → Revents) : Registry Client :=
  Function.update m fd ((m fd).map fun e => (e.1, f e.2))

/-- What a request that is accepted does. -/
def apply (m : Registry Client) : Request Client → Registry Client
  | .init => fun _ => none
  | .add fd client eventmask => Function.update m fd (some (client, eventmask))
  | .del fd => Function.update m fd none
  | .setMask fd eventmask => m.remask fd fun _ => eventmask
  | .orMask fd eventmask => m.remask fd fun mask => mask ||| eventmask
  | .andMask fd eventmask => m.remask fd fun mask => mask &&& eventmask

def next (m : Registry Client) (c : Request Client) : Registry Client := if m.accepts c then m.apply c else m

end Registry

/-- The function of the class that a request calls. -/
def perform (urgent : Bool) (p : PollerSelect Client) : Request Client → Option (ℤ × PollerSelect Client)
  | .init => some (p.init urgent)
  | .add fd client eventmask => p.add urgent fd (some client) eventmask
  | .del fd => p.del urgent fd
  | .setMask fd eventmask => p.setMask urgent fd eventmask
  | .orMask fd eventmask => p.orMask urgent fd eventmask
  | .andMask fd eventmask => p.andMask urgent fd eventmask

/-- All runs from `init` on, with the map that they define. -/
def maps (urgent : Bool) : System (PollerSelect Client) (Request Client) (Registry Client) where
  start p m := ∃ p₀, init urgent p₀ = (0, p) ∧ m = fun _ => none
  step p c q := ∃ err, p.perform urgent c = some (err, q)
  note m _ c _ := m.next c

/-- The bits of a descriptor in the sets are those of the mask. -/
structure Agrees (urgent : Bool) (p : PollerSelect Client) (fd : ℤ) (mask : Revents) : Prop where
  readfds : p.readfds fd = mask.has POLLIN
  writefds : p.writefds fd = mask.has POLLOUT
  exceptfds : (urgent && p.exceptfds fd) = (urgent && mask.has POLLPRI)

/-- What the user sees of the poller is the map. -/
structure Refines (urgent : Bool) (p : PollerSelect Client) (m : Registry Client) : Prop where
  clients : ∀ fd, p.clients fd = (m fd).map Prod.fst
  maxFd : (p.maxFd = -1 ∧ ∀ fd, m fd = none) ∨ IsGreatest {fd | m fd ≠ none} p.maxFd
  readfds : ∀ fd, p.readfds fd = true ↔ ∃ e, m fd = some e ∧ e.2.has POLLIN = true
  writefds : ∀ fd, p.writefds fd = true ↔ ∃ e, m fd = some e ∧ e.2.has POLLOUT = true
  exceptfds : urgent = true → ∀ fd, p.exceptfds fd = true ↔ ∃ e, m fd = some e ∧ e.2.has POLLPRI = true

/-- What carries this from request to request. -/
structure Mirrors (urgent : Bool) (p : PollerSelect Client) (m : Registry Client) : Prop where
  monitors : Monitors urgent p m.clients
  maxFd : p.maxFd = -1 ∨ m p.maxFd ≠ none
  bits : ∀ fd, Agrees urgent p fd (m.mask fd)

section
variable {p q : PollerSelect Client} {m : Registry Client} {fd x : ℤ} {eventmask mask : Revents} {c : Request Client}
variable {e : Client × Revents} {f : Revents → Revents}

theorem single_pri : Revents.Single POLLPRI := ⟨1, by decide, rfl⟩

theorem clients_eq_none : m.clients fd = none ↔ m fd = none := Option.map_eq_none_iff

theorem clients_update (o : Option (Client × Revents)) :
    Registry.clients (Function.update m fd o) = Function.update m.clients fd (o.map Prod.fst) := by
  funext x
  unfold Registry.clients
  by_cases hx : x = fd
  · rw [hx, Function.update_self, Function.update_self]
  · rw [Function.update_of_ne hx, Function.update_of_ne hx]

theorem mask_update_self (o : Option (Client × Revents)) :
    Registry.mask (Function.update m fd o) fd = (o.map Prod.snd).getD 0 := by
  rw [Registry.mask, Function.update_self]

theorem mask_update_of_ne (hx : x ≠ fd) (o : Option (Client × Revents)) :
    Registry.mask (Function.update m fd o) x = m.mask x := by
  rw [Registry.mask, Function.update_of_ne hx, Registry.mask]

theorem clients_remask : (m.remask fd f).clients = m.clients := by
  rw [Registry.remask, clients_update, Option.map_map]
  exact Function.update_eq_self fd m.clients

theorem remask_update (client : Client) :
    Registry.remask (Function.update m fd (some (client, mask))) fd f = Function.update m fd (some (client, f mask)) := by
  rw [Registry.remask, Function.update_self, Function.update_idem]
  rfl

theorem mask_of_some (he : m fd = some e) : m.mask fd = e.2 := by
  rw [Registry.mask, he]
  rfl

theorem Agrees.of_eq (h : Agrees urgent p fd mask) (hr : q.readfds fd = p.readfds fd)
    (hw : q.writefds fd = p.writefds fd) (he : q.exceptfds fd = p.exceptfds fd) : Agrees urgent q fd mask := by
  refine ⟨?_, ?_, ?_⟩
  · rw [hr, h.readfds]
  · rw [hw, h.writefds]
  · rw [he, h.exceptfds]

theorem Masked.agrees (h : Masked p q fd) (hx : x ≠ fd) (ha : Agrees urgent p x mask) : Agrees urgent q x mask := by
  obtain ⟨hr, hw, he⟩ := h.others x hx
  exact ha.of_eq hr hw he

theorem Mirrors.refines (h : Mirrors urgent p m) : Refines urgent p m := by
  have hbit : ∀ fd (bit : Revents), Revents.Single bit →
      ((m.mask fd).has bit = true ↔ ∃ e, m fd = some e ∧ e.2.has bit = true) := by
    intro fd bit hsingle
    cases he : m fd with
    | none =>
        refine iff_of_false ?_ ?_
        · rw [Registry.mask, he]
          exact ne_true_of_eq_false hsingle.has_zero
        · intro ⟨e, he, _⟩
          cases he
    | some e =>
        rw [mask_of_some he]
        simp
  constructor
  · intro fd
    exact congrFun h.monitors.clients fd
  · rcases h.maxFd with hmax | hmax
    · left
      refine ⟨hmax, fun fd => ?_⟩
      by_contra hne
      have hrange := h.monitors.range fd (mt clients_eq_none.1 hne)
      omega
    · right
      exact ⟨hmax, fun fd hfd => (h.monitors.range fd (mt clients_eq_none.1 hfd)).2⟩
  · intro fd
    rw [(h.bits fd).readfds]
    exact hbit fd POLLIN Revents.single_in
  · intro fd
    rw [(h.bits fd).writefds]
    exact hbit fd POLLOUT Revents.single_out
  · intro hurgent fd
    have he := (h.bits fd).exceptfds
    rw [hurgent, Bool.true_and, Bool.true_and] at he
    rw [he]
    exact hbit fd POLLPRI single_pri

theorem agrees_clear (hr : p.readfds fd = false) (hw : p.writefds fd = false)
    (he : (urgent && p.exceptfds fd) = false) : Agrees urgent p fd 0 := by
  refine ⟨?_, ?_, ?_⟩
  · rw [hr, Revents.single_in.has_zero]
  · rw [hw, Revents.single_out.has_zero]
  · rw [he, single_pri.has_zero, Bool.and_false]

theorem init_mirrors (p : PollerSelect Client) : Mirrors urgent (p.init urgent).2 fun _ => none := by
  refine ⟨tables_monitors (.start ⟨p, rfl, rfl⟩), .inl rfl, ?_⟩
  intro fd
  refine agrees_clear rfl rfl ?_
  cases urgent with
  | false => rfl
  | true => rfl

/-- What comes of a request: it is refused and does nothing, or is accepted. -/
def Serves (urgent : Bool) (p : PollerSelect Client) (m : Registry Client) (c : Request Client)
    (r : Option (ℤ × PollerSelect Client)) : Prop :=
  ∃ err q, r = some (err, q) ∧ (err = 0 ↔ m.accepts c = true) ∧ (err ≠ 0 → q = p) ∧ Mirrors urgent q (m.next c)

variable {r : Option (ℤ × PollerSelect Client)} {err : ℤ}

theorem Mirrors.refused (h : Mirrors urgent p m) (hno : m.accepts c = false) (hr : r = some (err, p)) (herr : err ≠ 0) :
    Serves urgent p m c r := by
  refine ⟨err, p, hr, iff_of_false herr (ne_true_of_eq_false hno), fun _ => rfl, ?_⟩
  rw [Registry.next, hno, if_neg Bool.false_ne_true]
  exact h

theorem Mirrors.accepted (h : Mirrors urgent q (m.apply c)) (hyes : m.accepts c = true) (hr : r = some (0, q)) :
    Serves urgent p m c r := by
  refine ⟨0, q, hr, iff_of_true rfl hyes, fun h0 => absurd rfl h0, ?_⟩
  rw [Registry.next, if_pos hyes]
  exact h

theorem Mirrors.check_eq_none (h : Mirrors urgent p m) : p.check fd = none ↔ m fd ≠ none := by
  have hsame : m fd ≠ none ↔ m.clients fd ≠ none := not_congr clients_eq_none.symm
  rw [hsame]
  unfold check
  rw [h.monitors.clients]
  constructor
  · intro hc hnone
    rw [if_pos hnone] at hc
    split at hc
    · cases hc
    · cases hc
  · intro hne
    have hrange := h.monitors.range fd hne
    have hmax := h.monitors.max
    rw [if_neg (by omega), if_neg hne]

/-- The mask of a descriptor that is monitored has changed, and so have its bits. -/
theorem Mirrors.remask (h : Mirrors urgent p m) (hfd : m fd ≠ none) (hq : Masked p q fd)
    (hbits : Agrees urgent q fd (f (m.mask fd))) : Mirrors urgent q (m.remask fd f) := by
  obtain ⟨e, he⟩ := Option.ne_none_iff_exists'.1 hfd
  constructor
  · rw [clients_remask]
    exact hq.monitors h.monitors (mt clients_eq_none.1 hfd)
  · have hmax : q.maxFd = p.maxFd := by rw [hq.rest]
    rw [hmax]
    refine h.maxFd.imp_right ?_
    intro hne
    unfold Registry.remask
    by_cases hx : p.maxFd = fd
    · rw [hx, Function.update_self, he]
      nofun
    · rwa [Function.update_of_ne hx]
  · intro x
    by_cases hx : x = fd
    · rw [hx, Registry.remask, mask_update_self, he]
      rw [mask_of_some he] at hbits
      exact hbits
    · rw [Registry.remask, mask_update_of_ne hx]
      exact hq.agrees hx (h.bits x)

/-- What the three mask functions have in common. -/
theorem Mirrors.serves_mask (f : Revents → Revents) (h : Mirrors urgent p m) (hc : m.accepts c = (m fd).isSome)
    (happly : m.apply c = m.remask fd f) (hspec : MaskSpec p m.clients fd r)
    (hbits : p.check fd = none → ∃ q, r = some (0, q) ∧ Agrees urgent q fd (f (m.mask fd))) : Serves urgent p m c r := by
  obtain ⟨err, q, hr, hcases⟩ := hspec
  cases hm : m fd with
  | none =>
      rw [hm] at hc
      rcases hcases with ⟨herr, hq⟩ | ⟨_, hne, _⟩
      · rw [hq] at hr
        exact h.refused hc hr herr
      · exact absurd (clients_eq_none.2 hm) hne
  | some e =>
      have hne : m fd ≠ none := by
        rw [hm]
        nofun
      rw [hm] at hc
      obtain ⟨q', hr', ha⟩ := hbits (h.check_eq_none.2 hne)
      rw [hr] at hr'
      cases hr'
      rcases hcases with ⟨h0, _⟩ | ⟨_, _, hmasked⟩
      · exact absurd rfl h0
      · refine Mirrors.accepted ?_ hc hr
        rw [happly]
        exact h.remask hne hmasked ha

theorem serves_setMask (h : Mirrors urgent p m) (fd : ℤ) (eventmask : Revents) :
    Serves urgent p m (.setMask fd eventmask) (p.setMask urgent fd eventmask) := by
  apply h.serves_mask (fun _ => eventmask) rfl rfl (setMask_spec h.monitors fd eventmask)
  intro hc
  have hle := (h.monitors.range fd (mt clients_eq_none.1 (h.check_eq_none.1 hc))).2
  obtain ⟨q, hq, hr, hw, he⟩ := setMask_bits urgent eventmask hc hle
  exact ⟨q, hq, hr, hw, he⟩

theorem orMask_bits (hc : p.check fd = none) (hle : fd ≤ p.maxFd) (h : Agrees urgent p fd mask) (eventmask : Revents) :
    ∃ q, p.orMask urgent fd eventmask = some (0, q) ∧ Agrees urgent q fd (mask ||| eventmask) := by
  unfold orMask
  rw [hc]
  dsimp only
  rw [if_neg (not_not.2 hle)]
  refine ⟨_, rfl, ?_, ?_, ?_⟩
  · rw [Revents.single_in.has_or, ← h.readfds]
    cases eventmask.has POLLIN <;> simp [fdSet]
  · rw [Revents.single_out.has_or, ← h.writefds]
    cases eventmask.has POLLOUT <;> simp [fdSet]
  · rw [single_pri.has_or, Bool.and_or_distrib_left, ← h.exceptfds]
    cases urgent <;> cases eventmask.has POLLPRI <;> simp [fdSet]

theorem andMask_bits (hc : p.check fd = none) (hle : fd ≤ p.maxFd) (h : Agrees urgent p fd mask) (eventmask : Revents) :
    ∃ q, p.andMask urgent fd eventmask = some (0, q) ∧ Agrees urgent q fd (mask &&& eventmask) := by
  unfold andMask
  rw [hc]
  dsimp only
  rw [if_neg (not_not.2 hle)]
  refine ⟨_, rfl, ?_, ?_, ?_⟩
  · rw [Revents.single_in.has_and, ← h.readfds]
    cases eventmask.has POLLIN <;> simp [fdClr]
  · rw [Revents.single_out.has_and, ← h.writefds]
    cases eventmask.has POLLOUT <;> simp [fdClr]
  · rw [single_pri.has_and, ← Bool.and_assoc, ← h.exceptfds]
    cases urgent <;> cases eventmask.has POLLPRI <;> simp [fdClr]

theorem serves_orMask (h : Mirrors urgent p m) (fd : ℤ) (eventmask : Revents) :
    Serves urgent p m (.orMask fd eventmask) (p.orMask urgent fd eventmask) := by
  apply h.serves_mask (fun mask => mask ||| eventmask) rfl rfl (orMask_spec h.monitors fd eventmask)
  intro hc
  have hle := (h.monitors.range fd (mt clients_eq_none.1 (h.check_eq_none.1 hc))).2
  exact orMask_bits hc hle (h.bits fd) eventmask

theorem serves_andMask (h : Mirrors urgent p m) (fd : ℤ) (eventmask : Revents) :
    Serves urgent p m (.andMask fd eventmask) (p.andMask urgent fd eventmask) := by
  apply h.serves_mask (fun mask => mask &&& eventmask) rfl rfl (andMask_spec h.monitors fd eventmask)
  intro hc
  have hle := (h.monitors.range fd (mt clients_eq_none.1 (h.check_eq_none.1 hc))).2
  exact andMask_bits hc hle (h.bits fd) eventmask

/-- A descriptor that was registered, with no mask yet. -/
theorem Mirrors.registered (h : Mirrors urgent p m) (h0 : 0 ≤ fd) (hlt : fd < FD_SETSIZE) (hm : m fd = none)
    (client : Client) :
    Mirrors urgent { p with
      maxFd := if fd > p.maxFd then fd else p.maxFd
      clients := Function.update m.clients fd (some client) } (Function.update m fd (some (client, 0))) := by
  have hmax := h.monitors.max
  constructor
  · rw [clients_update]
    constructor
    · rfl
    · intro x hx
      dsimp only
      by_cases heq : x = fd
      · rw [heq]
        split <;> omega
      · rw [Function.update_of_ne heq] at hx
        have hold := h.monitors.range x hx
        split <;> omega
    · dsimp only
      split <;> omega
    · intro x hx
      have hold := h.monitors.requested x hx
      have hne : x ≠ fd := by
        intro heq
        rw [heq] at hold
        exact hold (clients_eq_none.2 hm)
      rwa [Function.update_of_ne hne]
  · right
    dsimp only
    split
    · rw [Function.update_self]
      nofun
    · next hle =>
      have hmonitored : m p.maxFd ≠ none := by
        refine h.maxFd.resolve_left ?_
        omega
      have hne : p.maxFd ≠ fd := by
        intro heq
        rw [heq] at hmonitored
        exact hmonitored hm
      rwa [Function.update_of_ne hne]
  · intro x
    by_cases hx : x = fd
    · have hbits := h.bits fd
      rw [hx, mask_update_self]
      rw [Registry.mask, hm] at hbits
      exact hbits.of_eq rfl rfl rfl
    · rw [mask_update_of_ne hx]
      exact (h.bits x).of_eq rfl rfl rfl

/-- The new descriptor is registered before its mask is set. -/
theorem serves_add (h : Mirrors urgent p m) (fd : ℤ) (client : Client) (eventmask : Revents) :
    Serves urgent p m (.add fd client eventmask) (p.add urgent fd (some client) eventmask) := by
  unfold add
  rw [h.monitors.clients]
  split
  · next hrange =>
    refine h.refused ?_ rfl (by decide)
    rw [Registry.accepts, Bool.and_eq_false_iff, decide_eq_false_iff_not]
    exact .inl (by omega)
  · next hrange =>
    split
    · next hne =>
      refine h.refused ?_ rfl (by decide)
      rw [Registry.accepts, Bool.and_eq_false_iff, Option.isNone_eq_false_iff, Option.isSome_iff_ne_none]
      exact .inr (mt clients_eq_none.2 hne)
    · next hnone =>
      have hm : m fd = none := clients_eq_none.1 (not_not.1 hnone)
      have hp := h.registered (by omega) (by omega) hm client
      obtain ⟨err, q, hq, _, _, hmirrors⟩ := serves_setMask hp fd eventmask
      have hsome : Registry.accepts (Function.update m fd (some (client, 0))) (.setMask fd eventmask) = true := by
        rw [Registry.accepts, Function.update_self]
        rfl
      rw [Registry.next, if_pos hsome, Registry.apply, remask_update] at hmirrors
      refine Mirrors.accepted (q := q) hmirrors ?_ ?_
      · rw [Registry.accepts, hm, Bool.and_eq_true, decide_eq_true_iff]
        exact ⟨by omega, rfl⟩
      · dsimp only
        rw [hq]
        rfl

/-- The maximum is lowered to a client that is there. -/
theorem trim_monitored (clients : ℤ → Option Client) (n : ℕ) :
    trim clients n = -1 ∨ clients (trim clients n) ≠ none := by
  induction n with
  | zero => exact .inl rfl
  | succ n ih =>
      unfold trim
      split
      · exact ih
      · next hne => exact .inr hne

/-- The mask is cleared before the descriptor is taken out. -/
theorem serves_del (h : Mirrors urgent p m) (fd : ℤ) : Serves urgent p m (.del fd) (p.del urgent fd) := by
  rcases check_cases h.monitors fd with ⟨err, hc, herr⟩ | ⟨hc, _, _, _, hle⟩
  · have hno : m fd = none := by
      by_contra hne
      rw [h.check_eq_none.2 hne] at hc
      cases hc
    refine h.refused ?_ ?_ herr
    · rw [Registry.accepts, hno]
      rfl
    · rw [del, hc]
  · have hyes : m.accepts (.del fd) = true := Option.isSome_iff_ne_none.2 (h.check_eq_none.1 hc)
    obtain ⟨err, u, hu, _, _, hcleared⟩ := serves_setMask h fd 0
    obtain ⟨err', q, hdel, hcases⟩ := del_spec h.monitors fd
    have hq := hdel
    unfold del at hq
    rw [hc] at hq
    dsimp only at hq
    rw [if_neg (not_not.2 hle), hu] at hq
    cases hq
    rcases hcases with ⟨h0, _⟩ | ⟨_, _, hmon, _⟩
    · exact absurd rfl h0
    · refine Mirrors.accepted ?_ hyes hdel
      have hnext : m.next (.setMask fd 0) = m.remask fd fun _ => 0 := if_pos hyes
      rw [hnext] at hcleared
      have hclients : u.clients = m.clients := by
        rw [hcleared.monitors.clients, clients_remask]
      constructor
      · rw [Registry.apply, clients_update]
        exact hmon
      · refine (trim_monitored _ _).imp_right ?_
        intro hne
        refine mt clients_eq_none.2 ?_
        rw [Registry.apply, clients_update, ← hclients]
        exact hne
      · intro x
        have hmask : Registry.mask (m.apply (.del fd)) x = (m.remask fd fun _ => 0).mask x := by
          unfold Registry.remask
          by_cases hx : x = fd
          · rw [hx, Registry.apply, mask_update_self, mask_update_self]
            cases m fd with
            | none => rfl
            | some e => rfl
          · rw [Registry.apply, mask_update_of_ne hx, mask_update_of_ne hx]
        rw [hmask]
        exact (hcleared.bits x).of_eq rfl rfl rfl

theorem perform_serves (h : Mirrors urgent p m) (c : Request Client) : Serves urgent p m c (p.perform urgent c) := by
  cases c with
  | init => exact Mirrors.accepted (init_mirrors p) rfl rfl
  | add fd client eventmask => exact serves_add h fd client eventmask
  | del fd => exact serves_del h fd
  | setMask fd eventmask => exact serves_setMask h fd eventmask
  | orMask fd eventmask => exact serves_orMask h fd eventmask
  | andMask fd eventmask => exact serves_andMask h fd eventmask

theorem maps_mirrors (h : Run (maps urgent) (fun _ _ _ => True) p m) : Mirrors urgent p m := by
  apply h.invariant
  · intro p m ⟨p₀, hp, hm⟩
    rw [hm, show p = (p₀.init urgent).2 by rw [hp]]
    exact init_mirrors p₀
  · intro p m c q h _ ⟨err, hq⟩
    obtain ⟨err', q', hq', _, _, hnext⟩ := perform_serves h c
    rw [hq] at hq'
    cases hq'
    exact hnext

/-- The poller is the map that the requests define, and so is every answer of it. -/
theorem select_map (h : Run (maps urgent) (fun _ _ _ => True) p m) :
    Refines urgent p m ∧ ∀ c, ∃ err q, p.perform urgent c = some (err, q) ∧ (err = 0 ↔ m.accepts c = true) ∧
      (err ≠ 0 → q = p) ∧ Refines urgent q (m.next c) := by
  have hp := maps_mirrors h
  refine ⟨hp.refines, ?_⟩
  intro c
  obtain ⟨err, q, hq, herr, hsame, hnext⟩ := perform_serves hp c
  exact ⟨err, q, hq, herr, hsame, hnext.refines⟩

end

/-- The poller after a request, if no assertion fails. -/
def served (urgent : Bool) (p : PollerSelect Client) (c : Request Client) : Option (PollerSelect Client) :=
  (p.perform urgent c).map fun r => r.2

theorem served_step {p q : PollerSelect Client} {c : Request Client} (h : p.served urgent c = some q) :
    (maps urgent).step p c q := by
  obtain ⟨⟨err, _⟩, hr, hq⟩ := Option.map_eq_some_iff.1 h
  cases hq
  exact ⟨err, hr⟩

/-- The maximum is found again below the descriptor that was taken out. -/
theorem select_map_lowered : ∃ (p : PollerSelect ℕ) (m : Registry ℕ),
    Run (maps false) (fun _ _ _ => True) p m ∧ p.maxFd = 4 ∧ m 4 = some (0, POLLIN ||| POLLOUT) ∧
      Refines false p m := by
  have hfollow : (follow (guarded (fun _ _ _ => True) (served false)) (maps false).note (init false raw).2
      (fun _ => none) [.add 4 0 POLLIN, .add 7 1 POLLOUT, .orMask 4 POLLOUT, .del 7, .del 7]).map
        (fun r => (r.1.maxFd, r.2 4)) = some (4, some (0, POLLIN ||| POLLOUT)) := by
    decide +kernel
  obtain ⟨⟨p, m⟩, hr, hpm⟩ := Option.map_eq_some_iff.1 hfollow
  have hrun : Run (maps false) (fun _ _ _ => True) p m :=
    Run.follow_guarded (fun _ _ _ => served_step) (.start ⟨raw, rfl, rfl⟩) hr
  exact ⟨p, m, hrun, congrArg Prod.fst hpm, congrArg Prod.snd hpm, (select_map hrun).1⟩

end Dkftpbench.PollerSelect
