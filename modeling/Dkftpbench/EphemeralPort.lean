import Dkftpbench.PasvReply
import Mathlib.Data.List.Nodup

/-!
# The search for a local port, ftp_client_pipe.cc

`ephemeral_connect` binds its socket to the local address that it is given, at the next port
of a range that is free. It tries one port less than the range has, and when it has run out
of tries it connects all the same.
-/
namespace Dkftpbench.EphemeralPort
open CLib

def EADDRINUSE : ℤ := 98

def minport : ℕ := 1024
def maxport : ℕ := 51023

def InRange (port : BitVec 16) : Prop := minport ≤ port.toNat ∧ port.toNat ≤ maxport

/-- How the loop ends: a port was bound, `bind` failed otherwise, or nothing remains. -/
inductive Ended
  | bound
  | refused (errno : ℤ)
  | exhausted
deriving DecidableEq

/-- The ports that were tried, and the local address as it was last. -/
structure Search where
  tried : List (BitVec 16)
  src : SockaddrIn
  ended : Ended

/-- The port after the one in the address. -/
def nextPort (sin_port : BitVec 16) : BitVec 16 :=
  let port := ntohs sin_port+1
  if port.toNat < minport ∨ port.toNat > maxport then BitVec.ofNat 16 minport else port

/-- The loop; `bind` succeeds, or sets `errno`. -/
def search (bind : SockaddrIn → Option ℤ) : ℕ → SockaddrIn → Search
  | 0, src => ⟨[], src, .exhausted⟩
  | remaining+1, src =>
    let port := nextPort src.sin_port
    let src := { src with sin_port := htons port }
    match bind src with
    | none => ⟨[port], src, .bound⟩
    | some errno =>
      if errno ≠ EADDRINUSE then ⟨[port], src, .refused errno⟩
      else
        let s := search bind remaining src
        { s with tried := port :: s.tried }

/-- What becomes of the socket: the address it is bound to, and whether `connect` is called. -/
structure Outcome where
  tried : List (BitVec 16)
  src : Option SockaddrIn
  bound : Option SockaddrIn
  connects : Bool
  returned : ℤ

/-- What `connect` returns may depend on the address that the socket is bound to. -/
def ephemeralConnect (bind : SockaddrIn → Option ℤ) (connect : Option SockaddrIn → ℤ) : Option SockaddrIn → Outcome
  | none => ⟨[], none, none, true, connect none⟩
  | some src =>
    let remaining := maxport-minport
    let s := search bind remaining src
    match s.ended with
    | .refused _ => ⟨s.tried, some s.src, none, false, -1⟩
    | .bound => ⟨s.tried, some s.src, some s.src, true, connect (some s.src)⟩
    | .exhausted => ⟨s.tried, some s.src, none, true, connect none⟩

/-- `bind` fails for the ports in use, and succeeds otherwise. -/
def binding (used : BitVec 16 → Bool) (src : SockaddrIn) : Option ℤ :=
  if used (ntohs src.sin_port) then some EADDRINUSE else none

/-- No port is tried twice, a free one is found, and without one the call fails and no
unbound socket is connected. -/
structure Finds (used : BitVec 16 → Bool) (start : SockaddrIn) (o : Outcome) : Prop where
  once : o.tried.Nodup ∧ ∀ port ∈ o.tried, InRange port
  found : (∃ port, InRange port ∧ used port = false) → ∃ port, InRange port ∧ used port = false ∧
    o.bound = some { start with sin_port := htons port } ∧ o.src = some { start with sin_port := htons port }
  full : (∀ port, InRange port → used port = true) → o.returned ≠ 0 ∧ ¬(o.connects = true ∧ o.bound = none)

/-- The port of the range that comes last. -/
def lastPort (sin_port : BitVec 16) : BitVec 16 :=
  let port := ntohs sin_port
  if port.toNat < minport ∨ port.toNat > maxport then BitVec.ofNat 16 maxport else port

/-- The ports of the range, round and round. -/
def portAt (k : ℕ) : BitVec 16 := BitVec.ofNat 16 (minport+k%50000)

section
variable {used : BitVec 16 → Bool} {src : SockaddrIn} {port : BitVec 16} {i j k n : ℕ}

theorem portAt_toNat (k : ℕ) : (portAt k).toNat = 1024+k%50000 := by
  rw [portAt, BitVec.toNat_ofNat, minport]
  omega

theorem portAt_inRange (k : ℕ) : InRange (portAt k) := by
  rw [InRange, portAt_toNat, minport, maxport]
  omega

theorem portAt_inj : portAt j = portAt k ↔ j%50000 = k%50000 := by
  rw [← BitVec.toNat_inj, portAt_toNat, portAt_toNat]
  omega

theorem exists_portAt (h : InRange port) : ∃ k, port = portAt k := by
  refine ⟨port.toNat-1024, ?_⟩
  rw [InRange, minport, maxport] at h
  rw [← BitVec.toNat_inj, portAt_toNat]
  omega

theorem ntohs_htons (port : BitVec 16) : ntohs (htons port) = port := FtpClientProto.htons_htons port

theorem add_one_toNat (port : BitVec 16) : (port+1).toNat = (port.toNat+1) % 65536 := BitVec.toNat_add port 1

theorem nextPort_portAt (k : ℕ) : nextPort (htons (portAt k)) = portAt (k+1) := by
  have hk := portAt_toNat k
  have hsum : (portAt k+1).toNat = 1025+k%50000 := by
    rw [add_one_toNat, hk]
    omega
  rw [nextPort, ntohs_htons, ← BitVec.toNat_inj, portAt_toNat, hsum, minport, maxport]
  split
  · rw [BitVec.toNat_ofNat]
    omega
  · rw [hsum]
    omega

/-- Any port that is stored comes before some port of the range. -/
theorem nextPort_lastPort (sin_port : BitVec 16) : nextPort sin_port = nextPort (htons (lastPort sin_port)) := by
  unfold nextPort lastPort
  rw [ntohs_htons]
  dsimp only
  by_cases hout : (ntohs sin_port).toNat < minport ∨ (ntohs sin_port).toNat > maxport
  · rw [if_pos hout]
    have hlast : (BitVec.ofNat 16 maxport+1).toNat < minport ∨ (BitVec.ofNat 16 maxport+1).toNat > maxport := by decide
    rw [if_pos hlast]
    split
    · rfl
    · next hin =>
      -- 1023 is the one port outside whose successor is inside
      have hlt := (ntohs sin_port).isLt
      rw [add_one_toNat, minport, maxport] at hin
      rw [minport, maxport] at hout
      rw [← BitVec.toNat_inj, add_one_toNat, BitVec.toNat_ofNat, minport]
      omega
  · rw [if_neg hout]

theorem lastPort_inRange (sin_port : BitVec 16) : InRange (lastPort sin_port) := by
  unfold lastPort
  dsimp only
  split
  · exact ⟨by decide, by decide⟩
  · next hin => exact ⟨by omega, by omega⟩

/-- The loop tries the ports in turn, up to the first that is free. -/
theorem search_spec (used : BitVec 16 → Bool) (n k : ℕ) (src : SockaddrIn) (hsrc : nextPort src.sin_port = portAt (k+1)) :
    ∃ j ≤ n, (search (binding used) n src).tried = (List.range j).map (fun i => portAt (k+1+i)) ∧
      (((search (binding used) n src).ended = .exhausted ∧ ∀ i < n, used (portAt (k+1+i)) = true) ∨
      ((search (binding used) n src).ended = .bound ∧ ∃ i < n, used (portAt (k+1+i)) = false ∧
        (search (binding used) n src).src = { src with sin_port := htons (portAt (k+1+i)) })) := by
  induction n generalizing k src with
  | zero => exact ⟨0, le_rfl, rfl, .inl ⟨rfl, fun i hi => absurd hi i.not_lt_zero⟩⟩
  | succ n ih =>
      have hbind : binding used { src with sin_port := htons (portAt (k+1)) } =
          if used (portAt (k+1)) then some EADDRINUSE else none := by
        rw [binding, ntohs_htons]
      unfold search
      rw [hsrc]
      dsimp only
      rw [hbind]
      cases hused : used (portAt (k+1)) with
      | false =>
          refine ⟨1, by omega, rfl, .inr ⟨rfl, 0, by omega, hused, rfl⟩⟩
      | true =>
          obtain ⟨j, hj, htried, hended⟩ := ih (k+1) { src with sin_port := htons (portAt (k+1)) } (nextPort_portAt (k+1))
          have hshift : ∀ i, portAt (k+1+1+i) = portAt (k+1+(i+1)) := fun i => congrArg portAt (by omega)
          rw [if_pos rfl]
          dsimp only
          rw [if_neg (not_not.2 rfl)]
          refine ⟨j+1, by omega, ?_, ?_⟩
          · rw [htried, List.range_succ_eq_map, List.map_cons, List.map_map]
            simp only [hshift]
            rfl
          · rcases hended with ⟨hend, hall⟩ | ⟨hend, i, hi, hfree, hsrc'⟩
            · refine .inl ⟨hend, ?_⟩
              intro i hi
              cases i with
              | zero => exact hused
              | succ i =>
                  rw [← hshift]
                  exact hall i (by omega)
            · rw [hshift] at hfree hsrc'
              exact .inr ⟨hend, i+1, by omega, hfree, hsrc'⟩

theorem tried_once (k : ℕ) (hj : j < 50000) :
    ((List.range j).map fun i => portAt (k+1+i)).Nodup ∧
      ∀ port ∈ (List.range j).map (fun i => portAt (k+1+i)), InRange port := by
  constructor
  · refine List.Nodup.map_on ?_ List.nodup_range
    intro x hx y hy heq
    rw [List.mem_range] at hx hy
    rw [portAt_inj] at heq
    omega
  · intro port hport
    obtain ⟨i, _, hi⟩ := List.mem_map.1 hport
    rw [← hi]
    exact portAt_inRange _

/-- The tries reach every port but one. -/
theorem exists_try (hport : InRange port) (hne : port ≠ portAt k) : ∃ i < 49999, portAt (k+1+i) = port := by
  obtain ⟨m, hm⟩ := exists_portAt hport
  rw [hm, ne_eq, portAt_inj] at hne
  refine ⟨(m%50000+49999-k%50000)%50000, by omega, ?_⟩
  rw [hm, portAt_inj]
  omega

theorem try_ne (hi : i < 49999) : portAt (k+1+i) ≠ portAt k := by
  rw [ne_eq, portAt_inj]
  omega

/-- A try that succeeds binds the socket. -/
theorem bound_of_free (used : BitVec 16 → Bool) (connect : Option SockaddrIn → ℤ) (src : SockaddrIn)
    (hsrc : nextPort src.sin_port = portAt (k+1)) (hfree : ∃ i < 49999, used (portAt (k+1+i)) = false) :
    ∃ i < 49999, used (portAt (k+1+i)) = false ∧
      (ephemeralConnect (binding used) connect (some src)).bound = some { src with sin_port := htons (portAt (k+1+i)) } ∧
      (ephemeralConnect (binding used) connect (some src)).src = some { src with sin_port := htons (portAt (k+1+i)) } := by
  obtain ⟨j, _, _, hended⟩ := search_spec used 49999 k src hsrc
  rw [ephemeralConnect, show maxport-minport = 49999 from rfl]
  generalize search (binding used) 49999 src = s at hended
  rcases hended with ⟨_, hall⟩ | ⟨hend, i, hi, hfree', hlast⟩
  · obtain ⟨i, hi, hfree⟩ := hfree
    rw [hall i hi] at hfree
    cases hfree
  · rw [hend]
    exact ⟨i, hi, hfree', congrArg some hlast, congrArg some hlast⟩

/-- Nothing tells the end of the tries from success. -/
theorem unbound_of_used (used : BitVec 16 → Bool) (connect : Option SockaddrIn → ℤ) (src : SockaddrIn)
    (hsrc : nextPort src.sin_port = portAt (k+1)) (hused : ∀ i < 49999, used (portAt (k+1+i)) = true) :
    (ephemeralConnect (binding used) connect (some src)).connects = true ∧
      (ephemeralConnect (binding used) connect (some src)).bound = none := by
  obtain ⟨j, _, _, hended⟩ := search_spec used 49999 k src hsrc
  rw [ephemeralConnect, show maxport-minport = 49999 from rfl]
  generalize search (binding used) 49999 src = s at hended
  rcases hended with ⟨hend, _⟩ | ⟨_, i, hi, hfree, _⟩
  · rw [hend]
    exact ⟨rfl, rfl⟩
  · rw [hused i hi] at hfree
    cases hfree

theorem tried_eq (used : BitVec 16 → Bool) (connect : Option SockaddrIn → ℤ) (src : SockaddrIn)
    (hsrc : nextPort src.sin_port = portAt (k+1)) :
    ∃ j ≤ 49999, (ephemeralConnect (binding used) connect (some src)).tried =
      (List.range j).map fun i => portAt (k+1+i) := by
  obtain ⟨j, hj, htried, _⟩ := search_spec used 49999 k src hsrc
  rw [ephemeralConnect, show maxport-minport = 49999 from rfl]
  generalize search (binding used) 49999 src = s at htried
  refine ⟨j, hj, ?_⟩
  rw [← htried]
  split
  · rfl
  · rfl
  · rfl

/-- The search finds a free port, or reports that there is none, if and only if some port is
free other than the last. -/
theorem ephemeral_connect_iff (used : BitVec 16 → Bool) (connect : Option SockaddrIn → ℤ) (src : SockaddrIn) :
    Finds used src (ephemeralConnect (binding used) connect (some src)) ↔
      ∃ port, InRange port ∧ used port = false ∧ port ≠ lastPort src.sin_port := by
  obtain ⟨k, hk⟩ := exists_portAt (lastPort_inRange src.sin_port)
  have hnext : nextPort src.sin_port = portAt (k+1) := by
    rw [nextPort_lastPort, hk, nextPort_portAt]
  have hreach : (∃ port, InRange port ∧ used port = false ∧ port ≠ lastPort src.sin_port) ↔
      ∃ i < 49999, used (portAt (k+1+i)) = false := by
    rw [hk]
    constructor
    · intro ⟨port, hport, hfree, hne⟩
      obtain ⟨i, hi, hat⟩ := exists_try hport hne
      exact ⟨i, hi, hat ▸ hfree⟩
    · intro ⟨i, hi, hfree⟩
      exact ⟨_, portAt_inRange _, hfree, try_ne hi⟩
  rw [hreach]
  constructor
  · intro hfinds
    by_contra hno
    have hused : ∀ i < 49999, used (portAt (k+1+i)) = true :=
      fun i hi => Bool.of_not_eq_false fun hfree => hno ⟨i, hi, hfree⟩
    obtain ⟨hconnects, hunbound⟩ := unbound_of_used used connect src hnext hused
    by_cases hsome : ∃ port, InRange port ∧ used port = false
    · obtain ⟨port, _, _, hbound, _⟩ := hfinds.found hsome
      rw [hunbound] at hbound
      cases hbound
    · refine (hfinds.full ?_).2 ⟨hconnects, hunbound⟩
      intro port hport
      exact Bool.of_not_eq_false fun hfree => hsome ⟨port, hport, hfree⟩
  · intro hfree
    obtain ⟨i, _, hat, hbound, hsrc⟩ := bound_of_free used connect src hnext hfree
    obtain ⟨j, hj, htried⟩ := tried_eq used connect src hnext
    constructor
    · rw [htried]
      exact tried_once k (by omega)
    · intro _
      exact ⟨_, portAt_inRange _, hat, hbound, hsrc⟩
    · intro hfull
      rw [hfull _ (portAt_inRange _)] at hat
      cases hat

end

/-- The one port that is free is the one in the address, and an unbound socket is connected. -/
theorem ephemeral_connect_unbound : ¬ ∀ (used : BitVec 16 → Bool) (connect : Option SockaddrIn → ℤ) (src : SockaddrIn),
    Finds used src (ephemeralConnect (binding used) connect (some src)) := by
  intro hall
  have hfound := (hall (fun port => port != portAt 0) (fun _ => 0) ⟨AF_INET, 0, htons (portAt 0)⟩).found
  obtain ⟨port, _, _, hbound, _⟩ := hfound ⟨portAt 0, portAt_inRange 0, bne_self_eq_false _⟩
  have hused : ∀ i < 49999, (portAt (0+1+i) != portAt 0) = true := fun i hi => bne_iff_ne.2 (try_ne hi)
  have hunbound := (unbound_of_used (fun port => port != portAt 0) (fun _ => 0) ⟨AF_INET, 0, htons (portAt 0)⟩
    (nextPort_portAt 0) hused).2
  rw [hunbound] at hbound
  cases hbound

end Dkftpbench.EphemeralPort
