import Dkftpbench.PlatoonRuns
import Dkftpbench.Sweep

/-!
# Many platoons under one controller, corbaftpbench.cc and CorbaPlatoon_impl.cc

Each platoon works in a process of its own, with its own scheduler and clock: `perform_work` lets it
be called and then reaps. The controller asks them all for their status, one after another, adds up, and
sleeps. The calls of a platoon are made under its lock, so that a status is asked for between
two of them, but the platoons and the controller take their steps in any order.

The platoons have been told their targets at the start. What they do before the controller has looked at its
clock the first time may as well come after it. The printed lines, the name service
and failures of communication are left out, and so is `reset` at the end.
-/
namespace Dkftpbench
open CLib EventClock Watch

/-- Where `main` is: at the top of the loop, in the loop over the platoons, in `sleep`, behind the
loop, or at `exit(1)`. -/
inductive CoordinatorPhase
  | top | asking | sleeping | expired | failed
deriving DecidableEq, Repr

structure Coordinator where
  platoons : ℕ → Platoon
  nPlatoons : ℕ
  duration : ℤ
  testEnd : Clock
  now : Clock
  i : ℕ
  nconnecting : ℤ
  nalive : ℤ
  ndead : ℤ
  oldNalive : ℤ
  oldNdead : ℤ
  phase : CoordinatorPhase

namespace Coordinator

/-- `arg_duration * tix_per_second`. -/
def tix (c : Coordinator) : Clock := BitVec.ofInt 64 (c.duration*eclockHertz)

/-- The options that matter here. Every platoon is given all of the users. -/
structure Options where
  settings : Settings
  users : ℤ
  duration : ℤ

/-- Up to the loop, with the platoons that could be reached. -/
def start (o : Options) (nPlatoons : ℕ) (k : ℕ → Wake) (now : Clock) : Option Coordinator :=
  if o.users = 0 ∨ o.settings.maxBytesPerSec = 0 ∨ nPlatoons = 0 then none
  else
    let c : Coordinator :=
      { platoons := fun i => (Platoon.init o.settings).setNuserTarget o.users (k i), nPlatoons := nPlatoons
        duration := o.duration, testEnd := now, now := now, i := nPlatoons, nconnecting := 0, nalive := 0, ndead := 0
        oldNalive := 0, oldNdead := 0, phase := .top }
    some { c with testEnd := now+c.tix }

def setPlatoon (c : Coordinator) (i : ℕ) (p : Platoon) : Coordinator :=
  { c with platoons := Function.update c.platoons i p }

/-- The body of the loop over the platoons, with a status. -/
def add (c : Coordinator) (st : Platoon.Status) : Coordinator :=
  { c with
    nconnecting := c.nconnecting+st.nconnecting, nalive := c.nalive+st.nalive, ndead := c.ndead+st.ndead, i := c.i+1 }

/-- What `main` makes of the totals. -/
def judge (c : Coordinator) : Coordinator :=
  let c := { c with phase := .sleeping }
  if c.nalive ≠ c.oldNalive ∨ c.ndead ≠ c.oldNdead then
    if c.ndead ≠ c.oldNdead ∧ c.nalive = 0 ∧ c.nconnecting = 0 then { c with phase := .failed }
    else { c with testEnd := c.now+c.tix, oldNalive := c.nalive, oldNdead := c.ndead }
  else c

/-- What happens: the controller goes on, or one of the platoons does. -/
inductive Act
  | top (now : Clock)
  | ask (w : World)
  | judge
  | wait
  | work (i : ℕ) (k : Platoon.Act)

/-- What `perform_work` does with a platoon, part by part. -/
def isWork : Platoon.Act → Bool
  | .platoonTimer _ _ => true
  | .userTimer _ _ _ => true
  | .pipe _ _ _ _ _ => true
  | .reap _ => true
  | _ => false

def step (c : Coordinator) : Act → Except Fault Coordinator
  | .top now =>
    if c.phase ≠ .top then .error (.stop .disabled)
    else if c.duration ≠ 0 ∧ eclockAfter now c.testEnd then .ok { c with now := now, phase := .expired }
    else .ok { c with now := now, nconnecting := 0, nalive := 0, ndead := 0, i := 0, phase := .asking }
  | .ask w =>
    if c.phase = .asking ∧ c.i < c.nPlatoons then do
      let (st, p) ← (c.platoons c.i).getStatus w
      return (c.setPlatoon c.i p).add st
    else .error (.stop .disabled)
  | .judge => if c.phase = .asking ∧ ¬ c.i < c.nPlatoons then .ok c.judge else .error (.stop .disabled)
  | .wait => if c.phase = .sleeping then .ok { c with phase := .top } else .error (.stop .disabled)
  | .work i k =>
    if i < c.nPlatoons ∧ isWork k then do
      let p ← (c.platoons i).step k
      return c.setPlatoon i p
    else .error (.stop .disabled)

/-- The totals: when the round began, and the users alive and dead. -/
abbrev Look := Clock × ℤ × ℤ

/-- The totals, the last ones first, how often they had changed, and the platoons: as they were when
they were asked in the round before, when this round began, and when they were asked in it. -/
structure Survey where
  looks : List Look
  changes : ℕ
  last : ℕ → Platoon
  first : ℕ → Platoon
  seen : ℕ → Platoon

def note (n : Survey) (c : Coordinator) (k : Act) (t : Coordinator) : Survey :=
  match k with
  | .top _ => if t.phase = .expired then n else { n with last := n.seen, first := c.platoons }
  | .ask _ => { n with seen := Function.update n.seen c.i (t.platoons c.i) }
  | .judge =>
    { n with
      looks := (c.now, c.nalive, c.ndead) :: n.looks
      changes := n.changes+if c.nalive ≠ c.oldNalive ∨ c.ndead ≠ c.oldNdead then 1 else 0 }
  | _ => n

/-- The controller with its options and `nPlatoons` platoons, from the loop on. The first entry is its start, with
nobody alive or dead. -/
def coordinators (o : Options) (nPlatoons : ℕ) : System Coordinator Act Survey where
  start c n := ∃ k now, start o nPlatoons k now = some c ∧ n = ⟨[(now, 0, 0)], 0, c.platoons, c.platoons, c.platoons⟩
  step c k t := c.step k = .ok t
  note := note

end Coordinator
end Dkftpbench
