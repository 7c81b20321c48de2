import Dkftpbench.PlatoonRuns

/-!
# The loop of main, bench.cc

One round of the loop is a few steps: at the top `main` looks at the clock and asks the platoon for
its status, `runAll` calls those whose time has come, and then the events are served,
each followed by a `reap`. Which clients come up, in which order and how many before
`runAll` or the events are at an end, is not restricted here; what each of them does is the
platoon's. The printed lines are left out, and so is `waitForEvents`.
-/
namespace Dkftpbench
open CLib EventClock Watch

/-- Where `main` is: at the top of the loop, in `runAll`, among the events, behind the
loop, or at `exit(1)`. -/
inductive BenchPhase
  | top | timers | events | expired | failed
deriving DecidableEq, Repr

structure Bench where
  platoon : Platoon
  duration : ℤ
  testEnd : Clock
  now : Clock
  nconnecting : ℤ
  nalive : ℤ
  ndead : ℤ
  oldNalive : ℤ
  oldNdead : ℤ
  phase : BenchPhase

namespace Bench

/-- `arg_duration * tix_per_second`. -/
def tix (b : Bench) : Clock := BitVec.ofInt 64 (b.duration*eclockHertz)

/-- The options that matter here, in the order in which `main` hands them on. -/
structure Options where
  settings : Settings
  users : ℤ
  nconnectingTarget : ℤ
  lastConnectingState : RobouserState
  duration : ℤ

/-- Up to the loop. `main` does not start with more users than there is room for, and not
without users. -/
def start (o : Options) (k₁ k₂ k₃ : Wake) (now : Clock) : Option Bench :=
  if o.users > Platoon.maxUsers ∨ o.users = 0 then none
  else
    let b : Bench :=
      { platoon := (((Platoon.init o.settings).setNuserTarget o.users k₁).setNconnectingTarget
          o.nconnectingTarget k₂).setLastConnectingState o.lastConnectingState k₃
        duration := o.duration, testEnd := now, now := now, nconnecting := 0, nalive := 0, ndead := 0
        oldNalive := 0, oldNdead := 0, phase := .top }
    some { b with testEnd := now+b.tix }

/-- What `main` makes of a status. -/
def look (b : Bench) (st : Platoon.Status) : Bench :=
  let b := { b with nconnecting := st.nconnecting, nalive := st.nalive, ndead := st.ndead, phase := .timers }
  if b.nalive ≠ b.oldNalive ∨ b.ndead ≠ b.oldNdead then
    if b.ndead ≠ b.oldNdead ∧ b.nalive = 0 ∧ b.nconnecting = 0 then { b with phase := .failed }
    else { b with testEnd := b.now+b.tix, oldNalive := b.nalive, oldNdead := b.ndead }
  else b

/-- What happens to `main`. A status is asked for with what the kernel answers to a `reap`, and
an event comes with all that a pipe may ask. -/
inductive Act
  | top (now : Clock) (w : World)
  | timer (k : Platoon.Act)
  | ran
  | event (id : ℕ) (fd : ℤ) (revents : Revents) (w : World) (io : DataIo) (as : List LoopAnswers) (shutdown : World)
  | wait

/-- A call that `runAll(now)` makes. -/
def isTimer (now : Clock) : Platoon.Act → Bool
  | .platoonTimer t _ => t == now
  | .userTimer _ t _ => t == now
  | .pipe _ (.timer t) _ _ _ => t == now
  | _ => false

def step (b : Bench) : Act → Except Fault Bench
  | .top now w =>
    if b.phase ≠ .top then .error (.stop .disabled)
    else if b.duration ≠ 0 ∧ eclockAfter now b.testEnd then .ok { b with now := now, phase := .expired }
    else do
      let (st, p) ← b.platoon.getStatus w
      return { b with platoon := p, now := now }.look st
  | .timer k =>
    if b.phase = .timers ∧ isTimer b.now k then do
      let p ← b.platoon.step k
      return { b with platoon := p }
    else .error (.stop .disabled)
  | .ran => if b.phase = .timers then .ok { b with phase := .events } else .error (.stop .disabled)
  | .event id fd revents w io as shutdown =>
    if b.phase = .events then do
      let p ← b.platoon.step (.pipe id (.event fd revents) w io as)
      let p ← p.reap shutdown
      return { b with platoon := p }
    else .error (.stop .disabled)
  | .wait => if b.phase = .events then .ok { b with phase := .top } else .error (.stop .disabled)

/-- A look at the platoon: when, and the users alive and dead. -/
abbrev Look := Clock × ℤ × ℤ

/-- The looks, the last one first, and how often the counts had changed. -/
structure Looks where
  looks : List Look
  changes : ℕ

/-- A status was asked for. -/
def note (n : Looks) (b : Bench) (k : Act) (t : Bench) : Looks :=
  match k with
  | .top now _ =>
    if t.phase = .expired then n
    else
      { looks := (now, t.nalive, t.ndead) :: n.looks
        changes := n.changes+if t.nalive ≠ b.oldNalive ∨ t.ndead ≠ b.oldNdead then 1 else 0 }
  | _ => n

/-- `main` with its options, from the loop on. The first entry is its start, with nobody alive or
dead. -/
def benches (o : Options) : System Bench Act Looks where
  start b n := ∃ k₁ k₂ k₃ now, start o k₁ k₂ k₃ now = some b ∧ n = ⟨[(now, 0, 0)], 0⟩
  step b k t := b.step k = .ok t
  note := note

end Bench
end Dkftpbench
