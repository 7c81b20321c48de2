import Dkftpbench.Pacing
import Dkftpbench.PipeSteps

/-!
# The bandwidth throttle

A `get` keeps an account: what was read is paid for by the time until `m_wakeup`, but for
`m_bytesUnsleptFor`. Only the data handler and the wake-up call touch it. An event that
comes too early puts the pipe to sleep before it can read or settle anything, so each
read and each new wake-up time finds the old one over.
-/
namespace Dkftpbench.Session
open CLib EventClock FtpClientProto Watch Pacing

/-- The positive byte counts since the last command was accepted, with their times from
`base` on, the newest first. -/
def reads (base : Clock) : List Seen → List (ℤ × ℤ)
  | [] => []
  | .accepted _ :: _ => []
  | .dataIo n now :: log =>
    if 0 < n then (n, (offset base now : ℤ)) :: reads base log else reads base log
  | _ :: log => reads base log

/-- What the throttle depends on. -/
structure Pace where
  state : PipeState
  unsleptFor : ℤ
  wakeup : Clock
  perSec : ℤ
  perTick : ℤ
  reads : List (ℤ × ℤ)

def pace (base : Clock) (s : Session) : Pace :=
  ⟨s.state, s.bytesUnsleptFor.toInt, s.wakeup, s.bytesPerSec.toInt, s.bytesPerTick.toInt, reads base s.log⟩

/-- A part of a handler leaves the pace as it was. -/
def Steady (base : Clock) (s : Session) : Part → Prop
  | .ok t => pace base t = pace base s
  | .error r => pace base r.2 = pace base s

def SteadyWith (base : Clock) (s : Session) : Except (ℤ × Session) (ℤ × Session) → Prop
  | .ok r => pace base r.2 = pace base s
  | .error r => pace base r.2 = pace base s

section
variable {base : Clock} {w : World} {s t : Session} {part : Part} {r : ℤ × Session} {e : ℤ}

theorem Steady.of_pace (hp : pace base t = pace base s) (h : Steady base t part) : Steady base s part := by
  cases part with
  | ok u => exact Eq.trans h hp
  | error r => exact Eq.trans h hp

theorem cfdConnected_steady (revents : Revents) : Steady base s (s.cfdConnected w revents) := by
  unfold cfdConnected
  split
  · cases checkConnect w with
    | error e => rfl
    | ok c => rfl
  · rfl

theorem dfdConnected_steady (revents : Revents) : Steady base s (s.dfdConnected w revents) := by
  unfold dfdConnected
  split
  · cases checkConnect w with
    | error e => rfl
    | ok c => rfl
  · rfl

theorem readInput_steady (revents : Revents) : Steady base s (s.readInput w revents) := by
  unfold readInput
  split
  · dsimp only
    split
    · rfl
    · rfl
  · rfl

theorem nextLine_steady (geterr : ℤ) : SteadyWith base s (s.nextLine geterr) := by
  unfold nextLine
  split
  · rfl
  · dsimp only
    split
    · rfl
    · split
      · rfl
      · rfl

theorem putOutput_steady (puterr : ℤ) : SteadyWith base s (s.putOutput puterr) := by
  unfold putOutput
  split
  · rfl
  · dsimp only
    split
    · rfl
    · split
      · rfl
      · rfl

theorem takeLine_steady (h : s.takeLine w = .ok part) : Steady base s part := by
  unfold takeLine giveLine at h
  rw [cancelTimeout_eq] at h
  dsimp only at h
  split at h
  · cases h
  · split at h
    · cases h
      rfl
    · split at h
      · cases h
        rfl
      · cases h
        rfl

theorem controlLoop_steady {fuel : ℕ} {geterr puterr : ℤ}
    (h : controlLoop w fuel geterr puterr s = .ok part) : Steady base s part := by
  induction fuel generalizing s geterr puterr with
  | zero => cases h
  | succ fuel ih =>
      unfold controlLoop at h
      split at h
      · have hnext : SteadyWith base s (s.nextLine geterr) := nextLine_steady geterr
        split at h
        · next r hn =>
          rw [hn] at hnext
          cases h
          exact hnext
        · next geterr' t hn =>
          rw [hn] at hnext
          split at h
          · cases h
          · next r htake =>
            cases h
            split at htake
            · exact (takeLine_steady htake).of_pace hnext
            · cases htake
          · next u htake =>
            have hu : pace base u = pace base s := by
              split at htake
              · exact (takeLine_steady htake : Steady base t (.ok u)).of_pace hnext
              · cases htake
                exact hnext
            have hput : SteadyWith base u (u.putOutput puterr) := putOutput_steady puterr
            split at h
            · next r hp =>
              rw [hp] at hput
              cases h
              exact Eq.trans hput hu
            · next puterr' v hp =>
              rw [hp] at hput
              exact (ih h).of_pace (Eq.trans hput hu)
      · cases h
        rfl

theorem writeOutput_steady (h : s.writeOutput w = .ok part) : Steady base s part := by
  unfold writeOutput at h
  split at h
  · cases h
    rfl
  · split at h
    · cases h
    · dsimp only at h
      split at h
      · cases h
        rfl
      · cases h
        rfl

theorem checkQuit_steady : Steady base s s.checkQuit := by
  unfold checkQuit
  split
  · rfl
  · rfl

theorem openData_pace : pace base (s.openData w).2 = pace base s := by
  unfold openData
  split
  · rfl
  · dsimp only
    split
    · rfl
    · split
      · rfl
      · split
        · rfl
        · split
          · rfl
          · rfl

theorem serveControl_pace (h : s.serveControl w = .ok r) : pace base r.2 = pace base s := by
  unfold serveControl at h
  split at h
  · cases h
  · next hloop =>
    cases h
    exact controlLoop_steady hloop
  · next t hloop =>
    have ht : pace base t = pace base s := controlLoop_steady hloop
    split at h
    · cases h
    · next hwrite =>
      cases h
      exact (writeOutput_steady hwrite).of_pace ht
    · next u hwrite =>
      have hu : pace base u = pace base s := (writeOutput_steady hwrite : Steady base t (.ok u)).of_pace ht
      have hquit : Steady base u u.checkQuit := checkQuit_steady
      split at h
      · next hq =>
        rw [hq] at hquit
        cases h
        exact Eq.trans hquit hu
      · next v hq =>
        rw [hq] at hquit
        cases h
        exact openData_pace.trans (Eq.trans hquit hu)

theorem notifyPollEventCfd_pace {fd : ℤ} {revents : Revents} (h : s.notifyPollEventCfd w fd revents = .ok r) :
    pace base r.2 = pace base s := by
  unfold notifyPollEventCfd at h
  split at h
  · cases h
  · split at h
    · cases h
      rfl
    · have hc : Steady base s (s.cfdConnected w revents) := cfdConnected_steady revents
      split at h
      · next hconn =>
        rw [hconn] at hc
        cases h
        exact hc
      · next t hconn =>
        rw [hconn] at hc
        have hi : Steady base t (t.readInput w revents) := readInput_steady revents
        split at h
        · next hin =>
          rw [hin] at hi
          cases h
          exact Eq.trans hi hc
        · next u hin =>
          rw [hin] at hi
          exact (serveControl_pace h).trans (Eq.trans hi hc)

theorem reads_discarded (fd : ℤ) (log : List Seen) : reads base (discarded fd log) = reads base log := by
  unfold discarded
  split
  · rfl
  · rfl

theorem callFtpCmdDone_pace (xerr status : ℤ) : pace base (s.callFtpCmdDone xerr status) = pace base s := by
  rcases callFtpCmdDone_cases (s := s) xerr status with ⟨_, h⟩ | h
  · rw [h]
    rfl
  · rw [h]
    rfl

theorem dropFailed_pace : pace base s.dropFailed = pace base s := by
  rcases dropFailed_cases (s := s) with ⟨h, _⟩ | ⟨_, h⟩
  · rw [h]
  · rw [h]
    simp only [pace, reads_discarded]

theorem report_pace (xerr : ℤ) : pace base (s.report xerr) = pace base s := by
  unfold report
  dsimp only
  generalize (if xerr = EALREADY then 0 else xerr) = x
  split
  · exact (callFtpCmdDone_pace x _).trans dropFailed_pace
  · exact dropFailed_pace

theorem finish_pace (h : finish w r = .ok (e, t)) : pace base t = pace base r.2 := by
  unfold finish at h
  split at h
  · cases h
  · cases h
    split
    · rfl
    · exact report_pace r.1

end

/-- The products that `throttle` computes as integers of the machine. -/
def products (s : Session) (nxfer : ℤ) : List ℤ :=
  if s.bytesPerTick < 5 then
    let nxfer := nxfer+s.bytesUnsleptFor.toInt
    [nxfer*eclockHertz, (nxfer*eclockHertz).tdiv s.bytesPerSec.toInt*s.bytesPerSec.toInt]
  else []

/-- The account of a `get` at clock `g`. -/
structure Timed (base : Clock) (B : ℤ) (g : Clock) (p : Pace) : Prop where
  perSec : p.perSec = B
  perTick : p.perTick = B/eclockHertz
  moving : p.state ≠ .putting
  due : ∃ wake : ℤ, p.wakeup = base+BitVec.ofInt 64 wake ∧ 0 ≤ wake ∧
    wake ≤ offset base g+2^31 ∧ Account B eclockHertz p.reads p.unsleptFor wake

section
variable {base g g' now : Clock} {B n : ℤ} {w : World} {s t : Session} {p : Pace} {revents : Revents}

theorem Timed.later (h : Timed base B g p) (hle : offset base g ≤ offset base g') : Timed base B g' p := by
  obtain ⟨wake, hwake, h0, hle', ha⟩ := h.due
  refine ⟨h.perSec, h.perTick, h.moving, wake, hwake, h0, ?_, ha⟩
  have hcast : (offset base g : ℤ) ≤ offset base g' := by exact_mod_cast hle
  linarith

theorem Timed.inState (h : Timed base B g p) (state : PipeState) (hst : state ≠ .putting) :
    Timed base B g { p with state := state } :=
  ⟨h.perSec, h.perTick, hst, h.due⟩

/-- The comparison of the wake-up time with the clock is one of distances. -/
theorem Timed.over (h : Timed base B now p) (hw : InWindow base now) (hafter : eclockAfter p.wakeup now = false) :
    ∃ wake : ℤ, p.wakeup = base+BitVec.ofInt 64 wake ∧ 0 ≤ wake ∧ wake ≤ offset base now ∧
      Account B eclockHertz p.reads p.unsleptFor wake := by
  obtain ⟨wake, hwake, h0, hle, ha⟩ := h.due
  refine ⟨wake, hwake, h0, ?_, ha⟩
  have hwindow : (offset base now : ℤ) < 2^63 := by exact_mod_cast hw
  by_contra hlt
  have hyes := (eclockAfter_add base now wake (by decide) (by norm_num; linarith)
    (by norm_num; linarith)).2 (not_le.1 hlt)
  rw [← hwake, hafter] at hyes
  cases hyes

theorem bmod_of_small {x : ℤ} (h : 0 ≤ x) (h' : x < 2^31) : x.bmod (2^32) = x :=
  Int.bmod_eq_of_le (by omega) (by omega)

/-- What was read and carried over is added without an overflow. -/
theorem toInt_add_carry {c : Int32} (hn : 0 ≤ n) (hn' : n ≤ 16384) (hc : 0 ≤ c.toInt) (hc' : c.toInt < 2^30) :
    (Int32.ofInt n+c).toInt = n+c.toInt := by
  rw [Int32.toInt_add, Int32.toInt_ofInt_of_le (by omega) (by omega)]
  exact bmod_of_small (by omega) (by omega)

theorem toInt_mul_hertz {N : Int32} (hN : 0 ≤ N.toInt) (hN' : N.toInt ≤ 16390) :
    (N*Int32.ofNat eclockHertz).toInt = N.toInt*10000 := by
  have hH : (Int32.ofNat eclockHertz).toInt = 10000 := by decide
  rw [Int32.toInt_mul, hH]
  exact bmod_of_small (by omega) (by omega)

theorem toInt_div_of_nonneg {a b : Int32} (ha : 0 ≤ a.toInt) : (a/b).toInt = a.toInt.tdiv b.toInt := by
  apply Int32.toInt_div_of_ne_left
  rintro rfl
  exact absurd ha (by decide)

/-- One settlement: the sleep pays for what was read and carried over. -/
theorem throttle_pays (base now : Clock) (hst : s.state = .getting) (hB : 1 ≤ B) (hsec : s.bytesPerSec.toInt = B)
    (htick : s.bytesPerTick.toInt = B/eclockHertz) (hn : 0 ≤ n) (hn' : n ≤ 16384) (hc : 0 ≤ s.bytesUnsleptFor.toInt)
    (hc' : eclockHertz*s.bytesUnsleptFor.toInt < B+eclockHertz) :
    ∃ sleep carry, Pays B eclockHertz (n+s.bytesUnsleptFor.toInt) sleep carry ∧ sleep ≤ 2^31 ∧
      pace base (s.throttle now n) =
        { pace base s with unsleptFor := carry, wakeup := now+BitVec.ofInt 64 sleep } := by
  have hB' : B < 2^31 := hsec ▸ s.bytesPerSec.toInt_lt
  have hH : (eclockHertz : ℤ) = 10000 := rfl
  rw [hH] at hc' htick
  have hadd := toInt_add_carry hn hn' hc (by omega)
  have hN : 0 ≤ n+s.bytesUnsleptFor.toInt := by linarith
  have hfive : s.bytesPerTick < 5 ↔ B/10000 < 5 := by
    rw [Int32.lt_iff_toInt_lt, htick]
    rfl
  unfold throttle
  rw [if_pos hst]
  dsimp only
  rw [hH]
  split
  · next hfine =>
    have hsmall : n+s.bytesUnsleptFor.toInt ≤ 16390 := by
      have := hfive.1 hfine
      omega
    have hticks : 0 ≤ (n+s.bytesUnsleptFor.toInt)*10000 := by linarith
    have hsleep : 0 ≤ (n+s.bytesUnsleptFor.toInt)*10000/B := Int.ediv_nonneg hticks (by linarith)
    have hpays := pays_fine (by linarith : 0 < B) (by norm_num : (0 : ℤ) < 10000) hN
    have hproduct := toInt_mul_hertz (hadd ▸ hN) (hadd ▸ hsmall)
    rw [hadd] at hproduct
    have hlong : ((Int32.ofInt n+s.bytesUnsleptFor)*Int32.ofNat eclockHertz/s.bytesPerSec).toInt =
        (n+s.bytesUnsleptFor.toInt)*10000/B := by
      rw [toInt_div_of_nonneg (hproduct ▸ hticks), hproduct, hsec, Int.tdiv_eq_ediv_of_nonneg hticks]
    refine ⟨_, _, hpays, ?_, ?_⟩
    · have hle : (n+s.bytesUnsleptFor.toInt)*10000/B ≤ (n+s.bytesUnsleptFor.toInt)*10000 :=
        Int.ediv_le_self _ hticks
      linarith
    · have hpaid := Int.tdiv_eq_ediv_of_nonneg (b := 10000) (mul_nonneg hsleep (by linarith : 0 ≤ B))
      rw [hlong, hadd, hsec, hpaid, pace, Int32.toInt_ofInt_of_le]
      · rfl
      · linarith [hpays.carry_nonneg]
      · linarith [hpays.le]
  · next hcoarse =>
    rw [hfive] at hcoarse
    have htop : 10000*s.bytesPerTick.toInt ≤ B := by omega
    have hdiv : ((Int32.ofInt n+s.bytesUnsleptFor)/s.bytesPerTick).toInt =
        (n+s.bytesUnsleptFor.toInt)/s.bytesPerTick.toInt := by
      rw [toInt_div_of_nonneg (hadd ▸ hN), hadd, Int.tdiv_eq_ediv_of_nonneg hN]
    have hmod : ((Int32.ofInt n+s.bytesUnsleptFor)%s.bytesPerTick).toInt =
        (n+s.bytesUnsleptFor.toInt)%s.bytesPerTick.toInt := by
      rw [Int32.toInt_mod, hadd, Int.tmod_eq_emod_of_nonneg hN]
    refine ⟨_, _, pays_coarse (by linarith) (by norm_num) htop hN, ?_, ?_⟩
    · have hle : (n+s.bytesUnsleptFor.toInt)/s.bytesPerTick.toInt ≤ 16390 := by
        apply Int.ediv_le_of_le_mul (by linarith)
        omega
      linarith
    · rw [pace, hdiv, hmod]
      rfl

/-- Nothing was read; what was carried over is slept for. -/
theorem Timed.rest (h : Timed base B now (pace base s)) (hB : 1 ≤ B) (hw : InWindow base now)
    (hst : s.state = .getting) (hafter : eclockAfter s.wakeup now = false) :
    Timed base B now (pace base (s.throttle now 0)) := by
  obtain ⟨wake, hwake, h0, hle, ha⟩ := h.over hw hafter
  obtain ⟨sleep, carry, hp, hshort, heq⟩ := throttle_pays base now hst hB h.perSec h.perTick
    le_rfl (by norm_num) ha.carry_nonneg ha.small
  rw [zero_add] at hp
  rw [heq]
  refine ⟨h.perSec, h.perTick, h.moving, offset base now+sleep, ?_, ?_, ?_, ?_⟩
  · rw [BitVec.ofInt_add, ← BitVec.add_assoc, add_offset]
  · linarith [hp.sleep_nonneg]
  · linarith
  · exact (ha.later (by linarith) hle).rest hp

/-- Bytes were read after the wake-up time. -/
theorem Timed.take (h : Timed base B now (pace base s)) (hB : 1 ≤ B) (hw : InWindow base now)
    (hst : s.state = .getting) (hafter : eclockAfter s.wakeup now = false) (hn : 0 < n) (hn' : n ≤ 16384) :
    Timed base B now (pace base ((s.delClient.note (.dataIo n now)).throttle now n)) := by
  obtain ⟨wake, hwake, h0, hle, ha⟩ := h.over hw hafter
  obtain ⟨sleep, carry, hp, hshort, heq⟩ := throttle_pays base now
    (s := s.delClient.note (.dataIo n now)) hst hB h.perSec h.perTick hn.le hn' ha.carry_nonneg ha.small
  rw [heq]
  refine ⟨h.perSec, h.perTick, h.moving, offset base now+sleep, ?_, ?_, ?_, ?_⟩
  · rw [BitVec.ofInt_add, ← BitVec.add_assoc, add_offset]
  · linarith [hp.sleep_nonneg]
  · linarith
  · have hreads : (pace base (s.delClient.note (.dataIo n now))).reads =
        (n, (offset base now : ℤ)) :: (pace base s).reads := if_pos hn
    rw [hreads]
    exact (ha.later (by linarith) hle).take (by norm_num [eclockHertz]) hp

/-- A call that read nothing leaves the account alone. -/
theorem reads_dataIo (hn : n ≤ 0) (log : List Seen) : reads base (.dataIo n now :: log) = reads base log :=
  if_neg (not_lt.2 hn)

theorem Timed.hangUp (h : Timed base B g (pace base s)) : Timed base B g (pace base s.hangUp.2) := by
  have heq : pace base s.hangUp.2 = { pace base s with state := .idle } := by
    rw [hangUp_eq]
    simp only [pace, reads_discarded]
  rw [heq]
  exact h.inState .idle PipeState.noConfusion

/-- An event at the data connection that does not come too early. -/
theorem transfer_timed (h : Timed base B w.now (pace base s)) (hB : 1 ≤ B) (hw : InWindow base w.now)
    (hafter : s.state = .getting → eclockAfter s.wakeup w.now = false) (hio : w.handleDataIo ≤ 16384) :
    Timed base B w.now (pace base (s.transfer w revents).2) := by
  have hputting : s.state ≠ .putting := h.moving
  have settled : Timed base B w.now (pace base (s.throttle w.now 0)) := by
    by_cases hst : s.state = .getting
    · exact h.rest hB hw hst (hafter hst)
    · rw [throttle, if_neg hst]
      exact h
  unfold transfer
  split
  · exact h
  · split
    · next hread =>
      have hst : s.state = .getting := (hread.resolve_right fun hput => hputting hput.1).1
      have noted : w.handleDataIo ≤ 0 →
          pace base (s.delClient.note (.dataIo w.handleDataIo w.now)) = pace base s := by
        intro hn
        simp only [pace, note, reads_dataIo hn]
        rfl
      dsimp only
      split
      · next hz =>
        have heq := noted hz.le
        rw [← heq] at h
        exact h.hangUp
      · split
        · next hz hblock =>
          have hn : w.handleDataIo ≤ 0 := by
            rw [hblock]
            decide
          have heq := noted hn
          rw [← heq] at h
          exact h.rest hB hw hst (hafter hst)
        · split
          · next hneg =>
            have heq := noted hneg.le
            rw [← heq] at h
            exact h
          · next hz _ hneg =>
            exact h.take hB hw hst (hafter hst) (lt_of_le_of_ne (not_lt.1 hneg) (Ne.symm hz)) hio
    · split
      · exact h.hangUp
      · exact settled

/-- A pipe that would read too early falls asleep. -/
theorem snooze_timed (h : Timed base B g (pace base s))
    (hrev : revents.has (KICKSTART ||| POLLHUP) = false ∨ eclockAfter s.wakeup w.now = false)
    (hs : s.snooze w revents = .ok t) :
    Timed base B g (pace base t) ∧ (t.state = .getting → eclockAfter t.wakeup w.now = false) := by
  unfold snooze at hs
  split at hs
  · split at hs
    · cases hs
    · split at hs
      · cases hs
      · next u hu =>
        cases hs
        obtain ⟨_, rfl⟩ := addClient_eq hu
        refine ⟨h.inState .sleeping PipeState.noConfusion, PipeState.noConfusion⟩
  · next hawake =>
    cases hs
    refine ⟨h, fun hst => ?_⟩
    by_contra hyes
    apply hawake
    refine ⟨hst, ?_, by simpa using hyes⟩
    rw [hrev.resolve_right hyes]
    rfl

theorem notifyPollEventDfd_timed {r : ℤ × Session} (h : Timed base B w.now (pace base s)) (hB : 1 ≤ B)
    (hw : InWindow base w.now) (hio : w.handleDataIo ≤ 16384)
    (hrev : revents.has (KICKSTART ||| POLLHUP) = false ∨ eclockAfter s.wakeup w.now = false)
    (hr : s.notifyPollEventDfd w revents = .ok r) : Timed base B w.now (pace base r.2) := by
  unfold notifyPollEventDfd at hr
  split at hr
  · cases hr
  · have hc : Steady base s (s.dfdConnected w revents) := dfdConnected_steady revents
    split at hr
    · next hconn =>
      rw [hconn] at hc
      cases hr
      exact Eq.symm hc ▸ h
    · next t hconn =>
      obtain ⟨c, rfl⟩ := dfdConnected_eq hconn
      split at hr
      · cases hr
      · next u hsnooze =>
        cases hr
        obtain ⟨hu, hafter⟩ := snooze_timed (s := { s with dfdConnecting := c }) h hrev hsnooze
        exact transfer_timed hu hB hw hafter hio

theorem notifyPollEvent_timed {fd e : ℤ} (h : Timed base B w.now (pace base s)) (hB : 1 ≤ B)
    (hw : InWindow base w.now) (hio : w.handleDataIo ≤ 16384)
    (hrev : fd = s.dfd → revents.has (KICKSTART ||| POLLHUP) = false ∨ eclockAfter s.wakeup w.now = false)
    (hs : s.notifyPollEvent w fd revents = .ok (e, t)) : Timed base B w.now (pace base t) := by
  unfold notifyPollEvent at hs
  split at hs
  · cases hs
  · split at hs
    · next hd =>
      cases hr : s.notifyPollEventDfd w revents with
      | error stop =>
          rw [hr] at hs
          cases hs
      | ok r =>
          rw [hr] at hs
          rw [finish_pace hs]
          exact notifyPollEventDfd_timed h hB hw hio (hrev hd) hr
    · split at hs
      · cases hr : s.notifyPollEventCfd w fd revents with
        | error stop =>
            rw [hr] at hs
            cases hs
        | ok r =>
            rw [hr] at hs
            rw [finish_pace hs, notifyPollEventCfd_pace hr]
            exact h
      · cases hs
        exact h

theorem Timed.shutdown (h : Timed base B g (pace base s)) : Timed base B g (pace base (s.shutdown w).2) := by
  rcases shutdown_cases (s := s) (w := w) with ⟨_, heq⟩ | heq
  · rw [heq]
    exact h
  · have hpace : pace base (s.shutdown w).2 = { pace base s with state := .idle } := by
      rw [heq]
      simp only [pace, reads, reads_discarded]
    rw [hpace]
    exact h.inState .idle PipeState.noConfusion

theorem Timed.shutdownAndNotify (h : Timed base B g (pace base s)) :
    Timed base B g (pace base (s.shutdownAndNotify w)) := by
  unfold Session.shutdownAndNotify
  rw [callFtpCmdDone_pace]
  exact h.shutdown

/-- The wake-up call does not come before its time. -/
theorem wake_timed (h : Timed base B now (pace base s)) (hB : 1 ≤ B) (hnow : InWindow base now)
    (hw : InWindow base w.now) (hle : offset base now ≤ offset base w.now) (hio : w.handleDataIo ≤ 16384)
    (hs : s.wake w now = .ok t) : Timed base B w.now (pace base t) := by
  have hgetting := (h.later hle).inState .getting PipeState.noConfusion
  unfold wake at hs
  dsimp only at hs
  split at hs
  · cases hs
    exact hgetting
  · split at hs
    · cases hs
    · next hafter =>
      have hdue : eclockAfter s.wakeup now = false := by simpa using hafter
      obtain ⟨wake, hwake, h0, hover, ha⟩ := h.over hnow hdue
      split at hs
      · cases hs
      · next err u hu =>
        have hmoved : Timed base B w.now (pace base { s with state := .getting, dfdEvents := 0, wakeup := now }) := by
          have hcast : (offset base now : ℤ) ≤ offset base w.now := by exact_mod_cast hle
          refine ⟨h.perSec, h.perTick, PipeState.noConfusion, offset base now, ?_, by omega, by linarith,
            ha.later (by linarith) hover⟩
          exact (add_offset base now).symm
        have hnever : eclockAfter now w.now = false := (eclockAfter_eq_false_iff hnow hw).2 hle
        have hu' : Timed base B w.now (pace base u) :=
          notifyPollEvent_timed hmoved hB hw hio (fun _ => .inr hnever) hu
        cases hs
        split
        · exact hu'.shutdownAndNotify
        · exact hu'

theorem runTimer_timed (h : Timed base B now (pace base s)) (hB : 1 ≤ B) (hnow : InWindow base now)
    (hw : InWindow base w.now) (hle : offset base now ≤ offset base w.now) (hio : w.handleDataIo ≤ 16384)
    (hs : s.runTimer w now = .ok t) : Timed base B w.now (pace base t) := by
  have hdel : Timed base B now (pace base s.delClient) := h
  unfold runTimer at hs
  split at hs
  · cases hs
  · split at hs
    · cases hs
    · unfold skedCallback at hs
      split at hs
      · cases hs
        exact (hdel.later hle).shutdownAndNotify
      · cases hs
        exact (hdel.later hle).shutdownAndNotify
      · exact wake_timed hdel hB hnow hw hle hio hs
      · cases hs

/-- The rates that `init` computes from `maxBytesPerSec`. -/
def Rated (rate : Int32) (s : Session) : Prop :=
  s.bytesPerSec = rate ∧ s.bytesPerTick = rate/Int32.ofNat eclockHertz

theorem Rated.handled {rate : Int32} (h : Rated rate s) (hh : Handled w s t) : Rated rate t := by
  apply hh.invariant (C := fun _ => True) (I := Rated rate) (J := fun _ => Rated rate) _ _ (fun _ hr => hr) _
    (fun _ _ => trivial) h
  · intro s t hr _ hm
    cases hm with
    | throttle n =>
        obtain ⟨_, _, _, heq⟩ := throttle_eq s w.now n
        rw [heq]
        exact hr
    | fields | line | advance | sleep | read | portLost | portLeaked | portUnwatched | portOpened => exact hr
  · intro s e t hr _ he
    cases he with
    | hungUp =>
        rw [hangUp_eq]
        exact hr
    | quiet | failed | refused | answered => exact hr
  · intro s e t hr _ hrep
    have hdrop : Rated rate s.dropFailed := by
      rcases dropFailed_cases (s := s) with ⟨heq, _⟩ | ⟨_, heq⟩
      · rwa [heq]
      · rw [heq]
        exact hr
    have hcall : ∀ x y, Rated rate (s.dropFailed.callFtpCmdDone x y) := by
      intro x y
      rcases callFtpCmdDone_cases (s := s.dropFailed) x y with ⟨_, heq⟩ | heq
      · rw [heq]
        exact hdrop
      · rw [heq]
        exact hdrop
    cases hrep with
    | kept => exact hdrop
    | told | done => exact hcall _ _

theorem Rated.shutdown {rate : Int32} (h : Rated rate s) : Rated rate (s.shutdown w).2 := by
  rcases shutdown_cases (s := s) (w := w) with ⟨_, heq⟩ | heq
  · rw [heq]
    exact h
  · rw [heq]
    exact h

theorem Rated.step {rate : Int32} {a : Act} (h : Rated rate s) (hs : Stepped s w a t) : Rated rate t := by
  obtain ⟨hsec, htick⟩ := h
  cases hs with
  | connectFailed | connectClosed | connectUnwatched | connected =>
      exact ⟨hsec, congrArg (fun rate : Int32 => rate/Int32.ofNat eclockHertz) hsec⟩
  | shutdown => exact Rated.shutdown ⟨hsec, htick⟩
  | refused | ignored | wokenQuiet | returned => exact ⟨hsec, htick⟩
  | @issued _ p c o _ _ _ hh =>
      have hissued : Rated rate (s.issued o p) := ⟨hsec, htick⟩
      exact hissued.handled hh
  | @gotten _ p c f _ _ _ hh =>
      have hopened : Rated rate ((s.issued (.get f none) p).awaiting w) := ⟨hsec, htick⟩
      exact hopened.handled hh
  | handled fd revents _ _ hh => exact Rated.handled ⟨hsec, htick⟩ hh
  | woken now _ _ _ _ hh =>
      have hwoken : Rated rate (s.woken now) := ⟨hsec, htick⟩
      exact hwoken.handled hh
  | expired =>
      have hshut : Rated rate (s.delClient.shutdown w).2 := Rated.shutdown (s := s.delClient) ⟨hsec, htick⟩
      rcases callFtpCmdDone_cases (s := (s.delClient.shutdown w).2) EPIPE 0 with ⟨_, heq⟩ | heq
      · rw [shutdownAndNotify, heq]
        exact hshut
      · rw [shutdownAndNotify, heq]
        exact hshut

/-- A pipe keeps the rates it was made with. -/
theorem rated {rate : Int32} {memory : FtpClientPipe} {ok : Session → Clock → Label → Prop}
    (h : Run (runs fun s => s = fresh memory rate) ok s g) : Rated rate s := by
  apply runs_invariant (C := fun _ => True) (I := fun s _ => Rated rate s) _ _ h (fun _ _ => trivial)
  · intro s _ hs
    rw [hs]
    exact ⟨init_disciplined memory.proto, rfl, rfl⟩
  · intro s _ k t hs _ _ hstep
    exact hs.step hstep

/-- A `get` that is accepted opens the account. -/
theorem get_timed {f : CStr} (hB : 1 ≤ B) (hsec : s.bytesPerSec.toInt = B)
    (htick : s.bytesPerTick.toInt = B.tdiv eclockHertz) (hw : InWindow base w.now) (hio : w.handleDataIo ≤ 16384)
    (hs : s.get w f true = .ok (0, t)) : Timed base B w.now (pace base t) := by
  change s.wrapper w (.get f none) (startGet w) = .ok (0, t) at hs
  unfold wrapper at hs
  split at hs
  · cases hs
  · next err proto _ =>
    split at hs
    · next hne =>
      cases hs
      exact absurd rfl hne
    · split at hs
      · cases hs
      · next u hu =>
        obtain ⟨_, heq⟩ := addClient_eq hu
        have hpace : pace base u = ⟨.getting, 0, w.now, s.bytesPerSec.toInt, s.bytesPerTick.toInt, []⟩ := by
          rw [heq]
          rfl
        have hwake : u.wakeup = w.now := by rw [heq]
        have hopened : Timed base B w.now (pace base u) := by
          rw [Int.tdiv_eq_ediv_of_nonneg (by linarith)] at htick
          rw [hpace]
          refine ⟨hsec, htick, PipeState.noConfusion, offset base w.now, ?_, by omega, by linarith, ?_⟩
          · exact (add_offset base w.now).symm
          · exact Account.opened (by linarith) (by norm_num [eclockHertz])
        have hnow : eclockAfter u.wakeup w.now = false := by
          rw [hwake]
          exact eclockAfter_self w.now
        unfold kickstart at hs
        exact notifyPollEvent_timed hopened hB hw hio (fun _ => .inr hnow) hs

end

/-- The runs from an accepted `get` on, with the rates that `init` sets, and with the
clock as it was last read. -/
def gets (base : Clock) (B : ℤ) : System Session Label Clock where
  start s g := ∃ s₀ w f, s₀.bytesPerSec.toInt = B ∧ s₀.bytesPerTick.toInt = B.tdiv eclockHertz ∧
    InWindow base w.now ∧ g = w.now ∧ w.handleDataIo ≤ 16384 ∧ get s₀ w f true = .ok (0, s)
  step s k s' := s.step k = .ok s'
  note _ _ k _ := k.world.now

/-- The events of a `get`. The clock does not go back nor out of its window, and
`Sked::runAll` is given a time that was read before; `KICKSTART` is no bit of `poll`. -/
def InGet (base : Clock) (s : Session) (g : Clock) (k : Label) : Prop :=
  InWindow base k.world.now ∧ offset base g ≤ offset base k.world.now ∧ k.world.handleDataIo ≤ 16384 ∧
  match k.act with
  | .connect _ | .command _ => False
  | .pollEvent fd revents => fd = s.dfd → revents.has (KICKSTART ||| POLLHUP) = false
  | .timer now => offset base g ≤ offset base now ∧ offset base now ≤ offset base k.world.now
  | .shutdown | .cmdDoneReturns => True

instance (base : Clock) (s : Session) (g : Clock) (k : Label) : Decidable (InGet base s g k) := by
  unfold InGet
  cases k.act <;> infer_instance

section
variable {base g : Clock} {B : ℤ} {s : Session}

theorem step_timed {k : Label} {t : Session} (h : Timed base B g (pace base s)) (hB : 1 ≤ B)
    (hk : InGet base s g k) (hs : s.step k = .ok t) : Timed base B k.world.now (pace base t) := by
  obtain ⟨act, w⟩ := k
  obtain ⟨hw, hle, hio, hact⟩ := hk
  cases act with
  | connect port => exact hact.elim
  | command c => exact hact.elim
  | shutdown =>
      cases hs
      exact (h.later hle).shutdown
  | pollEvent fd revents =>
      change (s.notifyPollEvent w fd revents).map Prod.snd = .ok t at hs
      cases hr : s.notifyPollEvent w fd revents with
      | error stop =>
          rw [hr] at hs
          cases hs
      | ok r =>
          rw [hr] at hs
          cases hs
          exact notifyPollEvent_timed (e := r.1) (h.later hle) hB hw hio (fun hd => .inl (hact hd)) hr
  | timer now =>
      have hnow : InWindow base now := lt_of_le_of_lt hact.2 hw
      exact runTimer_timed (h.later hact.1) hB hnow hw hact.2 hio hs
  | cmdDoneReturns =>
      change s.returnFromCallback = .ok t at hs
      unfold returnFromCallback at hs
      split at hs
      · cases hs
      · cases hs
        exact h.later hle

theorem Timed.products_small {n : ℤ} (h : Timed base B g (pace base s)) (hB : 1 ≤ B) (hn : 0 ≤ n)
    (hn' : n ≤ 16384) : ∀ x ∈ s.products n, 0 ≤ x ∧ x ≤ 2^31-1 := by
  obtain ⟨wake, _, _, _, ha⟩ := h.due
  have hc : 0 ≤ s.bytesUnsleptFor.toInt := ha.carry_nonneg
  have hsmall : eclockHertz*s.bytesUnsleptFor.toInt < B+eclockHertz := ha.small
  have hsec : s.bytesPerSec.toInt = B := h.perSec
  have htick : s.bytesPerTick.toInt = B/eclockHertz := h.perTick
  have hH : (eclockHertz : ℤ) = 10000 := rfl
  rw [hH] at hsmall htick
  have hticks : 0 ≤ (n+s.bytesUnsleptFor.toInt)*10000 := by linarith
  unfold products
  rw [hH, hsec]
  intro x hx
  split at hx
  · next hfine =>
    rw [Int32.lt_iff_toInt_lt, htick] at hfine
    have hfive : B/10000 < 5 := hfine
    have hproduct : (n+s.bytesUnsleptFor.toInt)*10000 ≤ 2^31-1 := by omega
    simp only [List.mem_cons, List.not_mem_nil, or_false] at hx
    rcases hx with rfl | rfl
    · exact ⟨hticks, hproduct⟩
    · rw [Int.tdiv_eq_ediv_of_nonneg hticks]
      refine ⟨mul_nonneg (Int.ediv_nonneg hticks (by linarith)) (by linarith), ?_⟩
      exact (Int.ediv_mul_le _ (by linarith)).trans hproduct
  · cases hx

/-- In a `get` the bytes read keep to the bandwidth, but for a constant. -/
theorem get_throttled (hB : 1 ≤ B) (h : Run (gets base B) (InGet base) s g) :
    Law B eclockHertz (reads base s.log) ∧
    (0 ≤ s.bytesUnsleptFor.toInt ∧ eclockHertz*s.bytesUnsleptFor.toInt < B+eclockHertz) ∧
    ∀ n, 0 ≤ n → n ≤ 16384 → ∀ x ∈ s.products n, 0 ≤ x ∧ x ≤ 2^31-1 := by
  have htimed : Timed base B g (pace base s) := by
    apply h.invariant (I := fun s g => Timed base B g (pace base s))
    · intro s g ⟨s₀, w, f, hsec, htick, hw, hg, hio, hs⟩
      rw [hg]
      exact get_timed hB hsec htick hw hio hs
    · intro s g k t hs hk hstep
      exact step_timed hs hB hk hstep
  obtain ⟨wake, _, _, _, ha⟩ := htimed.due
  exact ⟨ha.law, ⟨ha.carry_nonneg, ha.small⟩, fun n hn hn' => htimed.products_small hB hn hn'⟩

end

/-- Something arrives over descriptor 4. -/
def incoming (now : ℕ) (nxfer : ℤ) : Label :=
  ⟨.pollEvent 4 POLLIN, { calm 0 [] with now := BitVec.ofNat 64 now, handleDataIo := nxfer }⟩

/-- A thousand bytes are slept for; an event comes too early, and then the wake-up call. -/
theorem get_throttled_sleep : ∃ s g, Run (gets 0 28000) (InGet 0) s g ∧
    reads 0 s.log = [(500, 410), (1000, 0)] ∧ Law 28000 eclockHertz (reads 0 s.log) := by
  have hfollow : ((follow (exec fun _ _ _ => true) (fun _ _ _ _ => 0) (fresh blank 28000) (0 : Clock)
      [connecting, loggingIn, arrival 0 "220 hi\n230 in\n", returning]).bind fun r =>
      if r.1.bytesPerSec.toInt = 28000 ∧ r.1.bytesPerTick.toInt = (28000 : ℤ).tdiv eclockHertz then
        (r.1.get (calm 0 []) ⟨ascii "f", by decide⟩ true).toOption.bind fun r =>
          if r.1 = 0 then
            (follow (exec fun s g k => decide (InGet 0 s g k)) (gets 0 28000).note r.2 0
              [arrival 4 "227 (1,2,3,4,5,6)\n", incoming 0 1000, incoming 200 100,
                ⟨.timer 400, { calm 0 [] with now := 410, handleDataIo := 500 }⟩])
          else none
      else none).map (fun r => reads 0 r.1.log) = some [(500, 410), (1000, 0)] := by
    decide +kernel
  obtain ⟨⟨s, g⟩, hr, hreads⟩ := Option.map_eq_some_iff.1 hfollow
  obtain ⟨⟨s₀, _⟩, _, hr⟩ := Option.bind_eq_some_iff.1 hr
  split at hr
  · next hrates =>
    obtain ⟨⟨e, s₁⟩, hget, hr⟩ := Option.bind_eq_some_iff.1 hr
    split at hr
    · next he =>
      have hstart : (gets 0 28000).start s₁ 0 := by
        refine ⟨s₀, calm 0 [], ⟨ascii "f", by decide⟩, hrates.1, hrates.2, by decide, rfl, by decide, ?_⟩
        rw [Faults.eq_ok_of_toOption hget]
        exact congrArg (fun e => Except.ok (e, s₁)) he
      have hrun : Run (gets 0 28000) (InGet 0) s g := by
        apply Run.follow _ (.start hstart) hr
        intro s g k s' hs
        obtain ⟨hk, hstep⟩ := exec_eq_some hs
        exact ⟨of_decide_eq_true hk, hstep⟩
      exact ⟨s, g, hrun, hreads, (get_throttled (by decide) hrun).1⟩
    · cases hr
  · cases hr

end Dkftpbench.Session
