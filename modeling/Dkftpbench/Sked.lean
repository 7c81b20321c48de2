import Dkftpbench.CLib
import Dkftpbench.EventClock

/-!
# The scheduler of Sked.h and Sked.cc

A priority queue of clients kept as a binary heap in a one-based array. The field
`skedIndex` of every client is kept beside the queue, since the heap routines write
it. Slot 0 and the slots above `used` hold whatever the memory held.

A client is an element of an arbitrary type, so a null client cannot be built. A
failed `assert` ends the program: the operations that assert return `none` there.
Memory is a parameter: `malloc` and `realloc` either fail or give arbitrary bytes.
A byte count that no longer fits an `int` is one that `realloc` refuses.
-/
namespace Dkftpbench
open CLib EventClock

structure SkedRecord (Client : Type) (w : ℕ) where
  skc : Client
  when : BitVec w
deriving DecidableEq, Repr

structure Sked (Client : Type) (w : ℕ) where
  records : ℕ → SkedRecord Client w
  allocated : ℕ
  used : ℕ
  skedIndex : Client → ℕ

/-- The contents of freshly allocated memory. -/
abbrev Memory (Client : Type) (w : ℕ) := ℕ → SkedRecord Client w

namespace Sked
variable {Client : Type} {w : ℕ}

def size (s : Sked Client w) : ℕ := s.used

def empty (s : Sked Client w) : Bool := s.size == 0

def top (s : Sked Client w) : Option (SkedRecord Client w) :=
  if s.empty then none else some (s.records 1)

def nextTime (s : Sked Client w) (defval : BitVec w) : BitVec w :=
  match s.top with
  | none => defval
  | some r => r.when

/-- The constructors of the queue and of its clients: nothing is queued. -/
def fresh (records : Memory Client w) : Sked Client w := ⟨records, 0, 0, fun _ => 0⟩

def init (malloc : Option (Memory Client w)) (s : Sked Client w) : ℤ × Sked Client w :=
  match malloc with
  | none => (ENOMEM, { s with allocated := 0, used := 0 })
  | some m => (0, { s with records := m, allocated := 256, used := 0 })

/-- The earlier of the two children of `index`; the right one wins a tie. -/
def leastChild (s : Sked Client w) (index : ℕ) : ℕ :=
  let child := index*2
  if child < s.used ∧ !eclockAfter (s.records (child+1)).when (s.records child).when then child+1
  else child

theorem leastChild_div (s : Sked Client w) (index : ℕ) : s.leastChild index/2 = index := by
  dsimp only [leastChild]
  split_ifs <;> omega

/-- The assertion inside `siftDown`. -/
theorem leastChild_le (s : Sked Client w) {index : ℕ} (h : index*2 ≤ s.used) :
    s.leastChild index ≤ s.used := by
  dsimp only [leastChild]
  split_ifs <;> omega

theorem lt_leastChild (s : Sked Client w) {index : ℕ} (h : 0 < index) :
    index < s.leastChild index := by
  dsimp only [leastChild]
  split_ifs <;> omega

variable [DecidableEq Client]

/-- Every move of a record also updates its client's back-pointer. -/
def storeAt (s : Sked Client w) (i : ℕ) (r : SkedRecord Client w) : Sked Client w :=
  { s with
    records := Function.update s.records i r
    skedIndex := Function.update s.skedIndex r.skc i }

/-- The three statements that exchange a record with its parent or child. -/
def exchange (s : Sked Client w) (index other : ℕ) : Sked Client w :=
  let tmp := s.records other
  (s.storeAt other (s.records index)).storeAt index tmp

@[simp] theorem storeAt_used (s : Sked Client w) (i : ℕ) (r : SkedRecord Client w) :
    (s.storeAt i r).used = s.used := rfl

@[simp] theorem exchange_used (s : Sked Client w) (i j : ℕ) : (s.exchange i j).used = s.used := rfl

/-- The loop of `siftUp`. -/
def siftUp (s : Sked Client w) (index : ℕ) : Sked Client w :=
  if 1 < index then
    let parent := index/2
    if eclockAfter (s.records index).when (s.records parent).when then s
    else (s.exchange index parent).siftUp parent
  else s
termination_by index
decreasing_by omega

/-- The loop of `siftDown`. Slot 0 is unused, so it is never called there. -/
def siftDown (s : Sked Client w) (index : ℕ) (h : 0 < index) : Sked Client w :=
  if s.used < index*2 then s
  else
    let child := s.leastChild index
    if eclockAfter (s.records child).when (s.records index).when then s
    else (s.exchange index child).siftDown child (h.trans (s.lt_leastChild h))
termination_by s.used-index
decreasing_by
  have := s.lt_leastChild h
  simp only [exchange_used]
  omega

/-- The loop in `remove` that lifts a record to the root without comparing. -/
def lift (s : Sked Client w) (index : ℕ) : Sked Client w :=
  if 1 < index then
    let parent := index/2
    (s.exchange index parent).lift parent
  else s
termination_by index
decreasing_by omega

/-- Move the last record to the root, whose own record is dropped, and sift it down.
On entry `used` already counts one record less. -/
def refill (s : Sked Client w) : Sked Client w :=
  let s := s.storeAt 1 (s.records (s.used+1))
  if 1 < s.used then s.siftDown 1 Nat.one_pos else s

def remove (s : Sked Client w) (index : ℕ) : Option (Sked Client w) :=
  if s.used < index then none
  else
    let t := { s with used := s.used-1 }
    if 1 < s.used then some (t.lift index).refill else some t

def push (s : Sked Client w) (skr : SkedRecord Client w) (realloc : Option (Memory Client w)) :
    ℤ × Sked Client w :=
  let append (s : Sked Client w) : ℤ × Sked Client w :=
    let s := { s with used := s.used+1 }
    (0, (s.storeAt s.used skr).siftUp s.used)
  if s.used+1 = s.allocated then
    match realloc with
    | none => (ENOMEM, s)
    | some m =>
        append { s with
          allocated := s.allocated*2
          records := fun i => if i < s.allocated then s.records i else m i }
  else append s

def pop (s : Sked Client w) : Option (Sked Client w) :=
  if s.empty then some s
  else if s.skedIndex (s.records 1).skc ≠ 1 then none
  else
    let s := { s with
      skedIndex := Function.update s.skedIndex (s.records 1).skc 0
      used := s.used-1 }
    if 0 < s.size then
      let s := s.refill
      if s.skedIndex (s.records 1).skc = 1 then some s else none
    else some s

def addClient (s : Sked Client w) (skc : Client) (when : BitVec w)
    (realloc : Option (Memory Client w)) : Option (ℤ × Sked Client w) :=
  if s.skedIndex skc ≠ 0 then none else some (s.push ⟨skc, when⟩ realloc)

def delClient (s : Sked Client w) (skc : Client) : Option (ℤ × Sked Client w) :=
  if s.skedIndex skc = 0 then some (0, s)
  else if s.used = 0 then none
  else
    (s.remove (s.skedIndex skc)).map fun s =>
      (0, { s with skedIndex := Function.update s.skedIndex skc 0 })

end Sked
end Dkftpbench
