import AccelSimLite.Lib.CondVar
import AccelSimLite.Lib.Interleaving
import AccelSimLite.Lib.RingBuffer

/-!
# The pthread work queue

A model of `pthread_queue.c`: a ring of work items under a mutex, with a condition
variable for those who wait for an item and one for those who wait for room. What
a thread does from the moment it has the mutex until it gives it up, by unlocking
or by `pthread_cond_wait`, is one atomic step.

## Main definitions

- `PthreadWorkItem`, `PthreadWorkQueue` — the data model
- `PthreadWorkQueue.pushSection`, `PthreadWorkQueue.popSection` — one pass through
  a critical section
- `QueueSystem`, `QueueSystem.Step` — any number of threads that use one queue

## Design notes

Allocations and pthread calls succeed. A pass that ends in `pthread_cond_wait` has
no outcome; the thread makes another one when it is back. A spurious wakeup is a
step like any other, and a signal may wake any number of those who wait, but one
at least.
-/

namespace AccelSim

structure PthreadWorkItem where
  id : ℕ := 0
  beginIdx : ℕ := 0
  endIdx : ℕ := 0
  queuedAtNs : ℕ := 0
  deriving DecidableEq, Repr

structure PthreadWorkQueue where
  items : List PthreadWorkItem
  capacity : ℕ
  head : ℕ := 0
  tail : ℕ := 0
  count : ℕ := 0
  closed : Bool := false
  lockAcquisitions : ℕ := 0
  contendedLockAcquisitions : ℕ := 0
  lockWaitNs : ℕ := 0
  deriving DecidableEq, Repr

/-- The error codes that the functions of the queue return. -/
inductive Errno
  | einval
  | ecanceled
  deriving DecidableEq, Repr

namespace PthreadWorkQueue

/-- `pthread_work_queue_init`: the items are zeroed by `calloc`. -/
def init (capacity : ℕ) : Except Errno PthreadWorkQueue :=
  if capacity = 0 then .error .einval
  else .ok { items := List.replicate capacity {}, capacity := capacity }

/-- `lock_queue`, once the mutex is held. -/
def lockQueue (queue : PthreadWorkQueue) (contended : Bool) (waitNs : ℕ) : PthreadWorkQueue :=
  { queue with
    lockAcquisitions := queue.lockAcquisitions + 1
    contendedLockAcquisitions := queue.contendedLockAcquisitions + if contended then 1 else 0
    lockWaitNs := queue.lockWaitNs + waitNs }

/-- One pass of `pthread_work_queue_push`: what it returns, and the queue. -/
def pushSection (queue : PthreadWorkQueue) (item : PthreadWorkItem) :
    Option (Except Errno Unit × PthreadWorkQueue) :=
  if queue.count = queue.capacity ∧ queue.closed = false then none
  else if queue.closed then some (.error .ecanceled, queue)
  else
    some (.ok (),
      { queue with
        items := queue.items.set queue.tail item
        tail := (queue.tail + 1) % queue.capacity
        count := queue.count + 1 })

/-- One pass of `pthread_work_queue_pop`: the item if it returns 1, none if it
    returns 0, and the queue. -/
def popSection (queue : PthreadWorkQueue) : Option (Option PthreadWorkItem × PthreadWorkQueue) :=
  if queue.count = 0 ∧ queue.closed = false then none
  else if queue.count = 0 ∧ queue.closed = true then some (none, queue)
  else
    some (some (queue.items.getD queue.head {}),
      { queue with
        head := (queue.head + 1) % queue.capacity
        count := queue.count - 1 })

/-- `pthread_work_queue_close`, before the broadcasts. -/
def closeSection (queue : PthreadWorkQueue) : PthreadWorkQueue := { queue with closed := true }

end PthreadWorkQueue

/-! ### Threads -/

inductive QueueOp
  | push (item : PthreadWorkItem)
  | pop
  | close
  deriving DecidableEq, Repr

/-- Where a thread is. -/
inductive QueuePc
  | idle
  /-- has called the function and not had the mutex yet -/
  | entering (op : QueueOp)
  /-- in `pthread_cond_wait`, not signalled -/
  | asleep (op : QueueOp)
  /-- in `pthread_cond_wait`, signalled or woken spuriously -/
  | woken (op : QueueOp)
  deriving DecidableEq, Repr

/-- The thread is about to hold the mutex in a call of `op`. -/
def QueuePc.AtLock (pc : QueuePc) (op : QueueOp) : Prop := pc = .entering op ∨ pc = .woken op

/-- Signalling or waking a thread that waits. -/
def QueuePc.wake : QueuePc → QueuePc
  | .asleep op => .woken op
  | pc => pc

/-- `not_empty`: those in `pthread_work_queue_pop` wait on it. -/
def notEmpty : CondVar QueuePc where
  asleep pc := pc = .asleep .pop
  woken pc := pc = .woken .pop
  wake := QueuePc.wake
  woken_wake pc h := by
    rw [of_decide_eq_true h]
    rfl
  not_asleep_wake pc h := by
    rw [of_decide_eq_true h]
    decide
  not_woken_of_asleep pc h := by
    rw [of_decide_eq_true h]
    decide

def QueueOp.isPush : QueueOp → Bool
  | .push _ => true
  | _ => false

/-- `not_full`: those in `pthread_work_queue_push` wait on it. -/
def notFull : CondVar QueuePc where
  asleep
    | .asleep op => op.isPush
    | _ => false
  woken
    | .woken op => op.isPush
    | _ => false
  wake := QueuePc.wake
  woken_wake pc h := by
    cases pc with
    | asleep op => exact h
    | _ => cases h
  not_asleep_wake pc h := by
    cases pc with
    | asleep op => exact Bool.false_ne_true
    | _ => cases h
  not_woken_of_asleep pc h := by
    cases pc with
    | asleep op => exact Bool.false_ne_true
    | _ => cases h

/-- A queue and the threads that use it. -/
structure QueueSystem (ι : Type*) where
  queue : PthreadWorkQueue
  threads : ι → QueuePc := fun _ => .idle

/-- What happens in a step. -/
inductive QueueEvent (ι : Type*)
  | calls (thread : ι) (op : QueueOp)
  | waits (thread : ι)
  | wakes (thread : ι)
  /-- a push returns 0 -/
  | pushed (thread : ι) (item : PthreadWorkItem)
  /-- a push returns `ECANCELED` -/
  | canceled (thread : ι) (item : PthreadWorkItem)
  /-- a pop returns 1 -/
  | popped (thread : ι) (item : PthreadWorkItem)
  /-- a pop returns 0 -/
  | drained (thread : ι)
  | closed (thread : ι)

/-- The thread that makes the step. -/
def QueueEvent.thread {ι : Type*} : QueueEvent ι → ι
  | .calls t _ => t
  | .waits t => t
  | .wakes t => t
  | .pushed t _ => t
  | .canceled t _ => t
  | .popped t _ => t
  | .drained t => t
  | .closed t => t

namespace QueueSystem

variable {ι : Type*} [DecidableEq ι]

/-- A thread has the mutex in a pop; the first time it counts that. -/
def locked (s : QueueSystem ι) (t : ι) (contended : Bool) (waitNs : ℕ) : PthreadWorkQueue :=
  match s.threads t with
  | .entering _ => s.queue.lockQueue contended waitNs
  | _ => s.queue

/-- The atomic steps of the threads. -/
inductive Step : QueueSystem ι → QueueEvent ι → QueueSystem ι → Prop
  | call {s : QueueSystem ι} (t : ι) (op : QueueOp) :
      s.threads t = .idle →
      Step s (.calls t op) { s with threads := Function.update s.threads t (.entering op) }
  | wake {s : QueueSystem ι} (t : ι) (op : QueueOp) :
      s.threads t = .asleep op →
      Step s (.wakes t) { s with threads := Function.update s.threads t (.woken op) }
  | pushWait {s : QueueSystem ι} (t : ι) (item : PthreadWorkItem) :
      (s.threads t).AtLock (.push item) → s.queue.pushSection item = none →
      Step s (.waits t)
        { s with threads := Function.update s.threads t (.asleep (.push item)) }
  | pushCancel {s : QueueSystem ι} (t : ι) (item : PthreadWorkItem) (queue : PthreadWorkQueue) :
      (s.threads t).AtLock (.push item) →
      s.queue.pushSection item = some (.error .ecanceled, queue) →
      Step s (.canceled t item)
        { queue := queue, threads := Function.update s.threads t .idle }
  | push {s : QueueSystem ι} (t : ι) (item : PthreadWorkItem) (queue : PthreadWorkQueue)
      (threads : ι → QueuePc) :
      (s.threads t).AtLock (.push item) →
      s.queue.pushSection item = some (.ok (), queue) →
      notEmpty.Signals (Function.update s.threads t .idle) threads →
      Step s (.pushed t item) { queue := queue, threads := threads }
  | popWait {s : QueueSystem ι} (t : ι) (contended : Bool) (waitNs : ℕ) :
      (s.threads t).AtLock .pop → (s.locked t contended waitNs).popSection = none →
      Step s (.waits t)
        { queue := s.locked t contended waitNs
          threads := Function.update s.threads t (.asleep .pop) }
  | popDrained {s : QueueSystem ι} (t : ι) (contended : Bool) (waitNs : ℕ)
      (queue : PthreadWorkQueue) :
      (s.threads t).AtLock .pop →
      (s.locked t contended waitNs).popSection = some (none, queue) →
      Step s (.drained t)
        { queue := queue, threads := Function.update s.threads t .idle }
  | pop {s : QueueSystem ι} (t : ι) (contended : Bool) (waitNs : ℕ) (item : PthreadWorkItem)
      (queue : PthreadWorkQueue) (threads : ι → QueuePc) :
      (s.threads t).AtLock .pop →
      (s.locked t contended waitNs).popSection = some (some item, queue) →
      notFull.Signals (Function.update s.threads t .idle) threads →
      Step s (.popped t item) { queue := queue, threads := threads }
  | close {s : QueueSystem ι} (t : ι) :
      (s.threads t).AtLock .close →
      Step s (.closed t)
        { queue := s.queue.closeSection
          threads := notFull.broadcast
            (notEmpty.broadcast (Function.update s.threads t .idle)) }

end QueueSystem

end AccelSim
