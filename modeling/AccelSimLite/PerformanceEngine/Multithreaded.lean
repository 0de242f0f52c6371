import AccelSimLite.Lib.CondVar
import AccelSimLite.Lib.Interleaving
import AccelSimLite.PerformanceEngine.WorkItems

/-!
# The multithreaded run

A model of `run_multithreaded`: one producer and `worker_count` workers that
share a queue under a mutex, with two condition variables. Every section that
holds a mutex is one atomic step, and so is the processing of one task up to its
`fetch_xor`, since before that it touches only what the worker owns.

## Main definitions

- `WorkerThread`, `ProducerPc`, `MultiState` — the local and the shared variables
- `PerformanceEngine.Step` — the atomic steps, in any order
- `PerformanceEngine.start` — the state in which the threads begin
- `MultiState.Joined` — every `join` has returned

## Design notes

A worker at the top of its loop has an empty batch. A spurious wakeup is a step
like any other. Contention, waiting times and latencies are whatever the step
says they are. Memory and threads can always be had, and the threads are there
from the start, but a vector refuses to reserve more than `max_size()` elements:
`workers.reserve` throws before there is a thread, and `task_batch.reserve` in a
thread, which ends the process. `aggregate_latencies.reserve` never throws, since
there are no more items than values in the data.
-/

namespace AccelSim

structure QueuedTask where
  work : WorkItem
  queuedAt : ℕ
  deriving DecidableEq, Repr

/-- The most tasks, of 32 bytes each, that `task_batch` can reserve. -/
abbrev taskBatchMaxSize : ℕ := 2 ^ 58 - 1

/-- The most threads, of 8 bytes each, that `workers` can reserve. -/
abbrev workersMaxSize : ℕ := 2 ^ 60 - 1

/-- Where a worker is. -/
inductive WorkerPc
  /-- before `task_batch.reserve` -/
  | starting
  /-- outside the lock, with the rest of its batch -/
  | running (batch : List QueuedTask)
  /-- in `queue_not_empty.wait`, not notified -/
  | asleep
  /-- in `queue_not_empty.wait`, notified or woken spuriously -/
  | woken
  /-- out of the loop, before it merges its metrics -/
  | leaving
  | done
  deriving DecidableEq, Repr

structure WorkerThread where
  pc : WorkerPc := .starting
  localMetrics : WorkerMetrics := {}
  localLatencies : List ℕ := []
  deriving DecidableEq, Repr

/-- Where the producer is, with the items it has still to push. -/
inductive ProducerPc
  | pushing (rest : List WorkItem)
  /-- in `queue_not_full.wait`, not notified -/
  | asleep (rest : List WorkItem)
  /-- in `queue_not_full.wait`, notified or woken spuriously -/
  | woken (rest : List WorkItem)
  /-- `producer_finished` is set, `notify_all` is still to come -/
  | notifying
  | joining
  deriving DecidableEq, Repr

/-- A `std::length_error` that ends the run. -/
inductive RunFailure
  /-- out of `workers.reserve`, and so out of `run_multithreaded` -/
  | workersReserve
  /-- out of `task_batch.reserve` in a thread, where it calls `std::terminate` -/
  | taskBatchReserve
  deriving DecidableEq, Repr

structure MultiState (workerCount : ℕ) where
  failure : Option RunFailure := none
  queue : List QueuedTask := []
  producerFinished : Bool := false
  producer : ProducerPc
  workers : Fin workerCount → WorkerThread := fun _ => {}
  aggregateMetrics : WorkerMetrics := {}
  aggregateLatencies : List ℕ := []
  checksum : UInt64 := 0

/-- What happens in a step. -/
inductive MultiEvent (workerCount : ℕ)
  | reserves (worker : Fin workerCount)
  | terminates (worker : Fin workerCount)
  | sleeps (worker : Fin workerCount)
  | wakes (worker : Fin workerCount)
  | takes (worker : Fin workerCount) (batch : List QueuedTask)
  | processes (worker : Fin workerCount) (work : WorkItem)
  | leaves (worker : Fin workerCount)
  | merges (worker : Fin workerCount)
  | producerSleeps
  | producerWakes
  | pushes (work : WorkItem)
  | finishes
  | notifies
  deriving DecidableEq, Repr

/-! ### Local steps -/

namespace WorkerThread

/-- The worker is about to hold the mutex: at the top of its loop, or on its way
    out of the wait. -/
def AtLock (w : WorkerThread) : Prop := w.pc = .running [] ∨ w.pc = .woken

def goto (w : WorkerThread) (pc : WorkerPc) : WorkerThread := { w with pc := pc }

/-- Locking the mutex at the top of the loop. Waking up locks it without a count. -/
def acquire (w : WorkerThread) (contended : Bool) (waitNs : ℕ) : WorkerThread :=
  match w.pc with
  | .running _ =>
    { w with
      localMetrics := { w.localMetrics with
        lockAcquisitions := w.localMetrics.lockAcquisitions + 1
        contendedLockAcquisitions :=
          w.localMetrics.contendedLockAcquisitions + if contended then 1 else 0
        lockWaitNs := w.localMetrics.lockWaitNs + waitNs } }
  | _ => w

/-- The part of the loop body for the first task of the batch. -/
def process (engine : PerformanceEngine) (w : WorkerThread) (task : QueuedTask)
    (batch : List QueuedTask) (queueWaitNs latency : ℕ) : UInt64 × WorkerThread :=
  let metrics := { w.localMetrics with queueWaitNs := w.localMetrics.queueWaitNs + queueWaitNs }
  let (taskChecksum, metrics) := engine.processWork task.work metrics
  (taskChecksum,
    { pc := .running batch
      localMetrics := metrics
      localLatencies := w.localLatencies ++ [latency] })

end WorkerThread

/-- The additions under `metrics_mutex`. -/
def WorkerMetrics.merge (aggregate localMetrics : WorkerMetrics) : WorkerMetrics where
  tasksCompleted := aggregate.tasksCompleted + localMetrics.tasksCompleted
  simulatedAllocations := aggregate.simulatedAllocations + localMetrics.simulatedAllocations
  lockAcquisitions := aggregate.lockAcquisitions + localMetrics.lockAcquisitions
  contendedLockAcquisitions :=
    aggregate.contendedLockAcquisitions + localMetrics.contendedLockAcquisitions
  lockWaitNs := aggregate.lockWaitNs + localMetrics.lockWaitNs
  queueWaitNs := aggregate.queueWaitNs + localMetrics.queueWaitNs

/-- `queue_not_empty`. -/
def queueNotEmpty : CondVar WorkerThread where
  asleep w := w.pc = .asleep
  woken w := w.pc = .woken
  wake w := w.goto .woken
  woken_wake _ _ := decide_eq_true rfl
  not_asleep_wake w _ h := by
    have hpc : (w.goto .woken).pc = .asleep := of_decide_eq_true h
    cases hpc
  not_woken_of_asleep w h := by
    have hpc : w.pc = .asleep := of_decide_eq_true h
    rw [hpc]
    decide

/-- `queue_not_full.notify_all()`: only the producer waits on it. -/
def ProducerPc.notified : ProducerPc → ProducerPc
  | .asleep rest => .woken rest
  | pc => pc

/-- The producer is about to hold the mutex with an item to push. -/
def ProducerPc.AtLock (pc : ProducerPc) (item : WorkItem) (rest : List WorkItem) : Prop :=
  pc = .pushing (item :: rest) ∨ pc = .woken (item :: rest)

namespace PerformanceEngine

def tasksToTake (engine : PerformanceEngine) (queue : List QueuedTask) : ℕ :=
  min engine.config.queueBatchSize queue.length

/-- The atomic steps of the workers and the producer, while nothing has ended the run. -/
inductive Step (engine : PerformanceEngine) :
    MultiState engine.config.workerCount → MultiEvent engine.config.workerCount →
      MultiState engine.config.workerCount → Prop
  | reserve {s : MultiState engine.config.workerCount} (i : Fin engine.config.workerCount) :
      (s.workers i).pc = .starting → engine.config.queueBatchSize ≤ taskBatchMaxSize →
      s.failure = none →
      Step engine s (.reserves i)
        { s with workers := Function.update s.workers i ((s.workers i).goto (.running [])) }
  /-- `task_batch.reserve` throws -/
  | terminate {s : MultiState engine.config.workerCount} (i : Fin engine.config.workerCount) :
      (s.workers i).pc = .starting → taskBatchMaxSize < engine.config.queueBatchSize →
      s.failure = none →
      Step engine s (.terminates i) { s with failure := some .taskBatchReserve }
  /-- the predicate of `queue_not_empty.wait` is false -/
  | sleep {s : MultiState engine.config.workerCount} (i : Fin engine.config.workerCount)
      (contended : Bool) (waitNs : ℕ) :
      (s.workers i).AtLock → s.queue = [] → s.producerFinished = false → s.failure = none →
      Step engine s (.sleeps i)
        { s with
          workers := Function.update s.workers i
            (((s.workers i).acquire contended waitNs).goto .asleep) }
  | wake {s : MultiState engine.config.workerCount} (i : Fin engine.config.workerCount) :
      (s.workers i).pc = .asleep → s.failure = none →
      Step engine s (.wakes i)
        { s with workers := Function.update s.workers i ((s.workers i).goto .woken) }
  | take {s : MultiState engine.config.workerCount} (i : Fin engine.config.workerCount)
      (contended : Bool) (waitNs : ℕ) :
      (s.workers i).AtLock → s.queue ≠ [] → s.failure = none →
      Step engine s (.takes i (s.queue.take (engine.tasksToTake s.queue)))
        { s with
          queue := s.queue.drop (engine.tasksToTake s.queue)
          producer := s.producer.notified
          workers := Function.update s.workers i
            (((s.workers i).acquire contended waitNs).goto
              (.running (s.queue.take (engine.tasksToTake s.queue)))) }
  | process {s : MultiState engine.config.workerCount} (i : Fin engine.config.workerCount)
      (task : QueuedTask) (batch : List QueuedTask) (queueWaitNs latency : ℕ) :
      (s.workers i).pc = .running (task :: batch) → s.failure = none →
      Step engine s (.processes i task.work)
        { s with
          checksum := s.checksum ^^^
            ((s.workers i).process engine task batch queueWaitNs latency).1
          workers := Function.update s.workers i
            ((s.workers i).process engine task batch queueWaitNs latency).2 }
  | leave {s : MultiState engine.config.workerCount} (i : Fin engine.config.workerCount)
      (contended : Bool) (waitNs : ℕ) :
      (s.workers i).AtLock → s.queue = [] → s.producerFinished = true → s.failure = none →
      Step engine s (.leaves i)
        { s with
          workers := Function.update s.workers i
            (((s.workers i).acquire contended waitNs).goto .leaving) }
  | merge {s : MultiState engine.config.workerCount} (i : Fin engine.config.workerCount) :
      (s.workers i).pc = .leaving → s.failure = none →
      Step engine s (.merges i)
        { s with
          aggregateMetrics := s.aggregateMetrics.merge (s.workers i).localMetrics
          aggregateLatencies := s.aggregateLatencies ++ (s.workers i).localLatencies
          workers := Function.update s.workers i ((s.workers i).goto .done) }
  /-- the predicate of `queue_not_full.wait` is false -/
  | producerSleep {s : MultiState engine.config.workerCount} (item : WorkItem)
      (rest : List WorkItem) :
      s.producer.AtLock item rest → engine.config.queueCapacity ≤ s.queue.length →
      s.failure = none →
      Step engine s .producerSleeps { s with producer := .asleep (item :: rest) }
  | producerWake {s : MultiState engine.config.workerCount} (rest : List WorkItem) :
      s.producer = .asleep rest → s.failure = none →
      Step engine s .producerWakes { s with producer := .woken rest }
  | push {s : MultiState engine.config.workerCount} (item : WorkItem) (rest : List WorkItem)
      (queuedAt : ℕ) (workers : Fin engine.config.workerCount → WorkerThread) :
      s.producer.AtLock item rest → s.queue.length < engine.config.queueCapacity →
      queueNotEmpty.Signals s.workers workers → s.failure = none →
      Step engine s (.pushes item)
        { s with
          queue := s.queue ++ [⟨item, queuedAt⟩]
          producer := .pushing rest
          workers := workers }
  | finish {s : MultiState engine.config.workerCount} :
      s.producer = .pushing [] → s.failure = none →
      Step engine s .finishes { s with producerFinished := true, producer := .notifying }
  | notify {s : MultiState engine.config.workerCount} :
      s.producer = .notifying → s.failure = none →
      Step engine s .notifies
        { s with producer := .joining, workers := queueNotEmpty.broadcast s.workers }

/-- The state in which the producer begins its loop, unless `workers.reserve` has thrown. -/
def start (engine : PerformanceEngine) : MultiState engine.config.workerCount :=
  { failure :=
      if engine.config.workerCount ≤ workersMaxSize then none else some .workersReserve
    producer := .pushing engine.buildWorkItems }

/-- Both calls of `reserve` can be served. -/
structure Reserves (engine : PerformanceEngine) : Prop where
  taskBatch : engine.config.queueBatchSize ≤ taskBatchMaxSize
  workers : engine.config.workerCount ≤ workersMaxSize

end PerformanceEngine

/-- Every `join` has returned. -/
def MultiState.Joined {n : ℕ} (s : MultiState n) : Prop :=
  s.producer = .joining ∧ ∀ i, (s.workers i).pc = .done

/-- What `run_multithreaded` returns after the joins. -/
def PerformanceEngine.multithreadedResult (engine : PerformanceEngine)
    (s : MultiState engine.config.workerCount) : BenchmarkResult :=
  engine.buildResult "multithreaded" s.aggregateMetrics s.checksum engine.buildWorkItems.length

/-- The items passed to `process_work` in a run, in order. -/
def processedItems {n : ℕ} (trace : List (MultiEvent n)) : List WorkItem :=
  trace.filterMap fun
    | .processes _ work => some work
    | _ => none

end AccelSim
