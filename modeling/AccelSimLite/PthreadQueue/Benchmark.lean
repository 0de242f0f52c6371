import AccelSimLite.PerformanceEngine.Defs
import AccelSimLite.PthreadQueue.Fifo

/-!
# The C benchmark

A model of `pthread_queue_benchmark.c`: the main thread cuts the data into items
and pushes them into a work queue, any number of workers pop and process them, and
after the joins the main thread adds up what the workers have.

## Main definitions

- `PthreadBenchmark.processItem` — the work done for one item
- `PthreadBenchmark.Step` — the steps of the main thread and the workers, which are
  steps of the queue system or local to a worker
- `PthreadBenchmark.aggregate` — the loop after the joins

## Design notes

The main thread is `none` among the threads of the queue, worker `t` is `some t`.
Between two calls a thread is idle in the queue system and moves in the program.
Allocations and pthread calls succeed. Latencies are whatever the step says they
are; a slot of `all_latencies` that is not written yet has no value.
-/

namespace AccelSim

namespace PthreadBenchmark

def chunkSize : ℕ := 256

def queueCapacity : ℕ := 1024

/-- `data[i]` as `main` computes it. -/
def datum (i : ℕ) : UInt64 :=
  (UInt64.ofNat i * (2654435761 : UInt64)) ^^^ (UInt64.ofNat i >>> (3 : UInt64))

def benchmarkData (workloadSize : ℕ) : List UInt64 := (List.range workloadSize).map datum

def taskCount (workloadSize : ℕ) : ℕ := (workloadSize + chunkSize - 1) % sizeMod / chunkSize

/-- The item of iteration `i` of the push loop. -/
def benchmarkItem (workloadSize i queuedAtNs : ℕ) : PthreadWorkItem :=
  let beginIdx := i * chunkSize % sizeMod
  let endIdx := (beginIdx + chunkSize) % sizeMod
  { id := i
    beginIdx := beginIdx
    endIdx := if workloadSize < endIdx then workloadSize else endIdx
    queuedAtNs := queuedAtNs }

/-! ### The work -/

def compareUint64 (a b : UInt64) : ℤ := if a < b then -1 else if b < a then 1 else 0

/-- One iteration of the loop that fills `temporary` and sums it up. -/
def fillStep (data : List UInt64) (item : PthreadWorkItem) (acc : UInt64 × List UInt64) (i : ℕ) :
    UInt64 × List UInt64 :=
  let index := item.beginIdx + i
  let value := data.getD index 0 ^^^ UInt64.ofNat (index * 17)
  (acc.1 + value, acc.2 ++ [value])

/-- `process_item`: the checksum of the item, and the allocation counter after it. -/
def processItem (data : List UInt64) (item : PthreadWorkItem) (allocations : ℕ) : UInt64 × ℕ :=
  let count := item.endIdx - item.beginIdx
  let (checksum, temporary) := (List.range count).foldl (fillStep data item) (0, [])
  let sorted := temporary.insertionSort fun a b => compareUint64 a b ≤ 0
  ((List.range' 1 (count - 1)).foldl
      (fun checksum i => checksum ^^^ (sorted.getD i 0 - sorted.getD (i - 1) 0)) checksum,
    allocations + 1)

structure WorkerContext where
  checksum : UInt64 := 0
  tasksCompleted : ℕ := 0
  allocations : ℕ := 0
  latencies : List ℕ := []
  latencyCapacity : ℕ
  deriving DecidableEq, Repr

/-- The body of the loop of `worker_main` after a pop that returned an item. -/
def WorkerContext.process (data : List UInt64) (context : WorkerContext) (item : PthreadWorkItem)
    (latency : ℕ) : WorkerContext :=
  let (itemChecksum, allocations) := processItem data item context.allocations
  { context with
    checksum := context.checksum ^^^ itemChecksum
    tasksCompleted := context.tasksCompleted + 1
    allocations := allocations
    latencies :=
      if context.latencies.length < context.latencyCapacity then context.latencies ++ [latency]
      else context.latencies }

/-! ### The program -/

/-- Where a worker is. -/
inductive WorkerPc
  /-- about to call pop, or in the call -/
  | looping
  | processing (item : PthreadWorkItem)
  | returned
  deriving DecidableEq, Repr

structure Worker where
  pc : WorkerPc := .looping
  context : WorkerContext
  deriving DecidableEq, Repr

/-- Where the main thread is. -/
inductive MainPc
  /-- in iteration `i` of the push loop, or behind the loop and not joining yet -/
  | pushing (i : ℕ)
  | joining
  /-- a push has failed -/
  | failed
  deriving DecidableEq, Repr

structure State (workers : ℕ) where
  system : QueueSystem (Option (Fin workers))
  main : MainPc := .pushing 0
  workers : Fin workers → Worker

variable {workers : ℕ}

/-- What the main thread calls next. -/
def MainPc.Calls (workloadSize : ℕ) (pc : MainPc) (op : QueueOp) : Prop :=
  ∃ i, pc = .pushing i ∧
    if i < taskCount workloadSize then ∃ now, op = .push (benchmarkItem workloadSize i now)
    else op = .close

/-- The main thread after a step of the queue system. -/
def MainPc.after (pc : MainPc) (e : QueueEvent (Option (Fin workers))) : MainPc :=
  match pc, e with
  | .pushing i, .pushed none _ => .pushing (i + 1)
  | .pushing _, .canceled none _ => .failed
  | .pushing _, .closed none => .joining
  | pc, _ => pc

/-- Worker `t` after a step of the queue system. -/
def Worker.after (worker : Worker) (t : Fin workers) (e : QueueEvent (Option (Fin workers))) :
    Worker :=
  match e with
  | .popped (some t') item => if t' = t then { worker with pc := .processing item } else worker
  | .drained (some t') => if t' = t then { worker with pc := .returned } else worker
  | _ => worker

/-- What happens in a step. -/
inductive Event (workers : ℕ)
  | queue (e : QueueEvent (Option (Fin workers)))
  | processes (worker : Fin workers) (item : PthreadWorkItem)

/-- The atomic steps of the program. -/
inductive Step (workloadSize : ℕ) : State workers → Event workers → State workers → Prop
  | callMain {s : State workers} (op : QueueOp) (system : QueueSystem (Option (Fin workers))) :
      s.main.Calls workloadSize op →
      QueueSystem.Step s.system (.calls none op) system →
      Step workloadSize s (.queue (.calls none op)) { s with system := system }
  | callWorker {s : State workers} (t : Fin workers)
      (system : QueueSystem (Option (Fin workers))) :
      (s.workers t).pc = .looping →
      QueueSystem.Step s.system (.calls (some t) .pop) system →
      Step workloadSize s (.queue (.calls (some t) .pop)) { s with system := system }
  | queue {s : State workers} (e : QueueEvent (Option (Fin workers)))
      (system : QueueSystem (Option (Fin workers))) :
      (∀ t op, e ≠ .calls t op) →
      QueueSystem.Step s.system e system →
      Step workloadSize s (.queue e)
        { system := system
          main := s.main.after e
          workers := fun t => (s.workers t).after t e }
  | process {s : State workers} (t : Fin workers) (item : PthreadWorkItem) (latency : ℕ) :
      (s.workers t).pc = .processing item →
      Step workloadSize s (.processes t item)
        { s with
          workers := Function.update s.workers t
            { pc := .looping
              context := (s.workers t).context.process (benchmarkData workloadSize) item
                latency } }

/-- The state in which the threads have been created. -/
def start (workloadSize workers : ℕ) (queue : PthreadWorkQueue) : State workers where
  system := QueueSystem.start _ queue
  workers _ := { context := { latencyCapacity := taskCount workloadSize } }

/-- Every `pthread_join` has returned. -/
def State.Joined (s : State workers) : Prop :=
  s.main = .joining ∧ ∀ t, (s.workers t).pc = .returned

/-! ### The sums -/

/-- The local variables of the loop after the joins. -/
structure Totals where
  checksum : UInt64 := 0
  totalAllocations : ℕ := 0
  totalTasks : ℕ := 0
  allLatencies : List (Option ℕ)
  allLatencyCount : ℕ := 0
  deriving DecidableEq, Repr

/-- `all_latencies[all_latency_count++] = value`, if that slot exists. -/
def Totals.write (totals : Totals) (value : ℕ) : Option Totals :=
  if totals.allLatencyCount < totals.allLatencies.length then
    some
      { totals with
        allLatencies := totals.allLatencies.set totals.allLatencyCount (some value)
        allLatencyCount := totals.allLatencyCount + 1 }
  else none

/-- The body of the loop, for one worker. -/
def Totals.add (totals : Totals) (context : WorkerContext) : Option Totals :=
  context.latencies.foldlM Totals.write
    { totals with
      checksum := totals.checksum ^^^ context.checksum
      totalAllocations := totals.totalAllocations + context.allocations
      totalTasks := totals.totalTasks + context.tasksCompleted }

/-- The loop after the joins; it has no result if it writes behind `all_latencies`. -/
def aggregate (workloadSize : ℕ) (s : State workers) : Option Totals :=
  (List.finRange workers).foldlM (fun totals t => totals.add (s.workers t).context)
    { allLatencies := List.replicate (taskCount workloadSize) none }

end PthreadBenchmark

end AccelSim
