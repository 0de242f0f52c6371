import AccelSimLite.Lib.Counters
import AccelSimLite.Lib.WhileLoop
import Mathlib.Data.Finset.Insert
import Mathlib.Order.Lattice.Nat

/-!
# The cycle simulator

A model of `run_workload`: the data it reads, its six queues and counters, the
passes of one cycle in the order in which the loop body makes them, and the loop.

## Main definitions

- `Instruction`, `SimulatorConfig`, `Stats` — the data model
- `SimState` — the local variables of `run_workload` at the head of its loop
- `retirePass`, `executeTick`, `dispatchPass`, `issuePass`, `enterDispatch`,
  `decodePass`, `fetchPass`, `recordCycle` — the parts of the loop body
- `cycleBody`, `runWorkload` — one iteration, and the whole function

## Design notes

Unsigned integers are natural numbers, but for `total_latency`: it adds up
differences, which can be as large as a latency, and wraps around as a `uint64_t`.
The other counters are only incremented and start at zero, so a run would have to
last longer than any machine counts before one of them could wrap. A queue is the
list of its entries, front first. Loops that take from a queue until it is empty,
or for as many times as it had entries, iterate their body that many times.
-/

namespace AccelSim

inductive OpType
  | compute
  | load
  | store
  deriving DecidableEq, Repr

inductive Stage
  | fetch
  | decode
  | dispatch
  | ready
  | execute
  | retire
  | done
  deriving DecidableEq, Repr

structure Instruction where
  id : ℕ := 0
  type : OpType := .compute
  executeLatency : ℕ := 1
  memoryBytes : ℕ := 0
  deps : List ℕ := []
  stage : Stage := .fetch
  enqueueCycle : ℕ := 0
  issueCycle : ℕ := 0
  completeCycle : ℕ := 0
  deriving DecidableEq, Repr, Inhabited

def isMemoryOp (type : OpType) : Bool := type = .load ∨ type = .store

structure SimulatorConfig where
  fetchWidth : ℕ := 4
  decodeWidth : ℕ := 4
  dispatchWidth : ℕ := 4
  issueWidth : ℕ := 2
  computeUnits : ℕ := 2
  memoryPorts : ℕ := 1
  dispatchQueueCapacity : ℕ := 16
  readyQueueCapacity : ℕ := 16
  workloadName : String := "unknown"

/-- The keys of `stall_counts`, in the order of their names. -/
inductive StallReason
  | dispatchQueueFull
  | noComputeUnit
  | noMemoryPort
  | readyQueueFull
  | waitingDependency
  deriving DecidableEq, Repr

/-- The keys of `stage_busy_cycles`, in the order of their names. -/
inductive BusyStage
  | decode
  | dispatch
  | execute
  | fetch
  | issue
  | retire
  deriving DecidableEq, Repr

/-- The keys of `max_queue_occupancy`, in the order of their names. -/
inductive QueueName
  | decodeQ
  | dispatchQ
  | executeSlots
  | fetchQ
  | readyQ
  | retireQ
  deriving DecidableEq, Repr

instance : LinearOrder StallReason :=
  LinearOrder.lift' StallReason.ctorIdx
    (by intro a b h; cases a <;> cases b <;> first | rfl | cases h)

instance : LinearOrder BusyStage :=
  LinearOrder.lift' BusyStage.ctorIdx
    (by intro a b h; cases a <;> cases b <;> first | rfl | cases h)

instance : LinearOrder QueueName :=
  LinearOrder.lift' QueueName.ctorIdx
    (by intro a b h; cases a <;> cases b <;> first | rfl | cases h)

@[ext] structure Stats where
  totalCycles : ℕ := 0
  completedOps : ℕ := 0
  totalLatency : UInt64 := 0
  stageBusyCycles : Counters BusyStage := .empty
  stallCounts : Counters StallReason := .empty
  maxQueueOccupancy : Counters QueueName := .empty

structure ExecSlot where
  index : ℕ
  remaining : ℕ
  usesMemory : Bool
  deriving DecidableEq, Repr

/-- The variables of `run_workload` that live across iterations of its loop. -/
@[ext] structure SimState where
  instructions : List Instruction
  stats : Stats
  fetchQ : List ℕ := []
  decodeQ : List ℕ := []
  dispatchQ : List ℕ := []
  readyQ : List ℕ := []
  retireQ : List ℕ := []
  execSlots : List ExecSlot := []
  retiredIds : Finset ℕ := ∅
  nextToFetch : ℕ := 0
  cycle : ℕ := 0
  computeInUse : ℕ := 0
  memoryInUse : ℕ := 0

structure RunResult where
  config : SimulatorConfig
  stats : Stats
  instructions : List Instruction

namespace SimState

/-- `result.instructions[idx]`. -/
def instr (s : SimState) (idx : ℕ) : Instruction := s.instructions.getD idx default

/-- Write fields of `result.instructions[idx]`. -/
def modifyInstr (s : SimState) (idx : ℕ) (f : Instruction → Instruction) : SimState :=
  { s with instructions := s.instructions.modify idx f }

/-- `bump(stats.stall_counts, reason)`. -/
def bumpStall (s : SimState) (reason : StallReason) : SimState :=
  { s with stats := { s.stats with stallCounts := s.stats.stallCounts.bump reason 1 } }

end SimState

def depsSatisfied (instruction : Instruction) (retiredIds : Finset ℕ) : Bool :=
  instruction.deps.all fun dep => dep ∈ retiredIds

def hasWorkLeft (s : SimState) : Bool :=
  s.nextToFetch < s.instructions.length || !s.fetchQ.isEmpty || !s.decodeQ.isEmpty ||
    !s.dispatchQ.isEmpty || !s.readyQ.isEmpty || !s.retireQ.isEmpty || !s.execSlots.isEmpty

/-! ### Retire and execute -/

/-- One iteration of `while (!retire_q.empty())`. -/
def retireIter (s : SimState) : SimState :=
  match s.retireQ with
  | [] => s
  | idx :: rest =>
    let instruction := s.instr idx
    { s.modifyInstr idx (fun i => { i with stage := .done }) with
      retireQ := rest
      retiredIds := insert instruction.id s.retiredIds
      stats := { s.stats with
        completedOps := s.stats.completedOps + 1
        totalLatency := s.stats.totalLatency +
          (UInt64.ofNat instruction.completeCycle - UInt64.ofNat instruction.enqueueCycle) } }

def retirePass (s : SimState) : SimState := retireIter^[s.retireQ.length] s

/-- The loop over `exec_slots`, with `remaining_slots`, `finished` and the two
    usage counters as accumulators. It throws when a counter would underflow. -/
def tickSlots : List ExecSlot → List ExecSlot → List ℕ → ℕ → ℕ →
    Except String (List ExecSlot × List ℕ × ℕ × ℕ)
  | [], remainingSlots, finished, memoryInUse, computeInUse =>
    .ok (remainingSlots, finished, memoryInUse, computeInUse)
  | slot :: slots, remainingSlots, finished, memoryInUse, computeInUse =>
    let slot := if slot.remaining > 0 then { slot with remaining := slot.remaining - 1 } else slot
    -- a latency of zero finishes on the first tick, like a latency of one
    if slot.remaining = 0 then
      if slot.usesMemory then
        if memoryInUse = 0 then .error "memory resource underflow"
        else tickSlots slots remainingSlots (finished ++ [slot.index]) (memoryInUse - 1)
          computeInUse
      else
        if computeInUse = 0 then .error "compute resource underflow"
        else tickSlots slots remainingSlots (finished ++ [slot.index]) memoryInUse
          (computeInUse - 1)
    else tickSlots slots (remainingSlots ++ [slot]) finished memoryInUse computeInUse

/-- The body of `for (const auto idx : finished)`. -/
def finishOne (s : SimState) (idx : ℕ) : SimState :=
  { s.modifyInstr idx (fun i => { i with completeCycle := s.cycle, stage := .retire }) with
    retireQ := s.retireQ ++ [idx] }

def executeTick (s : SimState) : Except String SimState :=
  match tickSlots s.execSlots [] [] s.memoryInUse s.computeInUse with
  | .error e => .error e
  | .ok (remainingSlots, finished, memoryInUse, computeInUse) =>
    .ok (finished.foldl finishOne
      { s with execSlots := remainingSlots, memoryInUse := memoryInUse,
               computeInUse := computeInUse })

/-! ### Dispatch and issue -/

/-- One iteration of the loop over `dispatch_span`. -/
def dispatchIter (config : SimulatorConfig) (s : SimState) : SimState :=
  match s.dispatchQ with
  | [] => s
  | idx :: rest =>
    if depsSatisfied (s.instr idx) s.retiredIds then
      if s.readyQ.length < config.readyQueueCapacity then
        { s.modifyInstr idx (fun i => { i with stage := .ready }) with
          dispatchQ := rest
          readyQ := s.readyQ ++ [idx] }
      else { s.bumpStall .readyQueueFull with dispatchQ := rest ++ [idx] }
    else { s.bumpStall .waitingDependency with dispatchQ := rest ++ [idx] }

def dispatchPass (config : SimulatorConfig) (s : SimState) : SimState :=
  (dispatchIter config)^[s.dispatchQ.length] s

/-- One iteration of the loop over `ready_span`, with the local `issued`. -/
def issueIter (config : SimulatorConfig) : SimState × ℕ → SimState × ℕ
  | (s, issued) =>
    match s.readyQ with
    | [] => (s, issued)
    | idx :: rest =>
      -- put back without a stall reason
      if config.issueWidth ≤ issued then ({ s with readyQ := rest ++ [idx] }, issued)
      else
        let usesMemory := isMemoryOp (s.instr idx).type
        let slot : ExecSlot := ⟨idx, (s.instr idx).executeLatency, usesMemory⟩
        let start : Instruction → Instruction :=
          fun i => { i with stage := .execute, issueCycle := s.cycle }
        if usesMemory then
          if config.memoryPorts ≤ s.memoryInUse then
            ({ s.bumpStall .noMemoryPort with readyQ := rest ++ [idx] }, issued)
          else
            ({ s.modifyInstr idx start with
              readyQ := rest
              memoryInUse := s.memoryInUse + 1
              execSlots := s.execSlots ++ [slot] }, issued + 1)
        else
          if config.computeUnits ≤ s.computeInUse then
            ({ s.bumpStall .noComputeUnit with readyQ := rest ++ [idx] }, issued)
          else
            ({ s.modifyInstr idx start with
              readyQ := rest
              computeInUse := s.computeInUse + 1
              execSlots := s.execSlots ++ [slot] }, issued + 1)

def issuePass (config : SimulatorConfig) (s : SimState) : SimState :=
  ((issueIter config)^[s.readyQ.length] (s, 0)).1

/-! ### The front end -/

/-- The loop from `decode_q` to `dispatch_q`, with the width that is left. -/
def enterDispatchLoop (config : SimulatorConfig) : ℕ → SimState → SimState
  | 0, s => s
  | width + 1, s =>
    match s.decodeQ with
    | [] => s
    | idx :: rest =>
      -- one stall for the cycle, however many entries are kept out
      if config.dispatchQueueCapacity ≤ s.dispatchQ.length then s.bumpStall .dispatchQueueFull
      else enterDispatchLoop config width
        { s.modifyInstr idx (fun i => { i with stage := .dispatch }) with
          decodeQ := rest
          dispatchQ := s.dispatchQ ++ [idx] }

def enterDispatch (config : SimulatorConfig) (s : SimState) : SimState :=
  enterDispatchLoop config config.dispatchWidth s

/-- The loop from `fetch_q` to `decode_q`, with the width that is left. -/
def decodeLoop : ℕ → SimState → SimState
  | 0, s => s
  | width + 1, s =>
    match s.fetchQ with
    | [] => s
    | idx :: rest =>
      decodeLoop width
        { s.modifyInstr idx (fun i => { i with stage := .decode }) with
          fetchQ := rest
          decodeQ := s.decodeQ ++ [idx] }

def decodePass (config : SimulatorConfig) (s : SimState) : SimState :=
  decodeLoop config.decodeWidth s

/-- The fetch loop, with the width that is left. -/
def fetchLoop : ℕ → SimState → SimState
  | 0, s => s
  | width + 1, s =>
    if s.nextToFetch < s.instructions.length then
      fetchLoop width
        { s.modifyInstr s.nextToFetch
            (fun i => { i with stage := .fetch, enqueueCycle := s.cycle }) with
          fetchQ := s.fetchQ ++ [s.nextToFetch]
          nextToFetch := s.nextToFetch + 1 }
    else s

def fetchPass (config : SimulatorConfig) (s : SimState) : SimState :=
  fetchLoop config.fetchWidth s

/-! ### The loop -/

/-- `if (busy) bump(stats.stage_busy_cycles, stage)`. -/
def bumpBusyIf (busy : Bool) (stage : BusyStage) (m : Counters BusyStage) : Counters BusyStage :=
  if busy then m.bump stage 1 else m

/-- The statistics at the end of the loop body, and the next cycle. -/
def recordCycle (s : SimState) : SimState :=
  -- both kinds of statistics see the queues as the cycle leaves them
  let busy := bumpBusyIf (s.nextToFetch < s.instructions.length) .fetch s.stats.stageBusyCycles
  let busy := bumpBusyIf (!s.fetchQ.isEmpty) .decode busy
  let busy := bumpBusyIf (!s.decodeQ.isEmpty || !s.dispatchQ.isEmpty) .dispatch busy
  let busy := bumpBusyIf (!s.readyQ.isEmpty) .issue busy
  let busy := bumpBusyIf (!s.execSlots.isEmpty) .execute busy
  let busy := bumpBusyIf (!s.retireQ.isEmpty) .retire busy
  let occupancy := s.stats.maxQueueOccupancy
  let occupancy := occupancy.updateMax .fetchQ s.fetchQ.length
  let occupancy := occupancy.updateMax .decodeQ s.decodeQ.length
  let occupancy := occupancy.updateMax .dispatchQ s.dispatchQ.length
  let occupancy := occupancy.updateMax .readyQ s.readyQ.length
  let occupancy := occupancy.updateMax .executeSlots s.execSlots.length
  let occupancy := occupancy.updateMax .retireQ s.retireQ.length
  { s with
    stats := { s.stats with stageBusyCycles := busy, maxQueueOccupancy := occupancy }
    cycle := s.cycle + 1 }

/-- The state in which the dispatch pass of an iteration begins. -/
def dispatchStart (s : SimState) : Except String SimState := executeTick (retirePass s)

/-- The part of the loop body after the execute tick. -/
def scheduleCycle (config : SimulatorConfig) (s : SimState) : SimState :=
  let s := dispatchPass config s
  let s := issuePass config s
  let s := enterDispatch config s
  let s := decodePass config s
  let s := fetchPass config s
  recordCycle s

/-- One iteration of the loop of `run_workload`. -/
def cycleBody (config : SimulatorConfig) (s : SimState) : Except String SimState :=
  match dispatchStart s with
  | .error e => .error e
  | .ok s => .ok (scheduleCycle config s)

/-- The state in which `run_workload` enters its loop. -/
def initState (workload : List Instruction) : SimState :=
  { instructions := workload
    stats :=
      { stageBusyCycles := ((((((Counters.empty.bump .fetch 0).bump .decode 0).bump .dispatch 0).bump
          .issue 0).bump .execute 0).bump .retire 0)
        stallCounts := (((((Counters.empty.bump .dispatchQueueFull 0).bump .readyQueueFull 0).bump
          .waitingDependency 0).bump .noComputeUnit 0).bump .noMemoryPort 0) } }

/-- What `run_workload` returns when its loop has ended in state `s`. -/
def resultOf (config : SimulatorConfig) (s : SimState) : RunResult :=
  { config := config
    stats := { s.stats with totalCycles := s.cycle }
    instructions := s.instructions }

/-- `run_workload`, for at most `fuel` cycles: `none` when work is left after them. -/
def runWorkload (fuel : ℕ) (workload : List Instruction) (config : SimulatorConfig) :
    Except String (Option RunResult) :=
  (WhileLoop.run hasWorkLeft (cycleBody config) fuel (initState workload)).map
    (Option.map (resultOf config))

/-- The call of `run_workload` returns. -/
def Terminates (workload : List Instruction) (config : SimulatorConfig) : Prop :=
  ∃ fuel result, runWorkload fuel workload config = .ok (some result)

/-- `s` is the state at the head of the loop after `k` completed iterations. -/
def ReachesIn (workload : List Instruction) (config : SimulatorConfig) (k : ℕ) (s : SimState) :
    Prop :=
  WhileLoop.ReachesIn hasWorkLeft (cycleBody config) k (initState workload) s

/-- The state at the head of the loop after `k` completed iterations. -/
def stateAfter (workload : List Instruction) (config : SimulatorConfig) (k : ℕ) : SimState :=
  WhileLoop.after (cycleBody config) k (initState workload)

end AccelSim
