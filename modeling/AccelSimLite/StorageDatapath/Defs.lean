import AccelSimLite.PerformanceEngine.Defs
import AccelSimLite.Statistics.Percentiles
import AccelSimLite.WorkloadFile.Defs

/-!
# The storage datapath

A model of the storage simulator: the queue in front of the device, the latency of
each request, the summary of a run with its bottleneck, and the reader of workload
files.

## Main definitions

- `StorageDatapath.Simulator.run` — the results of the requests
- `StorageDatapath.Simulator.summarize` — their summary
- `StorageDatapath.parseWorkloadCsv` — the reader

## Design notes

Times and rates are rational numbers. A quotient by a bandwidth of zero is zero here
and infinite in the code; it goes into the latencies only.
-/

namespace AccelSim

namespace StorageDatapath

inductive Operation
  | read
  | write
  deriving DecidableEq

structure Request where
  id : UInt64
  operation : Operation
  block : UInt64
  sizeBytes : UInt64
  cacheHit : Bool
  deriving DecidableEq

structure Config where
  maxQueueDepth : ℕ := 8
  memoryBandwidthBytesPerUs : ℚ := 4096
  cacheHitLatencyUs : ℚ := 2
  cacheMissLatencyUs : ℚ := 18
  writeBaseLatencyUs : ℚ := 12
  queuePenaltyUs : ℚ := 3 / 2
  /-- The depth is a `std::size_t`. -/
  maxQueueDepth_lt : maxQueueDepth < sizeMod := by decide

structure RequestResult where
  id : UInt64
  queueDelayUs : ℚ
  serviceLatencyUs : ℚ
  totalLatencyUs : ℚ
  queueDepth : ℕ
  cacheHit : Bool
  deriving DecidableEq

structure Summary where
  totalRequests : ℕ
  readRequests : ℕ
  writeRequests : ℕ
  cacheHits : ℕ
  cacheMisses : ℕ
  maxObservedQueueDepth : ℕ
  throughputRequestsPerSec : ℚ
  p50LatencyUs : ℚ
  p95LatencyUs : ℚ
  p99LatencyUs : ℚ
  bottleneck : String

/-- The constructor checks nothing. -/
structure Simulator where
  config : Config

namespace Simulator

variable (simulator : Simulator)

/-! ### Running the requests -/

def serviceLatency (request : Request) : ℚ :=
  let config := simulator.config
  let bandwidthLatency := request.sizeBytes.toNat / config.memoryBandwidthBytesPerUs
  match request.operation with
  | .read =>
    (if request.cacheHit then config.cacheHitLatencyUs else config.cacheMissLatencyUs) +
      bandwidthLatency
  | .write => config.writeBaseLatencyUs + bandwidthLatency

/-- The local variables of the loop over the requests. -/
structure RunState where
  i : ℕ := 0
  virtualTimeUs : ℚ := 0
  completionTimeUs : ℚ := 0
  results : List RequestResult := []

/-- `queue_depth - 1` in `std::size_t`. -/
def depthBelow (queueDepth : ℕ) : ℕ := (queueDepth + (sizeMod - 1)) % sizeMod

/-- The body of the loop. -/
def runStep (s : RunState) (request : Request) : RunState :=
  let queueDepth := min (s.i + 1) simulator.config.maxQueueDepth
  let queueDelay := depthBelow queueDepth * simulator.config.queuePenaltyUs
  let service := simulator.serviceLatency request
  let total := queueDelay + service
  let virtualTimeUs := s.virtualTimeUs + 1
  { i := s.i + 1
    virtualTimeUs := virtualTimeUs
    completionTimeUs := max s.completionTimeUs virtualTimeUs + total
    results := s.results ++
      [{ id := request.id
         queueDelayUs := queueDelay
         serviceLatencyUs := service
         totalLatencyUs := total
         queueDepth := queueDepth
         cacheHit := request.cacheHit }] }

def run (requests : List Request) : List RequestResult :=
  (requests.foldl simulator.runStep {}).results

/-! ### The summary -/

def classifyBottleneck (requests : List Request) (results : List RequestResult) : String :=
  if requests = [] then "none"
  else
    let misses := requests.countP fun request => !request.cacheHit
    let largeRequests := requests.countP fun request => request.sizeBytes ≥ 16384
    let queuePressure := results.countP fun result =>
      result.queueDepth ≥ simulator.config.maxQueueDepth
    let missRate : ℚ := misses / requests.length
    let queueRate : ℚ := queuePressure / results.length
    let largeRequestRate : ℚ := largeRequests / requests.length
    if queueRate ≥ 40 / 100 then "queue_depth_pressure"
    else if missRate ≥ 50 / 100 then "cache_miss_pressure"
    else if largeRequestRate ≥ 40 / 100 then "memory_bandwidth_pressure"
    else "balanced"

/-- `none` when a percentile is read outside its vector. -/
def summarize (requests : List Request) (results : List RequestResult) : Option Summary := do
  let latencies := results.map RequestResult.totalLatencyUs
  let totalRuntimeUs := latencies.sum
  let p50 ← percentile latencies (50 / 100)
  let p95 ← percentile latencies (95 / 100)
  let p99 ← percentile latencies (99 / 100)
  some
    { totalRequests := requests.length
      readRequests := requests.countP fun request => request.operation = .read
      writeRequests := requests.countP fun request => request.operation ≠ .read
      cacheHits := requests.countP fun request => request.cacheHit
      cacheMisses := requests.countP fun request => !request.cacheHit
      maxObservedQueueDepth := (results.map RequestResult.queueDepth).foldl max 0
      throughputRequestsPerSec :=
        if totalRuntimeUs = 0 then 0 else results.length / (totalRuntimeUs / 1000000)
      p50LatencyUs := p50
      p95LatencyUs := p95
      p99LatencyUs := p99
      bottleneck := simulator.classifyBottleneck requests results }

end Simulator

/-! ### Workload files -/

inductive ParseError
  | unableToOpen (path : String)
  /-- An exception of `std::stoull`. -/
  | number (error : LoadError)
  deriving DecidableEq

/-- The text of the exception, where `parse_workload_csv` chooses it. -/
def ParseError.what : ParseError → Option String
  | .unableToOpen path => some ("unable to open workload: " ++ path)
  | .number _ => none

/-- The text of a column, which is empty when the line has ended before it. -/
def field (line : List Char) (i : ℕ) : List Char := (Getline.items ',' line).getD i []

def readNumber (text : List Char) : Except ParseError UInt64 :=
  match stoull text with
  | .ok n => .ok (UInt64.ofNat n)
  | .error error => .error (.number error)

def parseRow (line : List Char) : Except ParseError Request := do
  let id ← readNumber (field line 0)
  let operation := if field line 1 = "read".toList then .read else .write
  let block ← readNumber (field line 2)
  let sizeBytes ← readNumber (field line 3)
  let cacheHit := field line 4 = "true".toList
  .ok { id, operation, block, sizeBytes, cacheHit }

/-- The local variables of the loop over the lines. -/
structure ParseState where
  requests : List Request := []
  first : Bool := true

def parseLine (s : ParseState) (line : List Char) : Except ParseError ParseState :=
  if line = [] then .ok s
  else if s.first ∧ isHeader line then .ok { s with first := false }
  else do
    let request ← parseRow line
    .ok { requests := s.requests ++ [request], first := false }

def parseWorkloadCsv (path : String) (file : Option (List Char)) :
    Except ParseError (List Request) :=
  match file with
  | none => .error (.unableToOpen path)
  | some content => do
    let s ← (Getline.items '\n' content).foldlM parseLine {}
    .ok s.requests

example :
    parseWorkloadCsv "w.csv" (some ("id,operation,block,size_bytes,cache_hit\n" ++
      "1,read,10,4096,true\n\n2,write,11,16384,false").toList) =
      .ok [⟨1, .read, 10, 4096, true⟩, ⟨2, .write, 11, 16384, false⟩] := by
  decide +kernel

end StorageDatapath

end AccelSim
