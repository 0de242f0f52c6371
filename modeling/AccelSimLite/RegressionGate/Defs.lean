import Mathlib.Data.List.Sort
import Mathlib.Algebra.Order.Floor.Ring
import Mathlib.Data.Rat.Floor
import Mathlib.Algebra.BigOperators.Group.List.Defs

/-!
# The regression gate

A model of the `benchmark` script: what `summarize` makes of the samples of one
configuration, and what `compare` makes of two such summaries.

## Main definitions

- `Sample`, `Summary`, `Report` — the rows of the benchmark, and the two documents
- `percentile`, `median`, `percentChange` — the numbers
- `summarize`, `compare` — the functions

## Design notes

Metrics are rational numbers. The standard deviation and the confidence interval,
which `compare` does not read, are left out.
-/

namespace AccelSim
namespace RegressionGate

/-- The columns of a benchmark row that `summarize` reads. -/
structure Sample where
  elapsedMs : ℚ
  throughputItemsPerSecond : ℚ
  p95TaskLatencyUs : ℚ
  p99TaskLatencyUs : ℚ
  lockAcquisitions : ℚ
  contentionRate : ℚ
  checksum : String
  deriving DecidableEq

structure Configuration where
  warmupIterations : ℤ
  measuredIterations : ℤ
  workers : ℤ
  workloadSize : ℤ
  accessPattern : String
  queueBatchSize : ℤ
  deriving DecidableEq

structure RuntimeMs where
  mean : ℚ
  median : ℚ
  p95 : ℚ
  p99 : ℚ
  variance : ℚ
  deriving DecidableEq

structure MedianAndP95 where
  median : ℚ
  p95 : ℚ
  deriving DecidableEq

/-- The document that `summarize` returns and `compare` reads. -/
structure Summary where
  label : String
  configuration : Configuration
  runtimeMs : RuntimeMs
  throughputItemsPerSecond : MedianAndP95
  taskP95LatencyUs : MedianAndP95
  taskP99LatencyUs : MedianAndP95
  lockAcquisitionsMedian : ℚ
  contentionRateMedian : ℚ
  checksum : String
  deriving DecidableEq

/-! ### Summaries -/

/-- Python's `sorted`. -/
def sorted (values : List ℚ) : List ℚ := values.insertionSort (· ≤ ·)

def percentile (values : List ℚ) (fraction : ℚ) : ℚ :=
  let ordered := sorted values
  if ordered = [] then 0
  else
    let position := fraction * (ordered.length - 1)
    let lower := ⌊position⌋
    let upper := ⌈position⌉
    if lower = upper then ordered.getD lower.toNat 0
    else
      let weight := position - lower
      ordered.getD lower.toNat 0 * (1 - weight) + ordered.getD upper.toNat 0 * weight

/-- Python's `statistics.median`. -/
def median (values : List ℚ) : ℚ :=
  let ordered := sorted values
  let n := ordered.length
  if n % 2 = 1 then ordered.getD (n / 2) 0
  else (ordered.getD (n / 2 - 1) 0 + ordered.getD (n / 2) 0) / 2

/-- Python's `statistics.fmean`. -/
def fmean (values : List ℚ) : ℚ := values.sum / values.length

/-- Python's `statistics.variance`. -/
def sampleVariance (values : List ℚ) : ℚ :=
  (values.map fun value => (value - fmean values) ^ 2).sum / (values.length - 1)

inductive SummaryError
  /-- `fmean` of an empty list. -/
  | noDataPoint
  | nonDeterministicChecksums (checksums : List String)
  deriving DecidableEq

def summarize (samples : List Sample) (label : String)
    (warmups iterations workers workload : ℤ) (pattern : String) (batchSize : ℤ) :
    Except SummaryError Summary :=
  let elapsed := samples.map Sample.elapsedMs
  let throughput := samples.map Sample.throughputItemsPerSecond
  let p95Latency := samples.map Sample.p95TaskLatencyUs
  let p99Latency := samples.map Sample.p99TaskLatencyUs
  let lockAcquisitions := samples.map Sample.lockAcquisitions
  let contention := samples.map Sample.contentionRate
  if elapsed = [] then .error .noDataPoint
  else
    let variance := if 1 < elapsed.length then sampleVariance elapsed else 0
    match (samples.map Sample.checksum).dedup with
    | [checksum] =>
      .ok
        { label := label
          configuration :=
            { warmupIterations := warmups
              measuredIterations := iterations
              workers := workers
              workloadSize := workload
              accessPattern := pattern
              queueBatchSize := batchSize }
          runtimeMs :=
            { mean := fmean elapsed
              median := median elapsed
              p95 := percentile elapsed (95 / 100)
              p99 := percentile elapsed (99 / 100)
              variance := variance }
          throughputItemsPerSecond := ⟨median throughput, percentile throughput (95 / 100)⟩
          taskP95LatencyUs := ⟨median p95Latency, percentile p95Latency (95 / 100)⟩
          taskP99LatencyUs := ⟨median p99Latency, percentile p99Latency (95 / 100)⟩
          lockAcquisitionsMedian := median lockAcquisitions
          contentionRateMedian := median contention
          checksum := checksum }
    | checksums => .error (.nonDeterministicChecksums checksums)

/-! ### Comparison -/

def percentChange (baseline candidate : ℚ) : ℚ :=
  if baseline = 0 then 0 else (candidate - baseline) / baseline * 100

/-- A value of a configuration field. -/
inductive FieldValue
  | int (value : ℤ)
  | str (value : String)
  deriving DecidableEq

def comparableFields : List (String × (Configuration → FieldValue)) :=
  [("warmup_iterations", fun c => .int c.warmupIterations),
   ("measured_iterations", fun c => .int c.measuredIterations),
   ("workers", fun c => .int c.workers),
   ("workload_size", fun c => .int c.workloadSize),
   ("access_pattern", fun c => .str c.accessPattern)]

structure Mismatch where
  field : String
  baseline : FieldValue
  candidate : FieldValue
  deriving DecidableEq

def configurationMismatches (baseline candidate : Configuration) : List Mismatch :=
  comparableFields.filterMap fun (field, value) =>
    if value baseline ≠ value candidate then some ⟨field, value baseline, value candidate⟩
    else none

structure Changes where
  runtimeMedianPercent : ℚ
  runtimeP95Percent : ℚ
  runtimeP99Percent : ℚ
  taskP95MedianPercent : ℚ
  taskP99MedianPercent : ℚ
  medianThroughputPercent : ℚ
  medianLockAcquisitionsPercent : ℚ
  runtimeVariancePercent : ℚ
  deriving DecidableEq

def changes (baseline candidate : Summary) : Changes where
  runtimeMedianPercent :=
    percentChange baseline.runtimeMs.median candidate.runtimeMs.median
  runtimeP95Percent := percentChange baseline.runtimeMs.p95 candidate.runtimeMs.p95
  runtimeP99Percent := percentChange baseline.runtimeMs.p99 candidate.runtimeMs.p99
  taskP95MedianPercent :=
    percentChange baseline.taskP95LatencyUs.median candidate.taskP95LatencyUs.median
  taskP99MedianPercent :=
    percentChange baseline.taskP99LatencyUs.median candidate.taskP99LatencyUs.median
  medianThroughputPercent :=
    percentChange baseline.throughputItemsPerSecond.median
      candidate.throughputItemsPerSecond.median
  medianLockAcquisitionsPercent :=
    percentChange baseline.lockAcquisitionsMedian candidate.lockAcquisitionsMedian
  runtimeVariancePercent :=
    percentChange baseline.runtimeMs.variance candidate.runtimeMs.variance

/-- What `if condition: messages.append(message)` appends. -/
def appendIf (condition : Prop) [Decidable condition] (message : String) : List String :=
  if condition then [message] else []

def failures (threshold : ℚ) (baseline candidate : Summary) : List String :=
  appendIf (configurationMismatches baseline.configuration candidate.configuration ≠ [])
      "baseline and candidate configurations are incompatible" ++
    appendIf (baseline.checksum ≠ candidate.checksum)
      "candidate checksum differs from baseline" ++
    appendIf (threshold < (changes baseline candidate).runtimeMedianPercent)
      "median runtime regression exceeded threshold" ++
    appendIf (threshold < (changes baseline candidate).taskP95MedianPercent)
      "median task p95 regression exceeded threshold"

def stabilityWarnings (threshold : ℚ) (baseline candidate : Summary) : List String :=
  appendIf (threshold < (changes baseline candidate).runtimeP95Percent)
      "cross-run p95 runtime increased beyond threshold" ++
    appendIf (threshold < (changes baseline candidate).runtimeP99Percent)
      "cross-run p99 runtime increased beyond threshold" ++
    appendIf (threshold < (changes baseline candidate).runtimeVariancePercent)
      "run-to-run variance increased beyond threshold"

/-- The decision, `"PASS"` or `"FAIL"`. -/
inductive Decision
  | pass
  | fail
  deriving DecidableEq, Repr

structure Report where
  baseline : String
  candidate : String
  regressionThresholdPercent : ℚ
  configurationMismatches : List Mismatch
  checksumMatch : Bool
  primaryGateMetrics : List String
  changes : Changes
  stabilityWarnings : List String
  decision : Decision
  reasons : List String
  deriving DecidableEq

/-- The options of the command line that `compare` reads. -/
structure CompareArgs where
  baseline : String
  candidate : String
  threshold : ℚ
  deriving DecidableEq

/-- The report that is printed, and the exit code. -/
def compare (args : CompareArgs) (baseline candidate : Summary) : Report × ℕ :=
  let failures := failures args.threshold baseline candidate
  ({ baseline := args.baseline
     candidate := args.candidate
     regressionThresholdPercent := args.threshold
     configurationMismatches :=
      configurationMismatches baseline.configuration candidate.configuration
     checksumMatch := baseline.checksum = candidate.checksum
     primaryGateMetrics := ["runtime_median_percent", "task_p95_median_percent"]
     changes := changes baseline candidate
     stabilityWarnings := stabilityWarnings args.threshold baseline candidate
     decision := if failures ≠ [] then .fail else .pass
     reasons :=
      if failures ≠ [] then failures
      else ["candidate passed median runtime and task p95 gates"] },
    if failures ≠ [] then 1 else 0)

end RegressionGate
end AccelSim
