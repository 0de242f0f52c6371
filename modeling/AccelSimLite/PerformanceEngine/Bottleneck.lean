import AccelSimLite.PerformanceEngine.WorkItems
import Mathlib.Tactic.Linarith

/-!
# The reported bottleneck

A model of `classify_bottleneck`, and what it says of the single-threaded run. That run
takes no lock and makes one allocation for each work item, so it comes down to the
comparison of the number of items, which is rounded up, with a quotient rounded down.

## Main definitions

- `PerformanceEngine.classifyBottleneck` — the function
- `PerformanceEngine.singleThreadedBottleneck` — the bottleneck of the single-threaded run

## Main results

- `PerformanceEngine.singleThreadedBottleneck_eq` — the decision for every elapsed time
- `PerformanceEngine.ne_allocation_pressure_iff` — when allocation pressure is not reported

## Design notes

Rates and times in milliseconds are rational numbers.
-/

namespace AccelSim

namespace PerformanceEngine

def contentionRate (metrics : WorkerMetrics) : ℚ :=
  if metrics.lockAcquisitions = 0 then 0
  else metrics.contendedLockAcquisitions / metrics.lockAcquisitions

def classifyBottleneck (engine : PerformanceEngine) (metrics : WorkerMetrics) (elapsedMs : ℚ) :
    String :=
  let lockWaitMs : ℚ := metrics.lockWaitNs / 1000000
  let queueWaitMs : ℚ := metrics.queueWaitNs / 1000000
  if engine.config.accessPattern = .cacheUnfriendly ∧ elapsedMs > 0 then
    "cache_locality_pressure"
  else if contentionRate metrics ≥ 15 / 100 ∨ lockWaitMs > elapsedMs * (20 / 100) then
    "lock_contention"
  else if queueWaitMs > elapsedMs * (50 / 100) then "queue_wait_pressure"
  else if metrics.simulatedAllocations > engine.config.workloadSize / engine.config.chunkSize then
    "allocation_pressure"
  else "balanced"

/-- The metrics that `run_single_threaded` passes to `build_result`. -/
def singleThreadedMetrics (engine : PerformanceEngine) : WorkerMetrics :=
  (engine.buildWorkItems.foldl engine.singleStep (0, {})).2

/-- The field `bottleneck` of the result of `run_single_threaded`. -/
def singleThreadedBottleneck (engine : PerformanceEngine) (elapsedMs : ℚ) : String :=
  engine.classifyBottleneck engine.singleThreadedMetrics elapsedMs

/-- Every task makes one allocation, and nobody locks or waits. -/
theorem singleThreadedMetrics_eq (engine : PerformanceEngine) :
    engine.singleThreadedMetrics =
      { tasksCompleted := engine.taskCount, simulatedAllocations := engine.taskCount } := by
  have hloop := engine.foldl_singleStep engine.buildWorkItems
    (fun _ => buildWorkItems_nonempty) (0, {})
  rw [singleThreadedMetrics, hloop]
  simp only [length_buildWorkItems, Nat.zero_add]

/-- The quotient rounded up is above the quotient rounded down unless it is exact. -/
theorem div_lt_taskCount_iff (engine : PerformanceEngine) :
    engine.config.workloadSize / engine.config.chunkSize < engine.taskCount ↔
      ¬engine.config.chunkSize ∣ engine.config.workloadSize := by
  rw [← mul_lt_workloadSize_iff]
  constructor
  · intro hlt hdvd
    rw [Nat.div_mul_cancel hdvd] at hlt
    exact Nat.lt_irrefl _ hlt
  · intro hndvd
    have hle := Nat.div_mul_le_self engine.config.workloadSize engine.config.chunkSize
    refine hle.lt_of_ne fun heq => hndvd ?_
    rw [← heq]
    exact Nat.dvd_mul_left _ _

/-- Without locks and waits only the access pattern and the allocations decide. -/
theorem classifyBottleneck_of_unlocked (engine : PerformanceEngine) {metrics : WorkerMetrics}
    (hlocks : metrics.lockAcquisitions = 0) (hlockWait : metrics.lockWaitNs = 0)
    (hqueueWait : metrics.queueWaitNs = 0) {elapsedMs : ℚ} (helapsed : 0 ≤ elapsedMs) :
    engine.classifyBottleneck metrics elapsedMs =
      if engine.config.accessPattern = .cacheUnfriendly ∧ elapsedMs > 0 then
        "cache_locality_pressure"
      else if metrics.simulatedAllocations >
          engine.config.workloadSize / engine.config.chunkSize then
        "allocation_pressure"
      else "balanced" := by
  have hcontention : ¬(contentionRate metrics ≥ 15 / 100 ∨
      (metrics.lockWaitNs : ℚ) / 1000000 > elapsedMs * (20 / 100)) := by
    rw [contentionRate, if_pos hlocks, hlockWait, Nat.cast_zero, zero_div, not_or]
    constructor
    · norm_num
    · linarith
  have hqueue : ¬(metrics.queueWaitNs : ℚ) / 1000000 > elapsedMs * (50 / 100) := by
    rw [hqueueWait, Nat.cast_zero, zero_div]
    linarith
  rw [classifyBottleneck, if_neg hcontention, if_neg hqueue]

/-- In the single-threaded run the access pattern and the remainder decide. -/
theorem singleThreadedBottleneck_eq (engine : PerformanceEngine) {elapsedMs : ℚ}
    (helapsed : 0 ≤ elapsedMs) :
    engine.singleThreadedBottleneck elapsedMs =
      if engine.config.accessPattern = .cacheUnfriendly ∧ elapsedMs > 0 then
        "cache_locality_pressure"
      else if engine.config.chunkSize ∣ engine.config.workloadSize then "balanced"
      else "allocation_pressure" := by
  rw [singleThreadedBottleneck, singleThreadedMetrics_eq,
    engine.classifyBottleneck_of_unlocked rfl rfl rfl helapsed]
  dsimp only
  by_cases hdvd : engine.config.chunkSize ∣ engine.config.workloadSize
  · have hle : ¬engine.taskCount > engine.config.workloadSize / engine.config.chunkSize :=
      fun hlt => engine.div_lt_taskCount_iff.mp hlt hdvd
    rw [if_neg hle, if_pos hdvd]
  · have hlt : engine.taskCount > engine.config.workloadSize / engine.config.chunkSize :=
      engine.div_lt_taskCount_iff.mpr hdvd
    rw [if_pos hlt, if_neg hdvd]

/-- **One buffer per task** is not reported as allocation pressure, whatever time elapsed,
    exactly when the chunks cut the data without a remainder. -/
theorem ne_allocation_pressure_iff (engine : PerformanceEngine)
    (hpattern : engine.config.accessPattern = .cacheLocal) (elapsedMs : ℚ)
    (helapsed : 0 ≤ elapsedMs) :
    engine.singleThreadedBottleneck elapsedMs ≠ "allocation_pressure" ↔
      engine.config.chunkSize ∣ engine.config.workloadSize := by
  have hlocal : ¬(engine.config.accessPattern = .cacheUnfriendly ∧ elapsedMs > 0) := by
    rw [hpattern]
    exact fun h => by cases h.1
  rw [engine.singleThreadedBottleneck_eq helapsed, if_neg hlocal]
  by_cases hdvd : engine.config.chunkSize ∣ engine.config.workloadSize
  · rw [if_pos hdvd]
    exact iff_of_true (by decide) hdvd
  · rw [if_neg hdvd]
    exact iff_of_false (fun h => h rfl) hdvd

/-- Two full chunks. -/
theorem ne_allocation_pressure_iff_fullChunks :
    (small 512 256 (by decide) (by decide) (by decide)).singleThreadedBottleneck (28 / 1000) ≠
      "allocation_pressure" :=
  (ne_allocation_pressure_iff _ rfl (28 / 1000) (by norm_num)).mpr (by decide)

/-- Three full chunks and a rest of 232 make four tasks with a buffer each. -/
theorem allocation_pressure_shortChunk :
    (small 1000 256 (by decide) (by decide) (by decide)).singleThreadedMetrics =
        { tasksCompleted := 4, simulatedAllocations := 4 } ∧
      (small 1000 256 (by decide) (by decide) (by decide)).singleThreadedBottleneck (28 / 1000) =
        "allocation_pressure" := by
  refine ⟨singleThreadedMetrics_eq _, ?_⟩
  rw [singleThreadedBottleneck_eq _ (by norm_num)]
  decide

end PerformanceEngine

end AccelSim
