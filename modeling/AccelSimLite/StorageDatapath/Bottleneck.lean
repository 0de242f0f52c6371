import AccelSimLite.StorageDatapath.QueueDepth
import Mathlib.Tactic.Linarith

/-!
# The bottleneck of a storage workload

Every request from the last place of the queue on counts as queue pressure, whatever it
is. Their share grows with the length of the workload, so that above a certain length
the requests themselves no longer matter.

## Main definitions

- `StorageDatapath.Simulator.bottleneckOf` — the decision, in terms of the requests

## Main results

- `StorageDatapath.Simulator.countP_queueDepth` — how many requests find the queue full
- `StorageDatapath.Simulator.summarize_bottleneck` — the bottleneck of a run
-/

namespace AccelSim

namespace StorageDatapath

/-- A share of `k` in `n`, against a threshold. -/
theorem threshold_le_div {k n p q : ℕ} (hn : 0 < n) (hq : 0 < q) :
    (k : ℚ) / n ≥ p / q ↔ p * n ≤ q * k := by
  have hn' : (0 : ℚ) < n := by exact_mod_cast hn
  have hq' : (0 : ℚ) < q := by exact_mod_cast hq
  rw [ge_iff_le, div_le_div_iff₀ hq' hn', mul_comm (k : ℚ)]
  exact_mod_cast Iff.rfl

/-- From the index `d - 1` on, the positions in a list reach `d`. -/
theorem countP_range_reaches (n d : ℕ) :
    (List.range n).countP (fun i => d ≤ min (i + 1) d) = n - (d - 1) := by
  induction n with
  | zero => simp
  | succ n ih =>
    rw [List.range_succ, List.countP_append, ih, List.countP_singleton]
    split
    · rename_i hreach
      have hle : d ≤ n + 1 := by simpa using hreach
      omega
    · rename_i hreach
      have hlt : n + 1 < d := by simpa using hreach
      omega

namespace Simulator

variable (simulator : Simulator)

/-- What the requests themselves and their number make of the decision. -/
def bottleneckOf (requests : List Request) : String :=
  if 5 * (simulator.config.maxQueueDepth - 1) ≤ 3 * requests.length then "queue_depth_pressure"
  else if requests.length ≤ 2 * requests.countP (fun request => !request.cacheHit) then
    "cache_miss_pressure"
  else if 2 * requests.length ≤ 5 * requests.countP (fun request => request.sizeBytes ≥ 16384) then
    "memory_bandwidth_pressure"
  else "balanced"

theorem map_queueDepth_run (requests : List Request) :
    (simulator.run requests).map RequestResult.queueDepth =
      (List.range requests.length).map fun i => min (i + 1) simulator.config.maxQueueDepth := by
  rw [run_eq]
  apply List.ext_getElem
  · simp
  · intro i hi hi'
    simp

/-- The requests that find the queue full are those behind the first `D - 1`. -/
theorem countP_queueDepth (requests : List Request) :
    (simulator.run requests).countP
        (fun result => result.queueDepth ≥ simulator.config.maxQueueDepth) =
      requests.length - (simulator.config.maxQueueDepth - 1) := by
  have hmap := List.countP_map
    (p := fun depth : ℕ => decide (simulator.config.maxQueueDepth ≤ depth))
    (f := RequestResult.queueDepth) (l := simulator.run requests)
  rw [map_queueDepth_run, List.countP_map] at hmap
  exact hmap.symm.trans (countP_range_reaches _ _)

theorem classifyBottleneck_run {requests : List Request} (hne : requests ≠ []) :
    simulator.classifyBottleneck requests (simulator.run requests) =
      simulator.bottleneckOf requests := by
  have hlength : 0 < requests.length := List.length_pos_iff.mpr hne
  have hqueue : 40 * requests.length ≤
        100 * (requests.length - (simulator.config.maxQueueDepth - 1)) ↔
      5 * (simulator.config.maxQueueDepth - 1) ≤ 3 * requests.length := by omega
  have hmiss (k : ℕ) : 50 * requests.length ≤ 100 * k ↔ requests.length ≤ 2 * k := by omega
  have hlarge (k : ℕ) : 40 * requests.length ≤ 100 * k ↔ 2 * requests.length ≤ 5 * k := by omega
  rw [classifyBottleneck, if_neg hne, countP_queueDepth, length_run]
  have hshare (k p : ℕ) : (k : ℚ) / requests.length ≥ p / 100 ↔
      p * requests.length ≤ 100 * k := threshold_le_div hlength (by decide)
  have hqueueRate := hshare (requests.length - (simulator.config.maxQueueDepth - 1)) 40
  have hmissRate := hshare (requests.countP fun request => !request.cacheHit) 50
  have hlargeRate := hshare (requests.countP fun request => request.sizeBytes ≥ 16384) 40
  push_cast at hqueueRate hmissRate hlargeRate
  simp only [hqueueRate, hmissRate, hlargeRate, hqueue, hmiss, hlarge, bottleneckOf]

/-- The percentiles of a run are read inside the vector of its latencies. -/
theorem exists_summarize_eq_some {requests : List Request} (hne : requests ≠ []) :
    ∃ summary, simulator.summarize requests (simulator.run requests) = some summary ∧
      summary.bottleneck = simulator.classifyBottleneck requests (simulator.run requests) := by
  have hlatencies : (simulator.run requests).map RequestResult.totalLatencyUs ≠ [] := by
    rw [Ne, ← List.length_eq_zero_iff, List.length_map, length_run]
    exact List.length_eq_zero_iff.not.mpr hne
  have hsome (p : ℚ) (hp : p ∈ Set.Icc (0 : ℚ) 1) :
      ∃ v, percentile ((simulator.run requests).map RequestResult.totalLatencyUs) p = some v :=
    Option.isSome_iff_exists.mp (percentileLaws.isSome _ hlatencies p hp)
  obtain ⟨p50, hp50⟩ := hsome (50 / 100) (by norm_num)
  obtain ⟨p95, hp95⟩ := hsome (95 / 100) (by norm_num)
  obtain ⟨p99, hp99⟩ := hsome (99 / 100) (by norm_num)
  simp only [summarize, hp50, hp95, hp99]
  exact ⟨_, rfl, rfl⟩

theorem bottleneckOf_eq_queue_depth_pressure_iff (requests : List Request) :
    simulator.bottleneckOf requests = "queue_depth_pressure" ↔
      5 * (simulator.config.maxQueueDepth - 1) ≤ 3 * requests.length := by
  rw [bottleneckOf]
  split_ifs with hqueue hmiss hlarge
  · exact iff_of_true rfl hqueue
  · exact iff_of_false (by decide) hqueue
  · exact iff_of_false (by decide) hqueue
  · exact iff_of_false (by decide) hqueue

/-- The bottleneck of a run, and the length from which on it is the queue. -/
theorem summarize_bottleneck {requests : List Request} (hne : requests ≠ []) :
    ∃ summary, simulator.summarize requests (simulator.run requests) = some summary ∧
      summary.bottleneck = simulator.bottleneckOf requests ∧
      (summary.bottleneck = "queue_depth_pressure" ↔
        5 * (simulator.config.maxQueueDepth - 1) ≤ 3 * requests.length) ∧
      (5 * ((simulator.config.maxQueueDepth : ℚ) - 1) / 3 ≤ requests.length →
        summary.bottleneck = "queue_depth_pressure") := by
  obtain ⟨summary, hsummary, hbottleneck⟩ := simulator.exists_summarize_eq_some hne
  rw [simulator.classifyBottleneck_run hne] at hbottleneck
  have hqueue := simulator.bottleneckOf_eq_queue_depth_pressure_iff requests
  rw [← hbottleneck] at hqueue
  refine ⟨summary, hsummary, hbottleneck, hqueue, ?_⟩
  intro hlength
  refine hqueue.mpr ?_
  have hbound : (5 * simulator.config.maxQueueDepth : ℚ) ≤ 3 * requests.length + 5 := by linarith
  have hbound' : 5 * simulator.config.maxQueueDepth ≤ 3 * requests.length + 5 := by
    exact_mod_cast hbound
  omega

end Simulator

/-- The workload of the test of the cache pressure. -/
def cachePressureTest : List Request :=
  [⟨1, .read, 1, 4096, false⟩, ⟨2, .read, 2, 4096, false⟩, ⟨3, .read, 3, 4096, false⟩,
   ⟨4, .read, 4, 4096, true⟩]

theorem summarize_bottleneck_cachePressureTest :
    cachePressureTest ≠ [] ∧
      ∃ summary, (Simulator.mk { maxQueueDepth := 32, queuePenaltyUs := 1 / 10 }).summarize
          cachePressureTest ((Simulator.mk { maxQueueDepth := 32, queuePenaltyUs := 1 / 10 }).run
            cachePressureTest) = some summary ∧
        summary.bottleneck = "cache_miss_pressure" := by
  have hne : cachePressureTest ≠ [] := by decide
  obtain ⟨summary, hsummary, hbottleneck, -, -⟩ :=
    (Simulator.mk { maxQueueDepth := 32, queuePenaltyUs := 1 / 10 }).summarize_bottleneck hne
  exact ⟨hne, summary, hsummary, hbottleneck.trans (by decide)⟩

end StorageDatapath

end AccelSim
