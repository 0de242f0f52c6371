import AccelSimLite.Simulator.Anomalies
import AccelSimLite.Simulator.LittlesLaw
import Mathlib.Algebra.BigOperators.Ring.Finset
import Mathlib.Algebra.Order.Field.Basic
import Mathlib.Algebra.Order.Field.Rat

/-!
# Throughput and average latency

A model of `Stats::throughput` and `Stats::average_latency`, and what the machine and the
workload allow them to be.

## Main definitions

- `Stats.throughput`, `Stats.averageLatency` — the functions
- `SimulatorConfig.narrowest` — the smallest of the four widths

## Main results

- `throughput_bounds` — the bounds of both, and their product

## Design notes

The two figures are quotients of type `double`, here of rational numbers. The counter of
the total latency is a `uint64_t`, so what is said of the average latency is said of runs
in which the latencies add up to less than `2 ^ 64`.
-/

namespace AccelSim

def Stats.throughput (stats : Stats) : ℚ :=
  if stats.totalCycles = 0 then 0 else (stats.completedOps : ℚ) / stats.totalCycles

def Stats.averageLatency (stats : Stats) : ℚ :=
  if stats.completedOps = 0 then 0 else (stats.totalLatency.toNat : ℚ) / stats.completedOps

/-- The smallest of the four widths. -/
def SimulatorConfig.narrowest (config : SimulatorConfig) : ℕ :=
  min config.frontWidth config.issueWidth

namespace ReachesIn

variable {workload : List Instruction} {config : SimulatorConfig} {k : ℕ} {s : SimState}

/-- The quotients by zero are zero as well. -/
theorem throughput_eq (h : ReachesIn workload config k s) (hexit : hasWorkLeft s = false) :
    (resultOf config s).stats.throughput = (workload.length : ℚ) / k := by
  have hcycles : (resultOf config s).stats.totalCycles = k := h.cycle_eq
  have hdone : (resultOf config s).stats.completedOps = workload.length :=
    (h.completedOps_of_exit hexit).trans (placed_of_reachesIn h).length_eq
  rw [Stats.throughput, hcycles, hdone]
  split_ifs with hzero
  · rw [hzero, Nat.cast_zero, div_zero]
  · rfl

/-- The average latency, while the counter holds the sum itself. -/
theorem averageLatency_eq (h : ReachesIn workload config k s) (hexit : hasWorkLeft s = false)
    (hfits : (s.instructions.map Instruction.latency).sum < 2 ^ 64) :
    (resultOf config s).stats.averageLatency =
      ((∑ i ∈ Finset.range workload.length, (s.instr i).latency : ℕ) : ℚ) / workload.length := by
  have hdone : (resultOf config s).stats.completedOps = workload.length :=
    (h.completedOps_of_exit hexit).trans (placed_of_reachesIn h).length_eq
  have htotal : (resultOf config s).stats.totalLatency.toNat =
      ∑ i ∈ Finset.range workload.length, (s.instr i).latency := by
    rw [h.sum_latency] at hfits
    change s.stats.totalLatency.toNat = _
    rw [h.totalLatency_of_exit hexit, UInt64.toNat_ofNat_of_lt' hfits]
  rw [Stats.averageLatency, hdone, htotal]
  split_ifs with hzero
  · rw [hzero, Nat.cast_zero, div_zero]
  · rfl

theorem length_le_narrowest (h : ReachesIn workload config k s) (hexit : hasWorkLeft s = false) :
    workload.length ≤ config.narrowest * (k - 5) := by
  rcases Nat.le_total config.frontWidth config.issueWidth with hfront | hissue
  · rw [SimulatorConfig.narrowest, min_eq_left hfront]
    exact h.length_le_frontWidth hexit
  · rw [SimulatorConfig.narrowest, min_eq_right hissue]
    exact h.length_le_issueWidth hexit

/-- Each instruction takes three cycles to be issued and its ticks. -/
theorem le_sum_latency (h : ReachesIn workload config k s) (hexit : hasWorkLeft s = false) :
    3 * workload.length + (workload.map Instruction.ticks).sum ≤
      ∑ i ∈ Finset.range workload.length, (s.instr i).latency := by
  have htotal := h.sum_latency_add hexit
  have hissue : ∑ i ∈ Finset.range workload.length, ((s.instr i).enqueueCycle + 3) ≤
      ∑ i ∈ Finset.range workload.length, (s.instr i).issueCycle :=
    Finset.sum_le_sum fun i hi => (h.timestamps_of_exit hexit (Finset.mem_range.mp hi)).1
  rw [Finset.sum_add_distrib, Finset.sum_const_nat fun _ _ => rfl, Finset.card_range] at hissue
  omega

end ReachesIn

/-- **Throughput and latency** of a run that ends. After five cycles for the pipeline to fill
    and to drain, it completes at most the smallest of the widths in a cycle. If the latencies
    do not overflow their counter, an instruction takes at least three cycles and its ticks on
    average, and the product of both figures is the average number of instructions in
    flight. -/
theorem throughput_bounds (workload : List Instruction) (hne : workload ≠ [])
    (config : SimulatorConfig) (fuel : ℕ) (result : RunResult)
    (hrun : runWorkload fuel workload config = .ok (some result)) :
    result.stats.throughput ≤ config.narrowest * (1 - 5 / result.stats.totalCycles) ∧
    ((result.instructions.map fun i => i.completeCycle - i.enqueueCycle).sum < 2 ^ 64 →
      3 + (workload.map Instruction.ticks).sum / workload.length ≤ result.stats.averageLatency ∧
      result.stats.throughput * result.stats.averageLatency =
        (∑ t ∈ Finset.range result.stats.totalCycles,
          ((stateAfter workload config (t + 1)).inFlight : ℚ)) / result.stats.totalCycles) := by
  obtain ⟨k, s, _, h, hexit, rfl⟩ := runWorkload_eq_some_iff.mp hrun
  have hpass := h.length_le_narrowest hexit
  have hlength := List.length_pos_iff.mpr hne
  have hk : 5 < k := by
    by_contra hshort
    rw [Nat.sub_eq_zero_of_le (Nat.le_of_not_lt hshort), Nat.mul_zero] at hpass
    omega
  have hn : (0 : ℚ) < workload.length := by exact_mod_cast hlength
  have hcycles : (0 : ℚ) < k := by exact_mod_cast (Nat.zero_lt_of_lt hk)
  have htotal : (resultOf config s).stats.totalCycles = k := h.cycle_eq
  rw [h.throughput_eq hexit, htotal]
  refine ⟨?_, fun hfits => ?_⟩
  · have hspan : ((k - 5 : ℕ) : ℚ) = k - 5 := by
      rw [Nat.cast_sub hk.le]
      rfl
    have hwidth : (workload.length : ℚ) ≤ config.narrowest * (k - 5) := by
      rw [← hspan]
      exact_mod_cast hpass
    rw [div_le_iff₀ hcycles, mul_assoc, sub_mul, one_mul, div_mul_cancel₀ _ hcycles.ne']
    exact hwidth
  · rw [h.averageLatency_eq hexit hfits]
    constructor
    · have hle : (3 * workload.length + (workload.map Instruction.ticks).sum : ℚ) ≤
          (∑ i ∈ Finset.range workload.length, (s.instr i).latency : ℕ) := by
        exact_mod_cast h.le_sum_latency hexit
      rw [le_div_iff₀ hn, add_mul, div_mul_cancel₀ _ hn.ne']
      exact hle
    · rw [div_mul_div_comm, mul_comm (workload.length : ℚ), mul_div_mul_right _ _ hn.ne',
        ← h.sum_inFlight hexit, Nat.cast_sum]

theorem throughput_bounds_dependentPair :
    ∃ result, runWorkload 12 dependentPair {} = .ok (some result) ∧
      3 + ((4 : ℕ) : ℚ) / (2 : ℕ) ≤ result.stats.averageLatency ∧
      result.stats.throughput * result.stats.averageLatency =
        (∑ t ∈ Finset.range result.stats.totalCycles,
          ((stateAfter dependentPair {} (t + 1)).inFlight : ℚ)) / result.stats.totalCycles := by
  have hrun : ∃ result, runWorkload 12 dependentPair {} = .ok (some result) ∧
      (result.instructions.map fun i => i.completeCycle - i.enqueueCycle).sum < 2 ^ 64 :=
    ⟨_, rfl, by decide⟩
  obtain ⟨result, hrun, hfits⟩ := hrun
  exact ⟨result, hrun,
    (throughput_bounds dependentPair (List.cons_ne_nil _ _) {} 12 result hrun).2 hfits⟩

end AccelSim
