import AccelSimLite.Lib.Percentile
import AccelSimLite.RegressionGate.Defs
import Mathlib.Tactic.NormNum

/-!
# The percentiles of the reports

Four programs of the repository carry their own copy of one routine.

## Main definitions

- `PerformanceEngine.percentile`, `StorageDatapath.percentile`,
  `PthreadBenchmark.percentile` — the copies over vectors and arrays
- `RegressionGate.checkedPercentile` — the copy of the benchmark script, with its
  list accesses checked

## Main results

- `percentile_laws` — all four obey the laws of percentiles

## Design notes

Doubles are rational numbers. A function that reads outside its vector returns `none`.
-/

namespace AccelSim

def PerformanceEngine.percentile (values : List ℚ) (fraction : ℚ) : Option ℚ :=
  interpolatedPercentile values fraction

def StorageDatapath.percentile (values : List ℚ) (p : ℚ) : Option ℚ :=
  interpolatedPercentile values p

/-- The percentile of the first `count` elements of an array. -/
def PthreadBenchmark.percentile (values : List ℚ) (count : ℕ) (fraction : ℚ) : Option ℚ :=
  if count ≤ values.length then interpolatedPercentile (values.take count) fraction else none

namespace RegressionGate

/-- `percentile`, with `none` for an `IndexError`, and for a negative position, which Python
    would count from the end of the list. -/
def checkedPercentile (values : List ℚ) (fraction : ℚ) : Option ℚ :=
  interpolatedPercentile values fraction

theorem sorted_ne_nil {values : List ℚ} (h : values ≠ []) : sorted values ≠ [] := by
  rw [sorted, ← List.length_pos_iff, List.length_insertionSort]
  exact List.length_pos_iff.mpr h

theorem percentile_eq_interpolate {values : List ℚ} (h : values ≠ []) (fraction : ℚ) :
    percentile values fraction =
      interpolate (orderStatistic values) (fraction * ((values.length : ℚ) - 1)) := by
  have hlength : (sorted values).length = values.length := by
    rw [sorted, List.length_insertionSort]
  simp only [percentile, if_neg (sorted_ne_nil h), hlength]
  split_ifs with heq
  · rw [interpolate_of_floor_eq_ceil heq]
    rfl
  · rfl

/-- The script's percentile is the checked one, with no default taken. -/
theorem checkedPercentile_eq {values : List ℚ} (h : values ≠ []) {fraction : ℚ}
    (hfraction : fraction ∈ Set.Icc (0 : ℚ) 1) :
    checkedPercentile values fraction = some (percentile values fraction) := by
  rw [checkedPercentile, interpolatedPercentile_eq h hfraction, percentile_eq_interpolate h]

end RegressionGate

theorem PthreadBenchmark.percentile_length :
    (fun values => PthreadBenchmark.percentile values values.length) = interpolatedPercentile := by
  funext values fraction
  rw [PthreadBenchmark.percentile, if_pos le_rfl, List.take_length]

/-- The median, the 95th and the 99th percentile are in order. -/
theorem ordered_of_percentileLaws {percentile : List ℚ → ℚ → Option ℚ}
    (h : PercentileLaws percentile) {values : List ℚ} (hvalues : values ≠ []) :
    ∀ p50 ∈ percentile values (50 / 100), ∀ p95 ∈ percentile values (95 / 100),
      ∀ p99 ∈ percentile values (99 / 100), p50 ≤ p95 ∧ p95 ≤ p99 := by
  intro p50 hp50 p95 hp95 p99 hp99
  have h50 : (50 / 100 : ℚ) ∈ Set.Icc (0 : ℚ) 1 := by norm_num
  have h95 : (95 / 100 : ℚ) ∈ Set.Icc (0 : ℚ) 1 := by norm_num
  have h99 : (99 / 100 : ℚ) ∈ Set.Icc (0 : ℚ) 1 := by norm_num
  exact ⟨h.mono_fraction values hvalues _ h50 _ h95 (by norm_num) _ hp50 _ hp95,
    h.mono_fraction values hvalues _ h95 _ h99 (by norm_num) _ hp95 _ hp99⟩

/-- Every copy of the routine computes percentiles, and the three that are reported are
    in order. -/
theorem percentile_laws :
    (∀ percentile ∈ [PerformanceEngine.percentile, StorageDatapath.percentile,
        (fun values => PthreadBenchmark.percentile values values.length),
        RegressionGate.checkedPercentile],
      PercentileLaws percentile ∧ ∀ values ≠ [],
        ∀ p50 ∈ percentile values (50 / 100), ∀ p95 ∈ percentile values (95 / 100),
          ∀ p99 ∈ percentile values (99 / 100), p50 ≤ p95 ∧ p95 ≤ p99) ∧
      ∀ values ≠ [], ∀ fraction ∈ Set.Icc (0 : ℚ) 1,
        RegressionGate.checkedPercentile values fraction =
          some (RegressionGate.percentile values fraction) := by
  constructor
  · intro percentile hmem
    have hlaws : PercentileLaws percentile := by
      rw [PthreadBenchmark.percentile_length] at hmem
      simp only [List.mem_cons, List.not_mem_nil, or_false] at hmem
      rcases hmem with rfl | rfl | rfl | rfl
      all_goals exact percentileLaws
    exact ⟨hlaws, fun _ hvalues => ordered_of_percentileLaws hlaws hvalues⟩
  · intro values hvalues fraction hfraction
    exact RegressionGate.checkedPercentile_eq hvalues hfraction

end AccelSim
