import AccelSimLite.RegressionGate.Defs
import Mathlib.Algebra.Order.BigOperators.Group.List
import Mathlib.Algebra.Order.Field.Basic
import Mathlib.Tactic.Linarith
import Mathlib.Tactic.Positivity

/-!
# What the regression gate lets through

The gate compares two medians with their baselines. A median of zero has no
percentage to grow by, and any candidate passes it.

## Main definitions

- `Configuration.Agrees` — the configurations may be compared
- `WithinLimit` — a metric did not grow past the threshold
- `Admitted` — the gate does not refuse a metric

## Main results

- `summarize_nonNegative` — summaries of non-negative samples are non-negative
- `compare_pass_iff` — when the decision is to pass
- `compare_pass_mono` — a higher threshold lets through no less
-/

namespace AccelSim
namespace RegressionGate

/-! ### The abstract gate -/

/-- The fields by which two configurations may be compared. -/
structure Configuration.Agrees (baseline candidate : Configuration) : Prop where
  warmupIterations : baseline.warmupIterations = candidate.warmupIterations
  measuredIterations : baseline.measuredIterations = candidate.measuredIterations
  workers : baseline.workers = candidate.workers
  workloadSize : baseline.workloadSize = candidate.workloadSize
  accessPattern : baseline.accessPattern = candidate.accessPattern

theorem Configuration.Agrees.refl (c : Configuration) : c.Agrees c :=
  ⟨rfl, rfl, rfl, rfl, rfl⟩

/-- The metric is within the threshold, in percent of the baseline. -/
def WithinLimit (threshold baseline candidate : ℚ) : Prop :=
  candidate ≤ (1 + threshold / 100) * baseline

theorem WithinLimit.refl {threshold baseline : ℚ} (ht : 0 ≤ threshold) (hb : 0 ≤ baseline) :
    WithinLimit threshold baseline baseline := by
  have hgrow : 0 ≤ threshold / 100 * baseline := by positivity
  rw [WithinLimit]
  linarith

theorem WithinLimit.mono {threshold threshold' baseline candidate : ℚ}
    (ht : threshold ≤ threshold') (hb : 0 ≤ baseline)
    (h : WithinLimit threshold baseline candidate) :
    WithinLimit threshold' baseline candidate := by
  refine le_trans h (mul_le_mul_of_nonneg_right ?_ hb)
  linarith

/-- The metric has no baseline to be measured against, or is within the threshold. -/
def Admitted (threshold baseline candidate : ℚ) : Prop :=
  baseline = 0 ∨ WithinLimit threshold baseline candidate

theorem Admitted.mono {threshold threshold' baseline candidate : ℚ}
    (ht : threshold ≤ threshold') (hb : 0 ≤ baseline)
    (h : Admitted threshold baseline candidate) : Admitted threshold' baseline candidate := by
  rcases h with hzero | hlimit
  · exact .inl hzero
  · exact .inr (hlimit.mono ht hb)

/-! ### The percentage -/

theorem percentChange_zero (candidate : ℚ) : percentChange 0 candidate = 0 := if_pos rfl

theorem percentChange_le_iff {baseline : ℚ} (hb : 0 < baseline) (threshold candidate : ℚ) :
    percentChange baseline candidate ≤ threshold ↔
      WithinLimit threshold baseline candidate := by
  have hscale : (candidate - baseline) / baseline * 100 =
      (candidate - baseline) * 100 / baseline := by ring
  rw [percentChange, if_neg hb.ne', hscale, div_le_iff₀ hb, WithinLimit]
  constructor
  · intro h
    linarith
  · intro h
    linarith

/-- With a zero baseline the percentage is zero, whatever the candidate. -/
theorem percentChange_le_iff_of_nonneg {threshold baseline : ℚ} (ht : 0 ≤ threshold)
    (hb : 0 ≤ baseline) (candidate : ℚ) :
    percentChange baseline candidate ≤ threshold ↔ Admitted threshold baseline candidate := by
  rcases hb.eq_or_lt with hzero | hpos
  · subst hzero
    simp [percentChange_zero, Admitted, ht]
  · rw [percentChange_le_iff hpos, Admitted, or_iff_right hpos.ne']

/-! ### Summaries -/

/-- No metric is negative. -/
structure Sample.NonNegative (s : Sample) : Prop where
  elapsedMs : 0 ≤ s.elapsedMs
  throughputItemsPerSecond : 0 ≤ s.throughputItemsPerSecond
  p95TaskLatencyUs : 0 ≤ s.p95TaskLatencyUs
  p99TaskLatencyUs : 0 ≤ s.p99TaskLatencyUs
  lockAcquisitions : 0 ≤ s.lockAcquisitions
  contentionRate : 0 ≤ s.contentionRate

structure MedianAndP95.NonNegative (m : MedianAndP95) : Prop where
  median : 0 ≤ m.median
  p95 : 0 ≤ m.p95

structure RuntimeMs.NonNegative (r : RuntimeMs) : Prop where
  mean : 0 ≤ r.mean
  median : 0 ≤ r.median
  p95 : 0 ≤ r.p95
  p99 : 0 ≤ r.p99
  variance : 0 ≤ r.variance

structure Summary.NonNegative (s : Summary) : Prop where
  runtimeMs : s.runtimeMs.NonNegative
  throughputItemsPerSecond : s.throughputItemsPerSecond.NonNegative
  taskP95LatencyUs : s.taskP95LatencyUs.NonNegative
  taskP99LatencyUs : s.taskP99LatencyUs.NonNegative
  lockAcquisitionsMedian : 0 ≤ s.lockAcquisitionsMedian
  contentionRateMedian : 0 ≤ s.contentionRateMedian

theorem mem_sorted {value : ℚ} {values : List ℚ} : value ∈ sorted values ↔ value ∈ values :=
  (List.perm_insertionSort (· ≤ ·) values).mem_iff

section

variable {values : List ℚ} (hvalues : ∀ value ∈ values, 0 ≤ value)

include hvalues

theorem sorted_getD_nonneg (i : ℕ) : 0 ≤ (sorted values).getD i 0 := by
  rw [List.getD_eq_getElem?_getD]
  cases hget : (sorted values)[i]? with
  | none => exact le_rfl
  | some value => exact hvalues value (mem_sorted.mp (List.mem_of_getElem? hget))

theorem median_nonneg : 0 ≤ median values := by
  have hget := sorted_getD_nonneg hvalues
  simp only [median]
  split
  · exact hget _
  · exact div_nonneg (add_nonneg (hget _) (hget _)) zero_le_two

theorem percentile_nonneg (fraction : ℚ) : 0 ≤ percentile values fraction := by
  have hget := sorted_getD_nonneg hvalues
  simp only [percentile]
  split
  · exact le_rfl
  split
  · exact hget _
  · refine add_nonneg (mul_nonneg (hget _) ?_) (mul_nonneg (hget _) (Int.fract_nonneg _))
    exact sub_nonneg.mpr (Int.fract_lt_one _).le

theorem fmean_nonneg : 0 ≤ fmean values :=
  div_nonneg (List.sum_nonneg hvalues) (Nat.cast_nonneg _)

end

theorem sampleVariance_nonneg {values : List ℚ} (hlength : 1 < values.length) :
    0 ≤ sampleVariance values := by
  refine div_nonneg (List.sum_nonneg ?_) ?_
  · intro square hsquare
    obtain ⟨value, -, rfl⟩ := List.mem_map.mp hsquare
    exact sq_nonneg _
  · rw [sub_nonneg]
    exact_mod_cast hlength.le

/-- The summary of a non-empty list of non-negative samples is non-negative. -/
theorem summarize_nonNegative {samples : List Sample} {label pattern : String}
    {warmups iterations workers workload batchSize : ℤ} {summary : Summary}
    (hsamples : ∀ s ∈ samples, s.NonNegative)
    (h : summarize samples label warmups iterations workers workload pattern batchSize =
      .ok summary) :
    summary.NonNegative := by
  have hcolumn (column : Sample → ℚ) (hle : ∀ s : Sample, s.NonNegative → 0 ≤ column s) :
      ∀ value ∈ samples.map column, 0 ≤ value := by
    intro value hvalue
    obtain ⟨s, hs, rfl⟩ := List.mem_map.mp hvalue
    exact hle s (hsamples s hs)
  have helapsed := hcolumn _ fun _ hs => hs.elapsedMs
  have hthroughput := hcolumn _ fun _ hs => hs.throughputItemsPerSecond
  have hp95 := hcolumn _ fun _ hs => hs.p95TaskLatencyUs
  have hp99 := hcolumn _ fun _ hs => hs.p99TaskLatencyUs
  have hlocks := hcolumn _ fun _ hs => hs.lockAcquisitions
  have hcontention := hcolumn _ fun _ hs => hs.contentionRate
  simp only [summarize] at h
  split at h
  · cases h
  split at h
  · cases h
    refine ⟨⟨fmean_nonneg helapsed, median_nonneg helapsed, percentile_nonneg helapsed _,
      percentile_nonneg helapsed _, ?_⟩, ⟨median_nonneg hthroughput,
      percentile_nonneg hthroughput _⟩, ⟨median_nonneg hp95, percentile_nonneg hp95 _⟩,
      ⟨median_nonneg hp99, percentile_nonneg hp99 _⟩, median_nonneg hlocks,
      median_nonneg hcontention⟩
    dsimp only
    split
    · exact sampleVariance_nonneg ‹_›
    · exact le_rfl
  · cases h

/-! ### The decision -/

theorem appendIf_eq_nil {condition : Prop} [Decidable condition] {message : String} :
    appendIf condition message = [] ↔ ¬condition := by
  by_cases h : condition
  · simp [appendIf, h]
  · simp [appendIf, h]

theorem configurationMismatches_eq_nil {baseline candidate : Configuration} :
    configurationMismatches baseline candidate = [] ↔ baseline.Agrees candidate := by
  simp only [configurationMismatches, comparableFields, List.filterMap_eq_nil_iff,
    List.forall_mem_cons, ite_eq_right_iff, reduceCtorEq, imp_false, not_not,
    FieldValue.int.injEq, FieldValue.str.injEq]
  constructor
  · rintro ⟨hwarmups, hiterations, hworkers, hworkload, hpattern, -⟩
    exact ⟨hwarmups, hiterations, hworkers, hworkload, hpattern⟩
  · rintro ⟨hwarmups, hiterations, hworkers, hworkload, hpattern⟩
    exact ⟨hwarmups, hiterations, hworkers, hworkload, hpattern, by simp⟩

theorem failures_eq_nil {threshold : ℚ} {baseline candidate : Summary} :
    failures threshold baseline candidate = [] ↔
      baseline.configuration.Agrees candidate.configuration ∧
      baseline.checksum = candidate.checksum ∧
      (changes baseline candidate).runtimeMedianPercent ≤ threshold ∧
      (changes baseline candidate).taskP95MedianPercent ≤ threshold := by
  simp only [failures, List.append_eq_nil_iff, appendIf_eq_nil, not_not, not_lt,
    configurationMismatches_eq_nil, and_assoc]

theorem compare_decision {args : CompareArgs} {baseline candidate : Summary} :
    (compare args baseline candidate).1.decision = .pass ↔
      failures args.threshold baseline candidate = [] := by
  by_cases h : failures args.threshold baseline candidate = []
  · simp [compare, h]
  · simp [compare, h]

/-- The process succeeds exactly when the report says so. -/
theorem compare_exitCode {args : CompareArgs} {baseline candidate : Summary} :
    (compare args baseline candidate).2 = 0 ↔
      (compare args baseline candidate).1.decision = .pass := by
  rw [compare_decision]
  by_cases h : failures args.threshold baseline candidate = []
  · simp [compare, h]
  · simp [compare, h]

/-- The gate in its own terms: both configurations, both checksums, two metrics. -/
theorem failures_eq_nil_iff_admitted {threshold : ℚ} {baseline candidate : Summary}
    (ht : 0 ≤ threshold) (hbaseline : baseline.NonNegative) :
    failures threshold baseline candidate = [] ↔
      baseline.configuration.Agrees candidate.configuration ∧
      baseline.checksum = candidate.checksum ∧
      Admitted threshold baseline.runtimeMs.median candidate.runtimeMs.median ∧
      Admitted threshold baseline.taskP95LatencyUs.median
        candidate.taskP95LatencyUs.median := by
  have hruntime := percentChange_le_iff_of_nonneg ht hbaseline.runtimeMs.median
    candidate.runtimeMs.median
  have htaskP95 := percentChange_le_iff_of_nonneg ht hbaseline.taskP95LatencyUs.median
    candidate.taskP95LatencyUs.median
  rw [failures_eq_nil, ← hruntime, ← htaskP95]
  rfl

/-- The decision, in terms of the documents. -/
theorem compare_pass_iff {args : CompareArgs} {baseline candidate : Summary}
    (ht : 0 ≤ args.threshold) (hbaseline : baseline.NonNegative) :
    (compare args baseline candidate).1.decision = .pass ↔
      baseline.configuration.Agrees candidate.configuration ∧
      baseline.checksum = candidate.checksum ∧
      (baseline.runtimeMs.median = 0 ∨ candidate.runtimeMs.median ≤
        (1 + args.threshold / 100) * baseline.runtimeMs.median) ∧
      (baseline.taskP95LatencyUs.median = 0 ∨ candidate.taskP95LatencyUs.median ≤
        (1 + args.threshold / 100) * baseline.taskP95LatencyUs.median) := by
  rw [compare_decision, failures_eq_nil_iff_admitted ht hbaseline]
  rfl

/-- The summary of runs that all took `runtime`, with tasks that all took `taskP95`. -/
def constantSummary (runtime taskP95 : ℚ) : Summary where
  label := "constant"
  configuration := ⟨5, 25, 8, 1000000, "local", 1⟩
  runtimeMs := ⟨runtime, runtime, runtime, runtime, 0⟩
  throughputItemsPerSecond := ⟨1000, 1000⟩
  taskP95LatencyUs := ⟨taskP95, taskP95⟩
  taskP99LatencyUs := ⟨taskP95, taskP95⟩
  lockAcquisitionsMedian := 64
  contentionRateMedian := 0
  checksum := "42"

theorem constantSummary_nonNegative {runtime taskP95 : ℚ} (hruntime : 0 ≤ runtime)
    (htaskP95 : 0 ≤ taskP95) : (constantSummary runtime taskP95).NonNegative where
  runtimeMs := ⟨hruntime, hruntime, hruntime, hruntime, le_rfl⟩
  throughputItemsPerSecond := ⟨by norm_num [constantSummary], by norm_num [constantSummary]⟩
  taskP95LatencyUs := ⟨htaskP95, htaskP95⟩
  taskP99LatencyUs := ⟨htaskP95, htaskP95⟩
  lockAcquisitionsMedian := by norm_num [constantSummary]
  contentionRateMedian := le_rfl

theorem compare_pass_iff_tenPercent :
    (0 : ℚ) ≤ 10 ∧ (constantSummary 20 3).NonNegative ∧
      ((compare ⟨"baseline.json", "candidate.json", 10⟩ (constantSummary 20 3)
          (constantSummary 22 3)).1.decision = .pass ↔
        (constantSummary 20 3).configuration.Agrees (constantSummary 22 3).configuration ∧
        (constantSummary 20 3).checksum = (constantSummary 22 3).checksum ∧
        ((20 : ℚ) = 0 ∨ (22 : ℚ) ≤ (1 + 10 / 100) * 20) ∧
        ((3 : ℚ) = 0 ∨ (3 : ℚ) ≤ (1 + 10 / 100) * 3)) := by
  have hthreshold : (0 : ℚ) ≤ 10 := by norm_num
  have hbaseline : (constantSummary 20 3).NonNegative :=
    constantSummary_nonNegative (by norm_num) (by norm_num)
  exact ⟨hthreshold, hbaseline, compare_pass_iff hthreshold hbaseline⟩

/-- A candidate that takes time where the baseline took none passes. -/
theorem pass_of_zero_baseline :
    (constantSummary 0 0).NonNegative ∧ (constantSummary 5 0).NonNegative ∧
      (compare ⟨"baseline.json", "candidate.json", 10⟩ (constantSummary 0 0)
        (constantSummary 5 0)).1.decision = .pass ∧
      ¬(constantSummary 5 0).runtimeMs.median ≤
        (1 + 10 / 100) * (constantSummary 0 0).runtimeMs.median := by
  have hthreshold : (0 : ℚ) ≤ 10 := by norm_num
  have hbaseline := constantSummary_nonNegative (le_refl 0) (le_refl 0)
  refine ⟨hbaseline, constantSummary_nonNegative (by norm_num) le_rfl, ?_, ?_⟩
  · rw [compare_decision, failures_eq_nil_iff_admitted hthreshold hbaseline]
    exact ⟨.refl _, rfl, .inl rfl, .inl rfl⟩
  · norm_num [constantSummary]

/-- A run is never refused against itself. -/
theorem compare_self {args : CompareArgs} {summary : Summary} (ht : 0 ≤ args.threshold)
    (hsummary : summary.NonNegative) :
    (compare args summary summary).1.decision = .pass := by
  rw [compare_decision, failures_eq_nil_iff_admitted ht hsummary]
  exact ⟨.refl _, rfl, .inr (.refl ht hsummary.runtimeMs.median),
    .inr (.refl ht hsummary.taskP95LatencyUs.median)⟩

theorem compare_pass_mono {args args' : CompareArgs} {baseline candidate : Summary}
    (ht : 0 ≤ args.threshold) (hle : args.threshold ≤ args'.threshold)
    (hbaseline : baseline.NonNegative)
    (h : (compare args baseline candidate).1.decision = .pass) :
    (compare args' baseline candidate).1.decision = .pass := by
  rw [compare_decision, failures_eq_nil_iff_admitted ht hbaseline] at h
  obtain ⟨hagrees, hchecksum, hruntime, htaskP95⟩ := h
  rw [compare_decision, failures_eq_nil_iff_admitted (ht.trans hle) hbaseline]
  exact ⟨hagrees, hchecksum, hruntime.mono hle hbaseline.runtimeMs.median,
    htaskP95.mono hle hbaseline.taskP95LatencyUs.median⟩

end RegressionGate
end AccelSim
