import AccelSimLite.RegressionGate.Slowdown
import AccelSimLite.Statistics.Percentiles

/-!
# What the regression gate does not refuse

When every run of the candidate can be matched with a run of the baseline that it exceeds
by no more than the threshold, the gate passes the candidate, and of the stability warnings
it can give only the one about the variance.

## Main definitions

- `SummaryOf` — what the gate reads of the summary of some runs

## Main results

- `median_le_of_paired`, `percentile_le_of_paired` — the statistics of paired lists
- `compare_pass_of_paired` — the gate gives no false alarm
-/

namespace AccelSim
namespace RegressionGate

section

variable {scale : ℚ} {candidate baseline : List ℚ}

theorem median_le_of_paired (hscale : 0 ≤ scale) (h : WithinPaired scale candidate baseline)
    (hne : candidate ≠ []) : median candidate ≤ scale * median baseline := by
  have hpos := List.length_pos_iff.mpr hne
  have hget : ∀ k, k < candidate.length →
      (sorted candidate).getD k 0 ≤ scale * (sorted baseline).getD k 0 := by
    intro k hk
    refine orderStatistic_le_mul (i := k) hscale h ⟨?_, ?_⟩
    · omega
    · omega
  have hmiddle := hget (candidate.length / 2) (by omega)
  simp only [median, length_sorted, ← h.length_eq]
  split
  · exact hmiddle
  · have hbelow := hget (candidate.length / 2 - 1) (by omega)
    linarith

theorem percentile_le_of_paired (hscale : 0 ≤ scale) (h : WithinPaired scale candidate baseline)
    (hne : candidate ≠ []) {fraction : ℚ} (hfraction : fraction ∈ Set.Icc (0 : ℚ) 1) :
    percentile candidate fraction ≤ scale * percentile baseline fraction := by
  have hne' : baseline ≠ [] := by
    rw [← List.length_pos_iff, ← h.length_eq]
    exact List.length_pos_iff.mpr hne
  rw [percentile_eq_interpolate hne, percentile_eq_interpolate hne']
  exact interpolate_orderStatistic_le_mul hscale h hne hfraction

end

/-- What `compare` reads of the summary of some runs that gave one checksum. -/
structure SummaryOf (samples : List Sample) (configuration : Configuration) (checksum : String)
    (summary : Summary) : Prop where
  configuration : summary.configuration = configuration
  checksum : summary.checksum = checksum
  runtimeMedian : summary.runtimeMs.median = median (samples.map Sample.elapsedMs)
  runtimeP95 : summary.runtimeMs.p95 = percentile (samples.map Sample.elapsedMs) (95 / 100)
  runtimeP99 : summary.runtimeMs.p99 = percentile (samples.map Sample.elapsedMs) (99 / 100)
  taskP95Median : summary.taskP95LatencyUs.median = median (samples.map Sample.p95TaskLatencyUs)

theorem exists_summaryOf {samples : List Sample} (hsamples : samples ≠ []) {checksum : String}
    (h : ∀ s ∈ samples, s.checksum = checksum) (label : String) (configuration : Configuration) :
    ∃ summary, summarize samples label configuration.warmupIterations
        configuration.measuredIterations configuration.workers configuration.workloadSize
        configuration.accessPattern configuration.queueBatchSize = .ok summary ∧
      SummaryOf samples configuration checksum summary := by
  have hdedup : (samples.map Sample.checksum).dedup = [checksum] := by
    have hreplicate : samples.map Sample.checksum = List.replicate samples.length checksum :=
      List.eq_replicate_iff.mpr ⟨List.length_map _, by simpa using h⟩
    rw [hreplicate, List.replicate_dedup (List.length_pos_iff.mpr hsamples).ne']
  simp only [summarize, hdedup, List.map_eq_nil_iff, if_neg hsamples]
  exact ⟨_, rfl, rfl, rfl, rfl, rfl, rfl, rfl⟩

/-- A statistic that has grown by no more than the threshold is not reported. -/
theorem percentChange_le_of_le {threshold baseline candidate : ℚ} (ht : 0 ≤ threshold)
    (hbaseline : 0 ≤ baseline) (h : candidate ≤ (1 + threshold / 100) * baseline) :
    percentChange baseline candidate ≤ threshold :=
  (percentChange_le_iff_of_nonneg ht hbaseline candidate).mpr (.inr h)

/-- **No false alarm.** When the runs can be matched, in the elapsed time and, perhaps in
    another way, in the task latency, so that no run of the candidate exceeds its partner by
    more than the threshold, then the gate passes the candidate with exit code zero, and warns
    of nothing but the variance. -/
theorem compare_pass_of_paired (args : CompareArgs) (ht : 0 ≤ args.threshold)
    (baseline candidate : List Sample) (hbaseline : baseline ≠ [])
    (hnonneg : ∀ s ∈ baseline, 0 ≤ s.elapsedMs ∧ 0 ≤ s.p95TaskLatencyUs)
    (hruntime : WithinPaired (1 + args.threshold / 100) (candidate.map Sample.elapsedMs)
      (baseline.map Sample.elapsedMs))
    (htaskP95 : WithinPaired (1 + args.threshold / 100) (candidate.map Sample.p95TaskLatencyUs)
      (baseline.map Sample.p95TaskLatencyUs))
    (checksum : String) (hchecksum : ∀ s ∈ baseline ++ candidate, s.checksum = checksum)
    (configuration configuration' : Configuration) (hagrees : configuration.Agrees configuration')
    (label label' : String) :
    ∃ summary summary' : Summary,
      summarize baseline label configuration.warmupIterations configuration.measuredIterations
        configuration.workers configuration.workloadSize configuration.accessPattern
        configuration.queueBatchSize = .ok summary ∧
      summarize candidate label' configuration'.warmupIterations
        configuration'.measuredIterations configuration'.workers configuration'.workloadSize
        configuration'.accessPattern configuration'.queueBatchSize = .ok summary' ∧
      (compare args summary summary').1.decision = .pass ∧
      (compare args summary summary').2 = 0 ∧
      ∀ warning ∈ (compare args summary summary').1.stabilityWarnings,
        warning = "run-to-run variance increased beyond threshold" := by
  have hcandidate : candidate ≠ [] := by
    have hlength : candidate.length = baseline.length := by simpa using hruntime.length_eq
    rw [← List.length_pos_iff, hlength]
    exact List.length_pos_iff.mpr hbaseline
  obtain ⟨hchecksum, hchecksum'⟩ := List.forall_mem_append.mp hchecksum
  obtain ⟨summary, hsummary, hof⟩ := exists_summaryOf hbaseline hchecksum label configuration
  obtain ⟨summary', hsummary', hof'⟩ :=
    exists_summaryOf hcandidate hchecksum' label' configuration'
  refine ⟨summary, summary', hsummary, hsummary', ?_⟩
  have hscale : 0 ≤ 1 + args.threshold / 100 := by positivity
  have hne {column : Sample → ℚ} : candidate.map column ≠ [] := by simpa using hcandidate
  have hnonneg₁ : ∀ value ∈ baseline.map Sample.elapsedMs, 0 ≤ value := by
    simpa using fun s hs => (hnonneg s hs).1
  have hnonneg₂ : ∀ value ∈ baseline.map Sample.p95TaskLatencyUs, 0 ≤ value := by
    simpa using fun s hs => (hnonneg s hs).2
  have hpass : failures args.threshold summary summary' = [] := by
    rw [failures_eq_nil]
    refine ⟨?_, ?_, ?_, ?_⟩
    · rw [hof.configuration, hof'.configuration]
      exact hagrees
    · rw [hof.checksum, hof'.checksum]
    · simp only [changes, hof.runtimeMedian, hof'.runtimeMedian]
      exact percentChange_le_of_le ht (median_nonneg hnonneg₁)
        (median_le_of_paired hscale hruntime hne)
    · simp only [changes, hof.taskP95Median, hof'.taskP95Median]
      exact percentChange_le_of_le ht (median_nonneg hnonneg₂)
        (median_le_of_paired hscale htaskP95 hne)
  have hdecision := compare_decision.mpr hpass
  refine ⟨hdecision, compare_exitCode.mpr hdecision, ?_⟩
  have hpercentile {fraction : ℚ} (hfraction : fraction ∈ Set.Icc (0 : ℚ) 1) :
      percentChange (percentile (baseline.map Sample.elapsedMs) fraction)
        (percentile (candidate.map Sample.elapsedMs) fraction) ≤ args.threshold :=
    percentChange_le_of_le ht (percentile_nonneg hnonneg₁ _)
      (percentile_le_of_paired hscale hruntime hne hfraction)
  have hp95 : ¬args.threshold < (changes summary summary').runtimeP95Percent := by
    simp only [changes, hof.runtimeP95, hof'.runtimeP95]
    exact not_lt.mpr (hpercentile (by norm_num))
  have hp99 : ¬args.threshold < (changes summary summary').runtimeP99Percent := by
    simp only [changes, hof.runtimeP99, hof'.runtimeP99]
    exact not_lt.mpr (hpercentile (by norm_num))
  intro warning hwarning
  change warning ∈ stabilityWarnings args.threshold summary summary' at hwarning
  rw [stabilityWarnings, appendIf_eq_nil.mpr hp95, appendIf_eq_nil.mpr hp99, List.nil_append,
    List.nil_append, appendIf] at hwarning
  split at hwarning
  · exact List.mem_singleton.mp hwarning
  · cases hwarning

theorem compare_pass_of_paired_tenPercent :
    ∃ summary summary' : Summary,
      summarize [sampleOf 10 3, sampleOf 20 3] "before" 5 2 8 1000 "local" 1 = .ok summary ∧
      summarize [sampleOf 22 3, sampleOf 11 3] "after" 5 2 8 1000 "local" 4 = .ok summary' ∧
      (compare ⟨"baseline.json", "candidate.json", 10⟩ summary summary').1.decision = .pass := by
  have hpaired : ∀ metric : Sample → ℚ,
      (metric (sampleOf 22 3) ≤ (1 + 10 / 100) * metric (sampleOf 20 3)) →
      (metric (sampleOf 11 3) ≤ (1 + 10 / 100) * metric (sampleOf 10 3)) →
      WithinPaired (1 + 10 / 100) ([sampleOf 22 3, sampleOf 11 3].map metric)
        ([sampleOf 10 3, sampleOf 20 3].map metric) :=
    fun metric hfirst hsecond => ⟨[metric (sampleOf 20 3), metric (sampleOf 10 3)],
      List.Perm.swap _ _ _, .cons hfirst (.cons hsecond .nil)⟩
  obtain ⟨summary, summary', hsummary, hsummary', hpass, _⟩ :=
    compare_pass_of_paired ⟨"baseline.json", "candidate.json", 10⟩ (by norm_num)
      [sampleOf 10 3, sampleOf 20 3] [sampleOf 22 3, sampleOf 11 3] (by simp) (by simp [sampleOf])
      (hpaired _ (by norm_num [sampleOf]) (by norm_num [sampleOf]))
      (hpaired _ (by norm_num [sampleOf]) (by norm_num [sampleOf])) "42" (by simp [sampleOf])
      ⟨5, 2, 8, 1000, "local", 1⟩ ⟨5, 2, 8, 1000, "local", 4⟩ ⟨rfl, rfl, rfl, rfl, rfl⟩ "before"
      "after"
  exact ⟨summary, summary', hsummary, hsummary', hpass⟩

end RegressionGate
end AccelSim
