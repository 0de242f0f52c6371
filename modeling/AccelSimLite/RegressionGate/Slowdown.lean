import AccelSimLite.Lib.OrderStatistics
import AccelSimLite.RegressionGate.Gate
import Mathlib.Data.List.Dedup

/-!
# Uniform slowdowns

When every run of the candidate can be matched with a run of the baseline that it
exceeds by more than the threshold, the medians are that far apart as well, and
the gate refuses the candidate.

## Main results

- `median_lt_of_paired` — the medians of paired lists
- `compare_fail_of_slowdown` — the gate refuses a uniform slowdown
-/

namespace AccelSim
namespace RegressionGate

/-! ### Medians of paired lists -/

theorem length_sorted (values : List ℚ) : (sorted values).length = values.length :=
  List.length_insertionSort _ values

theorem sorted_getD {values : List ℚ} {k : ℕ} (hk : k < (sorted values).length) :
    (sorted values).getD k 0 = (sorted values)[k] := by
  rw [List.getD_eq_getElem?_getD, List.getElem?_eq_getElem hk, Option.getD_some]

section

variable {scale : ℚ} {values values' : List ℚ}

/-- The `k`-th smallest values are as far apart as the partners of some pair. -/
theorem sorted_getD_lt (hscale : 0 ≤ scale)
    (h : Paired (fun b c => scale * b < c) values values') {k : ℕ} (hk : k < values.length) :
    scale * (sorted values).getD k 0 < (sorted values').getD k 0 := by
  have hlt : k < (sorted values).length := by rwa [length_sorted]
  have hlt' : k < (sorted values').length := by rwa [length_sorted, ← h.length_eq]
  rw [sorted_getD hlt, sorted_getD hlt']
  refine h.getElem_insertionSort ?_ hlt hlt'
  intro b b' c c' hb hslow hc
  calc scale * b ≤ scale * b' := mul_le_mul_of_nonneg_left hb hscale
    _ < c' := hslow
    _ ≤ c := hc

theorem median_lt_of_paired (hscale : 0 ≤ scale)
    (h : Paired (fun b c => scale * b < c) values values') (hvalues : values ≠ []) :
    scale * median values < median values' := by
  have hpos : 0 < values.length := List.length_pos_iff.mpr hvalues
  have hmiddle := sorted_getD_lt hscale h (show values.length / 2 < values.length by omega)
  simp only [median, length_sorted, ← h.length_eq]
  split
  · exact hmiddle
  · have hbelow := sorted_getD_lt hscale h (show values.length / 2 - 1 < values.length by omega)
    linarith

theorem median_pos (hvalues : values ≠ []) (hpos : ∀ value ∈ values, 0 < value) :
    0 < median values := by
  have hget (k : ℕ) (hk : k < values.length) : 0 < (sorted values).getD k 0 := by
    have hlt : k < (sorted values).length := by rwa [length_sorted]
    rw [sorted_getD hlt]
    exact hpos _ (mem_sorted.mp (List.getElem_mem hlt))
  have hlength : 0 < values.length := List.length_pos_iff.mpr hvalues
  have hmiddle := hget (values.length / 2) (by omega)
  simp only [median, length_sorted]
  split
  · exact hmiddle
  · have hbelow := hget (values.length / 2 - 1) (by omega)
    linarith

end

/-! ### Summaries of deterministic runs -/

/-- All samples carry the same checksum. -/
def ConstantChecksum (samples : List Sample) : Prop :=
  ∀ s ∈ samples, ∀ s' ∈ samples, s.checksum = s'.checksum

theorem dedup_checksums {samples : List Sample} (hsamples : samples ≠ [])
    (h : ConstantChecksum samples) :
    ∃ checksum, (samples.map Sample.checksum).dedup = [checksum] := by
  obtain ⟨s, hs⟩ := List.exists_mem_of_ne_nil samples hsamples
  have hreplicate : samples.map Sample.checksum = List.replicate samples.length s.checksum := by
    rw [List.eq_replicate_iff]
    refine ⟨List.length_map _, ?_⟩
    intro checksum hmem
    obtain ⟨s', hs', rfl⟩ := List.mem_map.mp hmem
    exact h s' hs' s hs
  refine ⟨s.checksum, ?_⟩
  rw [hreplicate, List.replicate_dedup (List.length_pos_iff.mpr hsamples).ne']

/-- A non-empty list of samples with one checksum has a summary. -/
theorem exists_summary {samples : List Sample} (hsamples : samples ≠ [])
    (h : ConstantChecksum samples) (label pattern : String)
    (warmups iterations workers workload batchSize : ℤ) :
    ∃ summary : Summary,
      summarize samples label warmups iterations workers workload pattern batchSize =
        .ok summary ∧
      summary.runtimeMs.median = median (samples.map Sample.elapsedMs) ∧
      summary.taskP95LatencyUs.median = median (samples.map Sample.p95TaskLatencyUs) := by
  obtain ⟨checksum, hchecksum⟩ := dedup_checksums hsamples h
  simp only [summarize, hchecksum, List.map_eq_nil_iff, if_neg hsamples]
  exact ⟨_, rfl, rfl, rfl⟩

/-! ### The decision -/

theorem compare_fail_iff {args : CompareArgs} {baseline candidate : Summary} :
    (compare args baseline candidate).1.decision = .fail ↔
      failures args.threshold baseline candidate ≠ [] := by
  by_cases h : failures args.threshold baseline candidate = []
  · simp [compare, h]
  · simp [compare, h]

theorem percentChange_gt_of_paired {threshold : ℚ} (ht : 0 ≤ threshold) {values values' : List ℚ}
    (hvalues : values ≠ []) (hpos : ∀ value ∈ values, 0 < value)
    (h : Paired (fun b c => (1 + threshold / 100) * b < c) values values') :
    threshold < percentChange (median values) (median values') := by
  have hscale : 0 ≤ 1 + threshold / 100 := by positivity
  rw [← not_le, percentChange_le_iff (median_pos hvalues hpos), WithinLimit, not_le]
  exact median_lt_of_paired hscale h hvalues

/-- When some pairing of the samples makes every candidate slower than its partner by more
    than the threshold, in either of the gated metrics, the decision is to fail. -/
theorem compare_fail_of_slowdown (args : CompareArgs) (ht : 0 ≤ args.threshold)
    {metric : Sample → ℚ} (hmetric : metric = Sample.elapsedMs ∨ metric = Sample.p95TaskLatencyUs)
    {baseline candidate : List Sample} (hbaseline : baseline ≠ [])
    (hpos : ∀ s ∈ baseline, 0 < metric s)
    (hslow : Paired (fun b c => (1 + args.threshold / 100) * metric b < metric c) baseline
      candidate)
    (hchecksum : ConstantChecksum baseline) (hchecksum' : ConstantChecksum candidate)
    (label label' pattern pattern' : String)
    (warmups warmups' iterations iterations' workers workers' workload workload' batchSize
      batchSize' : ℤ) :
    ∃ summary summary' : Summary,
      summarize baseline label warmups iterations workers workload pattern batchSize =
        .ok summary ∧
      summarize candidate label' warmups' iterations' workers' workload' pattern' batchSize' =
        .ok summary' ∧
      (compare args summary summary').1.decision = .fail := by
  have hcandidate : candidate ≠ [] := by
    rw [← List.length_pos_iff, ← hslow.length_eq]
    exact List.length_pos_iff.mpr hbaseline
  obtain ⟨summary, hsummary, hruntime, hp95⟩ := exists_summary hbaseline hchecksum label pattern
    warmups iterations workers workload batchSize
  obtain ⟨summary', hsummary', hruntime', hp95'⟩ := exists_summary hcandidate hchecksum' label'
    pattern' warmups' iterations' workers' workload' batchSize'
  refine ⟨summary, summary', hsummary, hsummary', ?_⟩
  have hgrowth : args.threshold <
      percentChange (median (baseline.map metric)) (median (candidate.map metric)) := by
    have hpaired : Paired (fun b c => (1 + args.threshold / 100) * b < c)
        (baseline.map metric) (candidate.map metric) := Paired.map (f := metric) (g := metric) hslow
    refine percentChange_gt_of_paired ht (by simpa using hbaseline) ?_ hpaired
    intro value hvalue
    obtain ⟨s, hs, rfl⟩ := List.mem_map.mp hvalue
    exact hpos s hs
  rw [compare_fail_iff, ne_eq, failures_eq_nil]
  rintro ⟨-, -, hruntimeChange, hp95Change⟩
  simp only [changes, hruntime, hruntime', hp95, hp95'] at hruntimeChange hp95Change
  rcases hmetric with rfl | rfl
  · exact absurd hgrowth (not_lt.mpr hruntimeChange)
  · exact absurd hgrowth (not_lt.mpr hp95Change)

/-- A run that took `runtime`, with tasks that took `taskP95`. -/
def sampleOf (runtime taskP95 : ℚ) : Sample := ⟨runtime, 1000, taskP95, taskP95, 64, 0, "42"⟩

theorem compare_fail_of_slowdown_tenPercent :
    ∃ summary summary' : Summary,
      summarize [sampleOf 10 3, sampleOf 20 3] "before" 5 2 8 1000 "local" 1 = .ok summary ∧
      summarize [sampleOf 30 3, sampleOf 12 3] "after" 5 2 8 1000 "local" 1 = .ok summary' ∧
      (compare ⟨"baseline.json", "candidate.json", 10⟩ summary summary').1.decision = .fail := by
  have hchecksum (a b c d : ℚ) : ConstantChecksum [sampleOf a b, sampleOf c d] := by
    simp [ConstantChecksum, sampleOf]
  refine compare_fail_of_slowdown ⟨"baseline.json", "candidate.json", 10⟩ (by norm_num) (.inl rfl)
    (by simp) ?_ ?_ (hchecksum _ _ _ _) (hchecksum _ _ _ _) _ _ _ _ _ _ _ _ _ _ _ _ _ _
  · simp [sampleOf]
  · refine ⟨[sampleOf 12 3, sampleOf 30 3], List.Perm.swap _ _ _, ?_⟩
    norm_num [sampleOf]

end RegressionGate
end AccelSim
