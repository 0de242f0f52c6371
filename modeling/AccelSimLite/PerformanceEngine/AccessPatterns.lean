import AccelSimLite.PerformanceEngine.WorkItems
import Mathlib.Data.Nat.Prime.Basic
import Mathlib.Tactic.NormNum.Prime

/-!
# Access patterns

The strided walk through a chunk visits every index once when its stride and the
length of the chunk have no common factor and the products do not wrap in a way
that matters. The checksum then is that of the walk in order.

## Main definitions

- `PerformanceEngine.withPattern` — the same engine with another access pattern
- `StrideSafe` — the lengths for which the strided walk is a permutation
-/

namespace AccelSim

namespace PerformanceEngine

/-- The engine with another access pattern, all else equal. -/
def withPattern (engine : PerformanceEngine) (pattern : AccessPattern) : PerformanceEngine :=
  { engine with config := { engine.config with accessPattern := pattern } }

end PerformanceEngine

/-- A length that the stride of 67 does not divide into, and for which no product
    wraps or wrapping does not change the remainder. -/
def StrideSafe (span : ℕ) : Prop :=
  ¬67 ∣ span ∧ (67 * (span - 1) < sizeMod ∨ span ∣ sizeMod)

instance (span : ℕ) : Decidable (StrideSafe span) := inferInstanceAs (Decidable (_ ∧ _))

/-- The wrap of the product does not show. -/
theorem StrideSafe.mod_eq {span : ℕ} (h : StrideSafe span) {offset : ℕ} (ho : offset < span) :
    offset * 67 % sizeMod % span = offset * 67 % span := by
  obtain hlt | hdvd := h.2
  · have hle : offset * 67 < sizeMod := by omega
    rw [Nat.mod_eq_of_lt hle]
  · exact Nat.mod_mod_of_dvd _ hdvd

theorem StrideSafe.coprime {span : ℕ} (h : StrideSafe span) : span.gcd 67 = 1 := by
  have hprime : Nat.Prime 67 := by norm_num
  rw [Nat.gcd_comm]
  exact (Nat.Prime.coprime_iff_not_dvd hprime).mpr h.1

/-- **The strided walk is a permutation.** -/
theorem StrideSafe.perm {span : ℕ} (h : StrideSafe span) :
    ((List.range span).map fun offset => offset * 67 % sizeMod % span).Perm (List.range span) := by
  have hnodup : ((List.range span).map fun offset => offset * 67 % sizeMod % span).Nodup := by
    refine List.Nodup.map_on (fun i hi j hj heq => ?_) List.nodup_range
    rw [List.mem_range] at hi hj
    rw [h.mod_eq hi, h.mod_eq hj] at heq
    have hmod : i ≡ j [MOD span] := Nat.ModEq.cancel_right_of_coprime h.coprime heq
    rwa [Nat.ModEq, Nat.mod_eq_of_lt hi, Nat.mod_eq_of_lt hj] at hmod
  have hsub : ((List.range span).map fun offset => offset * 67 % sizeMod % span) ⊆
      List.range span := by
    intro i hi
    obtain ⟨offset, ho, rfl⟩ := List.mem_map.mp hi
    exact List.mem_range.mpr (Nat.mod_lt _ (Nat.zero_lt_of_lt (List.mem_range.mp ho)))
  apply (hnodup.subperm hsub).perm_of_length_le
  rw [List.length_map]

/-- When the stride divides the length, the walk meets multiples of the stride
    only, and never the second index. -/
theorem not_perm_of_dvd {span : ℕ} (hpos : 0 < span) (h : 67 ∣ span)
    (hwrap : 67 * (span - 1) < sizeMod) :
    ¬((List.range span).map fun offset => offset * 67 % sizeMod % span).Perm (List.range span) := by
  intro hperm
  have hone : 1 ∈ List.range span := List.mem_range.mpr (by have := Nat.le_of_dvd hpos h; omega)
  obtain ⟨offset, ho, heq⟩ := List.mem_map.mp (hperm.mem_iff.mpr hone)
  have hnowrap : offset * 67 < sizeMod := by
    have := List.mem_range.mp ho
    omega
  rw [Nat.mod_eq_of_lt hnowrap] at heq
  have hdvd : 67 ∣ offset * 67 % span := (Nat.dvd_mod_iff h).mpr (Nat.dvd_mul_left 67 offset)
  rw [heq] at hdvd
  exact absurd hdvd (by decide)

namespace PerformanceEngine

/-- The walk in order, as offsets behind the begin. -/
theorem visitedIndices_cacheLocal (work : WorkItem) :
    visitedIndices .cacheLocal work =
      (List.range (work.endIdx - work.beginIdx)).map (work.beginIdx + ·) := by
  show List.range' _ _ = _
  rw [List.range'_eq_map_range]

/-- The strided walk, as offsets behind the begin. -/
theorem visitedIndices_cacheUnfriendly (work : WorkItem) :
    visitedIndices .cacheUnfriendly work =
      ((List.range (work.endIdx - work.beginIdx)).map fun offset =>
        offset * 67 % sizeMod % (work.endIdx - work.beginIdx)).map (work.beginIdx + ·) := by
  rw [List.map_map]
  rfl

/-- Both patterns visit the same indices of an item of a safe length. -/
theorem visitedIndices_perm {work : WorkItem} (h : StrideSafe (work.endIdx - work.beginIdx)) :
    (visitedIndices .cacheUnfriendly work).Perm (visitedIndices .cacheLocal work) := by
  rw [visitedIndices_cacheLocal, visitedIndices_cacheUnfriendly]
  exact h.perm.map _

/-- The lengths of the work items: a whole chunk, or what is left for the last one. -/
theorem span_itemAt (engine : PerformanceEngine) {k : ℕ} (hk : k < engine.taskCount) :
    (engine.itemAt k).endIdx - (engine.itemAt k).beginIdx = engine.config.chunkSize ∧
        engine.config.chunkSize ≤ engine.config.workloadSize ∨
      (engine.itemAt k).endIdx - (engine.itemAt k).beginIdx =
          engine.config.workloadSize % engine.config.chunkSize ∧
        engine.config.workloadSize % engine.config.chunkSize ≠ 0 := by
  have hlt := (engine.mul_lt_workloadSize_iff k).mpr hk
  have hspan : (engine.itemAt k).endIdx - (engine.itemAt k).beginIdx =
      min engine.config.chunkSize
        (engine.config.workloadSize - k * engine.config.chunkSize) := by
    show min (k * engine.config.chunkSize + engine.config.chunkSize) engine.config.workloadSize -
      k * engine.config.chunkSize = _
    omega
  by_cases hfull : k * engine.config.chunkSize + engine.config.chunkSize ≤
      engine.config.workloadSize
  · left
    rw [hspan]
    omega
  · right
    have hdiv : engine.config.workloadSize / engine.config.chunkSize = k := by
      apply Nat.div_eq_of_lt_le hlt.le
      rw [Nat.succ_mul]
      exact Nat.lt_of_not_le hfull
    have hrest : engine.config.workloadSize % engine.config.chunkSize =
        engine.config.workloadSize - k * engine.config.chunkSize := by
      rw [Nat.mod_eq_sub_mul_div, hdiv, Nat.mul_comm]
    rw [hspan, hrest]
    omega

/-- An item whose length is safe has the same checksum under both patterns. -/
theorem itemChecksum_withPattern (engine : PerformanceEngine) {work : WorkItem}
    (hwork : work.beginIdx < work.endIdx) (h : StrideSafe (work.endIdx - work.beginIdx)) :
    (engine.withPattern .cacheLocal).itemChecksum work =
      (engine.withPattern .cacheUnfriendly).itemChecksum work := by
  rw [itemChecksum_eq _ hwork, itemChecksum_eq _ hwork]
  show engine.checksumOf (visitedIndices .cacheLocal work) =
    engine.checksumOf (visitedIndices .cacheUnfriendly work)
  exact (engine.checksumOf_eq_of_perm (visitedIndices_perm h)).symm

theorem totalChecksum_withPattern (engine : PerformanceEngine)
    (h : ∀ k, k < engine.taskCount →
      StrideSafe ((engine.itemAt k).endIdx - (engine.itemAt k).beginIdx)) :
    (engine.withPattern .cacheLocal).totalChecksum =
      (engine.withPattern .cacheUnfriendly).totalChecksum := by
  have hitems : (engine.withPattern .cacheLocal).buildWorkItems =
      (engine.withPattern .cacheUnfriendly).buildWorkItems := by
    rw [buildWorkItems_eq, buildWorkItems_eq]
    rfl
  rw [totalChecksum, totalChecksum, hitems]
  congr 1
  apply Multiset.map_congr rfl
  intro item hitem
  obtain ⟨k, hk, rfl⟩ := mem_buildWorkItems (Multiset.mem_coe.mp hitem)
  exact engine.itemChecksum_withPattern (itemAt_nonempty hk) (h k hk)

/-- **Both access patterns compute the same checksum** when neither a whole chunk
    nor the short last one has a length that the stride of 67 divides, or a length
    beyond which the products wrap. -/
theorem patterns_agree_of_strideSafe (engine : PerformanceEngine)
    (hchunk : engine.config.chunkSize ≤ engine.config.workloadSize →
      StrideSafe engine.config.chunkSize)
    (hlast : engine.config.workloadSize % engine.config.chunkSize ≠ 0 →
      StrideSafe (engine.config.workloadSize % engine.config.chunkSize)) :
    (engine.withPattern .cacheLocal).runSingleThreaded.checksum =
      (engine.withPattern .cacheUnfriendly).runSingleThreaded.checksum := by
  rw [runSingleThreaded_eq, runSingleThreaded_eq]
  apply totalChecksum_withPattern
  intro k hk
  obtain ⟨hspan, hle⟩ | ⟨hspan, hne⟩ := engine.span_itemAt hk
  · rw [hspan]
    exact hchunk hle
  · rw [hspan]
    exact hlast hne

theorem patterns_agree_of_strideSafe_small :
    ((small 1000 256 (by decide) (by decide) (by decide)).withPattern
        .cacheLocal).runSingleThreaded.checksum =
      ((small 1000 256 (by decide) (by decide) (by decide)).withPattern
        .cacheUnfriendly).runSingleThreaded.checksum :=
  patterns_agree_of_strideSafe _ (fun _ => by decide) (fun _ => by decide)

/-- One chunk of 67 values: the strided walk reads the first of them 67 times. -/
theorem patterns_differ :
    ¬∀ engine : PerformanceEngine,
      (engine.withPattern .cacheLocal).runSingleThreaded.checksum =
        (engine.withPattern .cacheUnfriendly).runSingleThreaded.checksum := by
  intro h
  have hsame := h (small 67 67 (by decide) (by decide) (by decide))
  revert hsame
  decide +kernel

end PerformanceEngine

end AccelSim
