import AccelSimLite.PerformanceEngine.AccessPatterns

/-!
# The strided walk of one item

Where no product wraps, the strided walk through an item meets every index exactly once
precisely when the stride does not divide the number of indices. The item then has the
value that the walk in order computes.

## Main definitions

- `VisitsOnce` — every index of an item is met exactly once

## Main results

- `visitsOnce_iff_perm` — a walk of the right length is then a permutation
- `PerformanceEngine.visitsOnce_strided_iff` — the strided walk
-/

namespace AccelSim

/-- The walk meets every index of the item exactly once. -/
def VisitsOnce (work : WorkItem) (indices : List ℕ) : Prop :=
  ∀ i, work.beginIdx ≤ i → i < work.endIdx → indices.count i = 1

/-- With no more steps than there are indices, nothing else is met. -/
theorem visitsOnce_iff_perm {work : WorkItem} {indices : List ℕ}
    (hlength : indices.length = work.endIdx - work.beginIdx) :
    VisitsOnce work indices ↔
      indices.Perm (List.range' work.beginIdx (work.endIdx - work.beginIdx)) := by
  have hmem : ∀ i, i ∈ List.range' work.beginIdx (work.endIdx - work.beginIdx) ↔
      work.beginIdx ≤ i ∧ i < work.endIdx := by
    intro i
    rw [List.mem_range'_1]
    omega
  constructor
  · intro h
    have hsub : List.range' work.beginIdx (work.endIdx - work.beginIdx) ⊆ indices := by
      intro i hi
      obtain ⟨hbegin, hend⟩ := (hmem i).mp hi
      exact List.count_pos_iff.mp (Nat.lt_of_lt_of_eq Nat.one_pos (h i hbegin hend).symm)
    have hsubperm := List.subperm_of_subset List.nodup_range' hsub
    apply (hsubperm.perm_of_length_le _).symm
    rw [hlength, List.length_range']
  · intro hperm i hbegin hend
    rw [hperm.count_eq]
    exact List.count_eq_one_of_mem List.nodup_range' ((hmem i).mpr ⟨hbegin, hend⟩)

/-- The remainders of the multiples of the stride are all the remainders, or not. -/
theorem perm_strides_iff {span : ℕ} (hpos : 0 < span) (hwrap : 67 * span < sizeMod) :
    ((List.range span).map fun offset => offset * 67 % sizeMod % span).Perm (List.range span) ↔
      ¬67 ∣ span := by
  have hlast : 67 * (span - 1) < sizeMod := by omega
  constructor
  · intro hperm hdvd
    exact not_perm_of_dvd hpos hdvd hlast hperm
  · intro hdvd
    exact StrideSafe.perm ⟨hdvd, Or.inl hlast⟩

namespace PerformanceEngine

theorem visitsOnce_cacheUnfriendly_iff {work : WorkItem}
    (hspan : 1 ≤ work.endIdx - work.beginIdx)
    (hwrap : 67 * (work.endIdx - work.beginIdx) < sizeMod) :
    VisitsOnce work (visitedIndices .cacheUnfriendly work) ↔
      ¬67 ∣ work.endIdx - work.beginIdx := by
  have hlength : (visitedIndices .cacheUnfriendly work).length =
      work.endIdx - work.beginIdx := by
    rw [visitedIndices_cacheUnfriendly, List.length_map, List.length_map, List.length_range]
  rw [visitsOnce_iff_perm hlength, List.range'_eq_map_range, visitedIndices_cacheUnfriendly,
    List.map_perm_map_iff (add_right_injective work.beginIdx), perm_strides_iff hspan hwrap]

/-- **The strided walk of an item** meets every index of the item exactly once if and
    only if the stride does not divide their number, and `process_work` then returns what
    it returns for the walk in order. -/
theorem visitsOnce_strided_iff (engine : PerformanceEngine) (work : WorkItem)
    (hspan : 1 ≤ work.endIdx - work.beginIdx)
    (hwrap : 67 * (work.endIdx - work.beginIdx) < sizeMod) :
    (VisitsOnce work (visitedIndices .cacheUnfriendly work) ↔
        ¬67 ∣ work.endIdx - work.beginIdx) ∧
      (VisitsOnce work (visitedIndices .cacheUnfriendly work) → ∀ metrics,
        ((engine.withPattern .cacheUnfriendly).processWork work metrics).1 =
          ((engine.withPattern .cacheLocal).processWork work metrics).1) := by
  refine ⟨visitsOnce_cacheUnfriendly_iff hspan hwrap, fun hvisits metrics => ?_⟩
  have hwork : work.beginIdx < work.endIdx := by omega
  have hsafe : StrideSafe (work.endIdx - work.beginIdx) :=
    ⟨(visitsOnce_cacheUnfriendly_iff hspan hwrap).mp hvisits, Or.inl (by omega)⟩
  rw [processWork_eq _ hwork, processWork_eq _ hwork]
  exact (engine.itemChecksum_withPattern hwork hsafe).symm

theorem visitsOnce_strided_iff_small :
    (VisitsOnce ⟨1, 256, 512⟩ (visitedIndices .cacheUnfriendly ⟨1, 256, 512⟩) ↔
        ¬67 ∣ 512 - 256) ∧
      (VisitsOnce ⟨1, 256, 512⟩ (visitedIndices .cacheUnfriendly ⟨1, 256, 512⟩) → ∀ metrics,
        (((small 1000 256 (by decide) (by decide) (by decide)).withPattern
            .cacheUnfriendly).processWork ⟨1, 256, 512⟩ metrics).1 =
          (((small 1000 256 (by decide) (by decide) (by decide)).withPattern
            .cacheLocal).processWork ⟨1, 256, 512⟩ metrics).1) :=
  visitsOnce_strided_iff _ ⟨1, 256, 512⟩ (by decide) (by decide)

end PerformanceEngine

end AccelSim
