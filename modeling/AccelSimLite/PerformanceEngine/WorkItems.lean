import AccelSimLite.PerformanceEngine.Defs
import Mathlib.Algebra.BigOperators.Group.List.Basic
import Mathlib.Data.Multiset.Fold
import Mathlib.Data.UInt

/-!
# Work items and their checksums

The work items cut the data into chunks, of which only the last can be short.
The checksum of an item depends on the indices the item visits only up to their
order, and the checksum of the single-threaded run on the items likewise.

## Main definitions

- `PerformanceEngine.taskCount` — the number of work items
- `PerformanceEngine.itemChecksum` — what `process_work` returns for an item
- `xorSum` — the exclusive or of a multiset of words
-/

namespace AccelSim

/-! ### Exclusive or -/

/-- The exclusive or of the words of a multiset. -/
def xorSum (words : Multiset UInt64) : UInt64 := words.fold (· ^^^ ·) 0

@[simp] theorem xorSum_zero : xorSum 0 = 0 := rfl

@[simp] theorem xorSum_cons (w : UInt64) (words : Multiset UInt64) :
    xorSum (w ::ₘ words) = w ^^^ xorSum words :=
  Multiset.fold_cons_left _ _ _ _

theorem xorSum_add (words words' : Multiset UInt64) :
    xorSum (words + words') = xorSum words ^^^ xorSum words' := by
  have h := Multiset.fold_add (fun a b : UInt64 => a ^^^ b) 0 0 words words'
  exact h

namespace PerformanceEngine

/-! ### The partition -/

/-- The number of work items: the size of the data by the size of a chunk, rounded up. -/
def taskCount (engine : PerformanceEngine) : ℕ :=
  (engine.config.workloadSize + engine.config.chunkSize - 1) / engine.config.chunkSize

theorem chunkSize_pos (engine : PerformanceEngine) : 0 < engine.config.chunkSize :=
  Nat.pos_of_ne_zero engine.chunkSize_ne

/-- A chunk begins inside the data exactly when it is one of the work items. -/
theorem mul_lt_workloadSize_iff (engine : PerformanceEngine) (k : ℕ) :
    k * engine.config.chunkSize < engine.config.workloadSize ↔ k < engine.taskCount := by
  have hpos := engine.chunkSize_pos
  rw [taskCount, ← Nat.succ_le_iff, ← Nat.succ_le_iff (m := k), Nat.le_div_iff_mul_le hpos,
    Nat.succ_mul]
  omega

theorem buildWorkItems_eq (engine : PerformanceEngine) :
    engine.buildWorkItems = (List.range engine.taskCount).map engine.itemAt := by
  obtain ⟨s, hs, hexit, hrun⟩ := engine.buildLoop_exits
  have hid : s.id = engine.taskCount := by
    apply Nat.le_antisymm
    · by_cases hzero : s.id = 0
      · rw [hzero]
        exact Nat.zero_le _
      · have hlast := (engine.mul_lt_workloadSize_iff _).mp (hs.last_lt hzero)
        omega
    · rw [hs.beginIdx_eq] at hexit
      exact Nat.le_of_not_lt fun hlt =>
        absurd ((engine.mul_lt_workloadSize_iff _).mpr hlt) (Nat.not_lt.mpr hexit)
  rw [buildWorkItems_of_run hrun, hs.items_eq, hid]

theorem length_buildWorkItems (engine : PerformanceEngine) :
    engine.buildWorkItems.length = engine.taskCount := by
  rw [buildWorkItems_eq, List.length_map, List.length_range]

theorem mem_buildWorkItems {engine : PerformanceEngine} {item : WorkItem}
    (h : item ∈ engine.buildWorkItems) : ∃ k, k < engine.taskCount ∧ item = engine.itemAt k := by
  rw [buildWorkItems_eq, List.mem_map] at h
  obtain ⟨k, hk, rfl⟩ := h
  exact ⟨k, List.mem_range.mp hk, rfl⟩

/-- Different items have different ids. -/
theorem nodup_buildWorkItems (engine : PerformanceEngine) : engine.buildWorkItems.Nodup := by
  rw [buildWorkItems_eq]
  refine List.nodup_range.map fun j k h => ?_
  exact congrArg WorkItem.id h

/-- No work item is empty. -/
theorem itemAt_nonempty {engine : PerformanceEngine} {k : ℕ} (hk : k < engine.taskCount) :
    (engine.itemAt k).beginIdx < (engine.itemAt k).endIdx := by
  have hlt := (engine.mul_lt_workloadSize_iff k).mpr hk
  have hpos := engine.chunkSize_pos
  show k * engine.config.chunkSize < min (k * engine.config.chunkSize + engine.config.chunkSize) _
  omega

theorem taskCount_eq_zero_iff (engine : PerformanceEngine) :
    engine.taskCount = 0 ↔ engine.config.workloadSize = 0 := by
  have h := engine.mul_lt_workloadSize_iff 0
  omega

/-! ### Checksums -/

/-- What `process_work` returns for an item. -/
def itemChecksum (engine : PerformanceEngine) (work : WorkItem) : UInt64 :=
  (engine.processWork work {}).1

/-- The counters of `process_work` do not enter its checksum, and an item that is
    not empty counts once in each of them. -/
theorem processWork_eq (engine : PerformanceEngine) {work : WorkItem}
    (hwork : work.beginIdx < work.endIdx) (metrics : WorkerMetrics) :
    engine.processWork work metrics =
      (engine.itemChecksum work,
        { metrics with
          simulatedAllocations := metrics.simulatedAllocations + 1
          tasksCompleted := metrics.tasksCompleted + 1 }) := by
  have hspan : ¬(engine.config.accessPattern = .cacheUnfriendly ∧
      work.endIdx - work.beginIdx = 0) := fun h => by omega
  unfold itemChecksum processWork
  rw [if_neg hspan, if_neg hspan]

theorem gather_eq (engine : PerformanceEngine) (indices : List ℕ) :
    engine.gather indices =
      ((indices.map engine.mixedValue).sum, indices.map engine.mixedValue) := by
  have hloop : ∀ (l : List ℕ) (acc : UInt64 × List UInt64),
      l.foldl (fun acc i => (acc.1 + engine.mixedValue i, acc.2 ++ [engine.mixedValue i])) acc =
        (acc.1 + (l.map engine.mixedValue).sum, acc.2 ++ l.map engine.mixedValue) := by
    intro l
    induction l with
    | nil => intro acc; simp
    | cons i l ih =>
      intro acc
      rw [List.foldl_cons, ih, List.map_cons, List.sum_cons]
      apply Prod.ext
      · exact add_assoc _ _ _
      · exact List.append_assoc _ _ _
  rw [gather, hloop, List.nil_append, zero_add]

/-- A sorted sequence of words is determined by what is in it. -/
theorem insertionSort_eq_of_perm {words words' : List UInt64} (h : words.Perm words') :
    words.insertionSort (· ≤ ·) = words'.insertionSort (· ≤ ·) := by
  have hperm := ((List.perm_insertionSort (· ≤ ·) words).trans h).trans
    (List.perm_insertionSort (· ≤ ·) words').symm
  exact hperm.eq_of_pairwise (fun _ _ _ _ => UInt64.le_antisymm)
    (List.pairwise_insertionSort _ _) (List.pairwise_insertionSort _ _)

/-- What is visited decides the checksum, in whatever order. -/
def checksumOf (engine : PerformanceEngine) (indices : List ℕ) : UInt64 :=
  mixDifferences ((indices.map engine.mixedValue).insertionSort (· ≤ ·))
    (indices.map engine.mixedValue).sum

theorem checksumOf_eq_of_perm (engine : PerformanceEngine) {indices indices' : List ℕ}
    (h : indices.Perm indices') : engine.checksumOf indices = engine.checksumOf indices' := by
  rw [checksumOf, checksumOf, insertionSort_eq_of_perm (h.map _), (h.map _).sum_eq]

theorem itemChecksum_eq (engine : PerformanceEngine) {work : WorkItem}
    (hwork : work.beginIdx < work.endIdx) :
    engine.itemChecksum work =
      engine.checksumOf (visitedIndices engine.config.accessPattern work) := by
  have hspan : ¬(engine.config.accessPattern = .cacheUnfriendly ∧
      work.endIdx - work.beginIdx = 0) := fun h => by omega
  unfold itemChecksum processWork
  rw [if_neg hspan, gather_eq]
  rfl

/-! ### The single-threaded run -/

theorem foldl_singleStep (engine : PerformanceEngine) (items : List WorkItem)
    (hitems : ∀ item ∈ items, item.beginIdx < item.endIdx) (acc : UInt64 × WorkerMetrics) :
    items.foldl engine.singleStep acc =
      (acc.1 ^^^ xorSum (Multiset.map engine.itemChecksum items),
        { acc.2 with
          simulatedAllocations := acc.2.simulatedAllocations + items.length
          tasksCompleted := acc.2.tasksCompleted + items.length }) := by
  induction items generalizing acc with
  | nil => exact Prod.ext (UInt64.xor_zero).symm rfl
  | cons item items ih =>
    have hstep : engine.singleStep acc item =
        (acc.1 ^^^ engine.itemChecksum item,
          { acc.2 with
            simulatedAllocations := acc.2.simulatedAllocations + 1
            tasksCompleted := acc.2.tasksCompleted + 1 }) := by
      rw [singleStep, engine.processWork_eq (hitems item List.mem_cons_self)]
    rw [List.foldl_cons, hstep, ih fun i hi => hitems i (List.mem_cons_of_mem _ hi),
      ← Multiset.cons_coe, Multiset.map_cons, xorSum_cons, List.length_cons]
    apply Prod.ext
    · exact UInt64.xor_assoc _ _ _
    · apply WorkerMetrics.ext
      case tasksCompleted => exact Nat.add_right_comm _ _ _
      case simulatedAllocations => exact Nat.add_right_comm _ _ _
      all_goals rfl

/-- The checksum of a whole workload. -/
def totalChecksum (engine : PerformanceEngine) : UInt64 :=
  xorSum (Multiset.map engine.itemChecksum engine.buildWorkItems)

theorem buildWorkItems_nonempty {engine : PerformanceEngine} {item : WorkItem}
    (h : item ∈ engine.buildWorkItems) : item.beginIdx < item.endIdx := by
  obtain ⟨k, hk, rfl⟩ := mem_buildWorkItems h
  exact itemAt_nonempty hk

theorem runSingleThreaded_eq (engine : PerformanceEngine) :
    engine.runSingleThreaded =
      engine.buildResult "single_threaded"
        { tasksCompleted := engine.taskCount, simulatedAllocations := engine.taskCount }
        engine.totalChecksum engine.taskCount := by
  have hloop := engine.foldl_singleStep engine.buildWorkItems
    (fun _ => buildWorkItems_nonempty) (0, {})
  simp only [runSingleThreaded, hloop, length_buildWorkItems, Nat.zero_add, UInt64.zero_xor]
  rfl

end PerformanceEngine

end AccelSim
