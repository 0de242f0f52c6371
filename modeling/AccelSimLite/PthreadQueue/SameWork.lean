import AccelSimLite.PerformanceEngine.WorkItems
import AccelSimLite.PthreadQueue.Clients

/-!
# The work of the C program and of the engine

The C program cuts the same data into the same items as the engine with chunks of
256, and does the same work for each of them: `qsort` with `compare_uint64` sorts as
`std::sort` does, and the rest is the same arithmetic.

## Main definitions

- `PthreadBenchmark.Corresponds` — an engine that does what the C program does

## Main results

- `PthreadBenchmark.firstWork_eq` — what the push loop pushes
- `PthreadBenchmark.processItem_eq` — the work done for one item
-/

namespace AccelSim

namespace PthreadBenchmark

/-! ### The same data and the same items -/

/-- An engine that does what the C program does. -/
structure Corresponds (engine : PerformanceEngine) : Prop where
  chunkSize_eq : engine.config.chunkSize = chunkSize
  pattern_eq : engine.config.accessPattern = .cacheLocal

variable {engine : PerformanceEngine}

theorem benchmarkData_eq (engine : PerformanceEngine) :
    benchmarkData engine.config.workloadSize = engine.data := engine.data_eq.symm

theorem taskCount_eq (h : Corresponds engine) :
    taskCount engine.config.workloadSize = engine.taskCount := by
  have hsize := engine.workloadSize_le
  have hnowrap : engine.config.workloadSize + chunkSize - 1 < sizeMod := by
    simp only [vectorMaxSize, sizeMod, chunkSize] at hsize ⊢
    omega
  rw [taskCount, PerformanceEngine.taskCount, h.chunkSize_eq, Nat.mod_eq_of_lt hnowrap]

/-- No product or sum wraps, since the item begins inside the data. -/
theorem workOf_benchmarkItem (h : Corresponds engine) {i : ℕ} (hi : i < engine.taskCount)
    (now : ℕ) : workOf (benchmarkItem engine.config.workloadSize i now) = engine.itemAt i := by
  have hsize := engine.workloadSize_le
  have hlt := (engine.mul_lt_workloadSize_iff i).mpr hi
  rw [h.chunkSize_eq] at hlt
  have hmax : vectorMaxSize + chunkSize < sizeMod := by decide
  have hnowrap : i * chunkSize + chunkSize < sizeMod :=
    (Nat.add_lt_add_right (hlt.trans_le hsize) _).trans hmax
  have hbegin : i * chunkSize % sizeMod = i * chunkSize :=
    Nat.mod_eq_of_lt ((Nat.le_add_right _ _).trans_lt hnowrap)
  have hend : (i * chunkSize + chunkSize) % sizeMod = i * chunkSize + chunkSize :=
    Nat.mod_eq_of_lt hnowrap
  rw [workOf, benchmarkItem, hbegin, hend, PerformanceEngine.itemAt, h.chunkSize_eq]
  apply congrArg (WorkItem.mk i (i * chunkSize))
  show (if _ then _ else _) = min _ _
  by_cases hle : engine.config.workloadSize < i * chunkSize + chunkSize
  · rw [if_pos hle, Nat.min_eq_right hle.le]
  · rw [if_neg hle, Nat.min_eq_left (Nat.le_of_not_lt hle)]

theorem firstWork_eq (h : Corresponds engine) :
    firstWork engine.config.workloadSize (taskCount engine.config.workloadSize) =
      engine.buildWorkItems := by
  rw [firstWork, taskCount_eq h, engine.buildWorkItems_eq]
  apply List.map_congr_left
  intro k hk
  exact workOf_benchmarkItem h (List.mem_range.mp hk) 0

/-! ### The same work -/

theorem compareUint64_le_zero_iff (a b : UInt64) : compareUint64 a b ≤ 0 ↔ a ≤ b := by
  unfold compareUint64
  by_cases hlt : a < b
  · rw [if_pos hlt]
    exact iff_of_true (by decide) (UInt64.le_of_lt hlt)
  · rw [if_neg hlt]
    by_cases hgt : b < a
    · rw [if_pos hgt]
      exact iff_of_false (by decide) (UInt64.not_le.mpr hgt)
    · rw [if_neg hgt]
      exact iff_of_true (Int.le_refl 0) (UInt64.not_lt.mp hgt)

/-- `qsort` with `compare_uint64` sorts by value. -/
theorem insertionSort_compareUint64 (words : List UInt64) :
    words.insertionSort (fun a b => compareUint64 a b ≤ 0) = words.insertionSort (· ≤ ·) := by
  have hrel : (fun a b : UInt64 => compareUint64 a b ≤ 0) = (· ≤ ·) := by
    funext a b
    exact propext (compareUint64_le_zero_iff a b)
  congr

/-- The loop that fills `temporary` visits the indices in order. -/
theorem foldl_fillStep (engine : PerformanceEngine) (item : PthreadWorkItem) :
    (List.range (item.endIdx - item.beginIdx)).foldl (fillStep engine.data item) (0, []) =
      engine.gather (PerformanceEngine.visitedIndices .cacheLocal (workOf item)) := by
  show _ = (List.range' item.beginIdx (item.endIdx - item.beginIdx)).foldl _ _
  rw [List.range'_eq_map_range, List.foldl_map]
  rfl

theorem processItem_eq (h : Corresponds engine) {item : PthreadWorkItem}
    (hitem : item.beginIdx < item.endIdx) (allocations : ℕ) :
    processItem engine.data item allocations =
      (engine.itemChecksum (workOf item), allocations + 1) := by
  rw [processItem, foldl_fillStep, engine.gather_eq, engine.itemChecksum_eq hitem, h.pattern_eq,
    PerformanceEngine.checksumOf]
  apply Prod.ext
  · show _ = PerformanceEngine.mixDifferences _ _
    simp only [insertionSort_compareUint64]
    rw [PerformanceEngine.mixDifferences, List.length_insertionSort, List.length_map,
      PerformanceEngine.visitedIndices, List.length_range']
    rfl
  · rfl

end PthreadBenchmark

end AccelSim
