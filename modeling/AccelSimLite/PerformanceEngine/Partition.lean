import AccelSimLite.PerformanceEngine.WorkItems
import Mathlib.Algebra.Order.Floor.Div
import Mathlib.Data.List.Range

/-!
# The partition of the data

The work items cut the indices of the data into consecutive ranges, each of them no
longer than a chunk. The loop that makes them ends, and none of its additions wraps, for
every size that a vector can have and every size of a chunk.

## Main definitions

- `WorkItem.indices` — the range of an item
- `Partitions` — items that cut the indices below a bound into ranges

## Main results

- `PerformanceEngine.buildWorkItems_partitions` — the loop of `build_work_items`
-/

namespace AccelSim

/-- The indices from the begin of an item up to its end. -/
def WorkItem.indices (item : WorkItem) : List ℕ :=
  List.range' item.beginIdx (item.endIdx - item.beginIdx)

/-- Items that cut the indices below `size` into consecutive ranges, of which none is
    longer than `chunk`. -/
structure Partitions (items : List WorkItem) (size chunk : ℕ) : Prop where
  length_eq : items.length = size ⌈/⌉ chunk
  ids : items.map WorkItem.id = List.range items.length
  nonempty : ∀ item ∈ items, item.beginIdx < item.endIdx
  short : ∀ item ∈ items, item.endIdx - item.beginIdx ≤ chunk
  consecutive : items.IsChain fun item next => item.endIdx = next.beginIdx
  covers : items.flatMap WorkItem.indices = List.range size

namespace PerformanceEngine

variable {engine : PerformanceEngine}

theorem taskCount_eq_ceilDiv (engine : PerformanceEngine) :
    engine.taskCount = engine.config.workloadSize ⌈/⌉ engine.config.chunkSize :=
  (Nat.ceilDiv_eq_add_pred_div _ _).symm

/-! ### The items -/

theorem itemAt_short (engine : PerformanceEngine) (k : ℕ) :
    (engine.itemAt k).endIdx - (engine.itemAt k).beginIdx ≤ engine.config.chunkSize := by
  show min (k * engine.config.chunkSize + engine.config.chunkSize) _ -
    k * engine.config.chunkSize ≤ _
  omega

/-- An item that is not the last ends where the next begins. -/
theorem endIdx_itemAt {k : ℕ} (hk : k + 1 < engine.taskCount) :
    (engine.itemAt k).endIdx = (engine.itemAt (k + 1)).beginIdx := by
  have hlt := (engine.mul_lt_workloadSize_iff (k + 1)).mpr hk
  show min (k * engine.config.chunkSize + engine.config.chunkSize) _ =
    (k + 1) * engine.config.chunkSize
  rw [Nat.succ_mul] at hlt ⊢
  exact Nat.min_eq_left hlt.le

/-- The first items cover the data up to where they end, by induction on their number. -/
theorem flatMap_itemAt {k : ℕ} (hk : k ≤ engine.taskCount) :
    ((List.range k).map engine.itemAt).flatMap WorkItem.indices =
      List.range (min (k * engine.config.chunkSize) engine.config.workloadSize) := by
  induction k with
  | zero =>
    rw [Nat.zero_mul, Nat.zero_min]
    rfl
  | succ k ih =>
    have hlt := (engine.mul_lt_workloadSize_iff k).mpr (Nat.lt_of_succ_le hk)
    have hindices : (engine.itemAt k).indices = List.range' (k * engine.config.chunkSize)
        ((engine.itemAt k).endIdx - k * engine.config.chunkSize) := rfl
    have hend : k * engine.config.chunkSize + ((engine.itemAt k).endIdx -
        k * engine.config.chunkSize) = (engine.itemAt k).endIdx :=
      Nat.add_sub_of_le (itemAt_nonempty (Nat.lt_of_succ_le hk)).le
    have happend := @List.range'_append_1 0 (k * engine.config.chunkSize)
      ((engine.itemAt k).endIdx - k * engine.config.chunkSize)
    rw [Nat.zero_add, hend] at happend
    rw [List.range_succ, List.map_append, List.flatMap_append, ih (Nat.le_of_succ_le hk),
      Nat.min_eq_left hlt.le, List.map_singleton, List.flatMap_singleton, hindices,
      List.range_eq_range', happend, ← List.range_eq_range', Nat.succ_mul]
    rfl

/-- The items of the loop are a partition of the data. -/
theorem partitions (engine : PerformanceEngine) :
    Partitions engine.buildWorkItems engine.config.workloadSize engine.config.chunkSize := by
  constructor
  case length_eq => rw [length_buildWorkItems, taskCount_eq_ceilDiv]
  case ids =>
    rw [length_buildWorkItems, buildWorkItems_eq, List.map_map]
    exact List.map_id _
  case nonempty => exact fun item => buildWorkItems_nonempty
  case short =>
    intro item hitem
    obtain ⟨k, _, rfl⟩ := mem_buildWorkItems hitem
    exact engine.itemAt_short k
  case consecutive =>
    rw [buildWorkItems_eq, List.isChain_map, List.isChain_range]
    intro k hk
    exact endIdx_itemAt (by omega)
  case covers =>
    have hlast : engine.config.workloadSize ≤ engine.taskCount * engine.config.chunkSize :=
      Nat.le_of_not_lt fun hlt =>
        Nat.lt_irrefl _ ((engine.mul_lt_workloadSize_iff _).mp hlt)
    rw [buildWorkItems_eq, flatMap_itemAt le_rfl, Nat.min_eq_right hlast]

/-! ### The loop -/

/-- **The work items partition the data**, for every engine. The loop ends, what it has
    made when it ends is returned, and in no iteration does the sum of the begin and the
    size of a chunk wrap. -/
theorem buildWorkItems_partitions (engine : PerformanceEngine) :
    (∃ k s, WhileLoop.ReachesIn (buildGuard engine.config) (buildBody engine.config) k {} s ∧
      buildGuard engine.config s = false ∧ engine.buildWorkItems = s.items) ∧
      (∀ k s, WhileLoop.ReachesIn (buildGuard engine.config) (buildBody engine.config) k {} s →
        buildGuard engine.config s = true →
          s.beginIdx + engine.config.chunkSize < sizeMod) ∧
      Partitions engine.buildWorkItems engine.config.workloadSize engine.config.chunkSize := by
  obtain ⟨s, _, _, hrun⟩ := engine.buildLoop_exits
  obtain ⟨k, _, hreach, hexit⟩ := WhileLoop.run_eq_some_iff.mp hrun
  refine ⟨⟨k, s, hreach, hexit, buildWorkItems_of_run hrun⟩, ?_, engine.partitions⟩
  intro j u hu hguard
  exact (building_of_reachesIn hu).no_wrap hguard

end PerformanceEngine

end AccelSim
