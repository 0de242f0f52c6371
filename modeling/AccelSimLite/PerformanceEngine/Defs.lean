import AccelSimLite.Lib.WhileLoop
import Mathlib.Algebra.GroupWithZero.Nat
import Mathlib.Data.List.Sort

/-!
# The performance engine

A model of the sequential part of `performance_engine.cpp`: the constructor, the
partition of the data into work items, the work done for one item, and the
single-threaded run.

## Main definitions

- `BenchmarkConfig`, `WorkItem`, `WorkerMetrics`, `BenchmarkResult` — the data model
- `PerformanceEngine` — what the constructor builds, with what it checks
- `PerformanceEngine.buildWorkItems`, `PerformanceEngine.processWork`,
  `PerformanceEngine.runSingleThreaded` — the functions

## Design notes

Values of `std::uint64_t` are `UInt64`. Sizes and indices are natural numbers,
with the wrap of `std::size_t` written out where the code adds or multiplies
them. Times are numbers of nanoseconds; fields of type `double` are left out.
-/

namespace AccelSim

/-- The number of values of `std::size_t`. -/
abbrev sizeMod : ℕ := 2 ^ 64

/-- The most elements a `std::vector<std::uint64_t>` can hold. -/
abbrev vectorMaxSize : ℕ := 2 ^ 60 - 1

inductive AccessPattern
  | cacheLocal
  | cacheUnfriendly
  deriving DecidableEq, Repr

def accessPatternName : AccessPattern → String
  | .cacheLocal => "cache_local"
  | .cacheUnfriendly => "cache_unfriendly"

structure WorkItem where
  id : ℕ := 0
  beginIdx : ℕ := 0
  endIdx : ℕ := 0
  deriving DecidableEq, Repr

structure BenchmarkConfig where
  workerCount : ℕ := 1
  workloadSize : ℕ := 10000
  chunkSize : ℕ := 256
  queueCapacity : ℕ := 1024
  accessPattern : AccessPattern := .cacheLocal
  queueBatchSize : ℕ := 1
  /-- Every size is a value of `std::size_t`. -/
  sizes_lt : workerCount < sizeMod ∧ workloadSize < sizeMod ∧ chunkSize < sizeMod ∧
    queueCapacity < sizeMod ∧ queueBatchSize < sizeMod := by decide

@[ext] structure WorkerMetrics where
  tasksCompleted : ℕ := 0
  simulatedAllocations : ℕ := 0
  lockAcquisitions : ℕ := 0
  contendedLockAcquisitions : ℕ := 0
  lockWaitNs : ℕ := 0
  queueWaitNs : ℕ := 0
  deriving DecidableEq, Repr

structure BenchmarkResult where
  mode : String
  accessPattern : String
  workerCount : ℕ
  workloadSize : ℕ
  tasksProcessed : ℕ
  simulatedAllocations : ℕ
  lockAcquisitions : ℕ
  contendedLockAcquisitions : ℕ
  checksum : UInt64
  deriving DecidableEq, Repr

/-- `data_[i]` as the constructor computes it. -/
def dataValue (i : ℕ) : UInt64 :=
  (UInt64.ofNat i * (2654435761 : UInt64)) ^^^ (UInt64.ofNat i >>> (3 : UInt64))

/-- An engine: a configuration that the constructor has accepted, and its data. -/
structure PerformanceEngine where
  config : BenchmarkConfig
  data : List UInt64
  workloadSize_le : config.workloadSize ≤ vectorMaxSize
  workerCount_ne : config.workerCount ≠ 0
  chunkSize_ne : config.chunkSize ≠ 0
  queueBatchSize_ne : config.queueBatchSize ≠ 0
  data_eq : data = (List.range config.workloadSize).map dataValue

namespace PerformanceEngine

/-- The constructor. The vector is built before the body checks the sizes. -/
def construct (config : BenchmarkConfig) : Except String PerformanceEngine :=
  if hsize : config.workloadSize ≤ vectorMaxSize then
    if hworkers : config.workerCount = 0 then .error "worker_count must be greater than zero"
    else if hchunk : config.chunkSize = 0 then .error "chunk_size must be greater than zero"
    else if hbatch : config.queueBatchSize = 0 then
      .error "queue_batch_size must be greater than zero"
    else
      .ok ⟨config, (List.range config.workloadSize).map dataValue, hsize, hworkers, hchunk, hbatch,
        rfl⟩
  else .error "cannot create std::vector larger than max_size()"

/-- The engines are what the constructor returns. -/
theorem construct_eq_ok_iff {config : BenchmarkConfig} {engine : PerformanceEngine} :
    construct config = .ok engine ↔ engine.config = config := by
  unfold construct
  constructor
  · intro h
    split_ifs at h
    cases h
    rfl
  · rintro rfl
    rw [dif_pos engine.workloadSize_le, dif_neg engine.workerCount_ne, dif_neg engine.chunkSize_ne,
      dif_neg engine.queueBatchSize_ne]
    obtain ⟨config, data, _, _, _, _, hdata⟩ := engine
    cases hdata
    rfl

/-- An engine with data of the given size, for sizes that need no check. -/
def small (workloadSize chunkSize : ℕ) (h : workloadSize ≤ 4096) (h' : chunkSize ≤ 4096)
    (hne : chunkSize ≠ 0) : PerformanceEngine where
  config :=
    { workloadSize := workloadSize
      chunkSize := chunkSize
      sizes_lt := by simp only [sizeMod]; omega }
  data := (List.range workloadSize).map dataValue
  workloadSize_le := by simp only [vectorMaxSize]; omega
  workerCount_ne := Nat.one_ne_zero
  chunkSize_ne := hne
  queueBatchSize_ne := Nat.one_ne_zero
  data_eq := rfl

/-- Two values, an item for each, and two workers. -/
def twoWorkers : PerformanceEngine where
  config := { workerCount := 2, workloadSize := 2, chunkSize := 1 }
  data := (List.range 2).map dataValue
  workloadSize_le := by decide
  workerCount_ne := by decide
  chunkSize_ne := by decide
  queueBatchSize_ne := by decide
  data_eq := rfl

/-! ### Work items -/

/-- The local variables of `build_work_items`. -/
structure BuildState where
  id : ℕ := 0
  beginIdx : ℕ := 0
  items : List WorkItem := []

def buildGuard (config : BenchmarkConfig) (s : BuildState) : Bool :=
  s.beginIdx < config.workloadSize

/-- One iteration of the loop of `build_work_items`. -/
def buildBody (config : BenchmarkConfig) (s : BuildState) : Except String BuildState :=
  let next := (s.beginIdx + config.chunkSize) % sizeMod
  .ok
    { id := (s.id + 1) % sizeMod
      beginIdx := next
      items := s.items ++ [⟨s.id, s.beginIdx, min next config.workloadSize⟩] }

/-- The item that the loop makes in iteration `k`, when no sum wraps. -/
def itemAt (engine : PerformanceEngine) (k : ℕ) : WorkItem :=
  ⟨k, k * engine.config.chunkSize,
    min (k * engine.config.chunkSize + engine.config.chunkSize) engine.config.workloadSize⟩

/-- The state of the loop after `s.id` iterations. -/
structure Building (engine : PerformanceEngine) (s : BuildState) : Prop where
  beginIdx_eq : s.beginIdx = s.id * engine.config.chunkSize
  items_eq : s.items = (List.range s.id).map engine.itemAt
  last_lt : s.id ≠ 0 → (s.id - 1) * engine.config.chunkSize < engine.config.workloadSize

theorem building_start (engine : PerformanceEngine) : engine.Building {} :=
  ⟨(Nat.zero_mul _).symm, rfl, fun h => absurd rfl h⟩

/-- No addition of the loop wraps: behind the first item the chunk size is at
    most the size of the data. -/
theorem Building.no_wrap {engine : PerformanceEngine} {s : BuildState} (h : engine.Building s)
    (hguard : buildGuard engine.config s = true) :
    s.beginIdx + engine.config.chunkSize < sizeMod := by
  have hlt : s.beginIdx < engine.config.workloadSize := by simpa [buildGuard] using hguard
  have hsize := engine.workloadSize_le
  by_cases hzero : s.id = 0
  · rw [h.beginIdx_eq, hzero, Nat.zero_mul, Nat.zero_add]
    exact engine.config.sizes_lt.2.2.1
  · have hle : engine.config.chunkSize ≤ s.beginIdx :=
      h.beginIdx_eq ▸ Nat.le_mul_of_pos_left _ (Nat.pos_of_ne_zero hzero)
    simp only [vectorMaxSize, sizeMod] at hsize ⊢
    omega

/-- One iteration: the next item, and less left of the data. -/
theorem Building.step {engine : PerformanceEngine} {s : BuildState} (h : engine.Building s)
    (hguard : buildGuard engine.config s = true) :
    ∃ s', buildBody engine.config s = .ok s' ∧ engine.Building s' ∧
      engine.config.workloadSize - s'.beginIdx < engine.config.workloadSize - s.beginIdx := by
  have hchunk : 1 ≤ engine.config.chunkSize := Nat.one_le_iff_ne_zero.mpr engine.chunkSize_ne
  have hlt : s.beginIdx < engine.config.workloadSize := by simpa [buildGuard] using hguard
  have hsize := engine.workloadSize_le
  have hid : s.id ≤ s.beginIdx := h.beginIdx_eq ▸ Nat.le_mul_of_pos_right _ hchunk
  have hnowrap := h.no_wrap hguard
  have hid' : (s.id + 1) % sizeMod = s.id + 1 := by
    apply Nat.mod_eq_of_lt
    simp only [vectorMaxSize, sizeMod] at hsize ⊢
    omega
  refine ⟨_, rfl, ⟨?_, ?_, ?_⟩, ?_⟩
  · show (s.beginIdx + engine.config.chunkSize) % sizeMod = (s.id + 1) % sizeMod * _
    rw [hid', Nat.mod_eq_of_lt hnowrap, h.beginIdx_eq, Nat.succ_mul]
  · show s.items ++ [⟨s.id, s.beginIdx, min ((s.beginIdx + engine.config.chunkSize) % sizeMod) _⟩] =
      (List.range ((s.id + 1) % sizeMod)).map engine.itemAt
    rw [hid', Nat.mod_eq_of_lt hnowrap, List.range_succ, List.map_append, ← h.items_eq,
      h.beginIdx_eq]
    rfl
  · intro _
    show ((s.id + 1) % sizeMod - 1) * _ < _
    rw [hid', Nat.add_sub_cancel, ← h.beginIdx_eq]
    exact hlt
  · show _ - (s.beginIdx + engine.config.chunkSize) % sizeMod < _
    rw [Nat.mod_eq_of_lt hnowrap]
    omega

/-- Every state of the loop is one of these. -/
theorem building_of_reachesIn {engine : PerformanceEngine} {k : ℕ} {s : BuildState}
    (h : WhileLoop.ReachesIn (buildGuard engine.config) (buildBody engine.config) k {} s) :
    engine.Building s := by
  refine h.invariant (fun _ => engine.Building) engine.building_start fun _ u v hu hguard hb => ?_
  obtain ⟨v', hv', hinv, _⟩ := hu.step hguard
  rw [hb] at hv'
  cases hv'
  exact hinv

/-- The loop of `build_work_items` ends. -/
theorem buildLoop_exits (engine : PerformanceEngine) :
    ∃ s, engine.Building s ∧ engine.config.workloadSize ≤ s.beginIdx ∧
      WhileLoop.run (buildGuard engine.config) (buildBody engine.config)
        engine.config.workloadSize {} = .ok (some s) := by
  obtain ⟨k, s, hk, hr, hexit⟩ := WhileLoop.exists_exit_of_measure engine.Building
    (fun s => engine.config.workloadSize - s.beginIdx)
    (fun u hu hguard => hu.step hguard) engine.building_start
  refine ⟨s, building_of_reachesIn hr, ?_,
    WhileLoop.run_eq_some_iff.mpr ⟨k, hk, hr, hexit⟩⟩
  simpa [buildGuard] using hexit

/-- What the loop of `build_work_items` has built when it ends. -/
def buildLoop (engine : PerformanceEngine) : Option BuildState :=
  match WhileLoop.run (buildGuard engine.config) (buildBody engine.config)
      engine.config.workloadSize {} with
  | .ok final => final
  | .error _ => none

theorem isSome_buildLoop (engine : PerformanceEngine) : engine.buildLoop.isSome := by
  obtain ⟨s, _, _, hrun⟩ := engine.buildLoop_exits
  rw [buildLoop, hrun]
  rfl

def buildWorkItems (engine : PerformanceEngine) : List WorkItem :=
  (engine.buildLoop.get engine.isSome_buildLoop).items

theorem buildWorkItems_of_run {engine : PerformanceEngine} {s : BuildState}
    (hrun : WhileLoop.run (buildGuard engine.config) (buildBody engine.config)
      engine.config.workloadSize {} = .ok (some s)) : engine.buildWorkItems = s.items := by
  have hloop : engine.buildLoop = some s := by rw [buildLoop, hrun]
  simp only [buildWorkItems, hloop, Option.get_some]

/-! ### Processing -/

/-- The value the inner loops compute for one index. -/
def mixedValue (engine : PerformanceEngine) (i : ℕ) : UInt64 :=
  engine.data.getD i 0 ^^^ UInt64.ofNat (i * 17)

/-- The inner loop over a sequence of indices, with `local_checksum` and
    `temporary` as accumulators. -/
def gather (engine : PerformanceEngine) (indices : List ℕ) : UInt64 × List UInt64 :=
  indices.foldl (fun acc i => (acc.1 + engine.mixedValue i, acc.2 ++ [engine.mixedValue i])) (0, [])

/-- The loop that mixes the differences of neighbours into `local_checksum`. -/
def mixDifferences (temporary : List UInt64) (localChecksum : UInt64) : UInt64 :=
  (List.range' 1 (temporary.length - 1)).foldl
    (fun acc i => acc ^^^ (temporary.getD i 0 - temporary.getD (i - 1) 0)) localChecksum

/-- The indices that `process_work` visits, in order. -/
def visitedIndices (pattern : AccessPattern) (work : WorkItem) : List ℕ :=
  let span := work.endIdx - work.beginIdx
  match pattern with
  | .cacheLocal => List.range' work.beginIdx span
  | .cacheUnfriendly =>
    (List.range span).map fun offset => work.beginIdx + (offset * 67 % sizeMod) % span

/-- `process_work`: the checksum of an item, and the metrics after it. -/
def processWork (engine : PerformanceEngine) (work : WorkItem) (metrics : WorkerMetrics) :
    UInt64 × WorkerMetrics :=
  let metrics := { metrics with simulatedAllocations := metrics.simulatedAllocations + 1 }
  -- the strided path leaves early on an empty item, and counts no task for it
  if engine.config.accessPattern = .cacheUnfriendly ∧ work.endIdx - work.beginIdx = 0 then
    (0, metrics)
  else
    let (localChecksum, temporary) :=
      engine.gather (visitedIndices engine.config.accessPattern work)
    (mixDifferences (temporary.insertionSort (· ≤ ·)) localChecksum,
      { metrics with tasksCompleted := metrics.tasksCompleted + 1 })

/-! ### The single-threaded run -/

def buildResult (engine : PerformanceEngine) (mode : String) (metrics : WorkerMetrics)
    (checksum : UInt64) (taskCount : ℕ) : BenchmarkResult :=
  { mode := mode
    accessPattern := accessPatternName engine.config.accessPattern
    workerCount := engine.config.workerCount
    workloadSize := engine.config.workloadSize
    tasksProcessed := taskCount
    simulatedAllocations := metrics.simulatedAllocations
    lockAcquisitions := metrics.lockAcquisitions
    contendedLockAcquisitions := metrics.contendedLockAcquisitions
    checksum := checksum }

/-- One iteration of the loop over the items, with `checksum` and `metrics`. -/
def singleStep (engine : PerformanceEngine) (acc : UInt64 × WorkerMetrics) (item : WorkItem) :
    UInt64 × WorkerMetrics :=
  let (itemChecksum, metrics) := engine.processWork item acc.2
  (acc.1 ^^^ itemChecksum, metrics)

def runSingleThreaded (engine : PerformanceEngine) : BenchmarkResult :=
  let items := engine.buildWorkItems
  let (checksum, metrics) := items.foldl engine.singleStep (0, {})
  engine.buildResult "single_threaded" metrics checksum items.length

end PerformanceEngine

end AccelSim
