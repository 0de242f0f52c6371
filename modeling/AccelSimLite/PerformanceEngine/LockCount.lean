import AccelSimLite.PerformanceEngine.ExactlyOnce
import Mathlib.Algebra.Order.BigOperators.Group.List
import Mathlib.Algebra.Order.Floor.Div

/-!
# Lock acquisitions

A worker counts an acquisition at the top of its loop, and then either takes a batch or
stays behind the lock, asleep, on its way back or out of the loop. So the acquisitions
are at all times the batches taken and the workers that hold none. The batches make up
what was pushed, none is empty and none is larger than the queue or the batch size.

## Main definitions

- `takenBatches` — the batches of a run
- `WorkerThread.unmergedLocks`, `WorkerThread.behindLock` — the account of one worker

## Main results

- `PerformanceEngine.metered` — the account, in every run
- `PerformanceEngine.lock_acquisitions_bounds` — the bounds after the joins
-/

namespace AccelSim

/-! ### Portions of a sum -/

theorem length_eq_sum_iff {portions : List ℕ} (hpos : ∀ n ∈ portions, 1 ≤ n) :
    portions.length = portions.sum ↔ ∀ n ∈ portions, n = 1 := by
  induction portions with
  | nil => simp
  | cons n portions ih =>
    rw [List.forall_mem_cons] at hpos ⊢
    have hle := List.length_le_sum_of_one_le portions hpos.2
    rw [← ih hpos.2, List.length_cons, List.sum_cons]
    omega

theorem sum_ceilDiv_le_length {portions : List ℕ} {most : ℕ} (hle : ∀ n ∈ portions, n ≤ most) :
    portions.sum ⌈/⌉ most ≤ portions.length := by
  rcases Nat.eq_zero_or_pos most with rfl | hmost
  · rw [ceilDiv_zero]
    exact Nat.zero_le _
  · rw [ceilDiv_le_iff_le_mul hmost, Nat.mul_comm, ← smul_eq_mul]
    exact List.sum_le_card_nsmul portions most hle

/-! ### Batches and workers -/

/-- The batches taken from the queue in a run, in order. -/
def takenBatches {n : ℕ} (trace : List (MultiEvent n)) : List (List QueuedTask) :=
  trace.filterMap fun
    | .takes _ batch => some batch
    | _ => none

theorem takenBatches_append {n : ℕ} (trace trace' : List (MultiEvent n)) :
    takenBatches (trace ++ trace') = takenBatches trace ++ takenBatches trace' :=
  List.filterMap_append

namespace WorkerThread

/-- The acquisitions that a worker has counted and not yet merged. -/
def unmergedLocks (w : WorkerThread) : ℕ :=
  if w.pc = .done then 0 else w.localMetrics.lockAcquisitions

/-- The worker has locked the mutex and taken no batch since: one, or none. -/
def behindLock (w : WorkerThread) : ℕ :=
  match w.pc with
  | .starting => 0
  | .running _ => 0
  | _ => 1

theorem unmergedLocks_goto {w : WorkerThread} {pc : WorkerPc} (hw : w.pc ≠ .done)
    (hpc : pc ≠ .done) : (w.goto pc).unmergedLocks = w.unmergedLocks := by
  have hgoto : (w.goto pc).pc ≠ .done := hpc
  rw [unmergedLocks, unmergedLocks, if_neg hgoto, if_neg hw]
  rfl

/-- A worker counts an acquisition when it comes from the top of its loop, and none when
    it comes out of the wait. -/
theorem AtLock.locks_goto {w : WorkerThread} (h : w.AtLock) (contended : Bool) (waitNs : ℕ)
    {pc : WorkerPc} (hpc : pc ≠ .done) :
    ((w.acquire contended waitNs).goto pc).unmergedLocks + w.behindLock = w.unmergedLocks + 1 := by
  have hne : (w.acquire contended waitNs).pc ≠ .done := by
    rw [acquire_pc]
    exact h.ne_done
  rw [unmergedLocks_goto hne hpc, unmergedLocks, unmergedLocks, if_neg hne, if_neg h.ne_done]
  obtain ⟨pc, metrics, latencies⟩ := w
  obtain rfl | rfl : pc = .running [] ∨ pc = .woken := h
  · rfl
  · rfl

theorem process_unmergedLocks (engine : PerformanceEngine) {w : WorkerThread} {task : QueuedTask}
    {batch : List QueuedTask} (hpc : w.pc = .running (task :: batch)) (queueWaitNs latency : ℕ) :
    (w.process engine task batch queueWaitNs latency).2.unmergedLocks = w.unmergedLocks := by
  have hne : w.pc ≠ .done := by
    rw [hpc]
    exact WorkerPc.noConfusion
  have hwork (metrics : WorkerMetrics) :
      (engine.processWork task.work metrics).2.lockAcquisitions = metrics.lockAcquisitions := by
    unfold PerformanceEngine.processWork
    split <;> rfl
  rw [unmergedLocks, unmergedLocks, if_neg hne, if_neg WorkerPc.noConfusion]
  exact hwork _

end WorkerThread

/-- Waking workers changes no part of their accounts. -/
theorem locks_eq_of_wakes {n : ℕ} {workers workers' : Fin n → WorkerThread}
    (h : queueNotEmpty.Wakes workers workers') :
    Threads.total WorkerThread.unmergedLocks workers' =
        Threads.total WorkerThread.unmergedLocks workers ∧
      Threads.total WorkerThread.behindLock workers' =
        Threads.total WorkerThread.behindLock workers := by
  have hpc (w : WorkerThread) (hasleep : queueNotEmpty.asleep w = true) : w.pc = .asleep :=
    of_decide_eq_true hasleep
  constructor
  · apply h.total_eq
    intro w hasleep
    refine WorkerThread.unmergedLocks_goto ?_ WorkerPc.noConfusion
    rw [hpc w hasleep]
    exact WorkerPc.noConfusion
  · apply h.total_eq
    intro w hasleep
    rw [WorkerThread.behindLock, WorkerThread.behindLock, hpc w hasleep]
    rfl

/-- One worker moves: the totals move with its account. -/
theorem locks_update {n : ℕ} {workers : Fin n → WorkerThread} {i : Fin n} {w : WorkerThread}
    (gained lost : ℕ)
    (hw : w.unmergedLocks + (workers i).behindLock + lost =
      (workers i).unmergedLocks + w.behindLock + gained) :
    Threads.total WorkerThread.unmergedLocks (Function.update workers i w) +
        Threads.total WorkerThread.behindLock workers + lost =
      Threads.total WorkerThread.unmergedLocks workers +
        Threads.total WorkerThread.behindLock (Function.update workers i w) + gained := by
  have hunmerged := Threads.total_update WorkerThread.unmergedLocks workers i w
  have hbehind := Threads.total_update WorkerThread.behindLock workers i w
  omega

namespace PerformanceEngine

variable {engine : PerformanceEngine} {trace : List (MultiEvent engine.config.workerCount)}
  {s s' : MultiState engine.config.workerCount} {e : MultiEvent engine.config.workerCount}

/-! ### The account -/

/-- Every acquisition is that of a batch or of a worker without one, and the batches are
    what has left the queue. -/
structure Metered (engine : PerformanceEngine)
    (trace : List (MultiEvent engine.config.workerCount))
    (s : MultiState engine.config.workerCount) : Prop where
  locks : s.aggregateMetrics.lockAcquisitions +
      Threads.total WorkerThread.unmergedLocks s.workers =
    (takenBatches trace).length + Threads.total WorkerThread.behindLock s.workers
  taken : ((takenBatches trace).map List.length).sum + s.queue.length + s.producer.rest.length =
    engine.buildWorkItems.length
  sizes : ∀ batch ∈ takenBatches trace, 1 ≤ batch.length ∧
    batch.length ≤ min engine.config.queueBatchSize engine.config.queueCapacity

/-- A step that takes no batch. -/
theorem Metered.frame (h : engine.Metered trace s) (hevent : takenBatches [e] = [])
    (hlocks : s'.aggregateMetrics.lockAcquisitions +
        Threads.total WorkerThread.unmergedLocks s'.workers +
        Threads.total WorkerThread.behindLock s.workers =
      s.aggregateMetrics.lockAcquisitions + Threads.total WorkerThread.unmergedLocks s.workers +
        Threads.total WorkerThread.behindLock s'.workers)
    (hitems : s'.queue.length + s'.producer.rest.length =
      s.queue.length + s.producer.rest.length) :
    engine.Metered (trace ++ [e]) s' := by
  have htrace : takenBatches (trace ++ [e]) = takenBatches trace := by
    rw [takenBatches_append, hevent, List.append_nil]
  have hold := h.locks
  constructor
  case locks =>
    rw [htrace]
    omega
  case taken => rw [htrace, ← h.taken, Nat.add_assoc, hitems, Nat.add_assoc]
  case sizes =>
    rw [htrace]
    exact h.sizes

/-- A worker that merges nothing and takes no batch. -/
theorem Metered.goto (h : engine.Metered trace s) {i : Fin engine.config.workerCount}
    (hevent : takenBatches [e] = []) {w : WorkerThread}
    (hw : w.unmergedLocks + (s.workers i).behindLock =
      (s.workers i).unmergedLocks + w.behindLock) :
    engine.Metered (trace ++ [e]) { s with workers := Function.update s.workers i w } := by
  refine h.frame hevent ?_ rfl
  have hupdate := locks_update 0 0 hw
  dsimp only
  omega

/-- A worker takes the front of the queue, which is not empty and within its capacity. -/
theorem Metered.take (h : engine.Metered trace s) {i : Fin engine.config.workerCount}
    (hlock : (s.workers i).AtLock) (hqueue : s.queue ≠ [])
    (hcapacity : s.queue.length ≤ engine.config.queueCapacity) (contended : Bool) (waitNs : ℕ) :
    engine.Metered (trace ++ [.takes i (s.queue.take (engine.tasksToTake s.queue))])
      { s with
        queue := s.queue.drop (engine.tasksToTake s.queue)
        producer := s.producer.notified
        workers := Function.update s.workers i
          (((s.workers i).acquire contended waitNs).goto
            (.running (s.queue.take (engine.tasksToTake s.queue)))) } := by
  have htrace : takenBatches
      (trace ++ [.takes i (s.queue.take (engine.tasksToTake s.queue))]) =
      takenBatches trace ++ [s.queue.take (engine.tasksToTake s.queue)] :=
    takenBatches_append _ _
  have hlength : (s.queue.take (engine.tasksToTake s.queue)).length =
      min engine.config.queueBatchSize s.queue.length := by
    rw [List.length_take, tasksToTake, min_assoc, min_self]
  have hbatch := Nat.pos_of_ne_zero engine.queueBatchSize_ne
  have hpos := List.length_pos_iff.mpr hqueue
  constructor
  case locks =>
    have hne : WorkerPc.running (s.queue.take (engine.tasksToTake s.queue)) ≠ .done :=
      WorkerPc.noConfusion
    have hupdate := locks_update 1 0 (hlock.locks_goto contended waitNs hne)
    have hold := h.locks
    rw [htrace, List.length_append, List.length_singleton]
    dsimp only
    omega
  case taken =>
    have hold := h.taken
    rw [htrace, List.map_append, List.sum_append, List.map_singleton, List.sum_singleton,
      List.length_drop, ProducerPc.rest_notified, hlength, tasksToTake]
    omega
  case sizes =>
    rw [htrace, List.forall_mem_append, List.forall_mem_singleton, hlength]
    refine ⟨h.sizes, ?_, ?_⟩
    · omega
    · exact min_le_min_left _ hcapacity

/-- A worker adds what it has counted to the aggregate. -/
theorem Metered.merge (h : engine.Metered trace s) {i : Fin engine.config.workerCount}
    (hpc : (s.workers i).pc = .leaving) :
    engine.Metered (trace ++ [.merges i])
      { s with
        aggregateMetrics := s.aggregateMetrics.merge (s.workers i).localMetrics
        aggregateLatencies := s.aggregateLatencies ++ (s.workers i).localLatencies
        workers := Function.update s.workers i ((s.workers i).goto .done) } := by
  refine h.frame rfl ?_ rfl
  have hunmerged : (s.workers i).unmergedLocks = (s.workers i).localMetrics.lockAcquisitions := by
    rw [WorkerThread.unmergedLocks, hpc, if_neg WorkerPc.noConfusion]
  have hbehind : (s.workers i).behindLock = 1 := by rw [WorkerThread.behindLock, hpc]
  have hdone : ((s.workers i).goto .done).unmergedLocks = 0 := if_pos rfl
  have hw : ((s.workers i).goto .done).unmergedLocks + (s.workers i).behindLock +
      (s.workers i).localMetrics.lockAcquisitions =
        (s.workers i).unmergedLocks + ((s.workers i).goto .done).behindLock + 0 := by
    rw [hdone, hbehind, hunmerged]
    change _ = _ + 1 + 0
    omega
  have hupdate := locks_update 0 _ hw
  change s.aggregateMetrics.lockAcquisitions + (s.workers i).localMetrics.lockAcquisitions +
    Threads.total WorkerThread.unmergedLocks (Function.update s.workers i _) + _ =
      _ + Threads.total WorkerThread.behindLock (Function.update s.workers i _)
  omega

/-- Waking workers keeps the account if it moves no item. -/
theorem Metered.wake (h : engine.Metered trace s) (hevent : takenBatches [e] = [])
    {workers : Fin engine.config.workerCount → WorkerThread}
    (hwakes : queueNotEmpty.Wakes s.workers workers) {queue : List QueuedTask}
    {producer : ProducerPc}
    (hitems : queue.length + producer.rest.length =
      s.queue.length + s.producer.rest.length) :
    engine.Metered (trace ++ [e])
      { s with queue := queue, producer := producer, workers := workers } := by
  obtain ⟨hunmerged, hbehind⟩ := locks_eq_of_wakes hwakes
  refine h.frame hevent ?_ hitems
  dsimp only
  rw [hunmerged, hbehind]

/-- One step of anyone keeps the account. -/
theorem Metered.step (h : engine.Metered trace s)
    (hcapacity : s.queue.length ≤ engine.config.queueCapacity) (hs : engine.Step s e s') :
    engine.Metered (trace ++ [e]) s' := by
  cases hs with
  | reserve i hpc =>
    refine h.goto rfl ?_
    rw [WorkerThread.unmergedLocks_goto (by rw [hpc]; exact WorkerPc.noConfusion)
      WorkerPc.noConfusion, WorkerThread.behindLock, WorkerThread.behindLock, hpc]
    rfl
  | terminate => exact h.frame rfl rfl rfl
  | sleep i contended waitNs hlock =>
    exact h.goto rfl (hlock.locks_goto contended waitNs WorkerPc.noConfusion)
  | wake i hpc =>
    refine h.goto rfl ?_
    rw [WorkerThread.unmergedLocks_goto (by rw [hpc]; exact WorkerPc.noConfusion)
      WorkerPc.noConfusion, WorkerThread.behindLock, WorkerThread.behindLock, hpc]
    rfl
  | take i contended waitNs hlock hqueue => exact h.take hlock hqueue hcapacity contended waitNs
  | process i task batch queueWaitNs latency hpc =>
    refine h.frame rfl ?_ rfl
    have hw : ((s.workers i).process engine task batch queueWaitNs latency).2.unmergedLocks +
        (s.workers i).behindLock = (s.workers i).unmergedLocks +
          ((s.workers i).process engine task batch queueWaitNs latency).2.behindLock := by
      rw [WorkerThread.process_unmergedLocks engine hpc, WorkerThread.behindLock, hpc]
      rfl
    have hupdate := locks_update 0 0 hw
    dsimp only
    omega
  | leave i contended waitNs hlock =>
    exact h.goto rfl (hlock.locks_goto contended waitNs WorkerPc.noConfusion)
  | merge i hpc => exact h.merge hpc
  | producerSleep item rest hproducer hfull =>
    refine h.frame rfl rfl ?_
    rw [hproducer.rest_eq]
    rfl
  | producerWake rest hpc =>
    refine h.frame rfl rfl ?_
    rw [hpc]
    rfl
  | push item rest queuedAt workers hproducer hroom hsignals =>
    refine h.wake rfl hsignals.wakes ?_
    rw [hproducer.rest_eq, List.length_append, List.length_singleton, List.length_cons]
    change _ + 1 + rest.length = _
    omega
  | finish hpc =>
    refine h.frame rfl rfl ?_
    rw [hpc]
    rfl
  | notify hpc =>
    refine h.wake rfl (queueNotEmpty.wakes_broadcast s.workers) ?_
    rw [hpc]
    rfl

theorem metered_start (engine : PerformanceEngine) : engine.Metered [] engine.start := by
  have hunmerged : Threads.total WorkerThread.unmergedLocks engine.start.workers = 0 :=
    Threads.total_eq_zero fun _ => rfl
  have hbehind : Threads.total WorkerThread.behindLock engine.start.workers = 0 :=
    Threads.total_eq_zero fun _ => rfl
  constructor
  case locks =>
    rw [hunmerged, hbehind]
    rfl
  case taken => exact Nat.zero_add _
  case sizes => exact fun batch h => absurd h List.not_mem_nil

/-- The account of every run. -/
theorem metered (h : Interleaving.Run engine.Step engine.start trace s) :
    engine.Metered trace s :=
  h.invariant_of_run engine.Metered engine.metered_start
    fun _ _ _ _ hrun hu => hu.step (accounted hrun).queue_le

/-! ### After the joins -/

/-- After the joins the batches make up the items, and every worker has one acquisition more
    than it took batches. -/
theorem locks_of_joined (h : Interleaving.Run engine.Step engine.start trace s)
    (hjoined : s.Joined) :
    s.aggregateMetrics.lockAcquisitions =
        engine.config.workerCount + (takenBatches trace).length ∧
      ((takenBatches trace).map List.length).sum = engine.buildWorkItems.length := by
  have hmetered := metered h
  have hunmerged : Threads.total WorkerThread.unmergedLocks s.workers = 0 :=
    Threads.total_eq_zero fun i => if_pos (hjoined.2 i)
  have hbehind : Threads.total WorkerThread.behindLock s.workers = engine.config.workerCount := by
    have hone (i : Fin engine.config.workerCount) : (s.workers i).behindLock = 1 := by
      rw [WorkerThread.behindLock, hjoined.2 i]
    rw [Threads.total, Finset.sum_congr rfl fun i _ => hone i, Finset.sum_const, Finset.card_univ,
      Fintype.card_fin, smul_eq_mul, Nat.mul_one]
  have hlocks := hmetered.locks
  have htaken := hmetered.taken
  rw [hunmerged, hbehind] at hlocks
  rw [queue_eq_nil_of_joined (orderly h) hjoined, hjoined.1] at htaken
  exact ⟨by omega, htaken⟩

theorem le_locks_of_joined (h : Interleaving.Run engine.Step engine.start trace s)
    (hjoined : s.Joined) :
    engine.config.workerCount + engine.buildWorkItems.length ⌈/⌉
        min engine.config.queueBatchSize engine.config.queueCapacity ≤
      s.aggregateMetrics.lockAcquisitions := by
  obtain ⟨hlocks, hsum⟩ := locks_of_joined h hjoined
  have hmost : ∀ n ∈ (takenBatches trace).map List.length,
      n ≤ min engine.config.queueBatchSize engine.config.queueCapacity :=
    List.forall_mem_map.mpr fun batch hbatch => ((metered h).sizes batch hbatch).2
  have hle := sum_ceilDiv_le_length hmost
  rw [hsum, List.length_map] at hle
  rw [hlocks]
  exact Nat.add_le_add_left hle _

theorem locks_le_of_joined (h : Interleaving.Run engine.Step engine.start trace s)
    (hjoined : s.Joined) :
    s.aggregateMetrics.lockAcquisitions ≤
        engine.config.workerCount + engine.buildWorkItems.length ∧
      (s.aggregateMetrics.lockAcquisitions =
          engine.config.workerCount + engine.buildWorkItems.length ↔
        ∀ batch ∈ takenBatches trace, batch.length = 1) := by
  obtain ⟨hlocks, hsum⟩ := locks_of_joined h hjoined
  have hpos : ∀ n ∈ (takenBatches trace).map List.length, 1 ≤ n :=
    List.forall_mem_map.mpr fun batch hbatch => ((metered h).sizes batch hbatch).1
  have hle := List.length_le_sum_of_one_le _ hpos
  have hiff := length_eq_sum_iff hpos
  rw [hsum, List.length_map] at hle hiff
  rw [List.forall_mem_map] at hiff
  rw [hlocks, ← hiff]
  exact ⟨Nat.add_le_add_left hle _, Nat.add_left_cancel_iff⟩

/-- With a batch size of one every batch is a single item. -/
theorem locks_eq_of_unbatched (h : Interleaving.Run engine.Step engine.start trace s)
    (hjoined : s.Joined) (hbatch : engine.config.queueBatchSize = 1) :
    s.aggregateMetrics.lockAcquisitions =
      engine.config.workerCount + engine.buildWorkItems.length := by
  rw [(locks_le_of_joined h hjoined).2]
  intro batch hmem
  obtain ⟨hpos, hmost⟩ := (metered h).sizes batch hmem
  rw [hbatch] at hmost
  exact Nat.le_antisymm (hmost.trans (min_le_left _ _)) hpos

/-- **Lock acquisitions of the batched executor.** A run that is joined needs one acquisition
    for each worker and one for each batch: at least as many batches as the items fill, at
    most as many as there are items, and that many only if each batch is a single item. So
    batches of one need the most, whatever the interleaving and the capacity. -/
theorem lock_acquisitions_bounds (engine : PerformanceEngine) :
    ∀ trace s, Interleaving.Run engine.Step engine.start trace s → s.Joined →
      engine.config.workerCount + engine.buildWorkItems.length ⌈/⌉
          min engine.config.queueBatchSize engine.config.queueCapacity ≤
        (engine.multithreadedResult s).lockAcquisitions ∧
      (engine.multithreadedResult s).lockAcquisitions ≤
        engine.config.workerCount + engine.buildWorkItems.length ∧
      ((engine.multithreadedResult s).lockAcquisitions =
          engine.config.workerCount + engine.buildWorkItems.length ↔
        ∀ batch ∈ takenBatches trace, batch.length = 1) ∧
      (engine.config.queueBatchSize = 1 →
        (engine.multithreadedResult s).lockAcquisitions =
          engine.config.workerCount + engine.buildWorkItems.length) ∧
      ∀ unbatched : PerformanceEngine,
        unbatched.config.queueBatchSize = 1 →
        unbatched.config.workerCount = engine.config.workerCount →
        unbatched.config.workloadSize = engine.config.workloadSize →
        unbatched.config.chunkSize = engine.config.chunkSize →
        ∀ trace' s', Interleaving.Run unbatched.Step unbatched.start trace' s' → s'.Joined →
          (engine.multithreadedResult s).lockAcquisitions ≤
            (unbatched.multithreadedResult s').lockAcquisitions := by
  intro trace s hrun hjoined
  obtain ⟨hle, hiff⟩ := locks_le_of_joined hrun hjoined
  refine ⟨le_locks_of_joined hrun hjoined, hle, hiff, locks_eq_of_unbatched hrun hjoined, ?_⟩
  intro unbatched hbatch hworkers hsize hchunk trace' s' hrun' hjoined'
  have heq := locks_eq_of_unbatched hrun' hjoined' hbatch
  have hitems : unbatched.buildWorkItems.length = engine.buildWorkItems.length := by
    rw [length_buildWorkItems, length_buildWorkItems, taskCount, taskCount, hsize, hchunk]
  refine hle.trans ?_
  change _ ≤ s'.aggregateMetrics.lockAcquisitions
  rw [heq, hitems, hworkers]

/-- Two workers lock once for each of two items, and once more each to leave. -/
theorem lock_acquisitions_bounds_twoWorkers :
    ∃ trace, ∃ s : MultiState twoWorkers.config.workerCount,
      Interleaving.Run twoWorkers.Step twoWorkers.start trace s ∧ s.Joined ∧
      (twoWorkers.multithreadedResult s).lockAcquisitions = 2 + 2 := by
  have hitems : twoWorkers.buildWorkItems.length = 2 := by
    rw [length_buildWorkItems]
    rfl
  obtain ⟨trace, s, hrun, hjoined⟩ := exists_joined_run
  have h := (lock_acquisitions_bounds twoWorkers trace s hrun hjoined).2.2.2.1 rfl
  rw [hitems] at h
  exact ⟨trace, s, hrun, hjoined, h⟩

end PerformanceEngine

end AccelSim
