import AccelSimLite.PerformanceEngine.Shutdown
import Mathlib.Algebra.Group.Prod
import Mathlib.Algebra.Order.Group.Multiset

/-!
# Every item exactly once

Whatever the interleaving, the work items are at all times divided into those
processed, those in the batch of some worker, those in the queue and those the
producer has still to push. The checksum is the exclusive or over the processed
ones, in whatever order they came, and the counters of the workers and the
aggregate together count them.

## Main results

- `PerformanceEngine.accounted` — the division, in every run
- `PerformanceEngine.multithreaded_eq_singleThreaded` — a run that is joined gives
  what the single-threaded run gives
-/

namespace AccelSim

/-- The items that the producer has still to push. -/
def ProducerPc.rest : ProducerPc → List WorkItem
  | .pushing rest => rest
  | .asleep rest => rest
  | .woken rest => rest
  | .notifying => []
  | .joining => []

theorem ProducerPc.rest_notified (pc : ProducerPc) : pc.notified.rest = pc.rest := by
  cases pc <;> rfl

theorem ProducerPc.AtLock.rest_eq {pc : ProducerPc} {item : WorkItem} {rest : List WorkItem}
    (h : pc.AtLock item rest) : pc.rest = item :: rest := by
  obtain hpc | hpc := h
  · rw [hpc]
    rfl
  · rw [hpc]
    rfl

/-- The items in a worker's hands. -/
def WorkerPc.batchItems : WorkerPc → Multiset WorkItem
  | .running batch => (batch.map QueuedTask.work : List WorkItem)
  | _ => 0

/-- Completed tasks, simulated allocations and recorded latencies. -/
def WorkerMetrics.tally (metrics : WorkerMetrics) (latencies : List ℕ) : ℕ × ℕ × ℕ :=
  (metrics.tasksCompleted, metrics.simulatedAllocations, latencies.length)

namespace WorkerThread

def batchItems (w : WorkerThread) : Multiset WorkItem := w.pc.batchItems

/-- What a worker has counted and not yet merged. -/
def unmerged (w : WorkerThread) : ℕ × ℕ × ℕ :=
  if w.pc = .done then 0 else w.localMetrics.tally w.localLatencies

/-! ### Local steps -/

theorem AtLock.batchItems_eq {w : WorkerThread} (h : w.AtLock) : w.batchItems = 0 := by
  obtain hpc | hpc := h
  · show w.pc.batchItems = 0
    rw [hpc]
    rfl
  · show w.pc.batchItems = 0
    rw [hpc]
    rfl

theorem unmerged_goto {w : WorkerThread} {pc : WorkerPc} (hw : w.pc ≠ .done) (hpc : pc ≠ .done) :
    (w.goto pc).unmerged = w.unmerged := by
  have hgoto : (w.goto pc).pc ≠ .done := hpc
  rw [unmerged, unmerged, if_neg hgoto, if_neg hw]
  rfl

/-- Taking the mutex changes the lock counters only. -/
theorem unmerged_acquire (w : WorkerThread) (contended : Bool) (waitNs : ℕ) :
    (w.acquire contended waitNs).unmerged = w.unmerged := by
  obtain ⟨pc, metrics, latencies⟩ := w
  cases pc <;> rfl

theorem acquire_pc (w : WorkerThread) (contended : Bool) (waitNs : ℕ) :
    (w.acquire contended waitNs).pc = w.pc := by
  obtain ⟨pc, metrics, latencies⟩ := w
  cases pc <;> rfl

theorem AtLock.ne_done {w : WorkerThread} (h : w.AtLock) : w.pc ≠ .done := by
  obtain hpc | hpc := h
  · rw [hpc]
    exact WorkerPc.noConfusion
  · rw [hpc]
    exact WorkerPc.noConfusion

theorem AtLock.unmerged_goto {w : WorkerThread} (h : w.AtLock) (contended : Bool) (waitNs : ℕ)
    {pc : WorkerPc} (hpc : pc ≠ .done) :
    ((w.acquire contended waitNs).goto pc).unmerged = w.unmerged := by
  have hne : (w.acquire contended waitNs).pc ≠ .done := by
    rw [acquire_pc]
    exact h.ne_done
  rw [WorkerThread.unmerged_goto hne hpc, unmerged_acquire]

/-- A task is processed: one more in every count. -/
theorem process_spec (engine : PerformanceEngine) {w : WorkerThread} {task : QueuedTask}
    {batch : List QueuedTask} (hpc : w.pc = .running (task :: batch))
    (htask : task.work.beginIdx < task.work.endIdx) (queueWaitNs latency : ℕ) :
    (w.process engine task batch queueWaitNs latency).1 = engine.itemChecksum task.work ∧
      (w.process engine task batch queueWaitNs latency).2.batchItems + {task.work} =
        w.batchItems ∧
      (w.process engine task batch queueWaitNs latency).2.unmerged = w.unmerged + (1, 1, 1) := by
  have hne : w.pc ≠ .done := by
    rw [hpc]
    exact WorkerPc.noConfusion
  rw [process, engine.processWork_eq htask]
  refine ⟨rfl, ?_, ?_⟩
  · show ((batch.map QueuedTask.work : List WorkItem) : Multiset WorkItem) + {task.work} =
      w.pc.batchItems
    rw [hpc, Multiset.add_comm, Multiset.singleton_add]
    rfl
  · rw [unmerged, unmerged, if_neg WorkerPc.noConfusion, if_neg hne]
    show (_, _, (w.localLatencies ++ [latency]).length) = _
    rw [List.length_append]
    rfl

end WorkerThread

/-- Waking workers moves no item and no count. -/
theorem total_eq_of_wakes {n : ℕ} {workers workers' : Fin n → WorkerThread}
    (h : queueNotEmpty.Wakes workers workers') :
    Threads.total WorkerThread.batchItems workers' =
        Threads.total WorkerThread.batchItems workers ∧
      Threads.total WorkerThread.unmerged workers' =
        Threads.total WorkerThread.unmerged workers := by
  constructor
  · apply h.total_eq
    intro w hasleep
    have hpc : w.pc = .asleep := of_decide_eq_true hasleep
    show (0 : Multiset WorkItem) = w.pc.batchItems
    rw [hpc]
    rfl
  · apply h.total_eq
    intro w hasleep
    have hpc : w.pc = .asleep := of_decide_eq_true hasleep
    refine WorkerThread.unmerged_goto ?_ WorkerPc.noConfusion
    rw [hpc]
    exact WorkerPc.noConfusion

theorem processedItems_append {n : ℕ} (trace trace' : List (MultiEvent n)) :
    processedItems (trace ++ trace') = processedItems trace ++ processedItems trace' :=
  List.filterMap_append

/-- The items that are not processed yet. -/
def MultiState.pending {n : ℕ} (s : MultiState n) : Multiset WorkItem :=
  Threads.total WorkerThread.batchItems s.workers +
    ((s.queue.map QueuedTask.work ++ s.producer.rest : List WorkItem) : Multiset WorkItem)

/-- What has been counted, in the aggregate and by the workers. -/
def MultiState.counted {n : ℕ} (s : MultiState n) : ℕ × ℕ × ℕ :=
  s.aggregateMetrics.tally s.aggregateLatencies + Threads.total WorkerThread.unmerged s.workers

namespace PerformanceEngine

variable {engine : PerformanceEngine} {trace : List (MultiEvent engine.config.workerCount)}
  {s s' : MultiState engine.config.workerCount} {e : MultiEvent engine.config.workerCount}

/-- Where the items are after a trace, and what has been made of those processed. -/
structure Accounted (engine : PerformanceEngine)
    (trace : List (MultiEvent engine.config.workerCount))
    (s : MultiState engine.config.workerCount) : Prop where
  items : (processedItems trace : Multiset WorkItem) + s.pending = engine.buildWorkItems
  checksum : s.checksum = xorSum (Multiset.map engine.itemChecksum (processedItems trace))
  counted : s.counted = ((processedItems trace).length, (processedItems trace).length,
    (processedItems trace).length)
  queue_le : s.queue.length ≤ engine.config.queueCapacity

/-- A step that processes nothing moves items only among those pending. -/
theorem Accounted.frame (h : engine.Accounted trace s) (hevent : processedItems [e] = [])
    (hpending : s'.pending = s.pending) (hchecksum : s'.checksum = s.checksum)
    (hcounted : s'.counted = s.counted)
    (hqueue : s'.queue.length ≤ engine.config.queueCapacity) :
    engine.Accounted (trace ++ [e]) s' := by
  have htrace : processedItems (trace ++ [e]) = processedItems trace := by
    rw [processedItems_append, hevent, List.append_nil]
  constructor
  case items => rw [htrace, hpending, h.items]
  case checksum => rw [htrace, hchecksum, h.checksum]
  case counted => rw [htrace, hcounted, h.counted]
  case queue_le => exact hqueue

/-- A worker that holds no item and merges nothing. -/
theorem Accounted.goto (h : engine.Accounted trace s) {i : Fin engine.config.workerCount}
    (hevent : processedItems [e] = []) {w : WorkerThread}
    (hbatch : w.batchItems = (s.workers i).batchItems)
    (hunmerged : w.unmerged = (s.workers i).unmerged) :
    engine.Accounted (trace ++ [e]) { s with workers := Function.update s.workers i w } := by
  refine h.frame hevent ?_ rfl ?_ h.queue_le
  · show Threads.total _ (Function.update s.workers i w) + _ = _
    rw [Threads.total_update_of_eq hbatch]
    rfl
  · show _ + Threads.total _ (Function.update s.workers i w) = _
    rw [Threads.total_update_of_eq hunmerged]
    rfl

/-- A worker takes the front of the queue. -/
theorem Accounted.take (h : engine.Accounted trace s) {i : Fin engine.config.workerCount}
    (hlock : (s.workers i).AtLock) (contended : Bool) (waitNs k : ℕ) :
    engine.Accounted (trace ++ [.takes i (s.queue.take k)])
      { s with
        queue := s.queue.drop k
        producer := s.producer.notified
        workers := Function.update s.workers i
          (((s.workers i).acquire contended waitNs).goto (.running (s.queue.take k))) } := by
  refine h.frame rfl ?_ rfl ?_ ?_
  · have hupdate := Threads.total_update WorkerThread.batchItems s.workers i
      (((s.workers i).acquire contended waitNs).goto (.running (s.queue.take k)))
    rw [hlock.batchItems_eq, add_zero] at hupdate
    show Threads.total _ (Function.update s.workers i _) + _ = _
    rw [hupdate, add_assoc]
    apply congrArg (Threads.total WorkerThread.batchItems s.workers + ·)
    -- the batch in front of the rest of the queue is the queue
    show ((_ : List WorkItem) : Multiset WorkItem) + _ = _
    rw [Multiset.coe_add, ← List.append_assoc, ← List.map_append, List.take_append_drop,
      ProducerPc.rest_notified]
  · show _ + Threads.total _ (Function.update s.workers i _) = _
    rw [Threads.total_update_of_eq (hlock.unmerged_goto contended waitNs WorkerPc.noConfusion)]
    rfl
  · exact (List.length_drop ▸ Nat.sub_le _ _).trans h.queue_le

/-- The producer moves its next item to the end of the queue. -/
theorem Accounted.push (h : engine.Accounted trace s) {item : WorkItem} {rest : List WorkItem}
    (hproducer : s.producer.AtLock item rest)
    (hroom : s.queue.length < engine.config.queueCapacity) (queuedAt : ℕ)
    {workers : Fin engine.config.workerCount → WorkerThread}
    (hsignals : queueNotEmpty.Signals s.workers workers) :
    engine.Accounted (trace ++ [.pushes item])
      { s with
        queue := s.queue ++ [⟨item, queuedAt⟩]
        producer := .pushing rest
        workers := workers } := by
  obtain ⟨hitems, hcounts⟩ := total_eq_of_wakes hsignals.wakes
  refine h.frame rfl ?_ rfl ?_ ?_
  · show Threads.total _ workers + ((_ : List WorkItem) : Multiset WorkItem) = _
    rw [hitems, MultiState.pending, hproducer.rest_eq, List.map_append, List.append_assoc]
    rfl
  · show _ + Threads.total _ workers = _
    rw [hcounts]
    rfl
  · show (s.queue ++ [_]).length ≤ _
    rw [List.length_append]
    exact hroom

/-- A worker processes the first item of its batch. -/
theorem Accounted.process (h : engine.Accounted trace s) {i : Fin engine.config.workerCount}
    {task : QueuedTask} {batch : List QueuedTask}
    (hpc : (s.workers i).pc = .running (task :: batch)) (queueWaitNs latency : ℕ) :
    engine.Accounted (trace ++ [.processes i task.work])
      { s with
        checksum := s.checksum ^^^
          ((s.workers i).process engine task batch queueWaitNs latency).1
        workers := Function.update s.workers i
          ((s.workers i).process engine task batch queueWaitNs latency).2 } := by
  have hbatch : task.work ∈ (s.workers i).batchItems := by
    show task.work ∈ (s.workers i).pc.batchItems
    rw [hpc]
    exact List.mem_cons_self
  have hitem : task.work ∈ engine.buildWorkItems := by
    rw [← Multiset.mem_coe, ← h.items]
    exact Multiset.mem_add.mpr (.inr (Multiset.mem_add.mpr (.inl
      (Multiset.mem_of_le (Threads.le_total _ _ i) hbatch))))
  obtain ⟨hchecksum, hitems, hcounts⟩ := WorkerThread.process_spec engine hpc
    (buildWorkItems_nonempty hitem) queueWaitNs latency
  set w := (s.workers i).process engine task batch queueWaitNs latency with hw
  have htrace : processedItems (trace ++ [.processes i task.work]) =
      processedItems trace ++ [task.work] := processedItems_append _ _
  have hpending := Threads.total_update WorkerThread.batchItems s.workers i w.2
  have hunmerged := Threads.total_update WorkerThread.unmerged s.workers i w.2
  constructor
  case items =>
    have htotal : Threads.total WorkerThread.batchItems (Function.update s.workers i w.2) +
        {task.work} = Threads.total WorkerThread.batchItems s.workers := by
      rw [← hitems, ← add_assoc, add_right_comm] at hpending
      exact add_right_cancel hpending
    rw [htrace, ← h.items, ← Multiset.coe_add, Multiset.coe_singleton, add_assoc]
    apply congrArg (_ + ·)
    show {task.work} + (Threads.total _ _ + _) = Threads.total _ _ + _
    rw [← htotal, ← add_assoc]
    apply congrArg (· + _)
    exact add_comm _ _
  case checksum =>
    show s.checksum ^^^ w.1 = _
    rw [hchecksum, h.checksum, htrace, ← Multiset.coe_add, Multiset.map_add, xorSum_add]
    show _ = _ ^^^ xorSum (engine.itemChecksum task.work ::ₘ 0)
    rw [xorSum_cons, xorSum_zero, UInt64.xor_zero]
  case counted =>
    have htotal : Threads.total WorkerThread.unmerged (Function.update s.workers i w.2) =
        Threads.total WorkerThread.unmerged s.workers + (1, 1, 1) := by
      rw [hcounts, ← add_assoc, add_right_comm] at hunmerged
      exact add_right_cancel hunmerged
    show _ + Threads.total _ (Function.update s.workers i w.2) = _
    rw [htotal, ← add_assoc, htrace, List.length_append]
    have hcounted := h.counted
    rw [MultiState.counted] at hcounted
    rw [hcounted]
    rfl
  case queue_le => exact h.queue_le

/-- A worker adds what it has counted to the aggregate. -/
theorem Accounted.merge (h : engine.Accounted trace s) {i : Fin engine.config.workerCount}
    (hpc : (s.workers i).pc = .leaving) :
    engine.Accounted (trace ++ [.merges i])
      { s with
        aggregateMetrics := s.aggregateMetrics.merge (s.workers i).localMetrics
        aggregateLatencies := s.aggregateLatencies ++ (s.workers i).localLatencies
        workers := Function.update s.workers i ((s.workers i).goto .done) } := by
  have hbatch : ((s.workers i).goto .done).batchItems = (s.workers i).batchItems := by
    show 0 = (s.workers i).pc.batchItems
    rw [hpc]
    rfl
  have hunmerged : (s.workers i).unmerged =
      (s.workers i).localMetrics.tally (s.workers i).localLatencies := by
    rw [WorkerThread.unmerged, hpc, if_neg WorkerPc.noConfusion]
  have hdone : ((s.workers i).goto .done).unmerged = 0 := if_pos rfl
  refine h.frame rfl ?_ rfl ?_ h.queue_le
  · show Threads.total _ (Function.update s.workers i _) + _ = _
    rw [Threads.total_update_of_eq hbatch]
    rfl
  · have htotal := Threads.total_update WorkerThread.unmerged s.workers i
      ((s.workers i).goto .done)
    rw [hdone, add_zero, hunmerged] at htotal
    have hmerge : (s.aggregateMetrics.merge (s.workers i).localMetrics).tally
        (s.aggregateLatencies ++ (s.workers i).localLatencies) =
        s.aggregateMetrics.tally s.aggregateLatencies +
          (s.workers i).localMetrics.tally (s.workers i).localLatencies := by
      rw [WorkerMetrics.tally, List.length_append]
      rfl
    show WorkerMetrics.tally _ _ + Threads.total _ (Function.update s.workers i _) = _
    rw [hmerge, MultiState.counted, ← htotal, add_assoc]
    apply congrArg (_ + ·)
    exact add_comm _ _

/-- One step of anyone keeps the account. -/
theorem Accounted.step (h : engine.Accounted trace s) (hs : engine.Step s e s') :
    engine.Accounted (trace ++ [e]) s' := by
  cases hs with
  | reserve i hpc =>
    refine h.goto rfl ?_ (WorkerThread.unmerged_goto ?_ WorkerPc.noConfusion)
    · show 0 = (s.workers i).pc.batchItems
      rw [hpc]
      rfl
    · rw [hpc]
      exact WorkerPc.noConfusion
  | terminate => exact h.frame rfl rfl rfl rfl h.queue_le
  | sleep i contended waitNs hlock =>
    exact h.goto rfl hlock.batchItems_eq.symm
      (hlock.unmerged_goto contended waitNs WorkerPc.noConfusion)
  | wake i hpc =>
    refine h.goto rfl ?_ (WorkerThread.unmerged_goto ?_ WorkerPc.noConfusion)
    · show 0 = (s.workers i).pc.batchItems
      rw [hpc]
      rfl
    · rw [hpc]
      exact WorkerPc.noConfusion
  | take i contended waitNs hlock => exact h.take hlock contended waitNs _
  | process i task batch queueWaitNs latency hpc => exact h.process hpc queueWaitNs latency
  | leave i contended waitNs hlock =>
    exact h.goto rfl hlock.batchItems_eq.symm
      (hlock.unmerged_goto contended waitNs WorkerPc.noConfusion)
  | merge i hpc => exact h.merge hpc
  | producerSleep item rest hproducer hfull =>
    refine h.frame rfl ?_ rfl rfl h.queue_le
    rw [MultiState.pending, MultiState.pending, hproducer.rest_eq]
    rfl
  | producerWake rest hpc =>
    refine h.frame rfl ?_ rfl rfl h.queue_le
    rw [MultiState.pending, MultiState.pending, hpc]
    rfl
  | push item rest queuedAt workers hproducer hroom hsignals =>
    exact h.push hproducer hroom queuedAt hsignals
  | finish hpc =>
    refine h.frame rfl ?_ rfl rfl h.queue_le
    rw [MultiState.pending, MultiState.pending, hpc]
    rfl
  | notify hpc =>
    obtain ⟨hitems, hcounts⟩ := total_eq_of_wakes (queueNotEmpty.wakes_broadcast s.workers)
    refine h.frame rfl ?_ rfl ?_ h.queue_le
    · show Threads.total _ (queueNotEmpty.broadcast s.workers) + _ = _
      rw [hitems, MultiState.pending, hpc]
      rfl
    · show _ + Threads.total _ (queueNotEmpty.broadcast s.workers) = _
      rw [hcounts]
      rfl

theorem accounted_start (engine : PerformanceEngine) : engine.Accounted [] engine.start := by
  have hitems : Threads.total WorkerThread.batchItems engine.start.workers = 0 :=
    Threads.total_eq_zero fun _ => rfl
  have hcounts : Threads.total WorkerThread.unmerged engine.start.workers = 0 :=
    Threads.total_eq_zero fun _ => rfl
  constructor
  case items =>
    rw [MultiState.pending, hitems, zero_add]
    exact zero_add _
  case checksum => rfl
  case counted =>
    rw [MultiState.counted, hcounts]
    rfl
  case queue_le => exact Nat.zero_le _

/-- The account of every run. -/
theorem accounted (h : Interleaving.Run engine.Step engine.start trace s) :
    engine.Accounted trace s :=
  h.invariant engine.Accounted engine.accounted_start fun _ _ _ _ => Accounted.step

/-! ### After the joins -/

theorem pending_of_joined (h : s.Joined) (hqueue : s.queue = []) : s.pending = 0 := by
  have hworkers : Threads.total WorkerThread.batchItems s.workers = 0 := by
    apply Threads.total_eq_zero
    intro i
    show (s.workers i).pc.batchItems = 0
    rw [h.2 i]
    rfl
  rw [MultiState.pending, hworkers, hqueue, h.1, zero_add]
  rfl

theorem counted_of_joined (h : s.Joined) :
    s.counted = s.aggregateMetrics.tally s.aggregateLatencies := by
  have hworkers : Threads.total WorkerThread.unmerged s.workers = 0 :=
    Threads.total_eq_zero fun i => if_pos (h.2 i)
  rw [MultiState.counted, hworkers, add_zero]

/-- **Exactly once.** In every run the queue holds at most its capacity, and a run
    that is joined has processed every item once and returns what the
    single-threaded run returns. -/
theorem multithreaded_eq_singleThreaded (engine : PerformanceEngine) :
    ∀ trace s, Interleaving.Run engine.Step engine.start trace s →
      s.queue.length ≤ engine.config.queueCapacity ∧
      (s.Joined →
        (processedItems trace).Perm engine.buildWorkItems ∧ (processedItems trace).Nodup ∧
        (engine.multithreadedResult s).checksum = engine.runSingleThreaded.checksum ∧
        s.aggregateMetrics.tasksCompleted = engine.buildWorkItems.length ∧
        s.aggregateMetrics.simulatedAllocations = engine.buildWorkItems.length ∧
        s.aggregateLatencies.length = engine.buildWorkItems.length) := by
  intro trace s hrun
  have h := accounted hrun
  refine ⟨h.queue_le, fun hjoined => ?_⟩
  have hpending := pending_of_joined hjoined (queue_eq_nil_of_joined (orderly hrun) hjoined)
  have hperm : (processedItems trace).Perm engine.buildWorkItems := by
    rw [← Multiset.coe_eq_coe, ← h.items, hpending, add_zero]
  have hcounted := h.counted
  rw [counted_of_joined hjoined, hperm.length_eq] at hcounted
  refine ⟨hperm, hperm.nodup_iff.mpr engine.nodup_buildWorkItems, ?_,
    congrArg (·.1) hcounted, congrArg (·.2.1) hcounted, congrArg (·.2.2) hcounted⟩
  show s.checksum = _
  rw [h.checksum, Multiset.coe_eq_coe.mpr hperm, runSingleThreaded_eq]
  rfl

/-- Each worker takes one of the two items, and the second is processed first. -/
theorem exists_joined_run :
    ∃ trace, ∃ s : MultiState twoWorkers.config.workerCount,
      Interleaving.Run twoWorkers.Step twoWorkers.start trace s ∧ s.Joined := by
  have hitems : twoWorkers.buildWorkItems = [⟨0, 0, 1⟩, ⟨1, 1, 2⟩] := by
    rw [buildWorkItems_eq]
    rfl
  have hstart : Interleaving.Run twoWorkers.Step twoWorkers.start [] twoWorkers.start := .start
  have hreserve := (hstart.next (.reserve ⟨0, by decide⟩ rfl (by decide) rfl)).next
    (.reserve ⟨1, by decide⟩ rfl (by decide) rfl)
  have hpush := (hreserve.next (.push ⟨0, 0, 1⟩ [⟨1, 1, 2⟩] 0 _
    (.inl (congrArg ProducerPc.pushing hitems)) (by decide)
    (CondVar.signals_of_not_asleep (by decide)) rfl)).next (.push ⟨1, 1, 2⟩ [] 0 _ (.inl rfl)
    (by decide) (CondVar.signals_of_not_asleep (by decide)) rfl)
  have hnotify := (hpush.next (.finish rfl rfl)).next (.notify rfl rfl)
  have htake := (hnotify.next (.take ⟨0, by decide⟩ false 0 (.inl rfl) (List.cons_ne_nil _ _)
    rfl)).next (.take ⟨1, by decide⟩ false 0 (.inl rfl) (List.cons_ne_nil _ _) rfl)
  have hprocess := (htake.next (.process ⟨1, by decide⟩ ⟨⟨1, 1, 2⟩, 0⟩ [] 0 0 rfl rfl)).next
    (.process ⟨0, by decide⟩ ⟨⟨0, 0, 1⟩, 0⟩ [] 0 0 rfl rfl)
  have hleave := (hprocess.next (.leave ⟨0, by decide⟩ false 0 (.inl rfl) rfl rfl rfl)).next
    (.leave ⟨1, by decide⟩ false 0 (.inl rfl) rfl rfl rfl)
  have hmerge := (hleave.next (.merge ⟨1, by decide⟩ rfl rfl)).next
    (.merge ⟨0, by decide⟩ rfl rfl)
  refine ⟨_, _, hmerge, rfl, fun i => ?_⟩
  match i with
  | ⟨0, _⟩ => rfl
  | ⟨1, _⟩ => rfl

theorem multithreaded_eq_singleThreaded_twoWorkers :
    ∃ trace, ∃ s : MultiState twoWorkers.config.workerCount,
      Interleaving.Run twoWorkers.Step twoWorkers.start trace s ∧ s.Joined ∧
      (processedItems trace).Perm [⟨0, 0, 1⟩, ⟨1, 1, 2⟩] ∧
      s.checksum = twoWorkers.runSingleThreaded.checksum ∧
      s.aggregateMetrics.tasksCompleted = 2 := by
  have hitems : twoWorkers.buildWorkItems = [⟨0, 0, 1⟩, ⟨1, 1, 2⟩] := by
    rw [buildWorkItems_eq]
    rfl
  obtain ⟨trace, s, hrun, hjoined⟩ := exists_joined_run
  obtain ⟨hperm, _, hchecksum, hcompleted, _⟩ :=
    (multithreaded_eq_singleThreaded _ trace s hrun).2 hjoined
  rw [hitems] at hperm hcompleted
  exact ⟨trace, s, hrun, hjoined, hperm, hchecksum, hcompleted⟩

end PerformanceEngine

end AccelSim
