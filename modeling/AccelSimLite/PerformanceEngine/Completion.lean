import AccelSimLite.Lib.Potential
import AccelSimLite.PerformanceEngine.Deadlock

/-!
# Completion

A potential counts what is still to be done: the items to push, the tasks in the queue
and in the batches, and how often those who share the queue can still fall asleep. Every
step lowers it but a spurious wakeup. So a run ends, and it ends with the joins unless
the queue has no capacity or more is to be reserved than a vector can hold.

## Main definitions

- `MultiEvent.wakeups` — the spurious wakeups in an event
- `MultiState.potential` — what is still to be done
- `PerformanceEngine.stepBound` — what is to be done at the start

## Main results

- `PerformanceEngine.amortised` — every step lowers the potential or is a wakeup
- `PerformanceEngine.multithreaded_completes_iff` — runs are short, and can be completed
-/

namespace AccelSim

/-- The spurious wakeups in an event. -/
def MultiEvent.wakeups {n : ℕ} : MultiEvent n → ℕ
  | .wakes _ => 1
  | .producerWakes => 1
  | _ => 0

/-! ### The potential -/

/-- The steps that a worker can still make before it needs a task or a wakeup. -/
def WorkerPc.remaining : WorkerPc → ℕ
  | .starting => 4
  | .running batch => batch.length + 3
  | .asleep => 2
  | .woken => 3
  | .leaving => 1
  | .done => 0

/-- The steps that the producer can still cause. Pushing an item may wake everybody, and
    so does the last notification. -/
def ProducerPc.remaining (workerCount : ℕ) : ProducerPc → ℕ
  | .pushing rest => (workerCount + 4) * rest.length + workerCount + 2
  | .asleep rest => (workerCount + 4) * rest.length + workerCount + 1
  | .woken rest => (workerCount + 4) * rest.length + workerCount + 2
  | .notifying => workerCount + 1
  | .joining => 0

/-- A run can still fail once. -/
def RunFailure.remaining : Option RunFailure → ℕ
  | none => 1
  | some _ => 0

/-- What is still to be done. A task in the queue is to be taken and processed, and may
    wake the producer. -/
def MultiState.potential {n : ℕ} (s : MultiState n) : ℕ :=
  s.producer.remaining n + 3 * s.queue.length + Threads.total (·.pc.remaining) s.workers +
    RunFailure.remaining s.failure

theorem ProducerPc.remaining_notified_le (n : ℕ) (pc : ProducerPc) :
    pc.notified.remaining n ≤ pc.remaining n + 1 := by
  cases pc <;> simp only [notified, remaining] <;> omega

theorem ProducerPc.of_notified_eq_woken {pc : ProducerPc} {rest : List WorkItem}
    (h : pc.notified = .woken rest) : pc = .asleep rest ∨ pc = .woken rest := by
  cases pc <;> cases h
  · exact .inl rfl
  · exact .inr rfl

theorem ProducerPc.AtLock.remaining_eq {n : ℕ} {pc : ProducerPc} {item : WorkItem}
    {rest : List WorkItem} (h : pc.AtLock item rest) :
    pc.remaining n = (n + 4) * rest.length + (n + 4) + n + 2 := by
  rcases h with rfl | rfl <;> rw [remaining, List.length_cons, Nat.mul_add_one]

theorem WorkerThread.AtLock.remaining_eq {w : WorkerThread} (h : w.AtLock) :
    w.pc.remaining = 3 := by
  rcases h with h | h <;> rw [h] <;> rfl

theorem remaining_le_of_wakes {n : ℕ} {workers workers' : Fin n → WorkerThread}
    (h : queueNotEmpty.Wakes workers workers') :
    Threads.total (·.pc.remaining) workers' ≤ Threads.total (·.pc.remaining) workers + n := by
  have hwoken : ∀ w, queueNotEmpty.asleep w →
      (queueNotEmpty.wake w).pc.remaining ≤ w.pc.remaining + 1 := by
    intro w hw
    have hpc : w.pc = .asleep := of_decide_eq_true hw
    rw [hpc]
    exact Nat.le_refl 3
  have hle := h.total_le (·.pc.remaining) hwoken
  rwa [Fintype.card_fin] at hle

namespace PerformanceEngine

variable {engine : PerformanceEngine} {trace : List (MultiEvent engine.config.workerCount)}
  {s s' : MultiState engine.config.workerCount} {e : MultiEvent engine.config.workerCount}

/-- A step of a worker that leaves the queue and the producer alone. -/
theorem potential_of_worker {i : Fin engine.config.workerCount} {w : WorkerThread} {cost : ℕ}
    (hworkers : s'.workers = Function.update s.workers i w) (hproducer : s'.producer = s.producer)
    (hqueue : s'.queue = s.queue) (hfailure : s'.failure = s.failure)
    (hless : w.pc.remaining + 1 ≤ (s.workers i).pc.remaining + cost) :
    s'.potential + 1 ≤ s.potential + cost := by
  have hsum := Threads.total_update (·.pc.remaining) s.workers i w
  rw [MultiState.potential, MultiState.potential, hworkers, hproducer, hqueue, hfailure]
  omega

/-- A worker takes its batch and notifies the producer. -/
theorem potential_of_take {i : Fin engine.config.workerCount} {w : WorkerThread}
    (hlock : (s.workers i).AtLock) (hne : s.queue ≠ [])
    (hw : w.pc = .running (s.queue.take (engine.tasksToTake s.queue)))
    (hworkers : s'.workers = Function.update s.workers i w)
    (hproducer : s'.producer = s.producer.notified)
    (hqueue : s'.queue = s.queue.drop (engine.tasksToTake s.queue))
    (hfailure : s'.failure = s.failure) : s'.potential + 1 ≤ s.potential := by
  have hsum := Threads.total_update (·.pc.remaining) s.workers i w
  have hnotified := s.producer.remaining_notified_le engine.config.workerCount
  have hpos : 0 < s.queue.length := List.length_pos_of_ne_nil hne
  have hbatch : 0 < engine.config.queueBatchSize := Nat.pos_of_ne_zero engine.queueBatchSize_ne
  have hsome : 1 ≤ engine.tasksToTake s.queue := Nat.le_min.mpr ⟨hbatch, hpos⟩
  have hle : engine.tasksToTake s.queue ≤ s.queue.length := Nat.min_le_right _ _
  have hremaining : w.pc.remaining = engine.tasksToTake s.queue + 3 := by
    rw [hw, WorkerPc.remaining, List.length_take, Nat.min_eq_left hle]
  rw [hlock.remaining_eq, hremaining] at hsum
  rw [MultiState.potential, MultiState.potential, hworkers, hproducer, hqueue, hfailure,
    List.length_drop]
  omega

/-- The producer pushes a task and notifies a worker. -/
theorem potential_of_push {item : WorkItem} {rest : List WorkItem} {task : QueuedTask}
    (hlock : s.producer.AtLock item rest) (hwakes : queueNotEmpty.Wakes s.workers s'.workers)
    (hproducer : s'.producer = .pushing rest) (hqueue : s'.queue = s.queue ++ [task])
    (hfailure : s'.failure = s.failure) : s'.potential + 1 ≤ s.potential := by
  have hworkers := remaining_le_of_wakes hwakes
  rw [MultiState.potential, MultiState.potential, hproducer, hqueue, hfailure, hlock.remaining_eq,
    ProducerPc.remaining, List.length_append, List.length_singleton]
  omega

/-- Every step lowers the potential, but for a wakeup. -/
theorem Step.potential_add_le (hs : engine.Step s e s') :
    s'.potential + 1 ≤ s.potential + 2 * e.wakeups := by
  cases hs with
  | reserve i hpc =>
    refine potential_of_worker rfl rfl rfl rfl ?_
    rw [hpc]
    exact Nat.le_refl 4
  | terminate i hpc hmore hlive =>
    rw [MultiState.potential, MultiState.potential, hlive]
    exact Nat.le_refl _
  | sleep i contended waitNs hlock hqueue =>
    refine potential_of_worker rfl rfl rfl rfl ?_
    rw [hlock.remaining_eq]
    exact Nat.le_refl 3
  | wake i hpc =>
    refine potential_of_worker rfl rfl rfl rfl ?_
    rw [hpc]
    exact Nat.le_refl 4
  | take i contended waitNs hlock hqueue => exact potential_of_take hlock hqueue rfl rfl rfl rfl rfl
  | process i task batch queueWaitNs latency hpc =>
    refine potential_of_worker rfl rfl rfl rfl ?_
    rw [hpc]
    exact Nat.le_refl _
  | leave i contended waitNs hlock hqueue =>
    refine potential_of_worker rfl rfl rfl rfl ?_
    rw [hlock.remaining_eq]
    exact Nat.le_succ 2
  | merge i hpc =>
    refine potential_of_worker rfl rfl rfl rfl ?_
    rw [hpc]
    exact Nat.le_refl 1
  | producerSleep item rest hlock =>
    rw [MultiState.potential, MultiState.potential, hlock.remaining_eq]
    simp only [ProducerPc.remaining, List.length_cons, Nat.mul_add_one]
    omega
  | producerWake rest hpc =>
    rw [MultiState.potential, MultiState.potential, hpc]
    simp only [ProducerPc.remaining, MultiEvent.wakeups]
    omega
  | push item rest queuedAt workers hlock hroom hsignals =>
    exact potential_of_push hlock hsignals.wakes rfl rfl rfl
  | finish hpc =>
    rw [MultiState.potential, MultiState.potential, hpc]
    simp only [ProducerPc.remaining, List.length_nil]
    omega
  | notify hpc =>
    have hwakes := remaining_le_of_wakes (queueNotEmpty.wakes_broadcast s.workers)
    rw [MultiState.potential, MultiState.potential, hpc]
    simp only [ProducerPc.remaining]
    omega

/-- What is to be done at the start. -/
def stepBound (engine : PerformanceEngine) : ℕ :=
  (engine.config.workerCount + 4) * engine.taskCount + 5 * engine.config.workerCount + 3

theorem potential_start_le (engine : PerformanceEngine) :
    engine.start.potential ≤ engine.stepBound := by
  have hworkers : Threads.total (·.pc.remaining) engine.start.workers =
      engine.config.workerCount * 4 := by
    refine (Finset.sum_const_nat fun _ _ => rfl).trans ?_
    rw [Finset.card_univ, Fintype.card_fin]
  have hfailure : RunFailure.remaining engine.start.failure ≤ 1 := by
    cases engine.start.failure with
    | none => exact Nat.le_refl 1
    | some _ => exact Nat.zero_le 1
  rw [MultiState.potential, hworkers]
  simp only [start, ProducerPc.remaining, List.length_nil, length_buildWorkItems,
    stepBound] at hfailure ⊢
  omega

theorem amortised (engine : PerformanceEngine) :
    Interleaving.Amortised engine.Step engine.start MultiState.potential 2
      MultiEvent.wakeups :=
  fun _ _ _ _ _ hs => hs.potential_add_le

/-! ### Progress -/

/-- A producer that has been woken has something to push. -/
theorem rest_ne_nil_of_woken (h : Interleaving.Run engine.Step engine.start trace s)
    {rest : List WorkItem} (hrest : s.producer = .woken rest) : rest ≠ [] := by
  revert rest
  refine h.invariant_of_run (fun _ s => ∀ {rest}, s.producer = .woken rest → rest ≠ []) ?_ ?_
  · intro rest hrest
    cases hrest
  · intro trace u e v hu ih hs rest hrest
    have hasleep : ∀ rest, u.producer = .asleep rest → rest ≠ [] :=
      fun rest hpc => ((attended hu).full rest hpc).1
    cases hs with
    | take i contended waitNs hlock hqueue =>
      rcases ProducerPc.of_notified_eq_woken hrest with hpc | hpc
      · exact hasleep rest hpc
      · exact ih hpc
    | producerWake rest' hpc =>
      cases hrest
      exact hasleep rest hpc
    | producerSleep => cases hrest
    | push => cases hrest
    | finish => cases hrest
    | notify => cases hrest
    | _ => exact ih hrest

/-- Somebody who is not asleep can make a step; so in a state where only wakeups are
    possible everybody sleeps. -/
theorem deadlocked_of_stuck (hreserves : engine.Reserves)
    (h : Interleaving.Run engine.Step engine.start trace s)
    (hjoined : ¬s.Joined) (hstuck : ∀ e s', engine.Step s e s' → e.wakeups ≠ 0) :
    s.Deadlocked := by
  have hlive := failure_eq_none hreserves h
  have hlock : ∀ i, ¬(s.workers i).AtLock := by
    intro i hi
    by_cases hqueue : s.queue = []
    · cases hfinished : s.producerFinished with
      | false => exact hstuck _ _ (.sleep i false 0 hi hqueue hfinished hlive) rfl
      | true => exact hstuck _ _ (.leave i false 0 hi hqueue hfinished hlive) rfl
    · exact hstuck _ _ (.take i false 0 hi hqueue hlive) rfl
  have hpush : ∀ item rest, ¬s.producer.AtLock item rest := by
    intro item rest hi
    by_cases hroom : s.queue.length < engine.config.queueCapacity
    · exact hstuck _ _ (.push item rest 0 _ hi hroom
        (queueNotEmpty.signals_broadcast s.workers) hlive) rfl
    · exact hstuck _ _ (.producerSleep item rest hi (Nat.le_of_not_lt hroom) hlive) rfl
  constructor
  case unfinished =>
    rw [MultiState.Joined, not_and_or] at hjoined
    exact hjoined.imp id not_forall.mp
  case producer_asleep =>
    intro hne
    cases hpc : s.producer with
    | pushing rest =>
      cases rest with
      | nil => exact absurd rfl (hstuck _ _ (.finish hpc hlive))
      | cons item rest => exact absurd (.inl hpc) (hpush item rest)
    | asleep rest => exact ⟨rest, rfl⟩
    | woken rest =>
      obtain ⟨item, rest', rfl⟩ := List.exists_cons_of_ne_nil (rest_ne_nil_of_woken h hpc)
      exact absurd (.inr hpc) (hpush item rest')
    | notifying => exact absurd rfl (hstuck _ _ (.notify hpc hlive))
    | joining => exact absurd hpc hne
  case worker_asleep =>
    intro i hne
    cases hpc : (s.workers i).pc with
    | starting =>
      exact absurd rfl (hstuck _ _ (.reserve i hpc hreserves.taskBatch hlive))
    | running batch =>
      cases batch with
      | nil => exact absurd (.inl hpc) (hlock i)
      | cons task batch => exact absurd rfl (hstuck _ _ (.process i task batch 0 0 hpc hlive))
    | asleep => rfl
    | woken => exact absurd (.inr hpc) (hlock i)
    | leaving => exact absurd rfl (hstuck _ _ (.merge i hpc hlive))
    | done => exact absurd hpc hne

/-! ### Completion -/

/-- **Every run is short, and can be completed**: it makes no more steps than its bound
    and two for each spurious wakeup, and from wherever it has come to, the threads reach
    their joins without any, unless there is something to push and no room for it, or a
    call of `reserve` that throws. -/
theorem multithreaded_completes_iff (engine : PerformanceEngine) :
    (∀ trace s, Interleaving.Run engine.Step engine.start trace s →
      trace.length ≤ engine.stepBound + 2 * (trace.map MultiEvent.wakeups).sum) ∧
    ((∀ trace s, Interleaving.Run engine.Step engine.start trace s →
        ∃ rest s', Interleaving.Run engine.Step s rest s' ∧ s'.Joined ∧
          ∀ e ∈ rest, e.wakeups = 0) ↔
      ¬(engine.config.queueCapacity = 0 ∧ 0 < engine.config.workloadSize) ∧
      engine.config.queueBatchSize ≤ taskBatchMaxSize ∧
      engine.config.workerCount ≤ workersMaxSize) := by
  refine ⟨fun trace s hrun => ?_, fun hall => ?_, ?_⟩
  · have hlength := engine.amortised.length_add_le hrun
    have hstart := engine.potential_start_le
    omega
  · -- a worker that is done had its batch reserved
    obtain ⟨rest, s', hrun, hjoined, _⟩ := hall [] _ .start
    have hdone := hjoined.2 ⟨0, Nat.pos_of_ne_zero engine.workerCount_ne⟩
    have hreserves := reserves_of_run hrun (by rw [hdone]; exact WorkerPc.noConfusion)
    refine ⟨?_, hreserves.taskBatch, hreserves.workers⟩
    rintro ⟨hcapacity, hsize⟩
    obtain ⟨trace, s, hrun, hdead⟩ := exists_deadlocked hcapacity hsize hreserves
    obtain ⟨rest, s', hrest, hjoined, hfree⟩ := hall trace s hrun
    have hstuck : ∀ e v, engine.Step s e v → e.wakeups ≠ 0 := by
      intro e v hs
      rcases hs.of_deadlocked hdead with ⟨i, rfl⟩ | rfl
      · exact Nat.one_ne_zero
      · exact Nat.one_ne_zero
    obtain rfl := hrest.eq_of_stuck hstuck hfree
    rcases hdead.unfinished with hne | ⟨i, hne⟩
    · exact hne hjoined.1
    · exact hne (hjoined.2 i)
  · rintro ⟨hroom, hbatch, hworkers⟩ trace s hrun
    refine (amortised engine).exists_end (fun trace u hu hend => ?_) hrun
    by_contra hnone
    push Not at hnone
    exact hroom (capacity_eq_zero_of_deadlocked hu
      (deadlocked_of_stuck ⟨hbatch, hworkers⟩ hu hend hnone))

end PerformanceEngine

end AccelSim
