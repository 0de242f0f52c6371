import AccelSimLite.PerformanceEngine.ExactlyOnce

/-!
# Deadlock

A worker that sleeps is covered: at least as many workers are on their way back to
the queue as there are tasks in it. A producer that sleeps has seen a full queue,
and whoever makes room wakes it. So all of them sleep only if the queue is full
and empty at once, which takes a queue of no capacity. They also have to come that
far: with more than a vector can reserve, the run ends in an exception instead.

## Main results

- `PerformanceEngine.attended` — who sleeps has a reason to, in every run
- `PerformanceEngine.reserves_of_run` — who is past its first statement could reserve
- `PerformanceEngine.deadlock_reachable_iff` — the configurations that can deadlock
-/

namespace AccelSim

/-- Somebody is not finished, and whoever is not is asleep and not notified. -/
structure MultiState.Deadlocked {n : ℕ} (s : MultiState n) : Prop where
  unfinished : s.producer ≠ .joining ∨ ∃ i, (s.workers i).pc ≠ .done
  producer_asleep : s.producer ≠ .joining → ∃ rest, s.producer = .asleep rest
  worker_asleep : ∀ i, (s.workers i).pc ≠ .done → (s.workers i).pc = .asleep

theorem ProducerPc.notified_ne_asleep (pc : ProducerPc) (rest : List WorkItem) :
    pc.notified ≠ .asleep rest := by
  cases pc <;> exact fun h => by cases h

theorem WorkerThread.not_asleep_of_pc {w : WorkerThread} (h : w.pc ≠ .asleep) :
    ¬queueNotEmpty.asleep w := fun hw => h (of_decide_eq_true hw)

theorem WorkerThread.not_woken_of_pc {w : WorkerThread} (h : w.pc ≠ .woken) :
    ¬queueNotEmpty.woken w := fun hw => h (of_decide_eq_true hw)

namespace PerformanceEngine

variable {engine : PerformanceEngine} {trace : List (MultiEvent engine.config.workerCount)}
  {s s' : MultiState engine.config.workerCount} {e : MultiEvent engine.config.workerCount}

/-- In a deadlock only a spurious wakeup can happen. -/
theorem Step.of_deadlocked (h : s.Deadlocked) (hs : engine.Step s e s') :
    (∃ i, e = .wakes i) ∨ e = .producerWakes := by
  have hworker : ∀ i, (s.workers i).pc = .done ∨ (s.workers i).pc = .asleep := fun i =>
    or_iff_not_imp_left.mpr (h.worker_asleep i)
  have hproducer : s.producer = .joining ∨ ∃ rest, s.producer = .asleep rest :=
    or_iff_not_imp_left.mpr h.producer_asleep
  have hlock : ∀ i, ¬(s.workers i).AtLock := by
    rintro i (hpc | hpc) <;> obtain hw | hw := hworker i <;> rw [hw] at hpc <;> cases hpc
  have hpush : ∀ item rest, ¬s.producer.AtLock item rest := by
    rintro item rest (hpc | hpc) <;> obtain hw | ⟨_, hw⟩ := hproducer <;> rw [hw] at hpc <;>
      cases hpc
  cases hs with
  | reserve i hpc => obtain hw | hw := hworker i <;> rw [hw] at hpc <;> cases hpc
  | terminate i hpc => obtain hw | hw := hworker i <;> rw [hw] at hpc <;> cases hpc
  | sleep i _ _ hl => exact absurd hl (hlock i)
  | wake i _ => exact .inl ⟨i, rfl⟩
  | take i _ _ hl => exact absurd hl (hlock i)
  | process i _ _ _ _ hpc => obtain hw | hw := hworker i <;> rw [hw] at hpc <;> cases hpc
  | leave i _ _ hl => exact absurd hl (hlock i)
  | merge i hpc => obtain hw | hw := hworker i <;> rw [hw] at hpc <;> cases hpc
  | producerSleep item rest hl => exact absurd hl (hpush item rest)
  | producerWake _ _ => exact .inr rfl
  | push item rest _ _ hl => exact absurd hl (hpush item rest)
  | finish hpc => obtain hw | ⟨_, hw⟩ := hproducer <;> rw [hw] at hpc <;> cases hpc
  | notify hpc => obtain hw | ⟨_, hw⟩ := hproducer <;> rw [hw] at hpc <;> cases hpc

/-! ### No wakeup is lost -/

/-- Whoever sleeps has a reason to. -/
structure Attended (engine : PerformanceEngine) (s : MultiState engine.config.workerCount) :
    Prop where
  covered : queueNotEmpty.Covered s.queue.length s.workers
  full : ∀ rest, s.producer = .asleep rest →
    rest ≠ [] ∧ engine.config.queueCapacity ≤ s.queue.length

/-- A worker moves on outside its critical section. -/
theorem Attended.goto (h : engine.Attended s) {i : Fin engine.config.workerCount}
    {w : WorkerThread} (hasleep : w.pc ≠ .asleep) (hwoken : (s.workers i).pc ≠ .woken) :
    queueNotEmpty.Covered s.queue.length (Function.update s.workers i w) :=
  h.covered.update (fun hw => absurd hw (WorkerThread.not_asleep_of_pc hasleep))
    fun hw => absurd hw (WorkerThread.not_woken_of_pc hwoken)

/-- A worker comes back and takes at least one task. -/
theorem Attended.take (h : engine.Attended s) (hqueue : s.queue ≠ [])
    {i : Fin engine.config.workerCount} {w : WorkerThread} (hasleep : w.pc ≠ .asleep) :
    queueNotEmpty.Covered (s.queue.drop (engine.tasksToTake s.queue)).length
      (Function.update s.workers i w) := by
  have hpos : 0 < s.queue.length := List.length_pos_of_ne_nil hqueue
  have hbatch : 0 < engine.config.queueBatchSize := Nat.pos_of_ne_zero engine.queueBatchSize_ne
  have htake : 1 ≤ engine.tasksToTake s.queue := Nat.le_min.mpr ⟨hbatch, hpos⟩
  have hcovered : queueNotEmpty.Covered (s.queue.length - 1 + 1) s.workers := by
    rw [Nat.sub_add_cancel hpos]
    exact h.covered
  refine (hcovered.leave (WorkerThread.not_asleep_of_pc hasleep)).mono ?_
  rw [List.length_drop]
  exact Nat.sub_le_sub_left htake _

theorem Step.attended (hs : engine.Step s e s') (h : engine.Attended s) : engine.Attended s' := by
  cases hs with
  | reserve i hpc =>
    refine ⟨h.goto WorkerPc.noConfusion ?_, h.full⟩
    rw [hpc]
    exact WorkerPc.noConfusion
  | terminate => exact ⟨h.covered, h.full⟩
  | sleep i contended waitNs hlock hqueue =>
    refine ⟨?_, h.full⟩
    show queueNotEmpty.Covered s.queue.length _
    rw [hqueue]
    exact queueNotEmpty.covered_zero _
  | wake i hpc => exact ⟨h.covered.wake (decide_eq_true hpc), h.full⟩
  | take i contended waitNs hlock hqueue =>
    exact ⟨h.take hqueue WorkerPc.noConfusion,
      fun rest hrest => absurd hrest (s.producer.notified_ne_asleep rest)⟩
  | process i task batch queueWaitNs latency hpc =>
    refine ⟨h.goto WorkerPc.noConfusion ?_, h.full⟩
    rw [hpc]
    exact WorkerPc.noConfusion
  | leave i contended waitNs hlock hqueue =>
    refine ⟨?_, h.full⟩
    show queueNotEmpty.Covered s.queue.length _
    rw [hqueue]
    exact queueNotEmpty.covered_zero _
  | merge i hpc =>
    refine ⟨h.goto WorkerPc.noConfusion ?_, h.full⟩
    rw [hpc]
    exact WorkerPc.noConfusion
  | producerSleep item rest hproducer hfull =>
    refine ⟨h.covered, fun rest' hrest => ?_⟩
    cases hrest
    exact ⟨List.cons_ne_nil _ _, hfull⟩
  | producerWake rest hpc => exact ⟨h.covered, fun _ hrest => by cases hrest⟩
  | push item rest queuedAt workers hproducer hroom hsignals =>
    refine ⟨?_, fun _ hrest => by cases hrest⟩
    show queueNotEmpty.Covered (s.queue ++ [_]).length workers
    rw [List.length_append]
    exact h.covered.signal hsignals
  | finish hpc => exact ⟨h.covered, fun _ hrest => by cases hrest⟩
  | notify hpc => exact ⟨queueNotEmpty.covered_broadcast _ _, fun _ hrest => by cases hrest⟩

theorem attended (h : Interleaving.Run engine.Step engine.start trace s) : engine.Attended s := by
  refine h.invariant (fun _ => engine.Attended) ⟨queueNotEmpty.covered_zero _, ?_⟩
    fun _ _ _ _ h hs => hs.attended h
  exact fun _ hrest => by cases hrest

/-! ### The calls of `reserve` -/

/-- There are threads only if there can be a vector of them. -/
theorem workerCount_le (h : Interleaving.Run engine.Step engine.start trace s)
    (hlive : s.failure = none) : engine.config.workerCount ≤ workersMaxSize := by
  revert hlive
  refine h.invariant (fun _ s => s.failure = none → engine.config.workerCount ≤ workersMaxSize)
    ?_ ?_
  · intro hlive
    by_contra hmore
    rw [start, if_neg hmore] at hlive
    cases hlive
  · intro trace u e v ih hs hlive
    cases hs with
    | terminate => cases hlive
    | _ => exact ih hlive

/-- Waking nobody who has not started, a step leaves those where they are. -/
theorem pc_ne_starting_of_wakes {workers workers' : Fin engine.config.workerCount → WorkerThread}
    (hwakes : queueNotEmpty.Wakes workers workers') {i : Fin engine.config.workerCount}
    (hi : (workers' i).pc ≠ .starting) : (workers i).pc ≠ .starting := by
  rcases hwakes.of_thread (·.pc ≠ .starting) hi with hold | ⟨hasleep, _⟩
  · exact hold
  · rw [show (workers i).pc = .asleep from of_decide_eq_true hasleep]
    exact WorkerPc.noConfusion

/-- A worker that is past its first statement has reserved its batch. -/
theorem reserves_of_run (h : Interleaving.Run engine.Step engine.start trace s)
    {i : Fin engine.config.workerCount} (hi : (s.workers i).pc ≠ .starting) :
    engine.Reserves := by
  revert i
  refine h.invariant_of_run (fun _ s => ∀ {i}, (s.workers i).pc ≠ .starting → engine.Reserves)
    (fun hi => absurd rfl hi) ?_
  intro trace u e v hu ih hs j hj
  -- a worker that takes a step other than the first is not starting
  have hmoved {i : Fin engine.config.workerCount} {w : WorkerThread}
      (hpc : (u.workers i).pc ≠ .starting)
      (hw : (Function.update u.workers i w j).pc ≠ .starting) : engine.Reserves := by
    rcases Threads.of_update (fun w : WorkerThread => w.pc ≠ .starting) hw with _ | hold
    · exact ih hpc
    · exact ih hold
  have hlock {i : Fin engine.config.workerCount} (hl : (u.workers i).AtLock) :
      (u.workers i).pc ≠ .starting := by
    rcases hl with hpc | hpc <;> rw [hpc] <;> exact WorkerPc.noConfusion
  cases hs with
  | reserve i hpc hbatch hlive => exact ⟨hbatch, workerCount_le hu hlive⟩
  | terminate => exact ih hj
  | sleep i contended waitNs hl => exact hmoved (hlock hl) hj
  | wake i hpc => exact hmoved (by rw [hpc]; exact WorkerPc.noConfusion) hj
  | take i contended waitNs hl => exact hmoved (hlock hl) hj
  | process i task batch queueWaitNs latency hpc =>
    exact hmoved (by rw [hpc]; exact WorkerPc.noConfusion) hj
  | leave i contended waitNs hl => exact hmoved (hlock hl) hj
  | merge i hpc => exact hmoved (by rw [hpc]; exact WorkerPc.noConfusion) hj
  | producerSleep => exact ih hj
  | producerWake => exact ih hj
  | push item rest queuedAt workers hl hroom hsignals =>
    exact ih (pc_ne_starting_of_wakes hsignals.wakes hj)
  | finish => exact ih hj
  | notify => exact ih (pc_ne_starting_of_wakes (queueNotEmpty.wakes_broadcast u.workers) hj)

/-- With what can be reserved, no exception ends a run. -/
theorem failure_eq_none (hreserves : engine.Reserves)
    (h : Interleaving.Run engine.Step engine.start trace s) : s.failure = none := by
  refine h.invariant (fun _ s => s.failure = none) (if_pos hreserves.workers) ?_
  intro trace u e v ih hs
  cases hs with
  | terminate i hpc hmore => exact absurd hreserves.taskBatch (Nat.not_le.mpr hmore)
  | _ => exact ih

/-- The producer has something to push only if there is data. -/
theorem workloadSize_pos_of_rest (h : Interleaving.Run engine.Step engine.start trace s)
    (hrest : s.producer.rest ≠ []) : 0 < engine.config.workloadSize := by
  obtain ⟨item, hitem⟩ := List.exists_mem_of_ne_nil _ hrest
  have hmem : item ∈ engine.buildWorkItems := by
    rw [← Multiset.mem_coe, ← (accounted h).items]
    exact Multiset.mem_add.mpr (.inr (Multiset.mem_add.mpr (.inr (List.mem_append_right _ hitem))))
  obtain ⟨k, hk, _⟩ := mem_buildWorkItems hmem
  have hne : engine.taskCount ≠ 0 := fun hzero => Nat.not_lt_zero k (hzero ▸ hk)
  exact Nat.pos_of_ne_zero fun hsize => hne (engine.taskCount_eq_zero_iff.mpr hsize)

/-- In a deadlock the first worker is past its first statement. -/
theorem reserves_of_deadlocked (h : Interleaving.Run engine.Step engine.start trace s)
    (hdead : s.Deadlocked) : engine.Reserves := by
  refine reserves_of_run h (i := ⟨0, Nat.pos_of_ne_zero engine.workerCount_ne⟩) fun hpc => ?_
  have hasleep := hdead.worker_asleep _ (by rw [hpc]; exact WorkerPc.noConfusion)
  rw [hpc] at hasleep
  cases hasleep

theorem capacity_eq_zero_of_deadlocked (h : Interleaving.Run engine.Step engine.start trace s)
    (hdead : s.Deadlocked) :
    engine.config.queueCapacity = 0 ∧ 0 < engine.config.workloadSize := by
  have horderly := orderly h
  have hattended := attended h
  by_cases hjoining : s.producer = .joining
  · -- everyone has been notified, and nobody falls asleep after that
    obtain hne | ⟨i, hi⟩ := hdead.unfinished
    · exact absurd hjoining hne
    · exact absurd (hdead.worker_asleep i hi) (horderly.awake hjoining i)
  · obtain ⟨rest, hrest⟩ := hdead.producer_asleep hjoining
    obtain ⟨hne, hfull⟩ := hattended.full rest hrest
    have hover : s.producer.over = false := by
      rw [hrest]
      rfl
    have hasleep : ∀ i, (s.workers i).pc = .asleep := by
      intro i
      apply hdead.worker_asleep
      intro hdone
      have hleft := horderly.left_eq hover i
      rw [hdone] at hleft
      cases hleft
    have hempty : s.queue.length = 0 :=
      hattended.covered.eq_zero (i := ⟨0, Nat.pos_of_ne_zero engine.workerCount_ne⟩)
        (decide_eq_true (hasleep _))
        fun i => queueNotEmpty.not_woken_of_asleep _ (decide_eq_true (hasleep i))
    rw [hempty] at hfull
    refine ⟨Nat.le_zero.mp hfull, workloadSize_pos_of_rest h ?_⟩
    rw [hrest]
    exact hne

/-! ### A queue of no capacity -/

/-- The producer and then the first workers fall asleep. -/
theorem exists_asleep (hcapacity : engine.config.queueCapacity = 0)
    (hsize : 0 < engine.config.workloadSize) (hreserves : engine.Reserves) :
    ∀ k ≤ engine.config.workerCount, ∃ s, Interleaving.Reachable engine.Step engine.start s ∧
      (∃ rest, s.producer = .asleep rest) ∧ s.queue = [] ∧ s.producerFinished = false ∧
      (∀ i, i.val < k → (s.workers i).pc = .asleep) ∧
      ∀ i, k ≤ i.val → (s.workers i).pc = .starting := by
  intro k
  induction k with
  | zero =>
    intro _
    obtain ⟨item, rest, hitems⟩ : ∃ item rest, engine.buildWorkItems = item :: rest := by
      apply List.exists_cons_of_ne_nil
      intro hnil
      have hlength := engine.length_buildWorkItems
      rw [hnil] at hlength
      exact Nat.ne_of_gt hsize (engine.taskCount_eq_zero_iff.mp hlength.symm)
    have hstep : engine.Step engine.start .producerSleeps _ :=
      .producerSleep item rest (.inl (congrArg ProducerPc.pushing hitems))
        (hcapacity ▸ Nat.zero_le _) (if_pos hreserves.workers)
    exact ⟨_, (Interleaving.Reachable.refl _ _).next hstep, ⟨_, rfl⟩, rfl, rfl,
      fun _ h => absurd h (Nat.not_lt_zero _), fun _ _ => rfl⟩
  | succ k ih =>
    intro hk
    obtain ⟨s, hreach, hproducer, hqueue, hfinished, hasleep, hstarting⟩ :=
      ih (Nat.le_of_succ_le hk)
    obtain ⟨trace, hrun⟩ := hreach
    have hlive := failure_eq_none hreserves hrun
    have hreserve : engine.Step s (.reserves ⟨k, hk⟩) _ :=
      .reserve ⟨k, hk⟩ (hstarting _ (Nat.le_refl k)) hreserves.taskBatch hlive
    have hrunning : (Function.update s.workers ⟨k, hk⟩
        ((s.workers ⟨k, hk⟩).goto (.running [])) ⟨k, hk⟩).pc = .running [] := by
      rw [Function.update_self]
      rfl
    have hsleep : engine.Step
        { s with
          workers := Function.update s.workers ⟨k, hk⟩ ((s.workers ⟨k, hk⟩).goto (.running [])) }
        (.sleeps ⟨k, hk⟩) _ :=
      .sleep ⟨k, hk⟩ false 0 (.inl hrunning) hqueue hfinished hlive
    refine ⟨_, ⟨_, (hrun.next hreserve).next hsleep⟩, hproducer, hqueue, hfinished, ?_, ?_⟩
    · intro i hi
      show (Function.update (Function.update s.workers _ _) _ _ i).pc = _
      by_cases hik : i = ⟨k, hk⟩
      · rw [hik, Function.update_self]
        rfl
      · rw [Function.update_of_ne hik, Function.update_of_ne hik]
        have hne : i.val ≠ k := fun h => hik (Fin.ext h)
        exact hasleep i (by omega)
    · intro i hi
      show (Function.update (Function.update s.workers _ _) _ _ i).pc = _
      have hik : i ≠ ⟨k, hk⟩ := fun h => by
        rw [h] at hi
        exact Nat.not_succ_le_self k hi
      rw [Function.update_of_ne hik, Function.update_of_ne hik]
      exact hstarting i (Nat.le_of_succ_le hi)

/-- With something to push and no room for it, everybody can fall asleep. -/
theorem exists_deadlocked (hcapacity : engine.config.queueCapacity = 0)
    (hsize : 0 < engine.config.workloadSize) (hreserves : engine.Reserves) :
    ∃ trace s, Interleaving.Run engine.Step engine.start trace s ∧ s.Deadlocked := by
  obtain ⟨s, ⟨trace, hrun⟩, ⟨rest, hrest⟩, _, _, hasleep, _⟩ :=
    exists_asleep hcapacity hsize hreserves _ (Nat.le_refl _)
  refine ⟨trace, s, hrun, ?_⟩
  constructor
  case unfinished =>
    left
    rw [hrest]
    exact ProducerPc.noConfusion
  case producer_asleep => exact fun _ => ⟨rest, hrest⟩
  case worker_asleep => exact fun i _ => hasleep i i.isLt

/-- **The deadlock of a queue of no capacity.** A run can end with everyone asleep
    exactly when there is something to push and no room for it, and both calls of
    `reserve` are served. -/
theorem deadlock_reachable_iff (engine : PerformanceEngine) :
    (∃ s, Interleaving.Reachable engine.Step engine.start s ∧ s.Deadlocked) ↔
      engine.config.queueCapacity = 0 ∧ 0 < engine.config.workloadSize ∧
      engine.config.queueBatchSize ≤ taskBatchMaxSize ∧
      engine.config.workerCount ≤ workersMaxSize := by
  constructor
  · rintro ⟨s, ⟨trace, hrun⟩, hdead⟩
    obtain ⟨hcapacity, hsize⟩ := capacity_eq_zero_of_deadlocked hrun hdead
    obtain ⟨hbatch, hworkers⟩ := reserves_of_deadlocked hrun hdead
    exact ⟨hcapacity, hsize, hbatch, hworkers⟩
  · rintro ⟨hcapacity, hsize, hbatch, hworkers⟩
    obtain ⟨trace, s, hrun, hdead⟩ := exists_deadlocked hcapacity hsize ⟨hbatch, hworkers⟩
    exact ⟨s, ⟨trace, hrun⟩, hdead⟩

/-- A queue of no capacity, and a batch that no vector can hold. -/
def hugeBatch : PerformanceEngine where
  config := { workloadSize := 1, queueCapacity := 0, queueBatchSize := 2 ^ 58 }
  data := (List.range 1).map dataValue
  workloadSize_le := by decide
  workerCount_ne := by decide
  chunkSize_ne := by decide
  queueBatchSize_ne := by decide
  data_eq := rfl

/-- Its worker ends the process before it can fall asleep. -/
theorem no_deadlock_hugeBatch :
    ¬((∃ s, Interleaving.Reachable hugeBatch.Step hugeBatch.start s ∧ s.Deadlocked) ↔
      hugeBatch.config.queueCapacity = 0 ∧ 0 < hugeBatch.config.workloadSize) := by
  intro hiff
  obtain ⟨s, ⟨trace, hrun⟩, hdead⟩ := hiff.mpr ⟨rfl, Nat.one_pos⟩
  have hbatch := (reserves_of_deadlocked hrun hdead).taskBatch
  exact absurd hbatch (by decide)

end PerformanceEngine

end AccelSim
