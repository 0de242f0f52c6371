import AccelSimLite.PerformanceEngine.Multithreaded

/-!
# Shutting down

The order in which a run ends: the producer sets `producer_finished` when it has
pushed its last item, no worker leaves its loop before that or while a task is in
the queue, and once the producer has notified everyone nobody falls asleep again.

## Main results

- `PerformanceEngine.orderly` — this order, in every run
- `PerformanceEngine.queue_eq_nil_of_joined` — nothing is left in the queue
-/

namespace AccelSim

/-- The producer has set `producer_finished`. -/
def ProducerPc.over : ProducerPc → Bool
  | .notifying => true
  | .joining => true
  | _ => false

theorem ProducerPc.AtLock.over_eq {pc : ProducerPc} {item : WorkItem} {rest : List WorkItem}
    (h : pc.AtLock item rest) : pc.over = false := by
  obtain hpc | hpc := h
  · rw [hpc]
    rfl
  · rw [hpc]
    rfl

theorem ProducerPc.over_notified (pc : ProducerPc) : pc.notified.over = pc.over := by
  cases pc <;> rfl

theorem ProducerPc.notified_eq_joining {pc : ProducerPc} (h : pc.notified = .joining) :
    pc = .joining := by
  cases pc <;> first | rfl | cases h

/-- The worker is out of its loop. -/
def WorkerPc.left : WorkerPc → Bool
  | .leaving => true
  | .done => true
  | _ => false

/-- Who has left after some have been woken had left before. -/
theorem left_of_wakes {n : ℕ} {workers workers' : Fin n → WorkerThread}
    (hwakes : queueNotEmpty.Wakes workers workers') {i : Fin n}
    (hi : (workers' i).pc.left = true) : (workers i).pc.left = true := by
  obtain hleft | ⟨_, hleft⟩ := hwakes.of_thread (·.pc.left = true) hi
  · exact hleft
  · cases hleft

theorem pc_ne_asleep {w : WorkerThread} (h : ¬queueNotEmpty.asleep w) : w.pc ≠ .asleep :=
  fun hpc => h (decide_eq_true hpc)

namespace MultiState

variable {n : ℕ} {s : MultiState n}

/-- The order of the shutdown. -/
structure Orderly (s : MultiState n) : Prop where
  finished_eq : s.producerFinished = s.producer.over
  drained : ∀ i, (s.workers i).pc.left = true → s.producer.over = true ∧ s.queue = []
  awake : s.producer = .joining → ∀ i, (s.workers i).pc ≠ .asleep

/-- A worker goes somewhere else; out of the loop and to sleep only when it may. -/
theorem Orderly.goto (h : s.Orderly) {i : Fin n} {w : WorkerThread}
    (hleft : w.pc.left = true → s.producer.over = true ∧ s.queue = [])
    (hasleep : w.pc = .asleep → s.producer ≠ .joining) :
    Orderly { s with workers := Function.update s.workers i w } where
  finished_eq := h.finished_eq
  drained j hj := by
    obtain hw | hold := Threads.of_update (fun w : WorkerThread => w.pc.left = true) hj
    · exact hleft hw
    · exact h.drained j hold
  awake hjoining j hj := by
    obtain hw | hold := Threads.of_update (fun w : WorkerThread => w.pc = .asleep) hj
    · exact hasleep hw hjoining
    · exact h.awake hjoining j hold

/-- While the producer is not over nobody has left. -/
theorem Orderly.left_eq (h : s.Orderly) (hproducer : s.producer.over = false) (i : Fin n) :
    (s.workers i).pc.left = false := by
  by_contra hleft
  have hover := (h.drained i (Bool.eq_true_of_not_eq_false hleft)).1
  exact Bool.false_ne_true (hproducer ▸ hover)

/-- The producer moves on in its loop. -/
theorem Orderly.produce (h : s.Orderly) (hproducer : s.producer.over = false)
    {producer : ProducerPc} (hover : producer.over = false) (queue : List QueuedTask)
    {workers : Fin n → WorkerThread}
    (hleft : ∀ i, (workers i).pc.left = true → (s.workers i).pc.left = true) :
    Orderly { s with queue := queue, producer := producer, workers := workers } where
  finished_eq := h.finished_eq.trans (hproducer.trans hover.symm)
  drained i hi := absurd ((h.left_eq hproducer i).symm.trans (hleft i hi)) Bool.false_ne_true
  awake hjoining := by
    cases (show producer = .joining from hjoining)
    cases hover

end MultiState

namespace PerformanceEngine

variable {engine : PerformanceEngine} {trace : List (MultiEvent engine.config.workerCount)}
  {s s' : MultiState engine.config.workerCount} {e : MultiEvent engine.config.workerCount}

open MultiState (Orderly)

/-- One step of anyone keeps the order. -/
theorem Step.orderly (hs : engine.Step s e s') (h : s.Orderly) : s'.Orderly := by
  cases hs with
  | reserve i hpc => exact h.goto (fun hleft => by cases hleft) fun hasleep => by cases hasleep
  | terminate => exact ⟨h.finished_eq, h.drained, h.awake⟩
  | sleep i contended waitNs hlock hqueue hfinished =>
    refine h.goto (fun hleft => by cases hleft) fun _ hjoining => ?_
    have hover := h.finished_eq
    rw [hfinished, hjoining] at hover
    cases hover
  | wake i hpc => exact h.goto (fun hleft => by cases hleft) fun hasleep => by cases hasleep
  | take i contended waitNs hlock hqueue =>
    constructor
    case finished_eq => exact h.finished_eq.trans s.producer.over_notified.symm
    case drained =>
      intro j hj
      obtain hpc | hpc := Threads.of_update (fun w : WorkerThread => w.pc.left = true) hj
      · cases hpc
      · exact absurd (h.drained j hpc).2 hqueue
    case awake =>
      intro hjoining j hj
      obtain hpc | hpc := Threads.of_update (fun w : WorkerThread => w.pc = .asleep) hj
      · cases hpc
      · exact h.awake (ProducerPc.notified_eq_joining hjoining) j hpc
  | process i task batch queueWaitNs latency hpc =>
    have hgoto := h.goto (i := i)
      (w := ((s.workers i).process engine task batch queueWaitNs latency).2)
      (fun hleft => by cases hleft) fun hasleep => by cases hasleep
    exact ⟨hgoto.finished_eq, hgoto.drained, hgoto.awake⟩
  | leave i contended waitNs hlock hqueue hfinished =>
    exact h.goto (fun _ => ⟨h.finished_eq.symm.trans hfinished, hqueue⟩)
      fun hasleep => by cases hasleep
  | merge i hpc =>
    have hgoto := h.goto (i := i) (w := (s.workers i).goto .done)
      (fun _ => h.drained i (by rw [hpc]; rfl)) fun hasleep => by cases hasleep
    exact ⟨hgoto.finished_eq, hgoto.drained, hgoto.awake⟩
  | producerSleep item rest hproducer hfull =>
    exact h.produce hproducer.over_eq rfl s.queue fun _ => id
  | producerWake rest hpc => exact h.produce (by rw [hpc]; rfl) rfl s.queue fun _ => id
  | push item rest queuedAt workers hproducer hroom hsignals =>
    refine h.produce hproducer.over_eq rfl _ fun i hi => ?_
    exact left_of_wakes hsignals.wakes hi
  | finish hpc =>
    have hover : s.producer.over = false := by
      rw [hpc]
      rfl
    constructor
    case finished_eq => rfl
    case drained =>
      exact fun j hj => absurd ((h.left_eq hover j).symm.trans hj) Bool.false_ne_true
    case awake => exact fun hjoining => by cases hjoining
  | notify hpc =>
    constructor
    case finished_eq =>
      rw [h.finished_eq, hpc]
      rfl
    case drained =>
      intro j hj
      have hleft := left_of_wakes (queueNotEmpty.wakes_broadcast s.workers) hj
      exact ⟨rfl, (h.drained j hleft).2⟩
    case awake =>
      exact fun _ j => pc_ne_asleep (queueNotEmpty.not_asleep_broadcast s.workers j)

theorem orderly_start (engine : PerformanceEngine) : engine.start.Orderly := by
  constructor
  case finished_eq => rfl
  case drained => exact fun _ h => by cases h
  case awake => exact fun h => by cases h

theorem orderly (h : Interleaving.Run engine.Step engine.start trace s) : s.Orderly :=
  h.invariant (fun _ => Orderly) engine.orderly_start fun _ _ _ _ h hs => hs.orderly h

/-- Some worker has left the loop, and that needs an empty queue. -/
theorem queue_eq_nil_of_joined (h : s.Orderly) (hjoined : s.Joined) : s.queue = [] := by
  have hleft : (s.workers ⟨0, Nat.pos_of_ne_zero engine.workerCount_ne⟩).pc.left = true := by
    rw [hjoined.2]
    rfl
  exact (h.drained _ hleft).2

end PerformanceEngine

end AccelSim
