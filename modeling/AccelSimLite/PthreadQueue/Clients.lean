import AccelSimLite.PthreadQueue.Benchmark

/-!
# What the benchmark does with the queue

The main thread pushes the items in order and closes the queue after the last; the
workers only pop. So no push is turned away, and what has been pushed is known
from where the main thread is.

## Main results

- `QueueSystem.Step.op_of_returns` — a call returns from what was called
- `PthreadBenchmark.orderly` — what has been pushed, in every run
-/

namespace AccelSim

/-- The function a thread is in. -/
def QueuePc.op : QueuePc → Option QueueOp
  | .idle => none
  | .entering op => some op
  | .asleep op => some op
  | .woken op => some op

theorem QueuePc.AtLock.op_eq {pc : QueuePc} {op : QueueOp} (h : pc.AtLock op) :
    pc.op = some op := by
  obtain hpc | hpc := h
  · rw [hpc]
    rfl
  · rw [hpc]
    rfl

/-- The function that returns in a step. -/
def QueueEvent.returns {ι : Type*} : QueueEvent ι → Option QueueOp
  | .pushed _ item => some (.push item)
  | .canceled _ item => some (.push item)
  | .popped _ _ => some .pop
  | .drained _ => some .pop
  | .closed _ => some .close
  | _ => none

namespace QueueSystem

variable {ι : Type*} [DecidableEq ι] {s s' : QueueSystem ι} {e : QueueEvent ι} {t : ι}

omit [DecidableEq ι] in
/-- Waking a thread leaves it in its call. -/
theorem op_of_wakes {cv : CondVar QueuePc} (hwake : cv.wake = QueuePc.wake)
    {threads threads' : ι → QueuePc} (h : cv.Wakes threads threads') (t : ι) :
    (threads' t).op = (threads t).op := by
  obtain hsame | ⟨_, hw⟩ := h t
  · rw [hsame]
  · rw [hw, hwake]
    cases threads t <;> rfl

theorem op_update_of_ne {threads : ι → QueuePc} {t' : ι} {pc : QueuePc} (h : t ≠ t') :
    (Function.update threads t' pc t).op = (threads t).op :=
  congrArg QueuePc.op (Function.update_of_ne h _ _)

theorem op_update_self {threads : ι → QueuePc} {pc : QueuePc} :
    (Function.update threads t pc t).op = pc.op :=
  congrArg QueuePc.op (Function.update_self _ _ _)

/-- Only the thread that makes the step enters or leaves a function. -/
theorem Step.op_of_ne (hs : Step s e s') (ht : t ≠ e.thread) :
    (s'.threads t).op = (s.threads t).op := by
  cases hs with
  | push _ _ _ _ _ _ hsignals => exact (op_of_wakes rfl hsignals.wakes t).trans (op_update_of_ne ht)
  | pop _ _ _ _ _ _ _ _ hsignals =>
    exact (op_of_wakes rfl hsignals.wakes t).trans (op_update_of_ne ht)
  | close _ _ =>
    exact (op_of_wakes rfl (notFull.wakes_broadcast _) t).trans
      ((op_of_wakes rfl (notEmpty.wakes_broadcast _) t).trans (op_update_of_ne ht))
  | _ => exact op_update_of_ne ht

/-- Who returns was in the function and is in none now. -/
theorem Step.op_of_returns (hs : Step s e s') {op : QueueOp} (he : e.returns = some op) :
    (s.threads e.thread).op = some op ∧ (s'.threads e.thread).op = none := by
  cases hs with
  | pushCancel t item _ hlock => exact ⟨hlock.op_eq.trans he, op_update_self⟩
  | push t item _ _ hlock _ hsignals =>
    exact ⟨hlock.op_eq.trans he, (op_of_wakes rfl hsignals.wakes t).trans op_update_self⟩
  | popDrained t _ _ _ hlock => exact ⟨hlock.op_eq.trans he, op_update_self⟩
  | pop t _ _ _ _ _ hlock _ hsignals =>
    exact ⟨hlock.op_eq.trans he, (op_of_wakes rfl hsignals.wakes t).trans op_update_self⟩
  | close t hlock =>
    exact ⟨hlock.op_eq.trans he, (op_of_wakes rfl (notFull.wakes_broadcast _) t).trans
      ((op_of_wakes rfl (notEmpty.wakes_broadcast _) t).trans op_update_self)⟩
  | _ => cases he

/-- Who neither calls nor returns stays in the function. -/
theorem Step.op_of_stays (hs : Step s e s') (he : e.returns = none)
    (hcall : ∀ t op, e ≠ .calls t op) : (s'.threads e.thread).op = (s.threads e.thread).op := by
  cases hs with
  | call t op => exact absurd rfl (hcall t op)
  | wake t op hasleep =>
    refine op_update_self.trans ?_
    show some op = (s.threads t).op
    rw [hasleep]
    rfl
  | pushWait t item hlock => exact op_update_self.trans hlock.op_eq.symm
  | popWait t _ _ hlock => exact op_update_self.trans hlock.op_eq.symm
  | _ => cases he

theorem Step.of_calls {op : QueueOp} (hs : Step s (.calls t op) s') :
    s'.queue = s.queue ∧ (s'.threads t).op = some op := by
  cases hs with
  | call => exact ⟨rfl, op_update_self⟩

/-- A push is turned away only by a closed queue. -/
theorem Step.of_canceled {item : PthreadWorkItem} (hs : Step s (.canceled t item) s') :
    s.queue.closed = true := by
  cases hs with
  | pushCancel _ _ _ _ hsection => exact (PthreadWorkQueue.pushSection_eq_error hsection).1

end QueueSystem

namespace PthreadBenchmark

open QueueSystem (Fifo pushedItems poppedItems)

variable {workers workloadSize capacity : ℕ} {trace : List (Event workers)} {s s' : State workers}
  {e : Event workers} {queue : PthreadWorkQueue}

/-- The step as the queue system sees it. -/
def Event.inQueue : Event workers → Option (QueueEvent (Option (Fin workers)))
  | .queue e => some e
  | .processes _ _ => none

/-- The trace of the queue system within a trace of the program. -/
def queueTrace (trace : List (Event workers)) : List (QueueEvent (Option (Fin workers))) :=
  trace.filterMap Event.inQueue

/-- The queue system sees a run of its own. -/
theorem queueRun (h : Interleaving.Run (Step workloadSize) (start workloadSize workers queue)
    trace s) :
    Interleaving.Run QueueSystem.Step (QueueSystem.start _ queue) (queueTrace trace) s.system := by
  refine h.project State.system Event.inQueue fun u e v hs => ?_
  cases hs with
  | callMain op system _ hs => exact .inr ⟨_, rfl, hs⟩
  | callWorker t system _ hs => exact .inr ⟨_, rfl, hs⟩
  | queue e system _ hs => exact .inr ⟨_, rfl, hs⟩
  | process t item latency _ => exact .inl ⟨rfl, rfl⟩

theorem queueFifo (hinit : PthreadWorkQueue.init capacity = .ok queue)
    (h : Interleaving.Run (Step workloadSize) (start workloadSize workers queue) trace s) :
    Fifo capacity (queueTrace trace) s.system.queue :=
  QueueSystem.fifo hinit (queueRun h)

/-- What an item says about the data. -/
def workOf (item : PthreadWorkItem) : WorkItem := ⟨item.id, item.beginIdx, item.endIdx⟩

/-- The work of the first iterations of the push loop. -/
def firstWork (workloadSize i : ℕ) : List WorkItem :=
  (List.range i).map fun k => workOf (benchmarkItem workloadSize k 0)

/-- What the calls of the threads are for. -/
structure Orderly (workloadSize : ℕ) (pushed : List PthreadWorkItem) (s : State workers) :
    Prop where
  pushing : ∀ i, s.main = .pushing i → i ≤ taskCount workloadSize ∧
    s.system.queue.closed = false ∧ pushed.map workOf = firstWork workloadSize i
  joining : s.main = .joining → pushed.map workOf = firstWork workloadSize (taskCount workloadSize)
  not_failed : s.main ≠ .failed
  main_calls : ∀ op, (s.system.threads none).op = some op → s.main.Calls workloadSize op
  worker_pops : ∀ t op, (s.system.threads (some t)).op = some op →
    op = .pop ∧ (s.workers t).pc = .looping

/-- Whoever is in a push is the main thread. -/
theorem Orderly.of_push {pushed : List PthreadWorkItem} (h : Orderly workloadSize pushed s)
    {t : Option (Fin workers)} {item : PthreadWorkItem}
    (ht : (s.system.threads t).op = some (.push item)) :
    t = none ∧ ∃ i now, s.main = .pushing i ∧ i < taskCount workloadSize ∧
      item = benchmarkItem workloadSize i now := by
  cases t with
  | some t => cases (h.worker_pops t _ ht).1
  | none =>
    obtain ⟨i, hmain, hcall⟩ := h.main_calls _ ht
    split_ifs at hcall with hi
    · obtain ⟨now, hop⟩ := hcall
      cases hop
      exact ⟨rfl, i, now, hmain, hi, rfl⟩

/-- Whoever is in the close is the main thread, behind its loop. -/
theorem Orderly.of_close {pushed : List PthreadWorkItem} (h : Orderly workloadSize pushed s)
    {t : Option (Fin workers)} (ht : (s.system.threads t).op = some .close) :
    t = none ∧ s.main = .pushing (taskCount workloadSize) := by
  cases t with
  | some t => cases (h.worker_pops t _ ht).1
  | none =>
    obtain ⟨i, hmain, hcall⟩ := h.main_calls _ ht
    split_ifs at hcall with hi
    · obtain ⟨now, hop⟩ := hcall
      cases hop
    · have hle := (h.pushing i hmain).1
      rw [hmain, Nat.le_antisymm hle (Nat.le_of_not_lt hi)]
      exact ⟨rfl, rfl⟩

/-- Whoever is in a pop is a worker. -/
theorem Orderly.of_pop {pushed : List PthreadWorkItem} (h : Orderly workloadSize pushed s)
    {t : Option (Fin workers)} (ht : (s.system.threads t).op = some .pop) : ∃ t', t = some t' := by
  cases t with
  | some t => exact ⟨t, rfl⟩
  | none =>
    obtain ⟨i, _, hcall⟩ := h.main_calls _ ht
    split_ifs at hcall with hi
    obtain ⟨now, hop⟩ := hcall
    cases hop

/-! ### One step -/

theorem MainPc.after_of_pop (pc : MainPc) {e : QueueEvent (Option (Fin workers))}
    (he : e.returns = none ∨ e.returns = some .pop) : pc.after e = pc := by
  cases e with
  | pushed => obtain he | he := he <;> cases he
  | canceled => obtain he | he := he <;> cases he
  | closed => obtain he | he := he <;> cases he
  | _ => cases pc <;> rfl

theorem Worker.after_of_not_pop (worker : Worker) (t : Fin workers)
    {e : QueueEvent (Option (Fin workers))} (he : e.returns ≠ some .pop) :
    worker.after t e = worker := by
  cases e with
  | popped => exact absurd rfl he
  | drained => exact absurd rfl he
  | _ => rfl

/-- A worker looks for work until its own call of pop returns. -/
theorem Worker.after_of_ne (worker : Worker) {t : Fin workers}
    {e : QueueEvent (Option (Fin workers))} (he : e.thread ≠ some t) :
    worker.after t e = worker := by
  cases e with
  | popped t' item =>
    cases t' with
    | none => rfl
    | some t' => exact if_neg fun heq => he (congrArg some heq)
  | drained t' =>
    cases t' with
    | none => rfl
    | some t' => exact if_neg fun heq => he (congrArg some heq)
  | _ => rfl

/-- The queue does not touch what a worker has counted. -/
theorem Worker.after_context (worker : Worker) (t : Fin workers)
    (e : QueueEvent (Option (Fin workers))) : (worker.after t e).context = worker.context := by
  by_cases he : e.thread = some t
  · cases e with
    | popped t' item =>
      cases he
      have hafter : worker.after t (.popped (some t) item) =
          { worker with pc := .processing item } := if_pos rfl
      rw [hafter]
    | drained t' =>
      cases he
      have hafter : worker.after t (.drained (some t)) = { worker with pc := .returned } :=
        if_pos rfl
      rw [hafter]
    | _ => rfl
  · rw [worker.after_of_ne he]

theorem firstWork_succ (workloadSize i now : ℕ) :
    firstWork workloadSize (i + 1) =
      firstWork workloadSize i ++ [workOf (benchmarkItem workloadSize i now)] := by
  rw [firstWork, List.range_succ, List.map_append]
  rfl

/-- The queue is closed by the close only. -/
theorem closed_eq {queue' : PthreadWorkQueue} {qtrace : List (QueueEvent (Option (Fin workers)))}
    {e : QueueEvent (Option (Fin workers))} (hq : Fifo capacity qtrace queue)
    (hq' : Fifo capacity (qtrace ++ [e]) queue') (he : ∀ t, e ≠ .closed t) :
    queue'.closed = queue.closed := by
  rw [Bool.eq_iff_iff, hq'.closed_iff, hq.closed_iff]
  exact QueueSystem.exists_closed_append he

section QueueStep

variable {system : QueueSystem (Option (Fin workers))} {pushed : List PthreadWorkItem}
  {qtrace : List (QueueEvent (Option (Fin workers)))} {qe : QueueEvent (Option (Fin workers))}

/-- A thread calls a function of the queue, which itself does not change. -/
theorem Orderly.call (h : Orderly workloadSize pushed s)
    (hqueue : system.queue = s.system.queue)
    (hmain : ∀ op, (system.threads none).op = some op → s.main.Calls workloadSize op)
    (hworkers : ∀ t op, (system.threads (some t)).op = some op →
      op = .pop ∧ (s.workers t).pc = .looping) :
    Orderly workloadSize pushed { s with system := system } where
  pushing := by
    intro i hi
    obtain ⟨hle, hopen, hpushed⟩ := h.pushing i hi
    exact ⟨hle, hqueue ▸ hopen, hpushed⟩
  joining := h.joining
  not_failed := h.not_failed
  main_calls := hmain
  worker_pops := hworkers

/-- The calls that threads are in after a step that is no call. -/
theorem Orderly.worker_pops_after (h : Orderly workloadSize pushed s)
    (hs : QueueSystem.Step s.system qe system) (hcall : ∀ t op, qe ≠ .calls t op) (t : Fin workers)
    (op : QueueOp) (hop : (system.threads (some t)).op = some op) :
    op = .pop ∧ ((s.workers t).after t qe).pc = .looping := by
  by_cases ht : some t = qe.thread
  · cases hreturns : qe.returns with
    | none =>
      rw [ht, hs.op_of_stays hreturns hcall, ← ht] at hop
      rw [Worker.after_of_not_pop _ _ (hreturns ▸ (Option.some_ne_none _).symm)]
      exact h.worker_pops t op hop
    | some op' =>
      rw [ht, (hs.op_of_returns hreturns).2] at hop
      cases hop
  · rw [hs.op_of_ne ht] at hop
    rw [Worker.after_of_ne _ (Ne.symm ht)]
    exact h.worker_pops t op hop

/-- A step of the queue system in which nothing is pushed or closed. -/
theorem Orderly.stay (h : Orderly workloadSize pushed s)
    (hs : QueueSystem.Step s.system qe system) (hcall : ∀ t op, qe ≠ .calls t op)
    (hreturns : qe.returns = none ∨ qe.returns = some .pop)
    (hclosed : system.queue.closed = s.system.queue.closed) :
    Orderly workloadSize pushed
      { system := system
        main := s.main.after qe
        workers := fun t => (s.workers t).after t qe } := by
  have hmain := s.main.after_of_pop hreturns
  constructor
  case pushing =>
    intro i hi
    obtain ⟨hle, hopen, hpushed⟩ := h.pushing i (hmain ▸ hi)
    exact ⟨hle, hclosed.trans hopen, hpushed⟩
  case joining => exact fun hi => h.joining (hmain ▸ hi)
  case not_failed => exact fun hi => h.not_failed (hmain ▸ hi)
  case main_calls =>
    intro op hop
    show (s.main.after qe).Calls workloadSize op
    rw [hmain]
    apply h.main_calls
    by_cases ht : none = qe.thread
    · obtain hreturns | hreturns := hreturns
      · rwa [ht, ← hs.op_of_stays hreturns hcall, ← ht]
      · rw [ht, (hs.op_of_returns hreturns).2] at hop
        cases hop
    · rwa [← hs.op_of_ne ht]
  case worker_pops => exact fun t op => h.worker_pops_after hs hcall t op

/-- The main thread's push returns 0. -/
theorem Orderly.push (h : Orderly workloadSize pushed s) {t : Option (Fin workers)}
    {item : PthreadWorkItem} (hs : QueueSystem.Step s.system (.pushed t item) system)
    (hclosed : system.queue.closed = s.system.queue.closed) :
    Orderly workloadSize (pushed ++ [item])
      { system := system
        main := s.main.after (.pushed t item)
        workers := fun t' => (s.workers t').after t' (.pushed t item) } := by
  obtain ⟨hcalled, hreturned⟩ := hs.op_of_returns rfl
  obtain ⟨rfl, i, now, hmain, hi, rfl⟩ := h.of_push hcalled
  obtain ⟨_, hopen, hpushed⟩ := h.pushing i hmain
  have hafter : s.main.after (.pushed (none : Option (Fin workers))
      (benchmarkItem workloadSize i now)) = .pushing (i + 1) := by
    rw [hmain]
    rfl
  constructor
  case pushing =>
    intro j hj
    cases hafter.symm.trans hj
    refine ⟨hi, hclosed.trans hopen, ?_⟩
    rw [List.map_append, hpushed]
    exact (firstWork_succ workloadSize i now).symm
  case joining => exact fun hj => by cases hafter.symm.trans hj
  case not_failed => exact fun hj => by cases hafter.symm.trans hj
  case main_calls => exact fun op hop => by cases hreturned.symm.trans hop
  case worker_pops => exact fun t op => h.worker_pops_after hs (fun _ _ h => by cases h) t op

/-- The main thread has closed the queue. -/
theorem Orderly.close (h : Orderly workloadSize pushed s) {t : Option (Fin workers)}
    (hs : QueueSystem.Step s.system (.closed t) system) :
    Orderly workloadSize pushed
      { system := system
        main := s.main.after (.closed t)
        workers := fun t' => (s.workers t').after t' (.closed t) } := by
  obtain ⟨hcalled, hreturned⟩ := hs.op_of_returns rfl
  obtain ⟨rfl, hmain⟩ := h.of_close hcalled
  have hafter : s.main.after (.closed (none : Option (Fin workers))) = .joining := by
    rw [hmain]
    rfl
  constructor
  case pushing => exact fun j hj => by cases hafter.symm.trans hj
  case joining => exact fun _ => (h.pushing _ hmain).2.2
  case not_failed => exact fun hj => by cases hafter.symm.trans hj
  case main_calls => exact fun op hop => by cases hreturned.symm.trans hop
  case worker_pops => exact fun t op => h.worker_pops_after hs (fun _ _ h => by cases h) t op

end QueueStep

theorem queueTrace_append (trace trace' : List (Event workers)) :
    queueTrace (trace ++ trace') = queueTrace trace ++ queueTrace trace' :=
  List.filterMap_append

/-- One step of anyone keeps the order. -/
theorem Step.orderly (hs : Step workloadSize s e s')
    (h : Orderly workloadSize (pushedItems (queueTrace trace)) s)
    (hq : Fifo capacity (queueTrace trace) s.system.queue)
    (hq' : Fifo capacity (queueTrace (trace ++ [e])) s'.system.queue) :
    Orderly workloadSize (pushedItems (queueTrace (trace ++ [e]))) s' := by
  rw [queueTrace_append] at hq' ⊢
  rw [QueueSystem.pushedItems_append]
  cases hs with
  | callMain op system hcalls hs =>
    obtain ⟨hqueue, hop⟩ := hs.of_calls
    show Orderly workloadSize (_ ++ []) _
    rw [List.append_nil]
    apply h.call hqueue
    · intro op' hop'
      cases hop.symm.trans hop'
      exact hcalls
    · intro t op' hop'
      exact h.worker_pops t op' ((hs.op_of_ne (Option.some_ne_none t)).symm.trans hop')
  | callWorker t system hpc hs =>
    obtain ⟨hqueue, hop⟩ := hs.of_calls
    show Orderly workloadSize (_ ++ []) _
    rw [List.append_nil]
    apply h.call hqueue
    · intro op' hop'
      exact h.main_calls op' ((hs.op_of_ne (Option.some_ne_none t).symm).symm.trans hop')
    · intro t' op' hop'
      by_cases ht : t' = t
      · subst ht
        cases hop.symm.trans hop'
        exact ⟨rfl, hpc⟩
      · refine h.worker_pops t' op' ((hs.op_of_ne ?_).symm.trans hop')
        exact fun heq => ht (Option.some.inj heq)
  | queue qe system hcall hs =>
    cases qe with
    | calls t op => exact absurd rfl (hcall t op)
    | pushed t item => exact h.push hs (closed_eq hq hq' fun _ h => by cases h)
    | canceled t item =>
      obtain ⟨rfl, i, now, hmain, _⟩ := h.of_push (hs.op_of_returns rfl).1
      exact absurd ((h.pushing i hmain).2.1.symm.trans hs.of_canceled) Bool.false_ne_true
    | closed t =>
      show Orderly workloadSize (_ ++ []) _
      rw [List.append_nil]
      exact h.close hs
    | _ =>
      show Orderly workloadSize (_ ++ []) _
      rw [List.append_nil]
      refine h.stay hs hcall ?_ (closed_eq hq hq' fun _ h => by cases h)
      first | exact .inl rfl | exact .inr rfl
  | process t item latency hpc =>
    show Orderly workloadSize (_ ++ []) _
    rw [List.append_nil]
    constructor
    case pushing => exact h.pushing
    case joining => exact h.joining
    case not_failed => exact h.not_failed
    case main_calls => exact h.main_calls
    case worker_pops =>
      intro t' op hop
      obtain ⟨hpop, hlooping⟩ := h.worker_pops t' op hop
      refine ⟨hpop, ?_⟩
      show (Function.update s.workers t _ t').pc = _
      by_cases ht : t' = t
      · rw [ht, Function.update_self]
      · rw [Function.update_of_ne ht]
        exact hlooping

theorem orderly_start (hinit : PthreadWorkQueue.init capacity = .ok queue) :
    Orderly workloadSize [] (start workloadSize workers queue) := by
  obtain ⟨_, rfl⟩ := PthreadWorkQueue.init_eq_ok_iff.mp hinit
  constructor
  case pushing =>
    intro i hi
    cases hi
    exact ⟨Nat.zero_le _, rfl, rfl⟩
  case joining => exact fun hi => by cases hi
  case not_failed => exact fun hi => by cases hi
  case main_calls => exact fun _ hop => by cases hop
  case worker_pops => exact fun _ _ hop => by cases hop

/-- What has been pushed, in every run. -/
theorem orderly (hinit : PthreadWorkQueue.init capacity = .ok queue)
    (h : Interleaving.Run (Step workloadSize) (start workloadSize workers queue) trace s) :
    Orderly workloadSize (pushedItems (queueTrace trace)) s :=
  h.invariant_of_run (fun trace s => Orderly workloadSize (pushedItems (queueTrace trace)) s)
    (orderly_start hinit) fun _ _ _ _ hrun h hs =>
      hs.orderly h (queueFifo hinit hrun) (queueFifo hinit (hrun.next hs))

end PthreadBenchmark

end AccelSim
