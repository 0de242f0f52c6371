import AccelSimLite.PthreadQueue.SameWork
import Mathlib.Algebra.BigOperators.Fin

/-!
# The C and the C++ benchmark

Every item that is pushed is popped and processed by some worker, whichever it is,
so what the workers have together after the joins is what the single-threaded run
has, and their latencies fill `all_latencies` exactly.

## Main results

- `PthreadBenchmark.accounted` — who has processed what, in every run
- `PthreadBenchmark.benchmark_eq_singleThreaded` — the two benchmarks agree
-/

namespace AccelSim

namespace PthreadBenchmark

open QueueSystem (Fifo pushedItems poppedItems)

/-! ### Who has processed what -/

variable {engine : PerformanceEngine}

variable {workers capacity : ℕ} {trace : List (Event workers)} {s s' : State workers}
  {e : Event workers} {queue : PthreadWorkQueue}

/-- The items that worker `t` has processed. -/
def processedBy (trace : List (Event workers)) (t : Fin workers) : List PthreadWorkItem :=
  trace.filterMap fun
    | .processes t' item => if t' = t then some item else none
    | .queue _ => none

theorem processedBy_append (trace trace' : List (Event workers)) (t : Fin workers) :
    processedBy (trace ++ trace') t = processedBy trace t ++ processedBy trace' t :=
  List.filterMap_append

theorem processedBy_queue (trace : List (Event workers))
    (qe : QueueEvent (Option (Fin workers))) (t : Fin workers) :
    processedBy (trace ++ [.queue qe]) t = processedBy trace t := by
  rw [processedBy_append]
  exact List.append_nil _

/-- The item in a worker's hands. -/
def WorkerPc.hand : WorkerPc → List PthreadWorkItem
  | .processing item => [item]
  | _ => []

/-- The items that worker `t` has popped. -/
def poppedBy (trace : List (Event workers)) (s : State workers) (t : Fin workers) :
    Multiset PthreadWorkItem :=
  (processedBy trace t ++ (s.workers t).pc.hand : List PthreadWorkItem)

/-- What a worker has after some items. -/
structure Recorded (engine : PerformanceEngine) (processed : List PthreadWorkItem)
    (context : WorkerContext) : Prop where
  checksum : context.checksum =
    xorSum (Multiset.map (fun item => engine.itemChecksum (workOf item)) processed)
  tasksCompleted : context.tasksCompleted = processed.length
  allocations : context.allocations = processed.length
  latencies : context.latencies.length = processed.length
  latencyCapacity : context.latencyCapacity = engine.taskCount

/-- A worker processes one more item, and has room for its latency. -/
theorem Recorded.process {processed : List PthreadWorkItem} {context : WorkerContext}
    (h : Recorded engine processed context) (hc : Corresponds engine) {item : PthreadWorkItem}
    (hitem : item.beginIdx < item.endIdx) (hroom : processed.length < engine.taskCount)
    (latency : ℕ) :
    Recorded engine (processed ++ [item])
      (context.process (benchmarkData engine.config.workloadSize) item latency) := by
  have hlength : (processed ++ [item]).length = processed.length + 1 := List.length_append
  rw [WorkerContext.process, benchmarkData_eq, processItem_eq hc hitem]
  constructor
  case checksum =>
    show context.checksum ^^^ engine.itemChecksum (workOf item) = _
    rw [h.checksum, ← Multiset.coe_add, Multiset.map_add, xorSum_add]
    show _ = _ ^^^ xorSum (engine.itemChecksum (workOf item) ::ₘ 0)
    rw [xorSum_cons, xorSum_zero, UInt64.xor_zero]
  case tasksCompleted => exact hlength ▸ congrArg (· + 1) h.tasksCompleted
  case allocations => exact hlength ▸ congrArg (· + 1) h.allocations
  case latencies =>
    show (if _ then _ else _ : List ℕ).length = _
    rw [if_pos (by rw [h.latencies, h.latencyCapacity]; exact hroom), List.length_append,
      h.latencies, hlength]
    rfl
  case latencyCapacity => exact h.latencyCapacity

/-- Where the popped items are, and what has been made of those processed. -/
structure Accounted (engine : PerformanceEngine) (trace : List (Event workers))
    (s : State workers) : Prop where
  popped : ∑ t, poppedBy trace s t = (poppedItems (queueTrace trace) : Multiset PthreadWorkItem)
  recorded : ∀ t, Recorded engine (processedBy trace t) (s.workers t).context
  drained : ∀ t, (s.workers t).pc = .returned →
    s.system.queue.closed = true ∧ s.system.queue.contents = []

/-! ### One step -/

section QueueStep

variable {qtrace : List (QueueEvent (Option (Fin workers)))} {queue' : PthreadWorkQueue}
  {qe : QueueEvent (Option (Fin workers))}

/-- A step that moves no item leaves the contents alone. -/
theorem contents_eq (hq : Fifo capacity qtrace queue) (hq' : Fifo capacity (qtrace ++ [qe]) queue')
    (hpush : pushedItems [qe] = []) (hpop : poppedItems [qe] = []) :
    queue'.contents = queue.contents := by
  have h := hq'.history
  rw [QueueSystem.poppedItems_append, QueueSystem.pushedItems_append, hpush, hpop, List.append_nil,
    List.append_nil, ← hq.history] at h
  exact List.append_cancel_left h

/-- What is popped was the first of the contents. -/
theorem contents_of_popped {t : Option (Fin workers)} {item : PthreadWorkItem}
    (hq : Fifo capacity qtrace queue)
    (hq' : Fifo capacity (qtrace ++ [.popped t item]) queue') :
    queue.contents = item :: queue'.contents := by
  have h := hq'.history
  rw [QueueSystem.poppedItems_append, QueueSystem.pushedItems_append, List.append_assoc] at h
  have hpushed : pushedItems qtrace ++ pushedItems [QueueEvent.popped t item] =
      pushedItems qtrace := List.append_nil _
  rw [hpushed, ← hq.history] at h
  exact (List.append_cancel_left h).symm

end QueueStep

variable {workloadSize : ℕ}

theorem Orderly.length_pushed_le {pushed : List PthreadWorkItem}
    (h : Orderly workloadSize pushed s) : pushed.length ≤ taskCount workloadSize := by
  have hlength : ∀ i, pushed.map workOf = firstWork workloadSize i → pushed.length = i := by
    intro i hi
    have hlen := congrArg List.length hi
    rwa [firstWork, List.length_map, List.length_map, List.length_range] at hlen
  cases hmain : s.main with
  | pushing i =>
    obtain ⟨hle, _, hpushed⟩ := h.pushing i hmain
    exact (hlength i hpushed).trans_le hle
  | joining => exact (hlength _ (h.joining hmain)).le
  | failed => exact absurd hmain h.not_failed

/-- What is pushed is work of the engine. -/
theorem Orderly.workOf_mem {pushed : List PthreadWorkItem}
    (h : Orderly engine.config.workloadSize pushed s) (hc : Corresponds engine)
    {item : PthreadWorkItem} (hitem : item ∈ pushed) : workOf item ∈ engine.buildWorkItems := by
  have hfirst : ∀ i ≤ taskCount engine.config.workloadSize,
      pushed.map workOf = firstWork engine.config.workloadSize i →
      workOf item ∈ engine.buildWorkItems := by
    intro i hi hpushed
    have hmem : workOf item ∈ pushed.map workOf := List.mem_map_of_mem hitem
    rw [hpushed, firstWork, List.mem_map] at hmem
    obtain ⟨k, hk, hwork⟩ := hmem
    rw [← firstWork_eq hc, firstWork]
    exact List.mem_map.mpr ⟨k, List.mem_range.mpr ((List.mem_range.mp hk).trans_le hi), hwork⟩
  cases hmain : s.main with
  | pushing i =>
    obtain ⟨hle, _, hpushed⟩ := h.pushing i hmain
    exact hfirst i hle hpushed
  | joining => exact hfirst _ (Nat.le_refl _) (h.joining hmain)
  | failed => exact absurd hmain h.not_failed

/-- A step of the queue system in which nothing is popped, and no pop returns. -/
theorem Accounted.frame (h : Accounted engine trace s) {qe : QueueEvent (Option (Fin workers))}
    {system : QueueSystem (Option (Fin workers))} {main : MainPc}
    (hpop : poppedItems [qe] = [])
    (hqueue : ∀ t, (s.workers t).pc = .returned →
      system.queue.closed = true ∧ system.queue.contents = []) :
    Accounted engine (trace ++ [.queue qe]) { s with system := system, main := main } := by
  have hprocessed := processedBy_queue trace qe
  have hpopped : ∀ t, poppedBy (trace ++ [.queue qe]) { s with system := system, main := main } t =
      poppedBy trace s t := fun t => by
    rw [poppedBy, poppedBy, hprocessed]
  constructor
  case popped =>
    simp only [hpopped]
    rw [queueTrace_append, QueueSystem.poppedItems_append]
    show _ = ((_ ++ poppedItems [qe] : List PthreadWorkItem) : Multiset PthreadWorkItem)
    rw [hpop, List.append_nil]
    exact h.popped
  case recorded =>
    intro t
    rw [hprocessed]
    exact h.recorded t
  case drained => exact hqueue

/-- A pop of worker `t` returns 1. -/
theorem Accounted.pop (h : Accounted engine trace s) {t : Fin workers} {item : PthreadWorkItem}
    {system : QueueSystem (Option (Fin workers))} (hpc : (s.workers t).pc = .looping)
    (hcontents : s.system.queue.contents ≠ []) :
    Accounted engine (trace ++ [.queue (.popped (some t) item)])
      { system := system
        main := s.main.after (.popped (some t) item)
        workers := fun t' => (s.workers t').after t' (.popped (some t) item) } := by
  have hprocessed := processedBy_queue trace (.popped (some t) item)
  -- nobody has returned while there is something to pop
  have hrunning : ∀ t', (s.workers t').pc ≠ .returned := fun t' hpc' =>
    hcontents (h.drained t' hpc').2
  constructor
  case popped =>
    have hpopped : ∀ t', ((processedBy trace t' ++
        ((s.workers t').after t' (.popped (some t) item)).pc.hand : List PthreadWorkItem) :
          Multiset PthreadWorkItem) = poppedBy trace s t' + if t = t' then {item} else 0 := by
      intro t'
      by_cases ht : t = t'
      · subst ht
        have hafter : (s.workers t).after t (.popped (some t) item) =
            { s.workers t with pc := .processing item } := if_pos rfl
        rw [hafter, if_pos rfl, poppedBy, hpc]
        show ((_ ++ [item] : List PthreadWorkItem) : Multiset PthreadWorkItem) =
          ((_ ++ [] : List PthreadWorkItem) : Multiset PthreadWorkItem) + {item}
        rw [List.append_nil]
        exact (Multiset.coe_add _ _).symm
      · have hafter : (s.workers t').after t' (.popped (some t) item) = s.workers t' := if_neg ht
        rw [hafter, if_neg ht, add_zero]
        rfl
    rw [queueTrace_append, QueueSystem.poppedItems_append, ← Multiset.coe_add, ← h.popped]
    simp only [poppedBy, hprocessed]
    simp only [hpopped]
    rw [Finset.sum_add_distrib, Finset.sum_ite_eq]
    exact congrArg (_ + ·) (if_pos (Finset.mem_univ t))
  case recorded =>
    intro t'
    rw [hprocessed]
    show Recorded engine _ ((s.workers t').after t' _).context
    rw [Worker.after_context]
    exact h.recorded t'
  case drained =>
    intro t' hpc'
    have hpc' : ((s.workers t').after t' (.popped (some t) item)).pc = .returned := hpc'
    by_cases ht : t = t'
    · have hafter : ((s.workers t').after t' (.popped (some t) item)).pc = .processing item :=
        congrArg Worker.pc (if_pos ht)
      cases hafter.symm.trans hpc'
    · have hafter : (s.workers t').after t' (.popped (some t) item) = s.workers t' := if_neg ht
      rw [hafter] at hpc'
      exact absurd hpc' (hrunning t')

/-- A pop of worker `t` returns 0. -/
theorem Accounted.drain (h : Accounted engine trace s) {t : Fin workers}
    {system : QueueSystem (Option (Fin workers))} (hpc : (s.workers t).pc = .looping)
    (hqueue : system.queue.closed = true ∧ system.queue.contents = []) :
    Accounted engine (trace ++ [.queue (.drained (some t))])
      { system := system
        main := s.main.after (.drained (some t))
        workers := fun t' => (s.workers t').after t' (.drained (some t)) } := by
  have hprocessed := processedBy_queue trace (.drained (some t))
  have hhand : ∀ t', ((s.workers t').after t' (.drained (some t))).pc.hand =
      (s.workers t').pc.hand := by
    intro t'
    by_cases ht : t = t'
    · subst ht
      have heq : (s.workers t).after t (.drained (some t)) =
          { s.workers t with pc := .returned } := if_pos rfl
      rw [heq, hpc]
      rfl
    · have heq : (s.workers t').after t' (.drained (some t)) = s.workers t' := if_neg ht
      rw [heq]
  constructor
  case popped =>
    rw [queueTrace_append, QueueSystem.poppedItems_append]
    show _ = ((_ ++ [] : List PthreadWorkItem) : Multiset PthreadWorkItem)
    rw [List.append_nil, ← h.popped]
    simp only [poppedBy, hprocessed, hhand]
  case recorded =>
    intro t'
    rw [hprocessed]
    show Recorded engine _ ((s.workers t').after t' _).context
    rw [Worker.after_context]
    exact h.recorded t'
  case drained => exact fun _ _ => hqueue

theorem processedBy_processes (trace : List (Event workers)) (t : Fin workers)
    (item : PthreadWorkItem) :
    processedBy (trace ++ [.processes t item]) t = processedBy trace t ++ [item] := by
  have hone : processedBy [.processes t item] t = [item] :=
    List.filterMap_cons_some (if_pos rfl)
  rw [processedBy_append, hone]

theorem processedBy_processes_of_ne (trace : List (Event workers)) {t t' : Fin workers}
    (ht : t' ≠ t) (item : PthreadWorkItem) :
    processedBy (trace ++ [.processes t item]) t' = processedBy trace t' := by
  have hnone : processedBy [.processes t item] t' = [] :=
    List.filterMap_cons_none (if_neg (Ne.symm ht))
  rw [processedBy_append, hnone, List.append_nil]

theorem poppedBy_processing {t : Fin workers} {item : PthreadWorkItem}
    (hpc : (s.workers t).pc = .processing item) :
    poppedBy trace s t = ((processedBy trace t ++ [item] : List PthreadWorkItem) :
      Multiset PthreadWorkItem) := by
  rw [poppedBy, hpc]
  rfl

/-- What one worker has popped is part of what the queue has given out. -/
theorem Accounted.poppedBy_le (h : Accounted engine trace s) (t : Fin workers) :
    poppedBy trace s t ≤ (poppedItems (queueTrace trace) : Multiset PthreadWorkItem) :=
  h.popped ▸ Finset.single_le_sum (f := fun t => poppedBy trace s t) (fun _ _ => zero_le)
    (Finset.mem_univ t)

/-- What is in a worker's hands has been popped, and so pushed. -/
theorem Accounted.mem_pushedItems (h : Accounted engine trace s) {t : Fin workers}
    {item : PthreadWorkItem} (hpc : (s.workers t).pc = .processing item)
    (hq : Fifo capacity (queueTrace trace) s.system.queue) :
    item ∈ pushedItems (queueTrace trace) := by
  have hprefix : poppedItems (queueTrace trace) <+: pushedItems (queueTrace trace) :=
    ⟨_, hq.history⟩
  have hmem : item ∈ poppedBy trace s t := by
    rw [poppedBy_processing hpc]
    exact List.mem_append_right _ List.mem_cons_self
  exact hprefix.subset (Multiset.mem_coe.mp (Multiset.mem_of_le (h.poppedBy_le t) hmem))

/-- A worker that holds an item has room for its latency. -/
theorem Accounted.length_processedBy_lt (h : Accounted engine trace s)
    (hc : Corresponds engine) {t : Fin workers} {item : PthreadWorkItem}
    (hpc : (s.workers t).pc = .processing item)
    (horderly : Orderly engine.config.workloadSize (pushedItems (queueTrace trace)) s)
    (hq : Fifo capacity (queueTrace trace) s.system.queue) :
    (processedBy trace t).length < engine.taskCount := by
  have hprefix : poppedItems (queueTrace trace) <+: pushedItems (queueTrace trace) :=
    ⟨_, hq.history⟩
  have hcard := Multiset.card_le_card (h.poppedBy_le t)
  rw [poppedBy_processing hpc, Multiset.coe_card, Multiset.coe_card, List.length_append] at hcard
  have hle := hprefix.length_le.trans horderly.length_pushed_le
  rw [taskCount_eq hc] at hle
  exact hcard.trans hle

/-- Worker `t` processes the item in its hands. -/
theorem Accounted.process (h : Accounted engine trace s) (hc : Corresponds engine)
    {t : Fin workers} {item : PthreadWorkItem} (hpc : (s.workers t).pc = .processing item)
    (horderly : Orderly engine.config.workloadSize (pushedItems (queueTrace trace)) s)
    (hq : Fifo capacity (queueTrace trace) s.system.queue) (latency : ℕ) :
    Accounted engine (trace ++ [.processes t item])
      { s with
        workers := Function.update s.workers t
          { pc := .looping
            context := (s.workers t).context.process
              (benchmarkData engine.config.workloadSize) item latency } } := by
  have hself := processedBy_processes trace t item
  have hroom := h.length_processedBy_lt hc hpc horderly hq
  have hnonempty := PerformanceEngine.buildWorkItems_nonempty
    (horderly.workOf_mem hc (h.mem_pushedItems hpc hq))
  constructor
  case popped =>
    rw [queueTrace_append]
    show _ = ((poppedItems (_ ++ []) : List PthreadWorkItem) : Multiset PthreadWorkItem)
    rw [List.append_nil, ← h.popped]
    apply Finset.sum_congr rfl
    intro t' _
    by_cases ht : t' = t
    · subst ht
      show ((_ ++ (Function.update s.workers t' _ t').pc.hand : List PthreadWorkItem) :
        Multiset PthreadWorkItem) = _
      rw [poppedBy_processing hpc, hself, Function.update_self]
      exact congrArg _ (List.append_nil _)
    · show ((_ ++ (Function.update s.workers t _ t').pc.hand : List PthreadWorkItem) :
        Multiset PthreadWorkItem) = _
      rw [processedBy_processes_of_ne trace ht, Function.update_of_ne ht]
      rfl
  case recorded =>
    intro t'
    show Recorded engine _ (Function.update s.workers t _ t').context
    by_cases ht : t' = t
    · subst ht
      rw [Function.update_self, hself]
      exact (h.recorded t').process hc hnonempty hroom latency
    · rw [Function.update_of_ne ht, processedBy_processes_of_ne trace ht]
      exact h.recorded t'
  case drained =>
    intro t' hpc'
    obtain hnew | hold := Threads.of_update (fun w : Worker => w.pc = .returned) hpc'
    · cases hnew
    · exact h.drained t' hold

/-- One step of anyone keeps the account. -/
theorem Step.accounted (hs : Step engine.config.workloadSize s e s')
    (h : Accounted engine trace s) (hc : Corresponds engine)
    (horderly : Orderly engine.config.workloadSize (pushedItems (queueTrace trace)) s)
    (hq : Fifo capacity (queueTrace trace) s.system.queue)
    (hq' : Fifo capacity (queueTrace (trace ++ [e])) s'.system.queue) :
    Accounted engine (trace ++ [e]) s' := by
  rw [queueTrace_append] at hq'
  cases hs with
  | callMain op system _ hs =>
    refine h.frame rfl fun t ht => ?_
    rw [hs.of_calls.1]
    exact h.drained t ht
  | callWorker t system _ hs =>
    refine h.frame rfl fun t ht => ?_
    rw [hs.of_calls.1]
    exact h.drained t ht
  | queue qe system hcall hs =>
    -- only the return of a pop moves a worker
    have hworkers : qe.returns ≠ some .pop →
        (fun t => (s.workers t).after t qe) = s.workers := by
      intro hne
      funext t
      exact Worker.after_of_not_pop _ _ hne
    cases qe with
    | calls t op => exact absurd rfl (hcall t op)
    | popped t item =>
      have hcalled := (hs.op_of_returns rfl).1
      obtain ⟨t, rfl⟩ := horderly.of_pop hcalled
      refine h.pop (horderly.worker_pops t _ hcalled).2 ?_
      rw [contents_of_popped hq hq']
      exact List.cons_ne_nil _ _
    | drained t =>
      have hcalled := (hs.op_of_returns rfl).1
      obtain ⟨t, rfl⟩ := horderly.of_pop hcalled
      obtain ⟨hcount, hclosed⟩ := hs.of_drained
      refine h.drain (horderly.worker_pops t _ hcalled).2 ⟨?_, ?_⟩
      · exact (closed_eq hq hq' fun _ h => by cases h).trans hclosed
      · exact (contents_eq hq hq' rfl rfl).trans (RingBuffer.contents_eq_nil_iff.mpr hcount)
    | pushed t item =>
      rw [hworkers fun h => by cases h]
      refine h.frame rfl fun t' ht' => ?_
      obtain ⟨_, i, _, hmain, _⟩ := horderly.of_push (hs.op_of_returns rfl).1
      exact absurd ((horderly.pushing i hmain).2.1.symm.trans (h.drained t' ht').1)
        Bool.false_ne_true
    | closed t =>
      rw [hworkers fun h => by cases h]
      refine h.frame rfl fun t' ht' => ⟨?_, ?_⟩
      · exact hq'.closed_iff.mpr ⟨t, List.mem_append_right _ List.mem_cons_self⟩
      · exact (contents_eq hq hq' rfl rfl).trans (h.drained t' ht').2
    | _ =>
      rw [hworkers fun h => by cases h]
      refine h.frame rfl fun t' ht' => ⟨?_, ?_⟩
      · exact (closed_eq hq hq' fun _ h => by cases h).trans (h.drained t' ht').1
      · exact (contents_eq hq hq' rfl rfl).trans (h.drained t' ht').2
  | process t item latency hpc => exact h.process hc hpc horderly hq latency

theorem accounted_start (hc : Corresponds engine) (queue : PthreadWorkQueue) :
    Accounted engine [] (start engine.config.workloadSize workers queue) := by
  constructor
  case popped => exact Finset.sum_eq_zero fun _ _ => rfl
  case recorded => exact fun _ => ⟨rfl, rfl, rfl, rfl, taskCount_eq hc⟩
  case drained => exact fun _ hpc => by cases hpc

/-- Who has processed what, in every run. -/
theorem accounted (hc : Corresponds engine) (hinit : PthreadWorkQueue.init capacity = .ok queue)
    (h : Interleaving.Run (Step engine.config.workloadSize)
      (start engine.config.workloadSize workers queue) trace s) : Accounted engine trace s :=
  h.invariant_of_run (Accounted engine) (accounted_start hc queue) fun _ _ _ _ hrun h hs =>
    hs.accounted h hc (orderly hinit hrun) (queueFifo hinit hrun) (queueFifo hinit (hrun.next hs))

/-! ### The sums after the joins -/

/-- The loop over the latencies of one worker, when there is room for them. -/
theorem foldlM_write (values : List ℕ) (totals : Totals)
    (hroom : totals.allLatencyCount + values.length ≤ totals.allLatencies.length) :
    ∃ totals', values.foldlM Totals.write totals = some totals' ∧
      totals'.allLatencyCount = totals.allLatencyCount + values.length ∧
      totals'.allLatencies.length = totals.allLatencies.length ∧
      totals'.checksum = totals.checksum ∧ totals'.totalTasks = totals.totalTasks ∧
      totals'.totalAllocations = totals.totalAllocations := by
  induction values generalizing totals with
  | nil => exact ⟨totals, rfl, rfl, rfl, rfl, rfl, rfl⟩
  | cons value values ih =>
    have hlength : (value :: values).length = values.length + 1 := rfl
    have hlt : totals.allLatencyCount < totals.allLatencies.length := by omega
    have hroom' : (totals.allLatencyCount + 1) + values.length ≤
        (totals.allLatencies.set totals.allLatencyCount (some value)).length := by
      rw [List.length_set]
      omega
    obtain ⟨totals', hfold, hcount, hlen, hchecksum, htasks, hallocations⟩ := ih
      { totals with
        allLatencies := totals.allLatencies.set totals.allLatencyCount (some value)
        allLatencyCount := totals.allLatencyCount + 1 } hroom'
    refine ⟨totals', ?_, ?_, hlen.trans List.length_set, hchecksum, htasks, hallocations⟩
    · rw [List.foldlM_cons, Totals.write, if_pos hlt]
      exact hfold
    · rw [hcount, hlength]
      exact Nat.add_right_comm _ _ _

/-- The loop over the workers, when there is room for all their latencies. -/
theorem foldlM_add (contexts : List WorkerContext) (totals : Totals)
    (hroom : totals.allLatencyCount + (contexts.map (·.latencies.length)).sum ≤
      totals.allLatencies.length) :
    ∃ totals', contexts.foldlM Totals.add totals = some totals' ∧
      totals'.allLatencyCount =
        totals.allLatencyCount + (contexts.map (·.latencies.length)).sum ∧
      totals'.checksum = totals.checksum ^^^ xorSum (contexts.map (·.checksum)) ∧
      totals'.totalTasks = totals.totalTasks + (contexts.map (·.tasksCompleted)).sum ∧
      totals'.totalAllocations = totals.totalAllocations + (contexts.map (·.allocations)).sum := by
  induction contexts generalizing totals with
  | nil => exact ⟨totals, rfl, rfl, (UInt64.xor_zero).symm, rfl, rfl⟩
  | cons context contexts ih =>
    rw [List.map_cons, List.sum_cons] at hroom
    obtain ⟨next, hwrite, hcount, hlen, hchecksum, htasks, hallocations⟩ :=
      foldlM_write context.latencies
        { totals with
          checksum := totals.checksum ^^^ context.checksum
          totalAllocations := totals.totalAllocations + context.allocations
          totalTasks := totals.totalTasks + context.tasksCompleted }
        ((Nat.add_le_add_left (Nat.le_add_right _ _) _).trans hroom)
    obtain ⟨totals', hfold, hcount', hchecksum', htasks', hallocations'⟩ := ih next (by
      rw [hcount, hlen]
      exact (Nat.add_assoc _ _ _).trans_le hroom)
    refine ⟨totals', ?_, ?_, ?_, ?_, ?_⟩
    · rw [List.foldlM_cons]
      show (totals.add context).bind _ = _
      rw [Totals.add, hwrite]
      exact hfold
    · rw [hcount', hcount, List.map_cons, List.sum_cons, Nat.add_assoc]
    · rw [hchecksum', hchecksum, List.map_cons, ← Multiset.cons_coe, xorSum_cons, UInt64.xor_assoc]
    · rw [htasks', htasks, List.map_cons, List.sum_cons, Nat.add_assoc]
    · rw [hallocations', hallocations, List.map_cons, List.sum_cons, Nat.add_assoc]

/-- The checksums of the workers together. -/
theorem xorSum_map_xorSum {α : Type*} (f : α → UInt64) (l : List (Multiset α)) :
    xorSum (l.map fun m => xorSum (m.map f)) = xorSum (l.sum.map f) := by
  induction l with
  | nil => rfl
  | cons m l ih =>
    rw [List.map_cons, ← Multiset.cons_coe, xorSum_cons, ih, List.sum_cons, Multiset.map_add,
      xorSum_add]

/-- After the joins the workers have processed what has been pushed. -/
theorem Accounted.processed_of_joined (h : Accounted engine trace s) (hc : Corresponds engine)
    (horderly : Orderly engine.config.workloadSize (pushedItems (queueTrace trace)) s)
    (hq : Fifo capacity (queueTrace trace) s.system.queue) (hworkers : 0 < workers)
    (hjoined : s.Joined) :
    ∃ items : List PthreadWorkItem, items.map workOf = engine.buildWorkItems ∧
      ((List.finRange workers).map fun t =>
        (processedBy trace t : Multiset PthreadWorkItem)).sum = items := by
  refine ⟨pushedItems (queueTrace trace), ?_, ?_⟩
  · rw [horderly.joining hjoined.1, firstWork_eq hc]
  · have hempty : s.system.queue.contents = [] := (h.drained ⟨0, hworkers⟩ (hjoined.2 _)).2
    have hhand : ∀ t, poppedBy trace s t = (processedBy trace t : Multiset PthreadWorkItem) := by
      intro t
      rw [poppedBy, hjoined.2 t]
      exact congrArg _ (List.append_nil _)
    rw [← hq.history, hempty, List.append_nil, ← h.popped, Fin.sum_univ_def]
    exact congrArg List.sum (List.map_congr_left fun t _ => (hhand t).symm)

/-- Every number that a worker has is the number of items that it has processed. -/
theorem sum_map_contexts {f : WorkerContext → ℕ} {items : List PthreadWorkItem}
    (hf : ∀ t, f (s.workers t).context = (processedBy trace t).length)
    (hprocessed : ((List.finRange workers).map fun t =>
      (processedBy trace t : Multiset PthreadWorkItem)).sum = items) :
    (((List.finRange workers).map fun t => (s.workers t).context).map f).sum = items.length := by
  have hcard := map_list_sum Multiset.cardHom
    ((List.finRange workers).map fun t => (processedBy trace t : Multiset PthreadWorkItem))
  rw [List.map_map, hprocessed] at hcard
  refine Eq.trans ?_ hcard.symm
  rw [List.map_map]
  apply congrArg List.sum
  exact List.map_congr_left fun t _ => hf t

theorem Accounted.xorSum_checksums (h : Accounted engine trace s) {items : List PthreadWorkItem}
    (hprocessed : ((List.finRange workers).map fun t =>
      (processedBy trace t : Multiset PthreadWorkItem)).sum = items) :
    xorSum (((List.finRange workers).map fun t => (s.workers t).context).map (·.checksum)) =
      xorSum (Multiset.map (fun item => engine.itemChecksum (workOf item)) items) := by
  have hxor := xorSum_map_xorSum (fun item => engine.itemChecksum (workOf item))
    ((List.finRange workers).map fun t => (processedBy trace t : Multiset PthreadWorkItem))
  rw [hprocessed, List.map_map] at hxor
  have hcontexts : (List.finRange workers).map
        ((·.checksum) ∘ fun t => (s.workers t).context) =
      (List.finRange workers).map ((fun m : Multiset PthreadWorkItem =>
        xorSum (m.map fun item => engine.itemChecksum (workOf item))) ∘
          fun t => (processedBy trace t : Multiset PthreadWorkItem)) :=
    List.map_congr_left fun t _ => (h.recorded t).checksum
  rw [List.map_map, hcontexts, hxor]

/-- **The two benchmarks agree**, whatever the interleaving: on the number of tasks
    and on the checksum; and the latencies fill `all_latencies`. -/
theorem benchmark_eq_singleThreaded (hc : Corresponds engine) (hworkers : 0 < workers)
    (hinit : PthreadWorkQueue.init queueCapacity = .ok queue)
    (hrun : Interleaving.Run (Step engine.config.workloadSize)
      (start engine.config.workloadSize workers queue) trace s) (hjoined : s.Joined) :
    ∃ totals, aggregate engine.config.workloadSize s = some totals ∧
      totals.totalTasks = engine.runSingleThreaded.tasksProcessed ∧
      totals.checksum = engine.runSingleThreaded.checksum ∧
      totals.totalAllocations = engine.buildWorkItems.length ∧
      totals.allLatencyCount = taskCount engine.config.workloadSize := by
  have h := accounted hc hinit hrun
  obtain ⟨items, hitems, hprocessed⟩ := h.processed_of_joined hc (orderly hinit hrun)
    (queueFifo hinit hrun) hworkers hjoined
  have hlength : items.length = engine.taskCount := by
    rw [← engine.length_buildWorkItems, ← hitems, List.length_map]
  have hcount : ∀ f : WorkerContext → ℕ,
      (∀ t, f (s.workers t).context = (processedBy trace t).length) →
      (((List.finRange workers).map fun t => (s.workers t).context).map f).sum =
        engine.taskCount := fun f hf => (sum_map_contexts hf hprocessed).trans hlength
  have hchecksum : xorSum (((List.finRange workers).map fun t => (s.workers t).context).map
      (·.checksum)) = engine.totalChecksum := by
    rw [h.xorSum_checksums hprocessed, PerformanceEngine.totalChecksum, ← hitems,
      ← Multiset.map_coe, Multiset.map_map]
    rfl
  obtain ⟨totals, hfold, hlatencies, hxor, htasks, hallocations⟩ := foldlM_add
    ((List.finRange workers).map fun t => (s.workers t).context)
    { allLatencies := List.replicate (taskCount engine.config.workloadSize) none } (by
      rw [hcount _ fun t => (h.recorded t).latencies]
      show 0 + _ ≤ (List.replicate _ _).length
      rw [List.length_replicate, taskCount_eq hc, Nat.zero_add])
  refine ⟨totals, ?_, ?_, ?_, ?_, ?_⟩
  · rw [← hfold, aggregate, List.foldlM_map]
  · rw [htasks, hcount _ fun t => (h.recorded t).tasksCompleted, engine.runSingleThreaded_eq]
    exact Nat.zero_add _
  · rw [hxor, hchecksum, engine.runSingleThreaded_eq]
    exact UInt64.zero_xor
  · rw [hallocations, hcount _ fun t => (h.recorded t).allocations, engine.length_buildWorkItems]
    exact Nat.zero_add _
  · rw [hlatencies, hcount _ fun t => (h.recorded t).latencies, taskCount_eq hc]
    exact Nat.zero_add _

/-- Each of two workers pops one of the two items, and then finds the queue closed. -/
theorem exists_joined_run_of_two :
    ∃ (trace : List (Event 2)) (s : State 2),
      Interleaving.Run (Step 300)
        (start 300 2 { items := List.replicate 1024 {}, capacity := 1024 }) trace s ∧
      s.Joined := by
  have hstart : Interleaving.Run (Step 300)
      (start 300 2 { items := List.replicate 1024 {}, capacity := 1024 }) [] _ := .start
  have hfirst := (hstart.next (.callMain (.push (benchmarkItem 300 0 0)) _
      ⟨0, rfl, by rw [if_pos (by decide)]; exact ⟨0, rfl⟩⟩ (.call none _ rfl))).next
    (.queue (.pushed none (benchmarkItem 300 0 0)) _ (fun _ _ h => by cases h)
      (.push none _ _ _ (.inl rfl) rfl (CondVar.signals_of_not_asleep (by decide))))
  have hsecond := (hfirst.next (.callMain (.push (benchmarkItem 300 1 0)) _
      ⟨1, rfl, by rw [if_pos (by decide)]; exact ⟨0, rfl⟩⟩ (.call none _ rfl))).next
    (.queue (.pushed none (benchmarkItem 300 1 0)) _ (fun _ _ h => by cases h)
      (.push none _ _ _ (.inl rfl) rfl (CondVar.signals_of_not_asleep (by decide))))
  have hpop := (hsecond.next (.callWorker 0 _ rfl (.call (some 0) _ rfl))).next
    (.queue (.popped (some 0) (benchmarkItem 300 0 0)) _ (fun _ _ h => by cases h)
      (.pop (some 0) false 0 _ _ _ (.inl rfl) rfl (CondVar.signals_of_not_asleep (by decide))))
  have hpop' := (hpop.next (.callWorker 1 _ rfl (.call (some 1) _ rfl))).next
    (.queue (.popped (some 1) (benchmarkItem 300 1 0)) _ (fun _ _ h => by cases h)
      (.pop (some 1) false 0 _ _ _ (.inl rfl) rfl (CondVar.signals_of_not_asleep (by decide))))
  have hprocess := (hpop'.next (.process 1 (benchmarkItem 300 1 0) 0 rfl)).next
    (.process 0 (benchmarkItem 300 0 0) 0 rfl)
  have hclose := (hprocess.next (.callMain .close _ ⟨2, rfl, by rw [if_neg (by decide)]⟩
    (.call none _ rfl))).next (.queue (.closed none) _ (fun _ _ h => by cases h)
      (.close none (.inl rfl)))
  have hdrained := (hclose.next (.callWorker 0 _ rfl (.call (some 0) _ rfl))).next
    (.queue (.drained (some 0)) _ (fun _ _ h => by cases h)
      (.popDrained (some 0) false 0 _ (.inl rfl) rfl))
  have hdrained' := (hdrained.next (.callWorker 1 _ rfl (.call (some 1) _ rfl))).next
    (.queue (.drained (some 1)) _ (fun _ _ h => by cases h)
      (.popDrained (some 1) false 0 _ (.inl rfl) rfl))
  exact ⟨_, _, hdrained', rfl, Fin.forall_fin_two.mpr ⟨rfl, rfl⟩⟩

theorem benchmark_eq_singleThreaded_two :
    ∃ (trace : List (Event 2)) (s : State 2),
      Interleaving.Run (Step 300)
        (start 300 2 { items := List.replicate 1024 {}, capacity := 1024 }) trace s ∧
      s.Joined ∧ ∃ totals, aggregate 300 s = some totals ∧
      totals.checksum =
        (PerformanceEngine.small 300 256 (by decide) (by decide)
          (by decide)).runSingleThreaded.checksum ∧
      totals.allLatencyCount = 2 := by
  obtain ⟨trace, s, hrun, hjoined⟩ := exists_joined_run_of_two
  have hc : Corresponds (PerformanceEngine.small 300 256 (by decide) (by decide) (by decide)) :=
    ⟨rfl, rfl⟩
  have hinit : PthreadWorkQueue.init queueCapacity = .ok _ := rfl
  obtain ⟨totals, haggregate, _, hchecksum, _, hcount⟩ :=
    benchmark_eq_singleThreaded hc (by decide) hinit hrun hjoined
  exact ⟨trace, s, hrun, hjoined, totals, haggregate, hchecksum, hcount⟩

end PthreadBenchmark

end AccelSim
