import AccelSimLite.Lib.Potential
import AccelSimLite.PthreadQueue.Clients
import AccelSimLite.PthreadQueue.Wakeups
import Mathlib.Data.Fintype.Option

/-!
# Completion of the C benchmark

As in the engine, a potential counts what is still to be done, here with the calls that
a thread makes as steps of their own. Only a spurious wakeup raises it. Whoever waits in
the queue waits for somebody who can go on, so the program comes to its last join.

## Main definitions

- `QueueSystem.potential` — the steps that those who use a queue can cause in it
- `PthreadBenchmark.State.potential` — what the program has still to do
- `PthreadBenchmark.stepBound` — what it has to do at the start

## Main results

- `QueueSystem.Step.potential_add_le` — what a step of the queue costs and gains
- `PthreadBenchmark.benchmark_completes` — runs are short, and can be completed
-/

namespace AccelSim

/-- The steps that a thread can still make in its call, and the step of another call. -/
def QueuePc.remaining : QueuePc → ℕ
  | .idle => 2
  | .entering _ => 1
  | .asleep _ => 0
  | .woken _ => 1

theorem QueuePc.AtLock.remaining_eq {pc : QueuePc} {op : QueueOp} (h : pc.AtLock op) :
    pc.remaining = 1 := by
  rcases h with rfl | rfl <;> rfl

theorem QueuePc.idle_of_op_eq_none {pc : QueuePc} (h : pc.op = none) : pc = .idle := by
  cases pc <;> first | rfl | cases h

/-- The spurious wakeups in an event. -/
def QueueEvent.wakeups {ι : Type*} : QueueEvent ι → ℕ
  | .wakes _ => 1
  | _ => 0

/-- What a step takes out of the potential of the queue with `n` threads. -/
def QueueEvent.spent {ι : Type*} : QueueEvent ι → ℕ
  | .calls _ _ => 1
  | .waits _ => 1
  | .popped _ _ => 2
  | _ => 0

/-- What a step brings in: a return lets the thread make another call, and a push may
    wake everybody and so may the pop of the item. -/
def QueueEvent.gained {ι : Type*} (n : ℕ) : QueueEvent ι → ℕ
  | .wakes _ => 1
  | .canceled _ _ => 1
  | .drained _ => 1
  | .pushed _ _ => 2 * n + 4
  | .closed _ => 2 * n + 1
  | _ => 0

theorem PthreadWorkQueue.pushSection_ne_einval (queue queue' : PthreadWorkQueue)
    (item : PthreadWorkItem) : queue.pushSection item ≠ some (.error .einval, queue') := by
  intro h
  unfold pushSection at h
  split_ifs at h <;> cases h

namespace QueueSystem

variable {ι : Type*} [Fintype ι]

/-- The steps that those who use the queue can still cause in it. -/
def potential (s : QueueSystem ι) : ℕ :=
  Threads.total QueuePc.remaining s.threads + (Fintype.card ι + 3) * s.queue.count

theorem remaining_le_of_wakes {cv : CondVar QueuePc} (hwake : cv.wake = QueuePc.wake)
    {threads threads' : ι → QueuePc} (h : cv.Wakes threads threads') :
    Threads.total QueuePc.remaining threads' ≤
      Threads.total QueuePc.remaining threads + Fintype.card ι := by
  refine h.total_le QueuePc.remaining fun pc _ => ?_
  rw [hwake]
  cases pc <;> simp only [QueuePc.wake, QueuePc.remaining] <;> omega

variable [DecidableEq ι] {s s' : QueueSystem ι} {e : QueueEvent ι}

omit [Fintype ι] [DecidableEq ι] in
theorem locked_count (s : QueueSystem ι) (t : ι) (contended : Bool) (waitNs : ℕ) :
    (s.locked t contended waitNs).count = s.queue.count :=
  congrArg RingBuffer.count (PthreadWorkQueue.locked_eq s t contended waitNs).1

/-- A thread moves, and no item does. -/
theorem potential_update (s : QueueSystem ι) (t : ι) (pc : QueuePc) {queue : PthreadWorkQueue}
    (hcount : queue.count = s.queue.count) :
    potential { queue := queue, threads := Function.update s.threads t pc } +
      (s.threads t).remaining = s.potential + pc.remaining := by
  have hsum := Threads.total_update QueuePc.remaining s.threads t pc
  simp only [potential, hcount]
  omega

/-- A thread returns from its call, and wakes others as it does. -/
theorem total_wakes_le {cv : CondVar QueuePc} (hwake : cv.wake = QueuePc.wake) {t : ι}
    {op : QueueOp} (hlock : (s.threads t).AtLock op) {threads : ι → QueuePc}
    (hwakes : cv.Wakes (Function.update s.threads t .idle) threads) :
    Threads.total QueuePc.remaining threads ≤
      Threads.total QueuePc.remaining s.threads + 1 + Fintype.card ι := by
  have hsum := Threads.total_update QueuePc.remaining s.threads t .idle
  have hle := remaining_le_of_wakes hwake hwakes
  rw [hlock.remaining_eq, QueuePc.remaining] at hsum
  omega

/-- The item that is pushed can wake everybody, now and when it is popped. -/
theorem potential_push_le (hq : s.queue.WellFormed) {t : ι} {item : PthreadWorkItem}
    {queue : PthreadWorkQueue} {threads : ι → QueuePc}
    (hlock : (s.threads t).AtLock (.push item))
    (hsection : s.queue.pushSection item = some (.ok (), queue))
    (hsignals : notEmpty.Signals (Function.update s.threads t .idle) threads) :
    potential { queue := queue, threads := threads } ≤
      s.potential + (2 * Fintype.card ι + 4) := by
  have htotal := total_wakes_le rfl hlock hsignals.wakes
  have hcount : queue.count = s.queue.count + 1 :=
    congrArg RingBuffer.count (PthreadWorkQueue.pushSection_eq_ok hq hsection).2.2.1
  simp only [potential, hcount, Nat.mul_add_one]
  omega

/-- The item that is popped pays for whom its room wakes. -/
theorem potential_pop_le (hq : s.queue.WellFormed) {t : ι} {contended : Bool} {waitNs : ℕ}
    {item : PthreadWorkItem} {queue : PthreadWorkQueue} {threads : ι → QueuePc}
    (hlock : (s.threads t).AtLock .pop)
    (hsection : (s.locked t contended waitNs).popSection = some (some item, queue))
    (hsignals : notFull.Signals (Function.update s.threads t .idle) threads) :
    potential { queue := queue, threads := threads } + 2 ≤ s.potential := by
  have htotal := total_wakes_le rfl hlock hsignals.wakes
  have hcount : s.queue.count = queue.count + 1 := by
    obtain ⟨hpos, _, hring, _⟩ :=
      PthreadWorkQueue.popSection_eq_item (hq.locked t contended waitNs) hsection
    have hless : queue.count = (s.locked t contended waitNs).count - 1 :=
      congrArg RingBuffer.count hring
    rw [locked_count] at hpos hless
    omega
  simp only [potential, hcount, Nat.mul_add_one]
  omega

/-- The close wakes both sides. -/
theorem potential_close_le {t : ι} (hlock : (s.threads t).AtLock .close) :
    potential
      { queue := s.queue.closeSection
        threads := notFull.broadcast
          (notEmpty.broadcast (Function.update s.threads t .idle)) } ≤
      s.potential + (2 * Fintype.card ι + 1) := by
  have hfirst := total_wakes_le rfl hlock (notEmpty.wakes_broadcast _)
  have hsecond := remaining_le_of_wakes rfl
    (notFull.wakes_broadcast (notEmpty.broadcast (Function.update s.threads t .idle)))
  simp only [potential, PthreadWorkQueue.closeSection]
  omega

theorem Step.potential_add_le (hs : Step s e s') (hq : s.queue.WellFormed) :
    s'.potential + e.spent ≤ s.potential + e.gained (Fintype.card ι) := by
  cases hs with
  | call t op hidle =>
    have hmove := s.potential_update t (.entering op) rfl
    simp only [hidle, QueuePc.remaining, QueueEvent.spent, QueueEvent.gained] at hmove ⊢
    omega
  | wake t op hasleep =>
    have hmove := s.potential_update t (.woken op) rfl
    simp only [hasleep, QueuePc.remaining, QueueEvent.spent, QueueEvent.gained] at hmove ⊢
    omega
  | pushWait t item hlock =>
    have hmove := s.potential_update t (.asleep (.push item)) rfl
    rw [hlock.remaining_eq] at hmove
    exact hmove.le
  | pushCancel t item queue hlock hsection =>
    obtain ⟨_, rfl⟩ := PthreadWorkQueue.pushSection_eq_error hsection
    have hmove := s.potential_update t .idle rfl
    rw [hlock.remaining_eq] at hmove
    exact (Nat.add_right_cancel hmove).le
  | push t item queue threads hlock hsection hsignals =>
    exact potential_push_le hq hlock hsection hsignals
  | popWait t contended waitNs hlock =>
    have hmove := s.potential_update t (.asleep .pop) (s.locked_count t contended waitNs)
    rw [hlock.remaining_eq] at hmove
    exact hmove.le
  | popDrained t contended waitNs queue hlock hsection =>
    obtain ⟨_, _, rfl⟩ := PthreadWorkQueue.popSection_eq_drained hsection
    have hmove := s.potential_update t .idle (s.locked_count t contended waitNs)
    rw [hlock.remaining_eq] at hmove
    exact (Nat.add_right_cancel hmove).le
  | pop t contended waitNs item queue threads hlock hsection hsignals =>
    exact potential_pop_le hq hlock hsection hsignals
  | close t hlock => exact potential_close_le hlock

omit [Fintype ι] in
/-- Nobody waits in the close. -/
theorem not_asleep_close {queue : PthreadWorkQueue} {trace : List (QueueEvent ι)}
    (h : Interleaving.Run Step (start ι queue) trace s) (t : ι) : s.threads t ≠ .asleep .close := by
  refine h.invariant (fun _ s => s.threads t ≠ .asleep .close) (fun hpc => by cases hpc) ?_
  intro trace u e v ih hs
  have hupdate {t' : ι} {pc : QueuePc} (hpc : pc ≠ .asleep .close) :
      Function.update u.threads t' pc t ≠ .asleep .close := by
    intro heq
    rcases Threads.of_update (· = QueuePc.asleep .close) heq with hnew | hold
    · exact hpc hnew
    · exact ih hold
  have hwakes {cv : CondVar QueuePc} {threads threads' : ι → QueuePc}
      (hwake : cv.wake = QueuePc.wake) (hw : cv.Wakes threads threads')
      (hold : threads t ≠ .asleep .close) : threads' t ≠ .asleep .close := by
    intro heq
    rcases hw.of_thread (· = QueuePc.asleep .close) heq with hsame | ⟨_, hwoken⟩
    · exact hold hsame
    · rw [hwake] at hwoken
      revert hwoken
      cases threads t <;> exact QueuePc.noConfusion
  cases hs with
  | pushWait => exact hupdate fun h => by cases h
  | popWait => exact hupdate fun h => by cases h
  | push _ _ _ _ _ _ hsignals => exact hwakes rfl hsignals.wakes (hupdate QueuePc.noConfusion)
  | pop _ _ _ _ _ _ _ _ hsignals =>
    exact hwakes rfl hsignals.wakes (hupdate QueuePc.noConfusion)
  | close =>
    exact hwakes rfl (notFull.wakes_broadcast _)
      (hwakes rfl (notEmpty.wakes_broadcast _) (hupdate QueuePc.noConfusion))
  | _ => exact hupdate QueuePc.noConfusion

omit [Fintype ι] in
/-- Who is in a function and does not sleep can go on. -/
theorem exists_step_of_op {t : ι} {op : QueueOp} (hop : (s.threads t).op = some op)
    (hawake : s.threads t ≠ .asleep op) :
    ∃ e s', Step s e s' ∧ e.wakeups = 0 ∧ ∀ t op, e ≠ .calls t op := by
  have hlock : (s.threads t).AtLock op := by
    cases hpc : s.threads t with
    | idle =>
      rw [hpc] at hop
      cases hop
    | entering op' =>
      rw [hpc] at hop
      cases hop
      exact .inl rfl
    | asleep op' =>
      rw [hpc] at hop
      cases hop
      exact absurd hpc hawake
    | woken op' =>
      rw [hpc] at hop
      cases hop
      exact .inr rfl
  cases op with
  | push item =>
    cases hsection : s.queue.pushSection item with
    | none => exact ⟨_, _, .pushWait t item hlock hsection, rfl, fun _ _ h => by cases h⟩
    | some outcome =>
      obtain ⟨returned, queue⟩ := outcome
      cases returned with
      | ok u =>
        exact ⟨_, _, .push t item queue _ hlock hsection (notEmpty.signals_broadcast _), rfl,
          fun _ _ h => by cases h⟩
      | error errno =>
        cases errno with
        | einval => exact absurd hsection (PthreadWorkQueue.pushSection_ne_einval _ _ _)
        | ecanceled =>
          exact ⟨_, _, .pushCancel t item queue hlock hsection, rfl, fun _ _ h => by cases h⟩
  | pop =>
    cases hsection : (s.locked t false 0).popSection with
    | none => exact ⟨_, _, .popWait t false 0 hlock hsection, rfl, fun _ _ h => by cases h⟩
    | some outcome =>
      obtain ⟨returned, queue⟩ := outcome
      cases returned with
      | none =>
        exact ⟨_, _, .popDrained t false 0 queue hlock hsection, rfl, fun _ _ h => by cases h⟩
      | some item =>
        exact ⟨_, _, .pop t false 0 item queue _ hlock hsection (notFull.signals_broadcast _),
          rfl, fun _ _ h => by cases h⟩
  | close => exact ⟨_, _, .close t hlock, rfl, fun _ _ h => by cases h⟩

end QueueSystem

namespace PthreadBenchmark

variable {workers workloadSize capacity : ℕ} {trace : List (Event workers)} {s s' : State workers}
  {e : Event workers} {queue : PthreadWorkQueue}

/-- The spurious wakeups in an event. -/
def Event.wakeups : Event workers → ℕ
  | .queue e => e.wakeups
  | .processes _ _ => 0

/-! ### The potential -/

/-- What a worker has still to do outside the queue. -/
def WorkerPc.remaining : WorkerPc → ℕ
  | .looping => 2
  | .processing _ => 3
  | .returned => 0

def Worker.remaining (worker : Worker) : ℕ := worker.pc.remaining

theorem Worker.remaining_eq {worker : Worker} {pc : WorkerPc} (h : worker.pc = pc) :
    worker.remaining = pc.remaining :=
  congrArg WorkerPc.remaining h

/-- What the main thread has still to bring into the queue that it shares with workers. -/
def MainPc.remaining (workers workloadSize : ℕ) : MainPc → ℕ
  | .pushing i => (2 * workers + 7) * (taskCount workloadSize - i) + 2 * workers + 4
  | .joining => 0
  | .failed => 0

/-- What the program has still to do. -/
def State.potential (workloadSize : ℕ) (s : State workers) : ℕ :=
  s.main.remaining workers workloadSize + s.system.potential +
    Threads.total Worker.remaining s.workers

/-- What it has to do at the start. -/
def stepBound (workers workloadSize : ℕ) : ℕ :=
  (2 * workers + 7) * taskCount workloadSize + 6 * workers + 6

theorem potential_start (hinit : PthreadWorkQueue.init capacity = .ok queue) :
    (start workloadSize workers queue).potential workloadSize = stepBound workers workloadSize := by
  obtain ⟨_, rfl⟩ := PthreadWorkQueue.init_eq_ok_iff.mp hinit
  have hthreads : Threads.total QueuePc.remaining
      (fun _ : Option (Fin workers) => QueuePc.idle) = (workers + 1) * 2 := by
    refine (Finset.sum_const_nat (m := 2) fun _ _ => rfl).trans ?_
    rw [Finset.card_univ, Fintype.card_option, Fintype.card_fin]
  have hworkers (context : WorkerContext) :
      Threads.total Worker.remaining (fun _ : Fin workers => { context := context }) =
        workers * 2 := by
    refine (Finset.sum_const_nat (m := 2) fun _ _ => rfl).trans ?_
    rw [Finset.card_univ, Fintype.card_fin]
  simp only [State.potential, start, hworkers, QueueSystem.start, QueueSystem.potential, hthreads,
    MainPc.remaining, Nat.sub_zero, Nat.mul_zero, stepBound]
  omega

/-- A worker that a call of pop has returned to. -/
theorem after_eq_update (threads : Fin workers → Worker) {t : Fin workers}
    {qe : QueueEvent (Option (Fin workers))} (he : qe.thread = some t) :
    (fun t' => (threads t').after t' qe) =
      Function.update threads t ((threads t).after t qe) := by
  funext t'
  by_cases ht : t' = t
  · subst ht
    rw [Function.update_self]
  · rw [Function.update_of_ne ht]
    exact Worker.after_of_ne _ fun h => ht (Option.some.inj (h.symm.trans he))

/-- What a return from pop does to the sum over the workers. -/
theorem total_after (threads : Fin workers → Worker) {t : Fin workers}
    {qe : QueueEvent (Option (Fin workers))} (he : qe.thread = some t)
    (hlooping : (threads t).pc = .looping) {pc : WorkerPc}
    (hpc : ((threads t).after t qe).pc = pc) :
    Threads.total Worker.remaining (fun t' => (threads t').after t' qe) + 2 =
      Threads.total Worker.remaining threads + pc.remaining := by
  have hsum := Threads.total_update Worker.remaining threads t ((threads t).after t qe)
  rw [Worker.remaining_eq hlooping, Worker.remaining_eq hpc] at hsum
  rw [after_eq_update threads he]
  exact hsum

/-! ### What a step in the queue costs the program -/

section QueueStep

variable {pushed : List PthreadWorkItem} {system : QueueSystem (Option (Fin workers))}
  {qe : QueueEvent (Option (Fin workers))}

/-- The program follows what happens in the queue. -/
def State.afterQueue (s : State workers) (system : QueueSystem (Option (Fin workers)))
    (qe : QueueEvent (Option (Fin workers))) : State workers where
  system := system
  main := s.main.after qe
  workers t := (s.workers t).after t qe

theorem potential_queue (hs : QueueSystem.Step s.system qe system)
    (hq : s.system.queue.WellFormed) :
    system.potential + qe.spent ≤ s.system.potential + qe.gained (workers + 1) := by
  have hle := hs.potential_add_le hq
  rwa [Fintype.card_option, Fintype.card_fin] at hle

/-- Only a pop changes what the workers have to do. -/
theorem potential_afterQueue_of_not_pop (he : qe.returns ≠ some .pop) :
    (s.afterQueue system qe).potential workloadSize =
      (s.main.after qe).remaining workers workloadSize + system.potential +
        Threads.total Worker.remaining s.workers := by
  have hsame : (fun t => (s.workers t).after t qe) = s.workers :=
    funext fun t => Worker.after_of_not_pop _ t he
  simp only [State.potential, State.afterQueue, hsame]

/-- Nobody returns. -/
theorem potential_of_stay (hs : QueueSystem.Step s.system qe system)
    (hq : s.system.queue.WellFormed) (hreturns : qe.returns = none)
    (hcost : qe.gained (workers + 1) + 1 ≤ qe.spent + 2 * qe.wakeups) :
    (s.afterQueue system qe).potential workloadSize + 1 ≤
      s.potential workloadSize + 2 * qe.wakeups := by
  have hsystem := potential_queue hs hq
  rw [potential_afterQueue_of_not_pop (hreturns ▸ (Option.some_ne_none _).symm),
    MainPc.after_of_pop s.main (.inl hreturns), State.potential]
  omega

/-- A pop returns to worker `t`, which then has to do what `pc` says. -/
theorem potential_of_pop (h : Orderly workloadSize pushed s)
    (hs : QueueSystem.Step s.system qe system) (hq : s.system.queue.WellFormed) {t : Fin workers}
    {pc : WorkerPc} (hreturns : qe.returns = some .pop) (ht : qe.thread = some t)
    (hpc : ((s.workers t).after t qe).pc = pc)
    (hcost : qe.gained (workers + 1) + pc.remaining + 1 ≤ qe.spent + 2) :
    (s.afterQueue system qe).potential workloadSize + 1 ≤
      s.potential workloadSize + 2 * qe.wakeups := by
  have hsystem := potential_queue hs hq
  have hop := (hs.op_of_returns hreturns).1
  rw [ht] at hop
  have hsum := total_after s.workers ht (h.worker_pops t .pop hop).2 hpc
  simp only [State.potential, State.afterQueue, MainPc.after_of_pop s.main (.inr hreturns)]
  omega

/-- The main thread goes on to its next push. -/
theorem potential_of_push (h : Orderly workloadSize pushed s) {t : Option (Fin workers)}
    {item : PthreadWorkItem} (hs : QueueSystem.Step s.system (.pushed t item) system)
    (hq : s.system.queue.WellFormed) :
    (s.afterQueue system (.pushed t item)).potential workloadSize + 1 ≤
      s.potential workloadSize := by
  have hsystem := potential_queue hs hq
  obtain ⟨rfl, i, now, hmain, hi, _⟩ := h.of_push (hs.op_of_returns rfl).1
  have hless : taskCount workloadSize - i = taskCount workloadSize - (i + 1) + 1 := by omega
  rw [potential_afterQueue_of_not_pop (by simp [QueueEvent.returns]), State.potential, hmain]
  simp only [QueueEvent.spent, QueueEvent.gained] at hsystem
  simp only [MainPc.after, MainPc.remaining, hless, Nat.mul_add_one]
  omega

/-- The main thread gives up. -/
theorem potential_of_cancel (h : Orderly workloadSize pushed s) {t : Option (Fin workers)}
    {item : PthreadWorkItem} (hs : QueueSystem.Step s.system (.canceled t item) system)
    (hq : s.system.queue.WellFormed) :
    (s.afterQueue system (.canceled t item)).potential workloadSize + 1 ≤
      s.potential workloadSize := by
  have hsystem := potential_queue hs hq
  obtain ⟨rfl, i, now, hmain, hi, _⟩ := h.of_push (hs.op_of_returns rfl).1
  rw [potential_afterQueue_of_not_pop (by simp [QueueEvent.returns]), State.potential, hmain]
  simp only [QueueEvent.spent, QueueEvent.gained] at hsystem
  simp only [MainPc.after, MainPc.remaining]
  omega

/-- The main thread goes on to its joins. -/
theorem potential_of_close (h : Orderly workloadSize pushed s) {t : Option (Fin workers)}
    (hs : QueueSystem.Step s.system (.closed t) system) (hq : s.system.queue.WellFormed) :
    (s.afterQueue system (.closed t)).potential workloadSize + 1 ≤ s.potential workloadSize := by
  have hsystem := potential_queue hs hq
  obtain ⟨rfl, hmain⟩ := h.of_close (hs.op_of_returns rfl).1
  rw [potential_afterQueue_of_not_pop (by simp [QueueEvent.returns]), State.potential, hmain]
  simp only [QueueEvent.spent, QueueEvent.gained] at hsystem
  simp only [MainPc.after, MainPc.remaining]
  omega

theorem potential_afterQueue_le (h : Orderly workloadSize pushed s)
    (hs : QueueSystem.Step s.system qe system) (hq : s.system.queue.WellFormed)
    (hcall : ∀ t op, qe ≠ .calls t op) :
    (s.afterQueue system qe).potential workloadSize + 1 ≤
      s.potential workloadSize + 2 * qe.wakeups := by
  cases qe with
  | calls t op => exact absurd rfl (hcall t op)
  | waits t => exact potential_of_stay hs hq rfl (Nat.le_refl 1)
  | wakes t => exact potential_of_stay hs hq rfl (Nat.le_refl 2)
  | pushed t item => exact potential_of_push h hs hq
  | canceled t item => exact potential_of_cancel h hs hq
  | popped t item =>
    obtain ⟨t, rfl⟩ := h.of_pop (hs.op_of_returns rfl).1
    have hpc : ((s.workers t).after t (.popped t item)).pc = .processing item := by
      simp [Worker.after]
    exact potential_of_pop h hs hq rfl rfl hpc (Nat.le_refl 4)
  | drained t =>
    obtain ⟨t, rfl⟩ := h.of_pop (hs.op_of_returns rfl).1
    have hpc : ((s.workers t).after t (.drained t)).pc = .returned := by
      simp [Worker.after]
    exact potential_of_pop h hs hq rfl rfl hpc (Nat.le_refl 2)
  | closed t => exact potential_of_close h hs hq

end QueueStep

/-- A thread calls a function of the queue. -/
theorem potential_of_call {t : Option (Fin workers)} {op : QueueOp}
    {system : QueueSystem (Option (Fin workers))}
    (hs : QueueSystem.Step s.system (.calls t op) system) (hq : s.system.queue.WellFormed) :
    State.potential workloadSize { s with system := system } + 1 ≤ s.potential workloadSize := by
  have hsystem : system.potential + 1 ≤ s.system.potential := hs.potential_add_le hq
  simp only [State.potential]
  omega

/-- A worker has processed its item. -/
theorem potential_of_process {t : Fin workers} {item : PthreadWorkItem}
    (hpc : (s.workers t).pc = .processing item) (context : WorkerContext) :
    State.potential workloadSize
      { s with workers := Function.update s.workers t { pc := .looping, context := context } } +
        1 = s.potential workloadSize := by
  have hsum := Threads.total_update Worker.remaining s.workers t ⟨.looping, context⟩
  have hlooping : Worker.remaining ⟨.looping, context⟩ = 2 := rfl
  have hprocessing : (s.workers t).remaining = 3 := Worker.remaining_eq hpc
  rw [hlooping, hprocessing] at hsum
  simp only [State.potential]
  omega

theorem Step.potential_add_le {pushed : List PthreadWorkItem}
    (hs : Step workloadSize s e s') (h : Orderly workloadSize pushed s)
    (hq : s.system.queue.WellFormed) :
    s'.potential workloadSize + 1 ≤ s.potential workloadSize + 2 * e.wakeups := by
  cases hs with
  | callMain op system hcalls hs => exact potential_of_call hs hq
  | callWorker t system hpc hs => exact potential_of_call hs hq
  | process t item latency hpc => exact (potential_of_process hpc _).le
  | queue qe system hcall hs => exact potential_afterQueue_le h hs hq hcall

theorem amortised (hinit : PthreadWorkQueue.init capacity = .ok queue) :
    Interleaving.Amortised (Step workloadSize) (start workloadSize workers queue)
      (State.potential workloadSize) 2 Event.wakeups :=
  fun _ _ _ _ hrun hs =>
    hs.potential_add_le (orderly hinit hrun) (queueFifo hinit hrun).wellFormed

/-! ### Progress -/

theorem MainPc.exists_calls (workloadSize i : ℕ) :
    ∃ op, (MainPc.pushing i).Calls workloadSize op := by
  by_cases hi : i < taskCount workloadSize
  · exact ⟨.push (benchmarkItem workloadSize i 0), i, rfl, by rw [if_pos hi]; exact ⟨0, rfl⟩⟩
  · exact ⟨.close, i, rfl, by rw [if_neg hi]⟩

/-- Who is through has seen the close. -/
theorem exists_closed_of_over (hinit : PthreadWorkQueue.init capacity = .ok queue)
    (h : Interleaving.Run (Step workloadSize) (start workloadSize workers queue) trace s)
    (hover : s.main = .joining ∨ ∃ t, (s.workers t).pc = .returned) :
    ∃ t, QueueEvent.closed t ∈ queueTrace trace := by
  revert hover
  refine h.invariant_of_run (fun trace s =>
    s.main = .joining ∨ (∃ t, (s.workers t).pc = .returned) →
      ∃ t, QueueEvent.closed t ∈ queueTrace trace) ?_ ?_
  · rintro (hmain | ⟨t, ht⟩)
    · cases hmain
    · cases ht
  · intro trace u e v hu ih hs hover
    rw [queueTrace_append]
    suffices hbefore : (u.main = .joining ∨ ∃ t, (u.workers t).pc = .returned) ∨
        (∃ t, QueueEvent.closed t ∈ queueTrace trace) ∨ ∃ t, e = .queue (.closed t) by
      rcases hbefore with hold | ⟨t, ht⟩ | ⟨t, rfl⟩
      · exact (ih hold).imp fun t ht => List.mem_append_left _ ht
      · exact ⟨t, List.mem_append_left _ ht⟩
      · exact ⟨t, List.mem_append_right _ (List.mem_singleton_self _)⟩
    cases hs with
    | callMain => exact .inl hover
    | callWorker => exact .inl hover
    | process t item latency hpc =>
      refine .inl (hover.imp id fun ⟨t', ht'⟩ => ⟨t', ?_⟩)
      rcases Threads.of_update (fun w : Worker => w.pc = .returned) ht' with hnew | hold
      · cases hnew
      · exact hold
    | queue qe system hcall hs =>
      rcases hover with hmain | ⟨t, ht⟩
      · have hmain : u.main.after qe = .joining := hmain
        cases hu' : u.main with
        | joining => exact .inl (.inl rfl)
        | failed =>
          rw [hu'] at hmain
          cases hmain
        | pushing i =>
          rw [hu'] at hmain
          cases qe with
          | closed t => exact .inr (.inr ⟨t, rfl⟩)
          | pushed t item => cases t <;> cases hmain
          | canceled t item => cases t <;> cases hmain
          | _ => cases hmain
      · have ht : ((u.workers t).after t qe).pc = .returned := ht
        by_cases hthread : qe.thread = some t
        · cases qe with
          | popped t' item =>
            cases hthread
            simp [Worker.after] at ht
          | drained t' =>
            exact .inr (.inl ((queueFifo hinit hu).closed_iff.mp hs.of_drained.2))
          | closed t' => exact .inr (.inr ⟨t', rfl⟩)
          | _ => exact .inl (.inr ⟨t, ht⟩)
        · rw [Worker.after_of_ne _ hthread] at ht
          exact .inl (.inr ⟨t, ht⟩)

/-- Where only wakeups are possible nobody can go on: whoever is in the queue sleeps, and
    whoever is not through is in the queue. -/
structure Stuck (s : State workers) : Prop where
  asleep : ∀ t op, (s.system.threads t).op = some op → s.system.threads t = .asleep op
  worker : ∀ t, (s.workers t).pc = .returned ∨ s.system.threads (some t) = .asleep .pop
  main : s.main = .joining ∨ ∃ item, s.system.threads none = .asleep (.push item)

theorem asleep_of_stuck (hstuck : ∀ e s', Step workloadSize s e s' → e.wakeups ≠ 0)
    (t : Option (Fin workers)) (op : QueueOp) (hop : (s.system.threads t).op = some op) :
    s.system.threads t = .asleep op := by
  by_contra hawake
  obtain ⟨e, system, hs, hfree, hcall⟩ := QueueSystem.exists_step_of_op hop hawake
  exact hstuck _ _ (.queue e system hcall hs) hfree

theorem worker_of_stuck {pushed : List PthreadWorkItem} (h : Orderly workloadSize pushed s)
    (hstuck : ∀ e s', Step workloadSize s e s' → e.wakeups ≠ 0) (t : Fin workers) :
    (s.workers t).pc = .returned ∨ s.system.threads (some t) = .asleep .pop := by
  cases hpc : (s.workers t).pc with
  | processing item => exact absurd rfl (hstuck _ _ (.process t item 0 hpc))
  | returned => exact .inl rfl
  | looping =>
    cases hop : (s.system.threads (some t)).op with
    | none =>
      have hidle := QueuePc.idle_of_op_eq_none hop
      exact absurd rfl (hstuck _ _ (.callWorker t _ hpc (.call (some t) .pop hidle)))
    | some op =>
      obtain ⟨rfl, _⟩ := h.worker_pops t op hop
      exact .inr (asleep_of_stuck hstuck _ _ hop)

theorem main_of_stuck {pushed : List PthreadWorkItem} (h : Orderly workloadSize pushed s)
    (hclose : s.system.threads none ≠ .asleep .close)
    (hstuck : ∀ e s', Step workloadSize s e s' → e.wakeups ≠ 0) :
    s.main = .joining ∨ ∃ item, s.system.threads none = .asleep (.push item) := by
  cases hpc : s.main with
  | joining => exact .inl rfl
  | failed => exact absurd hpc h.not_failed
  | pushing i =>
    cases hop : (s.system.threads none).op with
    | none =>
      have hidle := QueuePc.idle_of_op_eq_none hop
      obtain ⟨op, hcalls⟩ := MainPc.exists_calls workloadSize i
      rw [← hpc] at hcalls
      exact absurd rfl (hstuck _ _ (.callMain op _ hcalls (.call none op hidle)))
    | some op =>
      have hasleep := asleep_of_stuck hstuck _ _ hop
      cases op with
      | push item => exact .inr ⟨item, hasleep⟩
      | pop =>
        obtain ⟨t, ht⟩ := h.of_pop hop
        cases ht
      | close => exact absurd hasleep hclose

/-- Nobody waits in a queue that is closed. -/
theorem Stuck.joined_of_closed (h : Stuck s) (hawaited : QueueSystem.Awaited s.system)
    (hclosed : s.system.queue.closed = true) : s.Joined := by
  have hawake := hawaited.none_asleep hclosed
  constructor
  · refine h.main.resolve_right ?_
    rintro ⟨item, hpc⟩
    exact (hawake none).2 (asleep_notFull_iff.mpr ⟨item, hpc⟩)
  · intro t
    exact (h.worker t).resolve_right fun hpc => (hawake (some t)).1 (decide_eq_true hpc)

/-- Both sides wait only in a queue without capacity. -/
theorem Stuck.capacity_eq_zero (h : Stuck s) (hawaited : QueueSystem.Awaited s.system)
    {t : Fin workers} (hpop : s.system.threads (some t) = .asleep .pop) {item : PthreadWorkItem}
    (hpush : s.system.threads none = .asleep (.push item)) : s.system.queue.capacity = 0 := by
  have hwoken : ∀ t op, s.system.threads t ≠ .woken op := by
    intro t op ht
    have hasleep := h.asleep t op (congrArg QueuePc.op ht)
    rw [hasleep] at ht
    cases ht
  have hempty := hawaited.consumers.eq_zero (decide_eq_true hpop)
    fun t ht => hwoken t .pop (of_decide_eq_true ht)
  have hfull := hawaited.producers.eq_zero (asleep_notFull_iff.mpr ⟨item, hpush⟩)
    fun t ht => by
      obtain ⟨item', hpc⟩ := woken_notFull_iff.mp ht
      exact hwoken t _ hpc
  omega

/-- Where only wakeups are possible the program has come to its end. -/
theorem joined_of_stuck (hinit : PthreadWorkQueue.init capacity = .ok queue)
    (hworkers : 0 < workers)
    (h : Interleaving.Run (Step workloadSize) (start workloadSize workers queue) trace s)
    (hstuck : ∀ e s', Step workloadSize s e s' → e.wakeups ≠ 0) : s.Joined := by
  have horderly := orderly hinit h
  have hfifo := queueFifo hinit h
  have hawaited := QueueSystem.awaited hinit (queueRun h)
  have hall : Stuck s := ⟨asleep_of_stuck hstuck, worker_of_stuck horderly hstuck,
    main_of_stuck horderly (QueueSystem.not_asleep_close (queueRun h) none) hstuck⟩
  by_contra hjoined
  have hclosed := mt (hall.joined_of_closed hawaited) hjoined
  -- both sides of the queue would wait, for an item and for room
  have hopen : ¬(s.main = .joining ∨ ∃ t, (s.workers t).pc = .returned) := fun hover =>
    hclosed (hfifo.closed_iff.mpr (exists_closed_of_over hinit h hover))
  rw [not_or] at hopen
  obtain ⟨item, hpush⟩ := hall.main.resolve_left hopen.1
  have hpop := (hall.worker ⟨0, hworkers⟩).resolve_left fun hpc => hopen.2 ⟨_, hpc⟩
  have hzero := hall.capacity_eq_zero hawaited hpop hpush
  rw [hfifo.capacity_eq] at hzero
  obtain ⟨hpos, _⟩ := PthreadWorkQueue.init_eq_ok_iff.mp hinit
  exact hpos.ne' hzero

/-! ### Completion -/

/-- **Every run is short, and can be completed**: it makes no more steps than its bound
    and two for each spurious wakeup, and from wherever it has come to, the program
    reaches its last join without any. -/
theorem benchmark_completes (hworkers : 0 < workers)
    (hinit : PthreadWorkQueue.init capacity = .ok queue)
    (h : Interleaving.Run (Step workloadSize) (start workloadSize workers queue) trace s) :
    trace.length ≤ stepBound workers workloadSize + 2 * (trace.map Event.wakeups).sum ∧
      ∃ rest s', Interleaving.Run (Step workloadSize) s rest s' ∧ s'.Joined ∧
        ∀ e ∈ rest, e.wakeups = 0 := by
  have hamortised : Interleaving.Amortised (Step workloadSize)
      (start workloadSize workers queue) _ _ _ := amortised hinit
  constructor
  · have hlength := hamortised.length_add_le h
    rw [potential_start hinit] at hlength
    exact (Nat.le_add_right _ _).trans hlength
  · refine hamortised.exists_end (fun trace u hu hend => ?_) h
    by_contra hnone
    push Not at hnone
    exact hend (joined_of_stuck hinit hworkers hu hnone)

/-- Two workers sleep before the first of two items comes. -/
theorem benchmark_completes_two :
    ∃ (trace : List (Event 2)) (s : State 2),
      Interleaving.Run (Step 300)
        (start 300 2 { items := List.replicate 1024 {}, capacity := 1024 }) trace s ∧
      s.system.threads (some 0) = .asleep .pop ∧ s.system.threads (some 1) = .asleep .pop ∧
      trace.length ≤ stepBound 2 300 + 2 * (trace.map Event.wakeups).sum ∧
      ∃ rest s', Interleaving.Run (Step 300) s rest s' ∧ s'.Joined ∧
        ∀ e ∈ rest, e.wakeups = 0 := by
  have hinit : PthreadWorkQueue.init 1024 = .ok _ := rfl
  have hstart : Interleaving.Run (Step 300)
      (start 300 2 { items := List.replicate 1024 {}, capacity := 1024 }) [] _ := .start
  have hfirst := (hstart.next (.callWorker 0 _ rfl (.call (some 0) .pop rfl))).next
    (.queue (.waits (some 0)) _ (fun _ _ h => by cases h)
      (.popWait (some 0) false 0 (.inl rfl) rfl))
  have hsecond := (hfirst.next (.callWorker 1 _ rfl (.call (some 1) .pop rfl))).next
    (.queue (.waits (some 1)) _ (fun _ _ h => by cases h)
      (.popWait (some 1) false 0 (.inl rfl) rfl))
  exact ⟨_, _, hsecond, rfl, rfl, benchmark_completes (by decide) hinit hsecond⟩

end PthreadBenchmark

end AccelSim
