import AccelSimLite.PthreadQueue.Fifo

/-!
# No lost wakeup

Each push signals one consumer and each pop one producer. While a consumer sleeps,
at least as many consumers are on their way back as there are items, since an item
is taken either by one of them or by a thread that had not slept; and likewise for
producers and free slots. A close wakes everybody, and nobody sleeps after it.

## Main results

- `QueueSystem.awaited` — the counts, in every run
- `QueueSystem.no_lost_wakeup` — nobody sleeps on an item, a slot or a close
-/

namespace AccelSim

/-! ### Two condition variables -/

theorem not_asleep_idle : ¬notEmpty.asleep .idle ∧ ¬notFull.asleep .idle :=
  ⟨Bool.false_ne_true, Bool.false_ne_true⟩

theorem asleep_notFull_iff {pc : QueuePc} :
    notFull.asleep pc = true ↔ ∃ item, pc = .asleep (.push item) := by
  constructor
  · intro h
    cases pc with
    | asleep op =>
      cases op with
      | push item => exact ⟨item, rfl⟩
      | _ => cases h
    | _ => cases h
  · rintro ⟨item, rfl⟩
    rfl

theorem woken_notFull_iff {pc : QueuePc} :
    notFull.woken pc = true ↔ ∃ item, pc = .woken (.push item) := by
  constructor
  · intro h
    cases pc with
    | woken op =>
      cases op with
      | push item => exact ⟨item, rfl⟩
      | _ => cases h
    | _ => cases h
  · rintro ⟨item, rfl⟩
    rfl

theorem QueuePc.AtLock.not_woken_notEmpty {pc : QueuePc} {item : PthreadWorkItem}
    (h : pc.AtLock (.push item)) : ¬notEmpty.woken pc := by
  intro hwoken
  have hpc : pc = .woken .pop := of_decide_eq_true hwoken
  cases QueueSystem.atLock_unique h (.inr hpc)

theorem QueuePc.AtLock.not_woken_notFull {pc : QueuePc} (h : pc.AtLock .pop) :
    ¬notFull.woken pc := by
  intro hwoken
  obtain ⟨item, hpc⟩ := woken_notFull_iff.mp hwoken
  cases QueueSystem.atLock_unique h (.inr hpc)

section Wakes

variable {ι : Type*} {threads threads' : ι → QueuePc}

/-- Waking consumers leaves the producers alone. -/
theorem notFull_of_wakes_notEmpty (h : notEmpty.Wakes threads threads') (t : ι) :
    notFull.asleep (threads' t) = notFull.asleep (threads t) ∧
      notFull.woken (threads' t) = notFull.woken (threads t) := by
  obtain hsame | ⟨hasleep, hwake⟩ := h t
  · rw [hsame]
    exact ⟨rfl, rfl⟩
  · have hpc : threads t = .asleep .pop := of_decide_eq_true hasleep
    rw [hwake, hpc]
    exact ⟨rfl, rfl⟩

/-- Waking producers leaves the consumers alone. -/
theorem notEmpty_of_wakes_notFull (h : notFull.Wakes threads threads') (t : ι) :
    notEmpty.asleep (threads' t) = notEmpty.asleep (threads t) ∧
      notEmpty.woken (threads' t) = notEmpty.woken (threads t) := by
  obtain hsame | ⟨hasleep, hwake⟩ := h t
  · rw [hsame]
    exact ⟨rfl, rfl⟩
  · obtain ⟨item, hpc⟩ := asleep_notFull_iff.mp hasleep
    rw [hwake, hpc]
    exact ⟨rfl, rfl⟩

end Wakes

namespace QueueSystem

variable {ι : Type*} {trace : List (QueueEvent ι)} {s s' : QueueSystem ι} {e : QueueEvent ι}

/-- Nobody waits in `pthread_cond_wait` without a signal. -/
def NoneAsleep (threads : ι → QueuePc) : Prop :=
  ∀ t, ¬notEmpty.asleep (threads t) ∧ ¬notFull.asleep (threads t)

/-- A thread goes where it does not wait. -/
theorem NoneAsleep.update [DecidableEq ι] {threads : ι → QueuePc} (h : NoneAsleep threads) (t : ι)
    {pc : QueuePc} (hpc : ¬notEmpty.asleep pc ∧ ¬notFull.asleep pc) :
    NoneAsleep (Function.update threads t pc) := by
  intro t'
  by_cases ht : t' = t
  · rw [ht, Function.update_self]
    exact hpc
  · rw [Function.update_of_ne ht]
    exact h t'

theorem NoneAsleep.of_wakes {threads threads' : ι → QueuePc} (h : NoneAsleep threads)
    (hwakes : notFull.Wakes threads threads') : NoneAsleep threads' := by
  intro t
  rw [(notEmpty_of_wakes_notFull hwakes t).1]
  exact ⟨(h t).1, fun ht => (h t).2 (hwakes.of_asleep ht).1⟩

/-- After both broadcasts nobody waits. -/
theorem noneAsleep_broadcast (threads : ι → QueuePc) :
    NoneAsleep (notFull.broadcast (notEmpty.broadcast threads)) := by
  intro t
  rw [(notEmpty_of_wakes_notFull (notFull.wakes_broadcast _) t).1]
  exact ⟨notEmpty.not_asleep_broadcast threads t, notFull.not_asleep_broadcast _ t⟩

variable [Fintype ι]

/-- Whoever sleeps has a reason to. -/
structure Awaited (s : QueueSystem ι) : Prop where
  consumers : notEmpty.Covered s.queue.count s.threads
  producers : notFull.Covered (s.queue.capacity - s.queue.count) s.threads
  none_asleep : s.queue.closed = true → NoneAsleep s.threads

theorem Awaited.of_noneAsleep (h : NoneAsleep s.threads) : Awaited s where
  consumers := CondVar.covered_of_not_asleep (fun t => (h t).1) _
  producers := CondVar.covered_of_not_asleep (fun t => (h t).2) _
  none_asleep _ := h

theorem awaited_start (queue : PthreadWorkQueue) : Awaited (start ι queue) :=
  .of_noneAsleep fun _ => not_asleep_idle

variable [DecidableEq ι]

/-- A thread that was not on its way back goes where it does not wait. -/
theorem Awaited.move (h : Awaited s) {t : ι} {pc : QueuePc}
    (hpc : ¬notEmpty.asleep pc ∧ ¬notFull.asleep pc)
    (hold : ¬notEmpty.woken (s.threads t) ∧ ¬notFull.woken (s.threads t)) :
    Awaited { s with threads := Function.update s.threads t pc } where
  consumers := h.consumers.update (fun hw => absurd hw hpc.1) fun hw => absurd hw hold.1
  producers := h.producers.update (fun hw => absurd hw hpc.2) fun hw => absurd hw hold.2
  none_asleep hclosed := (h.none_asleep hclosed).update t hpc

/-- A thread that has the mutex in a pop does not count among the producers. -/
theorem Awaited.producers_of_pop (h : Awaited s) {t : ι} (hlock : (s.threads t).AtLock .pop)
    {pc : QueuePc} (hpc : ¬notFull.asleep pc) :
    notFull.Covered (s.queue.capacity - s.queue.count) (Function.update s.threads t pc) :=
  h.producers.update (fun hw => absurd hw hpc) fun hw => absurd hw hlock.not_woken_notFull

/-- A thread that has the mutex in a push does not count among the consumers. -/
theorem Awaited.consumers_of_push (h : Awaited s) {t : ι} {item : PthreadWorkItem}
    (hlock : (s.threads t).AtLock (.push item)) {pc : QueuePc} (hpc : ¬notEmpty.asleep pc) :
    notEmpty.Covered s.queue.count (Function.update s.threads t pc) :=
  h.consumers.update (fun hw => absurd hw hpc) fun hw => absurd hw hlock.not_woken_notEmpty

/-- A push that returns 0 covers one more sleeping consumer and needs one producer less. -/
theorem Awaited.push (h : Awaited s) (hq : s.queue.WellFormed) {t : ι} {item : PthreadWorkItem}
    {queue : PthreadWorkQueue} {threads : ι → QueuePc}
    (hlock : (s.threads t).AtLock (.push item))
    (hsection : s.queue.pushSection item = some (.ok (), queue))
    (hsignals : notEmpty.Signals (Function.update s.threads t .idle) threads) :
    Awaited { queue := queue, threads := threads } := by
  obtain ⟨_, hroom, hring, hopen, _⟩ := PthreadWorkQueue.pushSection_eq_ok hq hsection
  have hcount : queue.count = s.queue.count + 1 := congrArg RingBuffer.count hring
  have hcapacity : queue.capacity = s.queue.capacity := congrArg RingBuffer.capacity hring
  refine ⟨?_, ?_, fun hclosed => absurd (hopen.symm.trans hclosed) Bool.false_ne_true⟩
  · show notEmpty.Covered queue.count threads
    rw [hcount]
    exact (h.consumers_of_push hlock not_asleep_idle.1).signal hsignals
  · show notFull.Covered (queue.capacity - queue.count) threads
    have hsub : s.queue.capacity - s.queue.count = queue.capacity - queue.count + 1 := by
      rw [hcount, hcapacity]
      omega
    have hleave : notFull.Covered (queue.capacity - queue.count)
        (Function.update s.threads t .idle) := (hsub ▸ h.producers).leave not_asleep_idle.2
    exact hleave.congr (fun t' => (notFull_of_wakes_notEmpty hsignals.wakes t').1)
      fun t' => (notFull_of_wakes_notEmpty hsignals.wakes t').2

/-- A pop that returns 1 covers one more sleeping producer and needs one consumer less. -/
theorem Awaited.pop (h : Awaited s) (hq : s.queue.WellFormed) {t : ι} {contended : Bool}
    {waitNs : ℕ} {item : PthreadWorkItem} {queue : PthreadWorkQueue} {threads : ι → QueuePc}
    (hlock : (s.threads t).AtLock .pop)
    (hsection : (s.locked t contended waitNs).popSection = some (some item, queue))
    (hsignals : notFull.Signals (Function.update s.threads t .idle) threads) :
    Awaited { queue := queue, threads := threads } := by
  obtain ⟨hring, hclosed, _⟩ := PthreadWorkQueue.locked_eq s t contended waitNs
  obtain ⟨hne, _, hpop, hclosed', _⟩ :=
    PthreadWorkQueue.popSection_eq_item (hq.locked t contended waitNs) hsection
  rw [hring] at hpop
  have hcount : queue.count = s.queue.count - 1 := congrArg RingBuffer.count hpop
  have hcapacity : queue.capacity = s.queue.capacity := congrArg RingBuffer.capacity hpop
  have hpos : 0 < s.queue.count := hne.trans_eq (congrArg RingBuffer.count hring)
  refine ⟨?_, ?_, fun hqueue => ?_⟩
  · show notEmpty.Covered queue.count threads
    have hsub : s.queue.count = queue.count + 1 := by
      rw [hcount]
      omega
    have hleave : notEmpty.Covered queue.count (Function.update s.threads t .idle) :=
      (hsub ▸ h.consumers).leave not_asleep_idle.1
    exact hleave.congr (fun t' => (notEmpty_of_wakes_notFull hsignals.wakes t').1)
      fun t' => (notEmpty_of_wakes_notFull hsignals.wakes t').2
  · show notFull.Covered (queue.capacity - queue.count) threads
    refine ((h.producers_of_pop hlock not_asleep_idle.2).signal hsignals).mono ?_
    rw [hcount, hcapacity]
    omega
  · have hnone := h.none_asleep (hclosed.symm.trans (hclosed'.symm.trans hqueue))
    exact (hnone.update t not_asleep_idle).of_wakes hsignals.wakes

/-- One step of any thread keeps the counts. -/
theorem Step.awaited (hs : Step s e s') (hq : s.queue.WellFormed) (h : Awaited s) :
    Awaited s' := by
  cases hs with
  | call t op hidle =>
    refine h.move ⟨Bool.false_ne_true, Bool.false_ne_true⟩ ?_
    rw [hidle]
    exact ⟨Bool.false_ne_true, Bool.false_ne_true⟩
  | wake t op hasleep =>
    refine h.move ⟨Bool.false_ne_true, Bool.false_ne_true⟩ ?_
    rw [hasleep]
    exact ⟨Bool.false_ne_true, Bool.false_ne_true⟩
  | pushWait t item hlock hsection =>
    obtain ⟨hfull, hopen⟩ := PthreadWorkQueue.pushSection_eq_none_iff.mp hsection
    have hpc : ¬notEmpty.asleep (.asleep (.push item)) := Bool.false_ne_true
    refine ⟨h.consumers_of_push hlock hpc, ?_, fun hclosed => ?_⟩
    · show notFull.Covered (s.queue.capacity - s.queue.count) _
      rw [hfull, Nat.sub_self]
      exact notFull.covered_zero _
    · exact absurd (hopen.symm.trans hclosed) Bool.false_ne_true
  | pushCancel t item queue hlock hsection =>
    obtain ⟨hclosed, rfl⟩ := PthreadWorkQueue.pushSection_eq_error hsection
    exact .of_noneAsleep ((h.none_asleep hclosed).update t not_asleep_idle)
  | push t item queue threads hlock hsection hsignals => exact h.push hq hlock hsection hsignals
  | popWait t contended waitNs hlock hsection =>
    obtain ⟨hring, hclosed, _⟩ := PthreadWorkQueue.locked_eq s t contended waitNs
    obtain ⟨hempty, hopen⟩ := PthreadWorkQueue.popSection_eq_none_iff.mp hsection
    refine ⟨?_, ?_, fun hclosed => absurd (hopen.symm.trans hclosed) Bool.false_ne_true⟩
    · show notEmpty.Covered (s.locked t contended waitNs).count _
      rw [hempty]
      exact notEmpty.covered_zero _
    · show notFull.Covered ((s.locked t contended waitNs).ring.capacity -
        (s.locked t contended waitNs).ring.count) _
      rw [hring]
      have hpc : ¬notFull.asleep (.asleep .pop) := Bool.false_ne_true
      exact h.producers_of_pop hlock hpc
  | popDrained t contended waitNs queue hlock hsection =>
    obtain ⟨hring, hclosed, _⟩ := PthreadWorkQueue.locked_eq s t contended waitNs
    obtain ⟨_, hclosed', rfl⟩ := PthreadWorkQueue.popSection_eq_drained hsection
    exact .of_noneAsleep ((h.none_asleep (hclosed.symm.trans hclosed')).update t
      not_asleep_idle)
  | pop t contended waitNs item queue threads hlock hsection hsignals =>
    exact h.pop hq hlock hsection hsignals
  | close t hlock => exact .of_noneAsleep (noneAsleep_broadcast _)

/-- The counts of every run. -/
theorem awaited {capacity : ℕ} {queue : PthreadWorkQueue}
    (hinit : PthreadWorkQueue.init capacity = .ok queue)
    (h : Interleaving.Run Step (start ι queue) trace s) : Awaited s := by
  have hinv := h.invariant (fun trace s => Fifo capacity trace s.queue ∧ Awaited s)
    ⟨fifo_start ι hinit, awaited_start queue⟩
    fun _ _ _ _ h hs => ⟨hs.fifo h.1, hs.awaited h.1.wellFormed h.2⟩
  exact hinv.2

/-- **No lost wakeup.** -/
theorem no_lost_wakeup {capacity : ℕ} {queue : PthreadWorkQueue}
    (hinit : PthreadWorkQueue.init capacity = .ok queue)
    (hrun : Interleaving.Run Step (start ι queue) trace s) :
    (∀ t, s.threads t = .asleep .pop →
      s.queue.closed = false ∧ s.queue.count ≤ notEmpty.wokenCount s.threads) ∧
    (∀ t item, s.threads t = .asleep (.push item) →
      s.queue.closed = false ∧ capacity - s.queue.count ≤ notFull.wokenCount s.threads) ∧
    (∀ t, s.threads t = .asleep .pop → 0 < s.queue.count ∨ s.queue.closed = true →
      ∃ t', s.threads t' = .woken .pop) ∧
    ∀ t item, s.threads t = .asleep (.push item) →
      s.queue.count < capacity ∨ s.queue.closed = true →
      ∃ t' item', s.threads t' = .woken (.push item') := by
  have h := awaited hinit hrun
  have hcapacity := (fifo hinit hrun).capacity_eq
  have hconsumer : ∀ t, s.threads t = .asleep .pop →
      s.queue.closed = false ∧ s.queue.count ≤ notEmpty.wokenCount s.threads := by
    intro t ht
    have hasleep : notEmpty.asleep (s.threads t) = true := decide_eq_true ht
    refine ⟨?_, h.consumers t hasleep⟩
    by_contra hclosed
    exact (h.none_asleep (Bool.eq_true_of_not_eq_false hclosed) t).1 hasleep
  have hproducer : ∀ t item, s.threads t = .asleep (.push item) →
      s.queue.closed = false ∧ capacity - s.queue.count ≤ notFull.wokenCount s.threads := by
    intro t item ht
    have hasleep : notFull.asleep (s.threads t) = true := asleep_notFull_iff.mpr ⟨item, ht⟩
    refine ⟨?_, hcapacity ▸ h.producers t hasleep⟩
    by_contra hclosed
    exact (h.none_asleep (Bool.eq_true_of_not_eq_false hclosed) t).2 hasleep
  refine ⟨hconsumer, hproducer, fun t ht hready => ?_, fun t item ht hready => ?_⟩
  · obtain ⟨hopen, hcount⟩ := hconsumer t ht
    have hpos := hready.resolve_right fun hclosed =>
      Bool.false_ne_true (hopen.symm.trans hclosed)
    obtain ⟨t', hwoken⟩ := Threads.exists_of_count_pos (hpos.trans_le hcount)
    exact ⟨t', of_decide_eq_true hwoken⟩
  · obtain ⟨hopen, hcount⟩ := hproducer t item ht
    have hroom := hready.resolve_right fun hclosed =>
      Bool.false_ne_true (hopen.symm.trans hclosed)
    obtain ⟨t', hwoken⟩ := Threads.exists_of_count_pos ((Nat.sub_pos_of_lt hroom).trans_le hcount)
    exact ⟨t', woken_notFull_iff.mp hwoken⟩

/-- Two consumers wait for the first item, and its push wakes one of them. -/
theorem no_lost_wakeup_three :
    ∃ (trace : List (QueueEvent (Fin 3))) (s : QueueSystem (Fin 3)),
      Interleaving.Run Step (start (Fin 3) { items := List.replicate 1 {}, capacity := 1 })
        trace s ∧
      s.threads 2 = .asleep .pop ∧ s.queue.count = 1 ∧ s.queue.closed = false ∧
      1 ≤ notEmpty.wokenCount s.threads ∧ ∃ t, s.threads t = .woken .pop := by
  have hstart : Interleaving.Run Step
      (start (Fin 3) { items := List.replicate 1 {}, capacity := 1 }) [] _ := .start
  have hfirst := (hstart.next (.call 1 .pop rfl)).next (.popWait 1 false 0 (.inl rfl) rfl)
  have hsecond := (hfirst.next (.call 2 .pop rfl)).next (.popWait 2 false 0 (.inl rfl) rfl)
  have hpush := (hsecond.next (.call 0 (.push ⟨7, 0, 256, 1⟩) rfl)).next
    (.push 0 ⟨7, 0, 256, 1⟩ _ _ (.inl rfl) rfl (CondVar.signals_wake (i := 1) rfl))
  have hinit : PthreadWorkQueue.init 1 = .ok _ := rfl
  obtain ⟨hconsumers, _, hready, _⟩ := no_lost_wakeup hinit hpush
  obtain ⟨hopen, hcount⟩ := hconsumers 2 rfl
  exact ⟨_, _, hpush, rfl, rfl, hopen, hcount, hready 2 rfl (.inl Nat.one_pos)⟩

end QueueSystem

end AccelSim
