import AccelSimLite.PthreadQueue.Defs

/-!
# A bounded FIFO

Whatever the threads do, the queue takes its items out in the order in which it
took them in: what has been popped, followed by what is in the ring, is what has
been pushed. After a close nothing is pushed any more, and a pop gives up only
when everything has been popped.

## Main results

- `QueueSystem.fifo` — the history of the queue, in every run
- `QueueSystem.bounded_fifo` — the queue as a linearizable bounded FIFO
-/

namespace AccelSim

namespace PthreadWorkQueue

variable {queue queue' : PthreadWorkQueue} {item : PthreadWorkItem}

/-- The ring of the queue. -/
def ring (queue : PthreadWorkQueue) : RingBuffer PthreadWorkItem where
  slots i := queue.items.getD i {}
  capacity := queue.capacity
  head := queue.head
  tail := queue.tail
  count := queue.count

/-- The items from `head` for `count` places. -/
def contents (queue : PthreadWorkQueue) : List PthreadWorkItem := queue.ring.contents

structure WellFormed (queue : PthreadWorkQueue) : Prop where
  ring : queue.ring.WellFormed
  length_items : queue.items.length = queue.capacity

theorem init_eq_ok_iff {capacity : ℕ} :
    init capacity = .ok queue ↔
      0 < capacity ∧ queue = { items := List.replicate capacity {}, capacity := capacity } := by
  unfold init
  by_cases h : capacity = 0
  · rw [if_pos h]
    exact ⟨fun h' => (by cases h'), fun ⟨hpos, _⟩ => absurd h (Nat.ne_of_gt hpos)⟩
  · rw [if_neg h]
    exact ⟨fun h' => ⟨Nat.pos_of_ne_zero h, (Except.ok.inj h').symm⟩, fun ⟨_, h'⟩ => h' ▸ rfl⟩

theorem wellFormed_init {capacity : ℕ} (h : init capacity = .ok queue) : queue.WellFormed := by
  obtain ⟨hpos, rfl⟩ := init_eq_ok_iff.mp h
  exact ⟨RingBuffer.wellFormed_empty _ hpos, List.length_replicate⟩

/-! ### The critical sections -/

theorem pushSection_eq_none_iff :
    queue.pushSection item = none ↔ queue.count = queue.capacity ∧ queue.closed = false := by
  unfold pushSection
  split_ifs with hwait hclosed
  · exact ⟨fun _ => hwait, fun _ => rfl⟩
  · exact ⟨fun h => (by cases h), fun h => absurd h hwait⟩
  · exact ⟨fun h => (by cases h), fun h => absurd h hwait⟩

theorem pushSection_of_closed (h : queue.closed = true) :
    queue.pushSection item = some (.error .ecanceled, queue) := by
  have hwait : ¬(queue.count = queue.capacity ∧ queue.closed = false) := fun h' =>
    Bool.false_ne_true (h'.2.symm.trans h)
  rw [pushSection, if_neg hwait, if_pos h]

theorem pushSection_eq_error (h : queue.pushSection item = some (.error .ecanceled, queue')) :
    queue.closed = true ∧ queue' = queue := by
  by_cases hclosed : queue.closed = true
  · rw [pushSection_of_closed hclosed] at h
    cases h
    exact ⟨hclosed, rfl⟩
  · unfold pushSection at h
    rw [if_neg hclosed] at h
    split_ifs at h
    cases h

/-- A push that returns 0 is a push of the ring. -/
theorem pushSection_eq_ok (hq : queue.WellFormed)
    (h : queue.pushSection item = some (.ok (), queue')) :
    queue.closed = false ∧ queue.count < queue.capacity ∧ queue'.ring = queue.ring.push item ∧
      queue'.closed = false ∧ queue'.WellFormed := by
  unfold pushSection at h
  split_ifs at h with hwait hclosed
  · cases h
  · cases h
    have hopen : queue.closed = false := Bool.eq_false_of_not_eq_true hclosed
    have hroom : queue.count < queue.capacity :=
      Nat.lt_of_le_of_ne hq.ring.count_le fun hfull => hwait ⟨hfull, hopen⟩
    have htail : queue.tail < queue.items.length := hq.length_items ▸ hq.ring.tail_lt
    have hring : PthreadWorkQueue.ring { queue with
        items := queue.items.set queue.tail item
        tail := (queue.tail + 1) % queue.capacity
        count := queue.count + 1 } = queue.ring.push item := by
      rw [ring, RingBuffer.getD_set_eq_update queue.items htail]
      rfl
    refine ⟨hopen, hroom, hring, hopen, ?_, ?_⟩
    · rw [hring]
      exact hq.ring.push item hroom
    · exact List.length_set.trans hq.length_items

theorem popSection_eq_none_iff :
    queue.popSection = none ↔ queue.count = 0 ∧ queue.closed = false := by
  unfold popSection
  split_ifs with hwait hdrained
  · exact ⟨fun _ => hwait, fun _ => rfl⟩
  · exact ⟨fun h => (by cases h), fun h => absurd h hwait⟩
  · exact ⟨fun h => (by cases h), fun h => absurd h hwait⟩

theorem popSection_eq_drained (h : queue.popSection = some (none, queue')) :
    queue.count = 0 ∧ queue.closed = true ∧ queue' = queue := by
  unfold popSection at h
  split_ifs at h with hwait hdrained
  · cases h
    exact ⟨hdrained.1, hdrained.2, rfl⟩
  · cases h

/-- A pop that returns 1 is a pop of the ring. -/
theorem popSection_eq_item (hq : queue.WellFormed)
    (h : queue.popSection = some (some item, queue')) :
    0 < queue.count ∧ item = queue.ring.front ∧ queue'.ring = queue.ring.pop ∧
      queue'.closed = queue.closed ∧ queue'.WellFormed := by
  unfold popSection at h
  split_ifs at h with hwait hdrained
  · cases h
  · cases h
    have hne : 0 < queue.count := by
      apply Nat.pos_of_ne_zero
      intro hzero
      by_cases hclosed : queue.closed = true
      · exact hdrained ⟨hzero, hclosed⟩
      · exact hwait ⟨hzero, Bool.eq_false_of_not_eq_true hclosed⟩
    exact ⟨hne, rfl, rfl, rfl, hq.ring.pop hne, hq.length_items⟩

/-- Counting the lock leaves the rest of the queue alone. -/
theorem locked_eq {ι : Type*} (s : QueueSystem ι) (t : ι) (contended : Bool) (waitNs : ℕ) :
    (s.locked t contended waitNs).ring = s.queue.ring ∧
      (s.locked t contended waitNs).closed = s.queue.closed ∧
      (s.locked t contended waitNs).items = s.queue.items := by
  unfold QueueSystem.locked
  split
  · exact ⟨rfl, rfl, rfl⟩
  · exact ⟨rfl, rfl, rfl⟩

theorem WellFormed.locked {ι : Type*} {s : QueueSystem ι} (h : s.queue.WellFormed) (t : ι)
    (contended : Bool) (waitNs : ℕ) : (s.locked t contended waitNs).WellFormed := by
  obtain ⟨hring, _, hitems⟩ := locked_eq s t contended waitNs
  constructor
  case ring => exact hring ▸ h.ring
  case length_items =>
    rw [hitems, h.length_items]
    exact (congrArg RingBuffer.capacity hring).symm

end PthreadWorkQueue

namespace QueueSystem

variable {ι : Type*} {trace : List (QueueEvent ι)} {s s' : QueueSystem ι} {e : QueueEvent ι}

/-- The items of pushes that returned 0, in the order of their critical sections. -/
def pushedItems (trace : List (QueueEvent ι)) : List PthreadWorkItem :=
  trace.filterMap fun
    | .pushed _ item => some item
    | _ => none

/-- The items of pops that returned 1, in the order of their critical sections. -/
def poppedItems (trace : List (QueueEvent ι)) : List PthreadWorkItem :=
  trace.filterMap fun
    | .popped _ item => some item
    | _ => none

theorem pushedItems_append (trace trace' : List (QueueEvent ι)) :
    pushedItems (trace ++ trace') = pushedItems trace ++ pushedItems trace' :=
  List.filterMap_append

theorem poppedItems_append (trace trace' : List (QueueEvent ι)) :
    poppedItems (trace ++ trace') = poppedItems trace ++ poppedItems trace' :=
  List.filterMap_append

/-- The queue as a trace leaves it. -/
structure Fifo (capacity : ℕ) (trace : List (QueueEvent ι)) (queue : PthreadWorkQueue) : Prop where
  wellFormed : queue.WellFormed
  capacity_eq : queue.capacity = capacity
  history : poppedItems trace ++ queue.contents = pushedItems trace
  closed_iff : queue.closed = true ↔ ∃ t, QueueEvent.closed t ∈ trace

theorem exists_closed_append (h : ∀ t, e ≠ .closed t) :
    (∃ t, QueueEvent.closed t ∈ trace ++ [e]) ↔ ∃ t, QueueEvent.closed t ∈ trace := by
  apply exists_congr
  intro t
  rw [List.mem_append, List.mem_singleton]
  exact or_iff_left fun heq => h t heq.symm

variable {capacity : ℕ} {queue queue' : PthreadWorkQueue}

/-- A step that moves no item. -/
theorem Fifo.frame (h : Fifo capacity trace queue) (hpush : pushedItems [e] = [])
    (hpop : poppedItems [e] = []) (hclose : ∀ t, e ≠ .closed t)
    (hring : queue'.ring = queue.ring) (hclosed : queue'.closed = queue.closed)
    (hitems : queue'.items = queue.items) : Fifo capacity (trace ++ [e]) queue' := by
  have hcapacity : queue'.capacity = queue.capacity := congrArg RingBuffer.capacity hring
  constructor
  case wellFormed =>
    refine ⟨hring ▸ h.wellFormed.ring, ?_⟩
    rw [hitems, hcapacity]
    exact h.wellFormed.length_items
  case capacity_eq => exact hcapacity.trans h.capacity_eq
  case history =>
    rw [poppedItems_append, pushedItems_append, hpush, hpop, List.append_nil, List.append_nil,
      ← h.history, PthreadWorkQueue.contents, hring]
    rfl
  case closed_iff =>
    rw [hclosed, h.closed_iff]
    exact (exists_closed_append hclose).symm

variable [DecidableEq ι]

/-- One step of any thread keeps the history. -/
theorem Step.fifo (hs : Step s e s') (h : Fifo capacity trace s.queue) :
    Fifo capacity (trace ++ [e]) s'.queue := by
  cases hs with
  | call t op => exact h.frame rfl rfl (fun _ h => by cases h) rfl rfl rfl
  | wake t op => exact h.frame rfl rfl (fun _ h => by cases h) rfl rfl rfl
  | pushWait t item => exact h.frame rfl rfl (fun _ h => by cases h) rfl rfl rfl
  | pushCancel t item queue _ hsection =>
    obtain ⟨_, rfl⟩ := PthreadWorkQueue.pushSection_eq_error hsection
    exact h.frame rfl rfl (fun _ h => by cases h) rfl rfl rfl
  | push t item queue threads _ hsection =>
    obtain ⟨hopen, hroom, hring, hclosed, hwell⟩ :=
      PthreadWorkQueue.pushSection_eq_ok h.wellFormed hsection
    constructor
    case wellFormed => exact hwell
    case capacity_eq => exact (congrArg RingBuffer.capacity hring).trans h.capacity_eq
    case history =>
      show poppedItems (trace ++ [_]) ++ queue.ring.contents = pushedItems (trace ++ [_])
      rw [hring, h.wellFormed.ring.contents_push item hroom, poppedItems_append,
        pushedItems_append, ← h.history, List.append_assoc, List.append_assoc]
      rfl
    case closed_iff =>
      show queue.closed = true ↔ _
      rw [hclosed, ← hopen, h.closed_iff]
      exact (exists_closed_append fun _ h => by cases h).symm
  | popWait t contended waitNs =>
    obtain ⟨hring, hclosed, hitems⟩ := PthreadWorkQueue.locked_eq s t contended waitNs
    exact h.frame rfl rfl (fun _ h => by cases h) hring hclosed hitems
  | popDrained t contended waitNs queue _ hsection =>
    obtain ⟨hring, hclosed, hitems⟩ := PthreadWorkQueue.locked_eq s t contended waitNs
    obtain ⟨_, _, rfl⟩ := PthreadWorkQueue.popSection_eq_drained hsection
    exact h.frame rfl rfl (fun _ h => by cases h) hring hclosed hitems
  | pop t contended waitNs item queue threads _ hsection =>
    obtain ⟨hring, hclosed, _⟩ := PthreadWorkQueue.locked_eq s t contended waitNs
    have hlocked := h.wellFormed.locked t contended waitNs
    obtain ⟨hne, hitem, hpop, hclosed', hwell⟩ :=
      PthreadWorkQueue.popSection_eq_item hlocked hsection
    constructor
    case wellFormed => exact hwell
    case capacity_eq =>
      exact (congrArg RingBuffer.capacity (hpop.trans (congrArg _ hring))).trans h.capacity_eq
    case history =>
      have hcontents : s.queue.contents = item :: queue.contents := by
        show s.queue.ring.contents = item :: queue.ring.contents
        rw [hpop, hitem, ← hring]
        exact hlocked.ring.contents_pop hne
      show poppedItems (trace ++ [_]) ++ queue.contents = pushedItems (trace ++ [_])
      rw [poppedItems_append, pushedItems_append, ← h.history, hcontents, List.append_assoc]
      exact (List.append_nil _).symm
    case closed_iff =>
      show queue.closed = true ↔ _
      rw [hclosed', hclosed, h.closed_iff]
      exact (exists_closed_append fun _ h => by cases h).symm
  | close t =>
    constructor
    case wellFormed => exact ⟨h.wellFormed.ring, h.wellFormed.length_items⟩
    case capacity_eq => exact h.capacity_eq
    case history =>
      rw [poppedItems_append, pushedItems_append, ← h.history]
      show poppedItems trace ++ [] ++ s.queue.contents = _ ++ []
      rw [List.append_nil, List.append_nil]
    case closed_iff =>
      exact ⟨fun _ => ⟨t, List.mem_append_right _ (List.mem_singleton.mpr rfl)⟩, fun _ => rfl⟩

/-- The system in which no thread has called anything. -/
def start (ι : Type*) (queue : PthreadWorkQueue) : QueueSystem ι := { queue := queue }

theorem fifo_start (ι : Type*) (hinit : PthreadWorkQueue.init capacity = .ok queue) :
    Fifo capacity ([] : List (QueueEvent ι)) queue := by
  have hwell := PthreadWorkQueue.wellFormed_init hinit
  obtain ⟨_, rfl⟩ := PthreadWorkQueue.init_eq_ok_iff.mp hinit
  exact ⟨hwell, rfl, rfl, fun h => (by cases h), fun ⟨_, h⟩ => (by cases h)⟩

/-- The history of every run. -/
theorem fifo (hinit : PthreadWorkQueue.init capacity = .ok queue)
    (h : Interleaving.Run Step (start ι queue) trace s) : Fifo capacity trace s.queue :=
  h.invariant (fun trace s => Fifo capacity trace s.queue) (fifo_start ι hinit)
    fun _ _ _ _ h hs => hs.fifo h

/-! ### What a call returns -/

theorem atLock_unique {pc : QueuePc} {op op' : QueueOp} (h : pc.AtLock op)
    (h' : pc.AtLock op') : op = op' := by
  obtain hpc | hpc := h
  · rw [hpc] at h'
    obtain h' | h' := h'
    · cases h'
      rfl
    · cases h'
  · rw [hpc] at h'
    obtain h' | h' := h'
    · cases h'
    · cases h'
      rfl

/-- After a close, a thread that gets the mutex in a push is turned away. -/
theorem Step.canceled_of_closed (hs : Step s e s') (hclosed : s.queue.closed = true)
    {item : PthreadWorkItem} (hlock : (s.threads e.thread).AtLock (.push item)) :
    e = .canceled e.thread item ∧ s'.queue = s.queue := by
  cases hs with
  | call t op hidle =>
    obtain hpc | hpc := hlock <;> cases hidle.symm.trans hpc
  | wake t op hasleep =>
    obtain hpc | hpc := hlock <;> cases hasleep.symm.trans hpc
  | pushWait t item' _ hsection =>
    rw [PthreadWorkQueue.pushSection_of_closed hclosed] at hsection
    cases hsection
  | pushCancel t item' queue hlock' hsection =>
    cases atLock_unique hlock hlock'
    exact ⟨rfl, (PthreadWorkQueue.pushSection_eq_error hsection).2⟩
  | push t item' queue threads _ hsection =>
    rw [PthreadWorkQueue.pushSection_of_closed hclosed] at hsection
    cases hsection
  | popWait t _ _ hlock' => cases atLock_unique hlock hlock'
  | popDrained t _ _ _ hlock' => cases atLock_unique hlock hlock'
  | pop t _ _ _ _ _ hlock' => cases atLock_unique hlock hlock'
  | close t hlock' => cases atLock_unique hlock hlock'

/-- A pop gives up only on a queue that is closed and empty. -/
theorem Step.of_drained {t : ι} (hs : Step s (.drained t) s') :
    s.queue.count = 0 ∧ s.queue.closed = true := by
  cases hs with
  | popDrained _ contended waitNs queue _ hsection =>
    obtain ⟨hring, hclosed, _⟩ := PthreadWorkQueue.locked_eq s t contended waitNs
    obtain ⟨hcount, hclosed', _⟩ := PthreadWorkQueue.popSection_eq_drained hsection
    exact ⟨(congrArg RingBuffer.count hring).symm.trans hcount, hclosed.symm.trans hclosed'⟩

/-- **A linearizable bounded FIFO.** -/
theorem bounded_fifo (hinit : PthreadWorkQueue.init capacity = .ok queue)
    (hrun : Interleaving.Run Step (start ι queue) trace s) :
    poppedItems trace ++ s.queue.contents = pushedItems trace ∧
    (s.queue.head < capacity ∧ s.queue.tail < capacity ∧ s.queue.count ≤ capacity ∧
      s.queue.tail = (s.queue.head + s.queue.count) % capacity) ∧
    (∀ e s' item, (∃ t, QueueEvent.closed t ∈ trace) →
      (s.threads e.thread).AtLock (.push item) → Step s e s' →
      e = .canceled e.thread item ∧ s'.queue = s.queue) ∧
    ∀ t s', Step s (.drained t) s' →
      (∃ t, QueueEvent.closed t ∈ trace) ∧ poppedItems trace = pushedItems trace := by
  have h := fifo hinit hrun
  have hring := h.wellFormed.ring
  have hcapacity : s.queue.ring.capacity = capacity := h.capacity_eq
  refine ⟨h.history, ⟨?_, ?_, ?_, ?_⟩, ?_, ?_⟩
  · exact hcapacity ▸ hring.head_lt
  · exact hcapacity ▸ hring.tail_lt
  · exact hcapacity ▸ hring.count_le
  · exact hcapacity ▸ hring.tail_eq
  · intro e s' item hclose hlock hs
    exact hs.canceled_of_closed (h.closed_iff.mpr hclose) hlock
  · intro t s' hs
    obtain ⟨hcount, hclosed⟩ := hs.of_drained
    refine ⟨h.closed_iff.mp hclosed, ?_⟩
    have hempty : s.queue.contents = [] := RingBuffer.contents_eq_nil_iff.mpr hcount
    rw [← h.history, hempty, List.append_nil]

/-- A thread waits for an item, and another one pops before it comes back. -/
theorem exists_run_of_three :
    ∃ trace s, Interleaving.Run Step
      (start (Fin 3) { items := List.replicate 2 {}, capacity := 2 }) trace s ∧
      pushedItems trace = [⟨7, 0, 256, 1⟩, ⟨8, 256, 512, 2⟩, ⟨9, 512, 600, 3⟩] ∧
      poppedItems trace = [⟨7, 0, 256, 1⟩, ⟨8, 256, 512, 2⟩] := by
  have hstart : Interleaving.Run Step
      (start (Fin 3) { items := List.replicate 2 {}, capacity := 2 }) [] _ := .start
  have hwait := (hstart.next (.call 1 .pop rfl)).next (.popWait 1 false 0 (.inl rfl) rfl)
  have hfirst := (hwait.next (.call 0 (.push ⟨7, 0, 256, 1⟩) rfl)).next
    (.push 0 ⟨7, 0, 256, 1⟩ _ (notEmpty.broadcast (Function.update _ 0 .idle)) (.inl rfl) rfl
      ⟨notEmpty.wakes_broadcast _, fun i hi => ⟨i, hi, if_pos hi⟩⟩)
  have hsecond := (hfirst.next (.call 0 (.push ⟨8, 256, 512, 2⟩) rfl)).next
    (.push 0 ⟨8, 256, 512, 2⟩ _ _ (.inl rfl) rfl (CondVar.signals_of_not_asleep (by decide)))
  have hovertake := (hsecond.next (.call 2 .pop rfl)).next
    (.pop 2 false 0 ⟨7, 0, 256, 1⟩ _ _ (.inl rfl) rfl
      (CondVar.signals_of_not_asleep (by decide)))
  have hpop := hovertake.next (.pop 1 false 0 ⟨8, 256, 512, 2⟩ _ _ (.inr rfl) rfl
    (CondVar.signals_of_not_asleep (by decide)))
  have hthird := (hpop.next (.call 0 (.push ⟨9, 512, 600, 3⟩) rfl)).next
    (.push 0 ⟨9, 512, 600, 3⟩ _ _ (.inl rfl) rfl (CondVar.signals_of_not_asleep (by decide)))
  exact ⟨_, _, hthird, rfl, rfl⟩

theorem bounded_fifo_three :
    ∃ (trace : List (QueueEvent (Fin 3))) (s : QueueSystem (Fin 3)),
      Interleaving.Run Step (start (Fin 3) { items := List.replicate 2 {}, capacity := 2 })
        trace s ∧
      poppedItems trace = [⟨7, 0, 256, 1⟩, ⟨8, 256, 512, 2⟩] ∧
      poppedItems trace ++ s.queue.contents =
        [⟨7, 0, 256, 1⟩, ⟨8, 256, 512, 2⟩, ⟨9, 512, 600, 3⟩] ∧
      s.queue.tail = (s.queue.head + s.queue.count) % 2 := by
  obtain ⟨trace, s, hrun, hpushed, hpopped⟩ := exists_run_of_three
  have hinit : PthreadWorkQueue.init 2 = .ok _ := rfl
  obtain ⟨hhistory, ⟨_, _, _, htail⟩, _⟩ := bounded_fifo hinit hrun
  exact ⟨trace, s, hrun, hpopped, hhistory.trans hpushed, htail⟩

end QueueSystem

end AccelSim
