import AccelSimLite.Simulator.Resources

/-!
# The front end

Instructions are fetched, decoded and entered into the dispatch queue in file
order, so the first two queues hold consecutive indices and a single number says
how far entering has come. The two bounded queues stay within their capacities.

## Main definitions

- `SimState.entered` — how many instructions have entered the dispatch queue
- `InOrder` — the fetch and decode queues continue from there
- `WithinCapacity` — the bounded queues
-/

namespace AccelSim

/-- How many instructions have left the decode queue. -/
def SimState.entered (s : SimState) : ℕ := s.nextToFetch - s.fetchQ.length - s.decodeQ.length

/-- How many instructions have left the fetch queue. -/
def SimState.decoded (s : SimState) : ℕ := s.nextToFetch - s.fetchQ.length

/-- The decode queue and then the fetch queue hold the next indices to enter. -/
structure InOrder (s : SimState) : Prop where
  length_le : s.fetchQ.length + s.decodeQ.length ≤ s.nextToFetch
  queues_eq : s.decodeQ ++ s.fetchQ = List.range' s.entered (s.nextToFetch - s.entered)

structure WithinCapacity (config : SimulatorConfig) (s : SimState) : Prop where
  dispatch_le : s.dispatchQ.length ≤ config.dispatchQueueCapacity
  ready_le : s.readyQ.length ≤ config.readyQueueCapacity

theorem InOrder.queues {s : SimState} (h : InOrder s) :
    s.decodeQ = List.range' s.entered s.decodeQ.length ∧
      s.fetchQ = List.range' s.decoded s.fetchQ.length := by
  have hlen := h.length_le
  have hcount : s.nextToFetch - s.entered = s.decodeQ.length + s.fetchQ.length := by
    unfold SimState.entered
    omega
  have hdecoded : s.decoded = s.entered + s.decodeQ.length := by
    unfold SimState.entered SimState.decoded
    omega
  have hqueues := h.queues_eq
  rw [hcount, ← List.range'_append_1, ← hdecoded] at hqueues
  exact List.append_inj hqueues (List.length_range').symm

/-- An index has entered the dispatch queue when it is below the number that have. -/
theorem InOrder.reached_dispatch_iff {workload : List Instruction} {s : SimState} (h : InOrder s)
    (hp : Placed workload s) (i : ℕ) : s.Reached .dispatch i ↔ i < s.entered := by
  have hdec := hp.mem_iff .decode i
  have hfet := hp.mem_iff .fetch i
  simp only [SimState.queueOf] at hdec hfet
  rw [h.queues.1, List.mem_range'_1] at hdec
  rw [h.queues.2, List.mem_range'_1] at hfet
  have hlen := h.length_le
  unfold SimState.entered at hdec ⊢
  unfold SimState.decoded at hfet
  unfold SimState.Reached
  by_cases hi : i < s.nextToFetch
  · simp only [hi, true_and] at hdec hfet ⊢
    cases hst : (s.instr i).stage <;>
      simp only [hst, reduceCtorEq, iff_true, iff_false, Stage.rank] at hdec hfet ⊢ <;> omega
  · simp only [hi, false_and, false_iff]
    omega

theorem reached_fetch_iff (s : SimState) (i : ℕ) : s.Reached .fetch i ↔ i < s.nextToFetch :=
  and_iff_left (Nat.zero_le _)

namespace Iteration

variable {workload : List Instruction} {config : SimulatorConfig} {s t s' : SimState}

/-! ### The queues after an iteration -/

theorem front_start (it : Iteration workload config s t s') :
    t.fetchQ = s.fetchQ ∧ t.decodeQ = s.decodeQ ∧ t.dispatchQ = s.dispatchQ ∧
      t.readyQ = s.readyQ := by
  obtain ⟨_, _, ht⟩ := (executeTick_ok_iff _ _).mp it.start
  rw [ht, retirePass_eq]
  exact ⟨rfl, rfl, rfl, rfl⟩

/-- What is ready after an iteration had entered the dispatch queue before it. -/
theorem reached_dispatch_of_ready (it : Iteration workload config s t s') {i : ℕ}
    (h : s'.Reached .ready i) : s.Reached .dispatch i := by
  rcases (it.reached_iff .ready i).mp h with hold | hmoved
  · exact hold.mono (by decide)
  · have hmem := (Admission.taken_sublist _ _).subset hmoved
    rw [it.front_start.2.2.1] at hmem
    exact ((it.placed.mem_queueOf_iff .dispatch .ready rfl i).mp hmem).1

/-- How many entries fit into what the dispatch pass leaves. -/
theorem dispatchRoom_afterIssue (config : SimulatorConfig) (t : SimState) :
    dispatchRoom config (afterIssue config t) =
      min config.dispatchWidth
        (config.dispatchQueueCapacity - (dispatchHeld config t).length) := by
  rw [dispatchRoom, afterIssue, issuePass_eq, afterDispatch, dispatchPass_eq]
  rfl

theorem decodeQ_finish (it : Iteration workload config s t s') :
    s'.decodeQ = s.decodeQ.drop (dispatchRoom config (afterIssue config t)) ++
      s.fetchQ.take config.decodeWidth := by
  rw [it.finish, ← it.front_start.1, ← it.front_start.2.1]
  simp only [afterFetch, fetchPass_eq, decodePass_eq, enterDispatch_eq, decoding, afterIssue,
    issuePass_eq, dispatchPass_eq, afterDispatch]
  rfl

theorem fetchQ_finish (it : Iteration workload config s t s') :
    s'.fetchQ = s.fetchQ.drop config.decodeWidth ++
      List.range' s.nextToFetch (min config.fetchWidth (workload.length - s.nextToFetch)) := by
  have hnew : fetching config (afterDecode config t) =
      List.range' s.nextToFetch (min config.fetchWidth (workload.length - s.nextToFetch)) := by
    rw [fetching, it.nextToFetch_decoded, it.decoded.length_eq]
  rw [it.finish, ← it.front_start.1, ← hnew]
  simp only [afterFetch, fetchPass_eq, decodePass_eq, enterDispatch_eq, afterIssue, issuePass_eq,
    dispatchPass_eq, afterDispatch]
  rfl

theorem nextToFetch_finish (it : Iteration workload config s t s') :
    s'.nextToFetch = s.nextToFetch + min config.fetchWidth (workload.length - s.nextToFetch) := by
  have hnext : s'.nextToFetch = (afterDecode config t).nextToFetch +
      min config.fetchWidth ((afterDecode config t).instructions.length -
        (afterDecode config t).nextToFetch) := by
    rw [it.finish, afterFetch, fetchPass_eq]
    rfl
  rw [hnext, it.nextToFetch_decoded, it.decoded.length_eq]

theorem dispatchQ_finish (it : Iteration workload config s t s') :
    s'.dispatchQ = dispatchHeld config t ++
      s.decodeQ.take (dispatchRoom config (afterIssue config t)) := by
  rw [it.finish, ← it.front_start.2.1]
  simp only [afterFetch, fetchPass_eq, decodePass_eq, enterDispatch_eq, entering, afterIssue,
    issuePass_eq, dispatchPass_eq, afterDispatch]
  rfl

theorem readyQ_dispatched (it : Iteration workload config s t s') :
    (afterDispatch config t).readyQ = s.readyQ ++ dispatchMoved config t := by
  rw [afterDispatch, dispatchPass_eq, ← it.front_start.2.2.2]

theorem readyQ_finish (it : Iteration workload config s t s') :
    s'.readyQ = issueHeld config (afterDispatch config t) := by
  rw [it.finish]
  simp only [afterFetch, fetchPass_eq, decodePass_eq, enterDispatch_eq, afterIssue, issuePass_eq]
  rfl

/-! ### The invariants -/

theorem entered_finish (it : Iteration workload config s t s') (h : InOrder s) :
    s'.entered = s.entered +
      min (dispatchRoom config (afterIssue config t)) s.decodeQ.length := by
  have hlen := h.length_le
  unfold SimState.entered
  rw [it.nextToFetch_finish, it.fetchQ_finish, it.decodeQ_finish]
  simp only [List.length_append, List.length_drop, List.length_take, List.length_range']
  omega

theorem decoded_finish (it : Iteration workload config s t s') (h : InOrder s) :
    s'.decoded = s.decoded + min config.decodeWidth s.fetchQ.length := by
  have hlen := h.length_le
  unfold SimState.decoded
  rw [it.nextToFetch_finish, it.fetchQ_finish]
  simp only [List.length_append, List.length_drop, List.length_range']
  omega

theorem inOrder (it : Iteration workload config s t s') (h : InOrder s) : InOrder s' where
  length_le := by
    have hlen := h.length_le
    rw [it.nextToFetch_finish, it.fetchQ_finish, it.decodeQ_finish]
    simp only [List.length_append, List.length_drop, List.length_take, List.length_range']
    omega
  queues_eq := by
    have hlen := h.length_le
    have hentered := it.entered_finish h
    generalize hk : dispatchRoom config (afterIssue config t) = k at hentered
    have hold : s.decodeQ.drop k ++ s.fetchQ =
        List.range' s'.entered (s.nextToFetch - s'.entered) := by
      rw [List.drop_eq_drop_min, ← List.drop_append_of_le_length (Nat.min_le_right _ _),
        h.queues_eq, List.drop_range', Nat.mul_one, hentered, Nat.sub_sub]
    -- what decode takes from the front of one queue it puts behind the other
    have hqueues : s'.decodeQ ++ s'.fetchQ = (s.decodeQ.drop k ++ s.fetchQ) ++
        List.range' s.nextToFetch (min config.fetchWidth (workload.length - s.nextToFetch)) := by
      rw [it.decodeQ_finish, it.fetchQ_finish, hk]
      simp only [List.append_assoc]
      rw [← List.append_assoc (s.fetchQ.take _), List.take_append_drop]
    have hle : s'.entered ≤ s.nextToFetch := by
      rw [hentered]
      unfold SimState.entered
      omega
    have hnext := it.nextToFetch_finish
    generalize min config.fetchWidth (workload.length - s.nextToFetch) = m at hqueues hnext
    rw [hqueues, hold, hnext, Nat.sub_add_comm hle, ← List.range'_append_1, Nat.add_sub_cancel' hle]

/-- The size the dispatch loop compares with the capacity is that of the ready queue. -/
theorem final_dispatchVisit (it : Iteration workload config s t s') :
    Admission.final (dispatchVisit config t) t.readyQ.length t.dispatchQ =
      (afterDispatch config t).readyQ.length := by
  have hcount := Admission.final_eq_add_sum (r := t.readyQ.length) (l := t.dispatchQ)
    (fun size => size) (fun _ => 1)
    fun size i size' (hv : dispatchVisit config t size i = _) => (dispatchVisit_ok_iff.mp hv).2.2
  rw [List.map_const', List.sum_replicate_nat, Nat.mul_one] at hcount
  rw [it.readyQ_dispatched, List.length_append, ← it.front_start.2.2.2]
  exact hcount

theorem length_readyQ_dispatched_le (it : Iteration workload config s t s')
    (h : WithinCapacity config s) :
    (afterDispatch config t).readyQ.length ≤ config.readyQueueCapacity := by
  rw [← it.final_dispatchVisit]
  refine Admission.final_invariant (fun size => size ≤ config.readyQueueCapacity) ?_ ?_
  · rw [it.front_start.2.2.2]
    exact h.ready_le
  · intro size i size' _ _ hv
    obtain ⟨_, hroom, rfl⟩ := dispatchVisit_ok_iff.mp hv
    exact hroom

theorem withinCapacity (it : Iteration workload config s t s') (h : WithinCapacity config s) :
    WithinCapacity config s' where
  dispatch_le := by
    have hheld : (dispatchHeld config t).length ≤ s.dispatchQ.length := by
      rw [← it.front_start.2.2.1]
      exact (Admission.kept_sublist _ _).length_le
    have hle := h.dispatch_le
    rw [it.dispatchQ_finish, dispatchRoom_afterIssue, List.length_append, List.length_take]
    omega
  ready_le := by
    rw [it.readyQ_finish]
    exact (Admission.kept_sublist _ _).length_le.trans (it.length_readyQ_dispatched_le h)

end Iteration

theorem inOrder_of_reachesIn {workload : List Instruction} {config : SimulatorConfig} {k : ℕ}
    {s : SimState} (h : ReachesIn workload config k s) : InOrder s :=
  h.keeps InOrder ⟨le_rfl, rfl⟩ fun _ _ _ _ _ _ it => it.inOrder

theorem withinCapacity_of_reachesIn {workload : List Instruction} {config : SimulatorConfig}
    {k : ℕ} {s : SimState} (h : ReachesIn workload config k s) : WithinCapacity config s :=
  h.keeps (WithinCapacity config) ⟨Nat.zero_le _, Nat.zero_le _⟩
    fun _ _ _ _ _ _ it => it.withinCapacity

end AccelSim
