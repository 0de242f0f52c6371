import AccelSimLite.Simulator.FileOrder
import AccelSimLite.Simulator.Sampling

/-!
# Queue bounds and program order

The sizes that the configuration bounds stay within their bounds at every point of a
cycle, since every iteration of an inner loop keeps them. Between two cycles, the
queues of the front end hold consecutive indices and the dispatch queue, although its
pass rotates it, the increasing rest of those before them.

## Main definitions

- `Bounded` — the sizes, with the counters that bound the slots
- `Within` — the states within a cycle, at the head of every inner loop

## Main results

- `Within.bounded` — the bounds at every point of a cycle
- `queue_bounds` — the bounds, the order, and the reported maxima
-/

namespace AccelSim

/-- The sizes are within their bounds. Every slot has a counted unit. -/
structure Bounded (config : SimulatorConfig) (s : SimState) : Prop where
  dispatch_le : s.dispatchQ.length ≤ config.dispatchQueueCapacity
  ready_le : s.readyQ.length ≤ config.readyQueueCapacity
  slots_eq : s.execSlots.length = s.computeInUse + s.memoryInUse
  compute_le : s.computeInUse ≤ config.computeUnits
  memory_le : s.memoryInUse ≤ config.memoryPorts
  retire_le : s.retireQ.length ≤ config.computeUnits + config.memoryPorts

theorem memorySlots_add_computeSlots (slots : List ExecSlot) :
    memorySlots slots + computeSlots slots = slots.length := by
  induction slots with
  | nil => rfl
  | cons slot slots ih =>
    rw [memorySlots_cons, computeSlots_cons, List.length_cons, ← ih]
    cases slot.usesMemory
    · simp
      omega
    · simp
      omega

theorem length_survivingSlots_add (slots : List ExecSlot) :
    (survivingSlots slots).length + (finishingSlots slots).length = slots.length := by
  induction slots with
  | nil => rfl
  | cons slot slots ih =>
    by_cases hslot : slot.remaining ≤ 1
    · obtain ⟨hfinish, hsurvive⟩ := finishingSlots_cons_of_le hslot slots
      rw [hfinish, hsurvive, List.length_cons, List.length_cons]
      omega
    · obtain ⟨hfinish, hsurvive⟩ := finishingSlots_cons_of_lt (Nat.lt_of_not_le hslot) slots
      rw [hfinish, hsurvive, List.length_cons, List.length_cons]
      omega

namespace Bounded

variable {config : SimulatorConfig} {s : SimState}

/-! ### One iteration of an inner loop -/

theorem retireIter (h : Bounded config s) : Bounded config (AccelSim.retireIter s) := by
  unfold AccelSim.retireIter
  split
  · exact h
  · rename_i idx rest hq
    have hretire := h.retire_le
    rw [hq, List.length_cons] at hretire
    exact ⟨h.dispatch_le, h.ready_le, h.slots_eq, h.compute_le, h.memory_le, by
      change rest.length ≤ _
      omega⟩

theorem dispatchIter (h : Bounded config s) : Bounded config (AccelSim.dispatchIter config s) := by
  unfold AccelSim.dispatchIter
  split
  · exact h
  · rename_i idx rest hq
    have hdispatch := h.dispatch_le
    rw [hq, List.length_cons] at hdispatch
    have hrotated : (rest ++ [idx]).length ≤ config.dispatchQueueCapacity := by
      rwa [List.length_append, List.length_singleton]
    split
    · split
      · rename_i hroom
        refine ⟨Nat.le_of_succ_le hdispatch, ?_, h.slots_eq, h.compute_le, h.memory_le,
          h.retire_le⟩
        rw [List.length_append, List.length_singleton]
        exact hroom
      · exact ⟨hrotated, h.ready_le, h.slots_eq, h.compute_le, h.memory_le, h.retire_le⟩
    · exact ⟨hrotated, h.ready_le, h.slots_eq, h.compute_le, h.memory_le, h.retire_le⟩

theorem issueIter {issued : ℕ} (h : Bounded config s) :
    Bounded config (AccelSim.issueIter config (s, issued)).1 := by
  unfold AccelSim.issueIter
  dsimp only
  split
  · exact h
  · rename_i idx rest hq
    have hready := h.ready_le
    rw [hq, List.length_cons] at hready
    have hrotated : (rest ++ [idx]).length ≤ config.readyQueueCapacity := by
      rwa [List.length_append, List.length_singleton]
    have hslots (slot : ExecSlot) :
        (s.execSlots ++ [slot]).length = s.computeInUse + s.memoryInUse + 1 := by
      rw [List.length_append, List.length_singleton, h.slots_eq]
    split
    · exact ⟨h.dispatch_le, hrotated, h.slots_eq, h.compute_le, h.memory_le, h.retire_le⟩
    split
    · split
      · exact ⟨h.dispatch_le, hrotated, h.slots_eq, h.compute_le, h.memory_le, h.retire_le⟩
      · rename_i hroom
        exact ⟨h.dispatch_le, Nat.le_of_succ_le hready, hslots _, h.compute_le,
          Nat.lt_of_not_le hroom, h.retire_le⟩
    · split
      · exact ⟨h.dispatch_le, hrotated, h.slots_eq, h.compute_le, h.memory_le, h.retire_le⟩
      · rename_i hroom
        exact ⟨h.dispatch_le, Nat.le_of_succ_le hready,
          (hslots _).trans (Nat.add_right_comm _ _ _), Nat.lt_of_not_le hroom, h.memory_le,
          h.retire_le⟩

theorem enterDispatchLoop (width : ℕ) (h : Bounded config s) :
    Bounded config (AccelSim.enterDispatchLoop config width s) := by
  induction width generalizing s with
  | zero => exact h
  | succ width ih =>
    rw [AccelSim.enterDispatchLoop]
    split
    · exact h
    · split
      · exact ⟨h.dispatch_le, h.ready_le, h.slots_eq, h.compute_le, h.memory_le, h.retire_le⟩
      · rename_i hroom
        refine ih ⟨?_, h.ready_le, h.slots_eq, h.compute_le, h.memory_le, h.retire_le⟩
        rw [List.length_append, List.length_singleton]
        exact Nat.lt_of_not_le hroom

theorem decodeLoop (width : ℕ) (h : Bounded config s) :
    Bounded config (AccelSim.decodeLoop width s) := by
  rw [decodeLoop_eq]
  exact ⟨h.dispatch_le, h.ready_le, h.slots_eq, h.compute_le, h.memory_le, h.retire_le⟩

theorem fetchLoop (width : ℕ) (h : Bounded config s) :
    Bounded config (AccelSim.fetchLoop width s) := by
  rw [fetchLoop_eq]
  exact ⟨h.dispatch_le, h.ready_le, h.slots_eq, h.compute_le, h.memory_le, h.retire_le⟩

/-- What finishes leaves its slot, and there is room for all of it behind an empty queue. -/
theorem completing (h : Bounded config s) (hempty : s.retireQ = [])
    {out : List ExecSlot × List ℕ × ℕ × ℕ}
    (hticks : tickSlots s.execSlots [] [] s.memoryInUse s.computeInUse = .ok out) (n : ℕ) :
    Bounded config ((out.2.1.take n).foldl finishOne
      { s with execSlots := out.1, memoryInUse := out.2.2.1, computeInUse := out.2.2.2 }) := by
  obtain ⟨hmemory, hcompute, rfl⟩ := (tickSlots_ok_iff _ _ _ _ _ _).mp hticks
  have hsplit := length_survivingSlots_add s.execSlots
  have hfinishing := memorySlots_add_computeSlots (finishingSlots s.execSlots)
  have hslots := h.slots_eq
  have hcomputeLe := h.compute_le
  have hmemoryLe := h.memory_le
  rw [foldl_finishOne]
  refine ⟨h.dispatch_le, h.ready_le, ?_, ?_, ?_, ?_⟩
  · change (survivingSlots s.execSlots).length =
      s.computeInUse - computeSlots (finishingSlots s.execSlots) +
        (s.memoryInUse - memorySlots (finishingSlots s.execSlots))
    omega
  · exact (Nat.sub_le _ _).trans hcomputeLe
  · exact (Nat.sub_le _ _).trans hmemoryLe
  · change (s.retireQ ++ (([] ++ (finishingSlots s.execSlots).map _).take n)).length ≤ _
    rw [hempty, List.nil_append, List.nil_append, List.length_take, List.length_map]
    omega

end Bounded

/-! ### The states within a cycle -/

/-- The states of an iteration that begins in `s`: at its head, at the head of each of its
    inner loops after some of its iterations, and at its end. -/
inductive Within (config : SimulatorConfig) (s : SimState) : SimState → Prop
  | head : Within config s s
  | retiring {n : ℕ} : n ≤ s.retireQ.length → Within config s (retireIter^[n] s)
  | completing {out : List ExecSlot × List ℕ × ℕ × ℕ} {n : ℕ} :
      tickSlots (retirePass s).execSlots [] [] (retirePass s).memoryInUse
        (retirePass s).computeInUse = .ok out →
      n ≤ out.2.1.length →
      Within config s ((out.2.1.take n).foldl finishOne
        { retirePass s with
          execSlots := out.1
          memoryInUse := out.2.2.1
          computeInUse := out.2.2.2 })
  | dispatching {t : SimState} {n : ℕ} : dispatchStart s = .ok t → n ≤ t.dispatchQ.length →
      Within config s ((dispatchIter config)^[n] t)
  | issuing {t : SimState} {n : ℕ} : dispatchStart s = .ok t →
      n ≤ (afterDispatch config t).readyQ.length →
      Within config s ((issueIter config)^[n] (afterDispatch config t, 0)).1
  | entering {t : SimState} {width : ℕ} : dispatchStart s = .ok t →
      width ≤ config.dispatchWidth →
      Within config s (enterDispatchLoop config width (afterIssue config t))
  | decoding {t : SimState} {width : ℕ} : dispatchStart s = .ok t → width ≤ config.decodeWidth →
      Within config s (decodeLoop width (afterEnter config t))
  | fetching {t : SimState} {width : ℕ} : dispatchStart s = .ok t → width ≤ config.fetchWidth →
      Within config s (fetchLoop width (afterDecode config t))
  | recorded {t : SimState} : dispatchStart s = .ok t → Within config s (scheduleCycle config t)

namespace Bounded

variable {config : SimulatorConfig} {s t : SimState}

theorem retirePass (h : Bounded config s) : Bounded config (AccelSim.retirePass s) :=
  Set.MapsTo.iterate (s := {u | Bounded config u}) (fun _ => retireIter) s.retireQ.length h

theorem dispatchStart (h : Bounded config s) (ht : AccelSim.dispatchStart s = .ok t) :
    Bounded config t := by
  have hempty : (AccelSim.retirePass s).retireQ = [] := by rw [retirePass_eq]
  rw [AccelSim.dispatchStart, executeTick] at ht
  split at ht
  · cases ht
  · rename_i remainingSlots finished memoryInUse computeInUse hticks
    cases ht
    have hdone := h.retirePass.completing hempty hticks finished.length
    rwa [List.take_length] at hdone

theorem issueIterate (h : Bounded config s) (n : ℕ) :
    Bounded config ((AccelSim.issueIter config)^[n] (s, 0)).1 :=
  Set.MapsTo.iterate (s := {pair : SimState × ℕ | Bounded config pair.1}) (fun _ => issueIter) n h

theorem afterDispatch (h : Bounded config t) : Bounded config (AccelSim.afterDispatch config t) :=
  Set.MapsTo.iterate (s := {u | Bounded config u}) (fun _ => dispatchIter) t.dispatchQ.length h

theorem afterDecode (h : Bounded config t) : Bounded config (AccelSim.afterDecode config t) :=
  ((h.afterDispatch.issueIterate _).enterDispatchLoop config.dispatchWidth).decodeLoop
    config.decodeWidth

theorem scheduleCycle (h : Bounded config t) :
    Bounded config (AccelSim.scheduleCycle config t) := by
  obtain ⟨hdispatch, hready, hslots, hcompute, hmemory, hretire⟩ :=
    h.afterDecode.fetchLoop config.fetchWidth
  exact ⟨hdispatch, hready, hslots, hcompute, hmemory, hretire⟩

end Bounded

theorem bounded_of_reachesIn {workload : List Instruction} {config : SimulatorConfig} {k : ℕ}
    {s : SimState} (h : ReachesIn workload config k s) : Bounded config s := by
  refine h.keeps (Bounded config) ⟨Nat.zero_le _, Nat.zero_le _, rfl, Nat.zero_le _, Nat.zero_le _,
    Nat.zero_le _⟩ ?_
  intro j u t v _ _ it hu
  rw [it.finish]
  exact (hu.dispatchStart it.start).scheduleCycle

/-- The sizes are within their bounds at every point of an iteration. -/
theorem Within.bounded {config : SimulatorConfig} {s u : SimState} (hu : Within config s u)
    (h : Bounded config s) : Bounded config u := by
  cases hu with
  | head => exact h
  | retiring =>
    exact Set.MapsTo.iterate (s := {u | Bounded config u}) (fun _ => Bounded.retireIter) _ h
  | completing hticks =>
    exact h.retirePass.completing (by rw [retirePass_eq]) hticks _
  | dispatching ht =>
    exact Set.MapsTo.iterate (s := {u | Bounded config u}) (fun _ => Bounded.dispatchIter) _
      (h.dispatchStart ht)
  | issuing ht => exact (h.dispatchStart ht).afterDispatch.issueIterate _
  | entering ht => exact ((h.dispatchStart ht).afterDispatch.issueIterate _).enterDispatchLoop _
  | decoding ht =>
    exact (((h.dispatchStart ht).afterDispatch.issueIterate _).enterDispatchLoop _).decodeLoop _
  | fetching ht => exact (h.dispatchStart ht).afterDecode.fetchLoop _
  | recorded ht => exact (h.dispatchStart ht).scheduleCycle

/-! ### Program order -/

/-- At the head of the loop the front of the pipeline holds increasing indices, each queue
    before the next and all before the next to be fetched. -/
theorem front_sorted_of_reachesIn {workload : List Instruction} {config : SimulatorConfig} {k : ℕ}
    {s : SimState} (h : ReachesIn workload config k s) :
    (s.dispatchQ ++ s.decodeQ ++ s.fetchQ ++ [s.nextToFetch]).Pairwise (· < ·) := by
  have hp := placed_of_reachesIn h
  have ho := inOrder_of_reachesIn h
  have hdispatch : ∀ i ∈ s.dispatchQ, i < s.entered := by
    intro i hi
    have hreached : s.Reached .dispatch i := ((hp.mem_queueOf_iff .dispatch .ready rfl i).mp hi).1
    exact (ho.reached_dispatch_iff hp i).mp hreached
  have hentered : s.entered ≤ s.nextToFetch := by
    rw [SimState.entered]
    omega
  have hfront : s.decodeQ ++ s.fetchQ ++ [s.nextToFetch] =
      List.range' s.entered (s.nextToFetch - s.entered + 1) := by
    rw [ho.queues_eq, List.range'_concat, Nat.one_mul, Nat.add_sub_cancel' hentered]
  rw [List.append_assoc, List.append_assoc, ← List.append_assoc s.decodeQ, hfront,
    List.pairwise_append]
  refine ⟨dispatchQ_sorted_of_reachesIn h, List.pairwise_lt_range', ?_⟩
  intro i hi j hj
  exact (hdispatch i hi).trans_le (List.mem_range'_1.mp hj).1

/-! ### The theorem -/

theorem maxQueueOccupancy_le {workload : List Instruction} {config : SimulatorConfig} {k : ℕ}
    {s : SimState} (h : ReachesIn workload config k s) (queue : QueueName) {bound : ℕ}
    (hbound : ∀ j u, ReachesIn workload config j u → u.occupancyOf queue ≤ bound) :
    s.stats.maxQueueOccupancy.count queue ≤ bound := by
  rcases (h.maxQueueOccupancy_spec queue).2 with hzero | ⟨t, ht, heq⟩
  · rw [hzero]
    exact Nat.zero_le bound
  · rw [← heq]
    exact hbound _ _ (h.stateAfter ht)

/-- **Queue bounds and program order**: at every point of every cycle the bounded sizes are
    within their bounds; at the head of the loop the dispatch, decode and fetch queues and the
    next index to fetch form one increasing list; and the reported maxima respect the bounds. -/
theorem queue_bounds (workload : List Instruction) (config : SimulatorConfig) :
    (∀ k s u, ReachesIn workload config k s → Within config s u →
      u.dispatchQ.length ≤ config.dispatchQueueCapacity ∧
      u.readyQ.length ≤ config.readyQueueCapacity ∧
      u.execSlots.length ≤ config.computeUnits + config.memoryPorts ∧
      u.retireQ.length ≤ config.computeUnits + config.memoryPorts) ∧
    (∀ k s, ReachesIn workload config k s →
      (s.dispatchQ ++ s.decodeQ ++ s.fetchQ ++ [s.nextToFetch]).Pairwise (· < ·)) ∧
    ∀ fuel result, runWorkload fuel workload config = .ok (some result) →
      result.stats.maxQueueOccupancy.count .dispatchQ ≤ config.dispatchQueueCapacity ∧
      result.stats.maxQueueOccupancy.count .readyQ ≤ config.readyQueueCapacity ∧
      result.stats.maxQueueOccupancy.count .executeSlots ≤
        config.computeUnits + config.memoryPorts ∧
      result.stats.maxQueueOccupancy.count .retireQ ≤
        config.computeUnits + config.memoryPorts := by
  have hslots {u : SimState} (hu : Bounded config u) :
      u.execSlots.length ≤ config.computeUnits + config.memoryPorts :=
    hu.slots_eq.trans_le (Nat.add_le_add hu.compute_le hu.memory_le)
  refine ⟨?_, fun _ _ => front_sorted_of_reachesIn, ?_⟩
  · intro k s u h hu
    have hb := hu.bounded (bounded_of_reachesIn h)
    exact ⟨hb.dispatch_le, hb.ready_le, hslots hb, hb.retire_le⟩
  · intro fuel result hrun
    obtain ⟨k, s, _, h, _, rfl⟩ := runWorkload_eq_some_iff.mp hrun
    exact ⟨maxQueueOccupancy_le h .dispatchQ fun _ _ hu => (bounded_of_reachesIn hu).dispatch_le,
      maxQueueOccupancy_le h .readyQ fun _ _ hu => (bounded_of_reachesIn hu).ready_le,
      maxQueueOccupancy_le h .executeSlots fun _ _ hu => hslots (bounded_of_reachesIn hu),
      maxQueueOccupancy_le h .retireQ fun _ _ hu => (bounded_of_reachesIn hu).retire_le⟩

end AccelSim
