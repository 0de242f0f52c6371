import AccelSimLite.Lib.Schedule
import AccelSimLite.Simulator.Latency
import AccelSimLite.Simulator.Utilisation

/-!
# Little's law

The latencies that a run adds up, instruction by instruction, are the numbers of
instructions in flight that its cycles end with, and so are bounded by the largest queues
that it reports. The counter of the total latency holds their sum as a `uint64_t`.

## Main definitions

- `SimState.inFlight` — how many instructions are fetched and not completed

## Main results

- `littles_law` — the two ways to add up
-/

namespace AccelSim

open Schedule

/-- How many instructions are fetched and not completed. -/
def SimState.inFlight (s : SimState) : ℕ :=
  s.fetchQ.length + s.decodeQ.length + s.dispatchQ.length + s.readyQ.length + s.execSlots.length

/-- What is issued but not completed has a slot. -/
theorem Placed.sum_not_completed {workload : List Instruction} {s : SimState}
    (h : Placed workload s) :
    (∑ i ∈ Finset.range workload.length, if s.Reached .retire i then 0 else 1) =
      (∑ i ∈ Finset.range workload.length, if s.Reached .execute i then 0 else 1) +
        s.execSlots.length := by
  have hlen : s.execSlots.length =
      ∑ i ∈ Finset.range workload.length, if i ∈ s.queueOf .execute then 1 else 0 := by
    have hslots : s.execSlots.length = (s.queueOf .execute).length := (List.length_map _).symm
    rw [hslots]
    refine (sum_mem_eq_length (h.nodup .execute) fun i hi => ?_).symm
    exact ((h.mem_iff .execute i).mp hi).1.trans_le h.next_le
  rw [hlen, ← Finset.sum_add_distrib]
  refine Finset.sum_congr rfl fun i _ => ?_
  have hiff := h.mem_queueOf_iff .execute .retire rfl i
  have hmono : s.Reached .retire i → s.Reached .execute i := fun hr => hr.mono (by decide)
  by_cases hissued : s.Reached .execute i
  · by_cases hretired : s.Reached .retire i <;> simp [hiff, hissued, hretired]
  · simp [hiff, hissued, mt hmono hissued]

namespace ReachesIn

variable {workload : List Instruction} {config : SimulatorConfig} {k t : ℕ} {s : SimState}

/-- The instructions in flight at the end of a cycle, by their timestamps. -/
theorem inFlight_eq (h : ReachesIn workload config k s) (hexit : hasWorkLeft s = false)
    (ht : t < k) :
    (AccelSim.stateAfter workload config (t + 1)).inFlight =
      (underWay (Finset.range workload.length) (fun i => (s.instr i).enqueueCycle)
        (fun i => (s.instr i).completeCycle) t).card := by
  have hp := placed_of_reachesIn (h.stateAfter (show t + 1 ≤ k from ht))
  have hcount : (∑ i ∈ Finset.range workload.length,
      if (AccelSim.stateAfter workload config (t + 1)).Reached .retire i then 0 else 1) =
      (∑ i ∈ Finset.range workload.length,
        if (AccelSim.stateAfter workload config (t + 1)).Reached .fetch i then 0 else 1) +
        (AccelSim.stateAfter workload config (t + 1)).inFlight := by
    rw [hp.sum_not_completed, hp.sum_not_issued, SimState.inFlight]
    omega
  have hsplit : (∑ i ∈ Finset.range workload.length,
      if (AccelSim.stateAfter workload config (t + 1)).Reached .retire i then 0 else 1) =
      (∑ i ∈ Finset.range workload.length,
        if (AccelSim.stateAfter workload config (t + 1)).Reached .fetch i then 0 else 1) +
        (underWay (Finset.range workload.length) (fun i => (s.instr i).enqueueCycle)
          (fun i => (s.instr i).completeCycle) t).card := by
    rw [underWay, Finset.card_filter, ← Finset.sum_add_distrib]
    refine Finset.sum_congr rfl fun i hi => ?_
    have hi := Finset.mem_range.mp hi
    have htimed := h.timestamps_of_exit hexit hi
    simp only [h.fetched_at_iff hexit hi ht, (h.reached_at_iff hexit hi ht).1]
    split_ifs <;> omega
  exact Nat.add_left_cancel (hcount.symm.trans hsplit)

theorem execSlots_eq (h : ReachesIn workload config k s) (hexit : hasWorkLeft s = false)
    (ht : t < k) :
    (AccelSim.stateAfter workload config (t + 1)).execSlots.length =
      (underWay (Finset.range workload.length) (fun i => (s.instr i).issueCycle)
        (fun i => (s.instr i).completeCycle) t).card := by
  have hoccupancy := h.occupancy_execute hexit ht
  rw [SimState.countP_instructions, (placed_of_reachesIn h).length_eq] at hoccupancy
  refine hoccupancy.trans ?_
  rw [underWay, ← List.toFinset_card_of_nodup (List.nodup_range.filter _)]
  congr 1
  ext i
  simp [Instruction.executesIn]

theorem inFlight_le (h : ReachesIn workload config k s) (ht : t < k) :
    (AccelSim.stateAfter workload config (t + 1)).inFlight ≤
      s.stats.maxQueueOccupancy.count .fetchQ + s.stats.maxQueueOccupancy.count .decodeQ +
        s.stats.maxQueueOccupancy.count .dispatchQ + s.stats.maxQueueOccupancy.count .readyQ +
          s.stats.maxQueueOccupancy.count .executeSlots := by
  have hle := fun queue => (h.maxQueueOccupancy_spec queue).1 t ht
  exact Nat.add_le_add (Nat.add_le_add (Nat.add_le_add (Nat.add_le_add (hle .fetchQ)
    (hle .decodeQ)) (hle .dispatchQ)) (hle .readyQ)) (hle .executeSlots)

/-- The latencies are the instructions in flight, added up. -/
theorem sum_inFlight (h : ReachesIn workload config k s) (hexit : hasWorkLeft s = false) :
    ∑ t ∈ Finset.range k, (AccelSim.stateAfter workload config (t + 1)).inFlight =
      ∑ i ∈ Finset.range workload.length, (s.instr i).latency := by
  have hend : ∀ i ∈ Finset.range workload.length, (s.instr i).completeCycle ≤ k := by
    intro i hi
    have htimed := h.timestamps_of_exit hexit (Finset.mem_range.mp hi)
    omega
  rw [Finset.sum_congr rfl fun t ht => h.inFlight_eq hexit (Finset.mem_range.mp ht),
    sum_card_underWay hend]
  rfl

theorem totalLatency_eq_inFlight (h : ReachesIn workload config k s)
    (hexit : hasWorkLeft s = false) :
    s.stats.totalLatency = UInt64.ofNat
      (∑ t ∈ Finset.range k, (AccelSim.stateAfter workload config (t + 1)).inFlight) := by
  rw [h.totalLatency_of_exit hexit, h.sum_inFlight hexit]

/-- The ticks are the slots in use, added up. -/
theorem sum_execSlots (h : ReachesIn workload config k s) (hexit : hasWorkLeft s = false) :
    ∑ t ∈ Finset.range k, (AccelSim.stateAfter workload config (t + 1)).execSlots.length =
      (workload.map Instruction.ticks).sum := by
  have hend : ∀ i ∈ Finset.range workload.length, (s.instr i).completeCycle ≤ k := by
    intro i hi
    have htimed := h.timestamps_of_exit hexit (Finset.mem_range.mp hi)
    omega
  rw [Finset.sum_congr rfl fun t ht => h.execSlots_eq hexit (Finset.mem_range.mp ht),
    sum_card_underWay hend, ← sum_programAt]
  refine Finset.sum_congr rfl fun i hi => ?_
  have htimed := h.timestamps_of_exit hexit (Finset.mem_range.mp hi)
  rw [← (placed_of_reachesIn h).ticks_eq]
  omega

end ReachesIn

/-- **Little's law**: the latencies of the instructions add up to the number of instructions
    in flight, added up over the cycles, which is what the counter of the total latency
    holds, and the ticks of the workload are the slots in use, added up over the cycles. So
    a run has at most the latency of all its cycles at its largest queues. -/
theorem littles_law (workload : List Instruction) (config : SimulatorConfig) (fuel : ℕ)
    (result : RunResult) (hrun : runWorkload fuel workload config = .ok (some result)) :
    (∑ t ∈ Finset.range result.stats.totalCycles,
      (stateAfter workload config (t + 1)).inFlight) =
        (result.instructions.map fun i => i.completeCycle - i.enqueueCycle).sum ∧
    result.stats.totalLatency = UInt64.ofNat (∑ t ∈ Finset.range result.stats.totalCycles,
      (stateAfter workload config (t + 1)).inFlight) ∧
    (∑ t ∈ Finset.range result.stats.totalCycles,
      (stateAfter workload config (t + 1)).execSlots.length) =
        (workload.map Instruction.ticks).sum ∧
    (result.instructions.map fun i => i.completeCycle - i.enqueueCycle).sum ≤
      result.stats.totalCycles *
        (result.stats.maxQueueOccupancy.count .fetchQ +
          result.stats.maxQueueOccupancy.count .decodeQ +
          result.stats.maxQueueOccupancy.count .dispatchQ +
          result.stats.maxQueueOccupancy.count .readyQ +
          result.stats.maxQueueOccupancy.count .executeSlots) := by
  obtain ⟨k, s, _, h, hexit, rfl⟩ := runWorkload_eq_some_iff.mp hrun
  have hcycles : (resultOf config s).stats.totalCycles = k := h.cycle_eq
  have hlatency := (h.sum_inFlight hexit).trans h.sum_latency.symm
  rw [hcycles]
  refine ⟨hlatency, h.totalLatency_eq_inFlight hexit, h.sum_execSlots hexit, ?_⟩
  change (s.instructions.map Instruction.latency).sum ≤ _
  rw [← hlatency]
  refine (Finset.sum_le_sum fun t ht => h.inFlight_le (Finset.mem_range.mp ht)).trans_eq ?_
  rw [Finset.sum_const_nat fun _ _ => rfl, Finset.card_range]
  rfl

theorem littles_law_dependentPair :
    ∃ result, runWorkload 12 dependentPair {} = .ok (some result) ∧
      result.stats.totalLatency = UInt64.ofNat (∑ t ∈ Finset.range result.stats.totalCycles,
        (stateAfter dependentPair {} (t + 1)).inFlight) ∧
      (∑ t ∈ Finset.range result.stats.totalCycles,
        (stateAfter dependentPair {} (t + 1)).execSlots.length) = 3 + 1 := by
  have hrun : ∃ result, runWorkload 12 dependentPair {} = .ok (some result) := ⟨_, rfl⟩
  obtain ⟨result, hrun⟩ := hrun
  obtain ⟨_, htotal, hticks, _⟩ := littles_law dependentPair {} 12 result hrun
  exact ⟨result, hrun, htotal, hticks⟩

end AccelSim
