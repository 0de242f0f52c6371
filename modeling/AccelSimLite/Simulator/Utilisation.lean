import AccelSimLite.Simulator.Sampling
import AccelSimLite.Simulator.Timestamps
import Mathlib.Data.Set.Card

/-!
# Utilisation against the trace

What the report publishes for a stage is a counter that is bumped when a queue is left
non-empty at the end of a cycle. For the execution slots and the retire queue this is
what the timestamps of the instructions say. Fetch is sampled after it has taken its
instructions and issue after it has emptied its queue, so their counters miss cycles
in which they worked.

## Main definitions

- `RunResult.distinctCycles` — the number of cycles with an event in the trace

## Main results

- `execute_retire_utilisation` — execute and retire agree with the trace
- `fetch_issue_utilisation_iff` — fetch and issue do so only for the empty workload
-/

namespace AccelSim

/-- The number of cycles in which some instruction of the trace was stamped. -/
def RunResult.distinctCycles (result : RunResult) (stamp : Instruction → ℕ) : ℕ :=
  (result.instructions.map stamp).toFinset.card

theorem RunResult.distinctCycles_eq_ncard (result : RunResult) (stamp : Instruction → ℕ) :
    result.distinctCycles stamp = {t | ∃ i ∈ result.instructions, stamp i = t}.ncard := by
  rw [distinctCycles, ← Set.ncard_coe_finset]
  congr 1
  ext t
  simp

theorem countP_range_eq_ncard (p : ℕ → Bool) (k : ℕ) :
    (List.range k).countP p = {t | t < k ∧ p t = true}.ncard := by
  have hset : {t | t < k ∧ p t = true} = (((List.range k).filter p).toFinset : Set ℕ) := by
    ext t
    simp
  rw [hset, Set.ncard_coe_finset, List.toFinset_card_of_nodup (List.nodup_range.filter _),
    List.countP_eq_length_filter]

section

variable {workload : List Instruction} {config : SimulatorConfig} {k : ℕ} {s : SimState}

/-! ### Samples and predicates on the trace -/

/-- A place that holds what a predicate selects holds as many as it selects. -/
theorem Placed.length_queueOf_eq {u : SimState} (hu : Placed workload u)
    (hs : Placed workload s) (st : Stage) {p : Instruction → Bool}
    (hmem : ∀ i, i ∈ u.queueOf st ↔ i < workload.length ∧ p (s.instr i) = true) :
    (u.queueOf st).length = s.instructions.countP p := by
  rw [s.countP_instructions, hs.length_eq]
  refine List.Perm.length_eq ?_
  rw [List.perm_ext_iff_of_nodup (hu.nodup st) (List.nodup_range.filter _)]
  intro i
  rw [hmem, List.mem_filter, List.mem_range]

/-- A stage whose queue holds in every cycle what a predicate selects is busy in the cycles
    that select something, and the maximum of its queue is the most that a cycle selects. -/
theorem ReachesIn.utilisation (h : ReachesIn workload config k s) (stage : BusyStage)
    (queue : QueueName) (p : ℕ → Instruction → Bool)
    (hbusy : ∀ u : SimState, u.busyWith stage = decide (0 < u.occupancyOf queue))
    (hoccupancy : ∀ t, t < k →
      (AccelSim.stateAfter workload config (t + 1)).occupancyOf queue = s.instructions.countP (p t))
    (hend : ∀ t, k ≤ t → s.instructions.countP (p t) = 0) :
    s.stats.stageBusyCycles.count stage = {t | ∃ i ∈ s.instructions, p t i = true}.ncard ∧
      IsGreatest (Set.range fun t => s.instructions.countP (p t))
        (s.stats.maxQueueOccupancy.count queue) := by
  constructor
  · rw [h.stageBusyCycles_eq, countP_range_eq_ncard]
    congr 1
    ext t
    rw [Set.mem_ofPred_eq, Set.mem_ofPred_eq, ← List.countP_pos_iff]
    by_cases ht : t < k
    · rw [hbusy, hoccupancy t ht, decide_eq_true_eq, and_iff_right ht]
    · rw [hend t (Nat.le_of_not_lt ht)]
      exact iff_of_false (fun hlt => ht hlt.1) (Nat.lt_irrefl 0)
  · obtain ⟨hupper, hattained⟩ := h.maxQueueOccupancy_spec queue
    constructor
    · rcases hattained with hzero | ⟨t, ht, heq⟩
      · exact ⟨k, (hend k le_rfl).trans hzero.symm⟩
      · exact ⟨t, (hoccupancy t ht).symm.trans heq⟩
    · rintro n ⟨t, rfl⟩
      by_cases ht : t < k
      · exact (hoccupancy t ht).symm.trans_le (hupper t ht)
      · exact (hend t (Nat.le_of_not_lt ht)).trans_le (Nat.zero_le _)

/-! ### Execute and retire -/

/-- An instruction executes in a cycle, on a slot that it still holds when the cycle ends. -/
def Instruction.executesIn (t : ℕ) (i : Instruction) : Bool :=
  decide (i.issueCycle ≤ t ∧ t < i.completeCycle)

theorem ReachesIn.occupancy_execute (h : ReachesIn workload config k s)
    (hexit : hasWorkLeft s = false) {t : ℕ} (ht : t < k) :
    (AccelSim.stateAfter workload config (t + 1)).occupancyOf .executeSlots =
      s.instructions.countP (Instruction.executesIn t) := by
  have hu := placed_of_reachesIn (h.stateAfter ht)
  have hs := placed_of_reachesIn h
  have hslots := hu.length_queueOf_eq hs .execute (p := Instruction.executesIn t) ?_
  · rwa [SimState.queueOf, List.length_map] at hslots
  intro i
  rw [hu.mem_queueOf_iff .execute .retire rfl, Instruction.executesIn, decide_eq_true_eq]
  constructor
  · rintro ⟨hissued, hnot⟩
    have hi := hissued.1.trans_le hu.next_le
    have hissue := (h.issued_at_iff hexit hi ht).mp hissued
    rw [(h.reached_at_iff hexit hi ht).1] at hnot
    exact ⟨hi, by omega⟩
  · rintro ⟨hi, hissue, hcomplete⟩
    rw [(h.reached_at_iff hexit hi ht).1]
    exact ⟨(h.issued_at_iff hexit hi ht).mpr (Nat.lt_succ_of_le hissue), by omega⟩

theorem ReachesIn.occupancy_retire (h : ReachesIn workload config k s)
    (hexit : hasWorkLeft s = false) {t : ℕ} (ht : t < k) :
    (AccelSim.stateAfter workload config (t + 1)).occupancyOf .retireQ =
      s.instructions.countP fun i => decide (i.completeCycle = t) := by
  have hu := placed_of_reachesIn (h.stateAfter ht)
  have hs := placed_of_reachesIn h
  refine hu.length_queueOf_eq hs .retire ?_
  intro i
  rw [hu.mem_queueOf_iff .retire .done rfl, decide_eq_true_eq]
  constructor
  · rintro ⟨hreached, hnot⟩
    have hi := hreached.1.trans_le hu.next_le
    obtain ⟨hretire, hdone⟩ := h.reached_at_iff hexit hi ht
    rw [hretire] at hreached
    rw [hdone] at hnot
    exact ⟨hi, by omega⟩
  · rintro ⟨hi, rfl⟩
    obtain ⟨hretire, hdone⟩ := h.reached_at_iff hexit hi ht
    rw [hretire, hdone]
    omega

/-- Nothing happens after the last completion. -/
theorem ReachesIn.countP_eq_zero_of_exit (h : ReachesIn workload config k s)
    (hexit : hasWorkLeft s = false) {p : Instruction → Bool}
    (hlate : ∀ i, p i = true → k ≤ i.completeCycle) : s.instructions.countP p = 0 := by
  rw [List.countP_eq_zero]
  intro instruction hmem hp
  obtain ⟨i, hi, rfl⟩ := ((placed_of_reachesIn h).mem_instructions_iff instruction).mp hmem
  have hle := (h.timestamps_of_exit hexit hi).2.2
  have hge := hlate _ hp
  omega

theorem ReachesIn.execute_utilisation (h : ReachesIn workload config k s)
    (hexit : hasWorkLeft s = false) :
    s.stats.stageBusyCycles.count .execute =
        {t | ∃ i ∈ s.instructions, i.executesIn t = true}.ncard ∧
      IsGreatest (Set.range fun t => s.instructions.countP (Instruction.executesIn t))
        (s.stats.maxQueueOccupancy.count .executeSlots) := by
  refine h.utilisation .execute .executeSlots Instruction.executesIn ?_
    (fun t => h.occupancy_execute hexit) ?_
  · intro u
    cases hslots : u.execSlots <;> simp [SimState.busyWith, SimState.occupancyOf, hslots]
  · intro t ht
    refine h.countP_eq_zero_of_exit hexit ?_
    intro i hi
    rw [Instruction.executesIn, decide_eq_true_eq] at hi
    omega

theorem ReachesIn.retire_utilisation (h : ReachesIn workload config k s)
    (hexit : hasWorkLeft s = false) :
    s.stats.stageBusyCycles.count .retire =
        {t | ∃ i ∈ s.instructions, decide (i.completeCycle = t) = true}.ncard ∧
      IsGreatest (Set.range fun t => s.instructions.countP fun i => i.completeCycle = t)
        (s.stats.maxQueueOccupancy.count .retireQ) := by
  refine h.utilisation .retire .retireQ (fun t i => decide (i.completeCycle = t)) ?_
    (fun t => h.occupancy_retire hexit) ?_
  · intro u
    cases hqueue : u.retireQ <;> simp [SimState.busyWith, SimState.occupancyOf, hqueue]
  · intro t ht
    refine h.countP_eq_zero_of_exit hexit ?_
    intro i hi
    rw [decide_eq_true_eq] at hi
    omega

end

/-- **Execute and retire utilisation agree with the trace** of every run that ends: the
    counters are the numbers of cycles in which something executes and in which something
    completes, the maxima the most that execute and that complete in one cycle. -/
theorem execute_retire_utilisation (workload : List Instruction) (config : SimulatorConfig)
    (fuel : ℕ) (result : RunResult) (hrun : runWorkload fuel workload config = .ok (some result)) :
    result.stats.stageBusyCycles.count .execute =
      {t | ∃ i ∈ result.instructions, i.issueCycle ≤ t ∧ t < i.completeCycle}.ncard ∧
    result.stats.stageBusyCycles.count .retire =
      result.distinctCycles Instruction.completeCycle ∧
    IsGreatest
      (Set.range fun t =>
        result.instructions.countP fun i => i.issueCycle ≤ t ∧ t < i.completeCycle)
      (result.stats.maxQueueOccupancy.count .executeSlots) ∧
    IsGreatest
      (Set.range fun t => result.instructions.countP fun i => i.completeCycle = t)
      (result.stats.maxQueueOccupancy.count .retireQ) ∧
    (workload ≠ [] → ∀ queue, (result.stats.maxQueueOccupancy.find? queue).isSome) := by
  obtain ⟨k, s, _, h, hexit, rfl⟩ := runWorkload_eq_some_iff.mp hrun
  obtain ⟨hexecute, hslots⟩ := h.execute_utilisation hexit
  obtain ⟨hretire, hqueue⟩ := h.retire_utilisation hexit
  simp only [Instruction.executesIn, decide_eq_true_eq] at hexecute hretire
  rw [RunResult.distinctCycles_eq_ncard]
  refine ⟨hexecute, hretire, hslots, hqueue, ?_⟩
  intro hne queue
  obtain ⟨i, hi, hlast⟩ := h.exists_last hexit hne
  exact h.maxQueueOccupancy_isSome (by omega) queue

theorem execute_retire_utilisation_dependentPair :
    ∃ result, runWorkload 12 dependentPair {} = .ok (some result) ∧
      result.stats.stageBusyCycles.count .retire =
        result.distinctCycles Instruction.completeCycle := by
  have hrun : ∃ result, runWorkload 12 dependentPair {} = .ok (some result) := ⟨_, rfl⟩
  obtain ⟨result, hrun⟩ := hrun
  exact ⟨result, hrun, (execute_retire_utilisation dependentPair {} 12 result hrun).2.1⟩

/-! ### Fetch and issue -/

section

variable {workload : List Instruction} {config : SimulatorConfig} {k : ℕ} {s : SimState}

theorem ReachesIn.exists_instr (h : ReachesIn workload config k s) (stamp : Instruction → ℕ)
    (t : ℕ) :
    (∃ i ∈ s.instructions, stamp i = t) ↔ ∃ i, i < workload.length ∧ stamp (s.instr i) = t := by
  have hp := placed_of_reachesIn h
  constructor
  · rintro ⟨instruction, hmem, hstamp⟩
    obtain ⟨i, hi, rfl⟩ := (hp.mem_instructions_iff instruction).mp hmem
    exact ⟨i, hi, hstamp⟩
  · rintro ⟨i, hi, hstamp⟩
    exact ⟨s.instr i, (hp.mem_instructions_iff _).mpr ⟨i, hi, rfl⟩, hstamp⟩

/-- In a run that ends with anything in its trace the fetch width is positive. -/
theorem ReachesIn.fetchWidth_pos (h : ReachesIn workload config k s)
    (hexit : hasWorkLeft s = false) (hne : workload ≠ []) : 0 < config.fetchWidth := by
  have hlength := List.length_pos_iff.mpr hne
  have hnext := (hasWorkLeft_eq_false.mp hexit).1
  rw [(placed_of_reachesIn h).length_eq, nextToFetch_of_reachesIn h] at hnext
  have hle : workload.length ≤ k * config.fetchWidth := hnext.trans (min_le_right _ _)
  exact Nat.pos_of_mul_pos_left (hlength.trans_le hle)

/-- Fetch works in every cycle up to that of the last instruction. -/
theorem ReachesIn.distinctCycles_enqueueCycle (h : ReachesIn workload config k s)
    (hexit : hasWorkLeft s = false) (hne : workload ≠ []) :
    (resultOf config s).distinctCycles Instruction.enqueueCycle =
      (workload.length - 1) / config.fetchWidth + 1 := by
  have hwidth := h.fetchWidth_pos hexit hne
  have hlength := List.length_pos_iff.mpr hne
  have hcycles : {t | ∃ i ∈ s.instructions, i.enqueueCycle = t} =
      (Finset.range ((workload.length - 1) / config.fetchWidth + 1) : Set ℕ) := by
    ext t
    rw [Set.mem_ofPred_eq, h.exists_instr, Finset.coe_range, Set.mem_Iio, Nat.lt_succ_iff,
      Nat.le_div_iff_mul_le hwidth]
    constructor
    · rintro ⟨i, hi, rfl⟩
      rw [h.enqueueCycle_eq hexit hi]
      have hle := Nat.div_mul_le_self i config.fetchWidth
      omega
    · intro ht
      have hi : t * config.fetchWidth < workload.length := by omega
      refine ⟨t * config.fetchWidth, hi, ?_⟩
      rw [h.enqueueCycle_eq hexit hi, Nat.mul_div_cancel t hwidth]
  rw [RunResult.distinctCycles_eq_ncard]
  change {t | ∃ i ∈ s.instructions, i.enqueueCycle = t}.ncard = _
  rw [hcycles, Set.ncard_coe_finset, Finset.card_range]

/-- The counter of fetch misses the cycle that fetches the last instruction. -/
theorem ReachesIn.fetch_busy_eq (h : ReachesIn workload config k s)
    (hexit : hasWorkLeft s = false) (hne : workload ≠ []) :
    s.stats.stageBusyCycles.count .fetch = (workload.length - 1) / config.fetchWidth := by
  have hwidth := h.fetchWidth_pos hexit hne
  have hlength := List.length_pos_iff.mpr hne
  have hend : (workload.length - 1) / config.fetchWidth < k := by
    have hlast : workload.length - 1 < workload.length := by omega
    rw [← h.enqueueCycle_eq hexit hlast]
    have htimed := h.timestamps_of_exit hexit hlast
    omega
  have hcycles : {t | t < k ∧ (AccelSim.stateAfter workload config (t + 1)).busyWith .fetch = true} =
      (Finset.range ((workload.length - 1) / config.fetchWidth) : Set ℕ) := by
    ext t
    have hquot : t < (workload.length - 1) / config.fetchWidth ↔
        (t + 1) * config.fetchWidth ≤ workload.length - 1 := Nat.le_div_iff_mul_le hwidth
    have hbusy (ht : t < k) : (AccelSim.stateAfter workload config (t + 1)).busyWith .fetch = true ↔
        (t + 1) * config.fetchWidth ≤ workload.length - 1 := by
      have hu : ReachesIn workload config (t + 1) _ := h.stateAfter ht
      rw [SimState.busyWith, decide_eq_true_eq, nextToFetch_of_reachesIn hu,
        (placed_of_reachesIn hu).length_eq]
      omega
    rw [Set.mem_ofPred_eq, Finset.coe_range, Set.mem_Iio]
    constructor
    · rintro ⟨ht, hsampled⟩
      exact hquot.mpr ((hbusy ht).mp hsampled)
    · intro hlt
      have ht := hlt.trans hend
      exact ⟨ht, (hbusy ht).mpr (hquot.mp hlt)⟩
  rw [h.stageBusyCycles_eq, countP_range_eq_ncard, hcycles, Set.ncard_coe_finset,
    Finset.card_range]

/-- The counter of issue misses the cycle that issues the last instruction. -/
theorem ReachesIn.exists_unsampled_issue (h : ReachesIn workload config k s)
    (hexit : hasWorkLeft s = false) (hne : workload ≠ []) :
    ∃ t, (∃ i ∈ s.instructions, i.issueCycle = t) ∧
      (AccelSim.stateAfter workload config (t + 1)).busyWith .issue = false := by
  have hrange : (Finset.range workload.length).Nonempty :=
    Finset.nonempty_range_iff.mpr (List.length_pos_iff.mpr hne).ne'
  obtain ⟨i, hi, hmax⟩ :=
    Finset.exists_max_image _ (fun i => (s.instr i).issueCycle) hrange
  rw [Finset.mem_range] at hi
  refine ⟨(s.instr i).issueCycle, (h.exists_instr _ _).mpr ⟨i, hi, rfl⟩, ?_⟩
  have htimed := h.timestamps_of_exit hexit hi
  have ht : (s.instr i).issueCycle + 1 ≤ k := by omega
  have hu := placed_of_reachesIn (h.stateAfter ht)
  have hempty : (AccelSim.stateAfter workload config ((s.instr i).issueCycle + 1)).readyQ = [] := by
    rw [List.eq_nil_iff_forall_not_mem]
    intro j hj
    obtain ⟨hready, hnot⟩ := (hu.mem_queueOf_iff .ready .execute rfl j).mp hj
    have hlt := hready.1.trans_le hu.next_le
    have hle := hmax j (Finset.mem_range.mpr hlt)
    exact hnot ((h.issued_at_iff hexit hlt ht).mpr (Nat.lt_succ_of_le hle))
  rw [SimState.busyWith, hempty]
  rfl

end

/-- **Fetch and issue utilisation**: the counter of fetch is the number of cycles that fetch,
    and that of issue no less than the number that issue, only for the empty workload.
    Otherwise fetch is one short, and the cycle of some issue is not sampled as busy. -/
theorem fetch_issue_utilisation_iff (workload : List Instruction) (config : SimulatorConfig)
    (fuel : ℕ) (result : RunResult) (hrun : runWorkload fuel workload config = .ok (some result)) :
    (result.stats.stageBusyCycles.count .fetch =
          result.distinctCycles Instruction.enqueueCycle ∧
        result.distinctCycles Instruction.issueCycle ≤
          result.stats.stageBusyCycles.count .issue ↔ workload = []) ∧
      (workload ≠ [] →
        result.stats.stageBusyCycles.count .fetch + 1 =
            result.distinctCycles Instruction.enqueueCycle ∧
          ∃ t, (∃ i ∈ result.instructions, i.issueCycle = t) ∧
            (stateAfter workload config (t + 1)).busyWith .issue = false) := by
  obtain ⟨k, s, _, h, hexit, rfl⟩ := runWorkload_eq_some_iff.mp hrun
  have hshort (hne : workload ≠ []) :
      (resultOf config s).stats.stageBusyCycles.count .fetch + 1 =
        (resultOf config s).distinctCycles Instruction.enqueueCycle := by
    rw [h.distinctCycles_enqueueCycle hexit hne, ← h.fetch_busy_eq hexit hne]
    rfl
  refine ⟨⟨?_, ?_⟩, fun hne => ⟨hshort hne, h.exists_unsampled_issue hexit hne⟩⟩
  · rintro ⟨hfetch, _⟩
    by_contra hne
    have hmiss := hshort hne
    omega
  · rintro rfl
    have hnone (stamp : Instruction → ℕ) : (resultOf config s).distinctCycles stamp = 0 := by
      have hinstructions : s.instructions = [] :=
        List.length_eq_zero_iff.mp (placed_of_reachesIn h).length_eq
      change (s.instructions.map stamp).toFinset.card = 0
      rw [hinstructions]
      rfl
    rw [hnone, hnone]
    refine ⟨?_, Nat.zero_le _⟩
    change s.stats.stageBusyCycles.count .fetch = 0
    rw [h.stageBusyCycles_eq, List.countP_eq_zero]
    intro t ht
    have hu := placed_of_reachesIn (h.stateAfter (List.mem_range.mp ht))
    rw [SimState.busyWith, decide_eq_true_eq, hu.length_eq]
    exact Nat.not_lt_zero _

theorem fetch_issue_utilisation_iff_dependentPair :
    ∃ result, runWorkload 12 dependentPair {} = .ok (some result) ∧
      result.stats.stageBusyCycles.count .fetch + 1 =
        result.distinctCycles Instruction.enqueueCycle := by
  have hrun : ∃ result, runWorkload 12 dependentPair {} = .ok (some result) := ⟨_, rfl⟩
  obtain ⟨result, hrun⟩ := hrun
  exact ⟨result, hrun, ((fetch_issue_utilisation_iff dependentPair {} 12 result hrun).2
    (List.cons_ne_nil _ _)).1⟩

/-- Both instructions are fetched in one cycle and issued in two, and no counter sees any of
    it. -/
theorem not_fetch_issue_utilisation :
    ∃ result, runWorkload 12 dependentPair {} = .ok (some result) ∧
      result.stats.stageBusyCycles.count .fetch ≠
        result.distinctCycles Instruction.enqueueCycle ∧
      ¬result.distinctCycles Instruction.issueCycle ≤
        result.stats.stageBusyCycles.count .issue :=
  ⟨_, rfl, by decide, by decide⟩

end AccelSim
