import AccelSimLite.Simulator.ListScheduling
import AccelSimLite.Simulator.Termination

/-!
# When a run ends

Any of the numbers of a configuration can be zero, and a class of units that no
instruction of the workload uses may well have none. Here is the condition under which
the loop ends for every configuration.

## Main definitions

- `SimulatorConfig.Serves` — the configuration has what the workload uses
- `SimulatorConfig.furnished` — the configuration with a unit of each class at least

## Main results

- `reachesIn_furnished` — units of an unused class change nothing
- `terminates_iff_serves` — the exact condition
-/

namespace AccelSim

/-- The configuration has some of everything that the instructions pass through. -/
structure SimulatorConfig.Serves (config : SimulatorConfig) (workload : List Instruction) :
    Prop where
  fetchWidth : 1 ≤ config.fetchWidth
  decodeWidth : 1 ≤ config.decodeWidth
  dispatchWidth : 1 ≤ config.dispatchWidth
  issueWidth : 1 ≤ config.issueWidth
  readyQueueCapacity : 1 ≤ config.readyQueueCapacity
  units : ∀ i ∈ workload, 1 ≤ config.units (isMemoryOp i.type)

/-! ### Units that nothing uses -/

/-- The configuration, with a unit more of each class that has none. -/
def SimulatorConfig.furnished (config : SimulatorConfig) : SimulatorConfig :=
  { config with
    computeUnits := max 1 config.computeUnits
    memoryPorts := max 1 config.memoryPorts }

theorem SimulatorConfig.Serves.issueVisit_eq {config : SimulatorConfig}
    {workload : List Instruction} (h : config.Serves workload) {s : SimState}
    (hp : Placed workload s) {i : ℕ} (hi : i ∈ s.readyQ) (use : IssueUse) :
    issueVisit config.furnished s use i = issueVisit config s use i := by
  have hlt : i < workload.length := ((hp.mem_iff .ready i).mp hi).1.trans_le hp.next_le
  have hunits := h.units _ (programAt_mem hlt)
  rw [← hp.type_eq] at hunits
  cases hclass : isMemoryOp (s.instr i).type with
  | true =>
    rw [hclass] at hunits
    have hports : config.furnished.memoryPorts = config.memoryPorts := max_eq_right hunits
    simp only [issueVisit, hclass, hports, if_true]
    rfl
  | false =>
    rw [hclass] at hunits
    have hcompute : config.furnished.computeUnits = config.computeUnits := max_eq_right hunits
    simp only [issueVisit, hclass, hcompute, Bool.false_eq_true, if_false]
    rfl

theorem SimulatorConfig.Serves.issuePass_eq {config : SimulatorConfig}
    {workload : List Instruction} (h : config.Serves workload) {s : SimState}
    (hp : Placed workload s) : issuePass config.furnished s = issuePass config s := by
  obtain ⟨htaken, hrefused, hfinal⟩ :=
    Admission.visits_congr (fun use i hi => h.issueVisit_eq hp hi use) s.issueUse
  rw [AccelSim.issuePass_eq, AccelSim.issuePass_eq, issueMoved, issueMoved, issueHeld, issueHeld,
    issueFinal, issueFinal, issueStalls, issueStalls, Admission.kept, Admission.kept, htaken,
    hrefused, hfinal]

theorem SimulatorConfig.Serves.scheduleCycle_eq {config : SimulatorConfig}
    {workload : List Instruction} (h : config.Serves workload) {t : SimState}
    (hp : Placed workload (dispatchPass config t)) :
    scheduleCycle config.furnished t = scheduleCycle config t := by
  have hdispatch : dispatchPass config.furnished t = dispatchPass config t := by
    rw [dispatchPass_eq, dispatchPass_eq]
    rfl
  have henter : ∀ s, enterDispatch config.furnished s = enterDispatch config s := by
    intro s
    rw [enterDispatch_eq, enterDispatch_eq]
    rfl
  simp only [scheduleCycle, hdispatch, h.issuePass_eq hp, henter]
  rfl

/-- **Units of a class that no instruction uses change nothing.** -/
theorem reachesIn_furnished {config : SimulatorConfig} {workload : List Instruction}
    (h : config.Serves workload) {k : ℕ} {s : SimState}
    (hs : ReachesIn workload config.furnished k s) : ReachesIn workload config k s := by
  refine WhileLoop.ReachesIn.invariant (fun k s => ReachesIn workload config k s) hs .zero ?_
  intro k u v hu hwork hbody
  obtain ⟨t, ht, rfl⟩ := cycleBody_ok_iff.mp hbody
  have it := hu.iteration_of_start ht
  exact .step hu hwork (cycleBody_ok_iff.mpr ⟨t, ht, h.scheduleCycle_eq it.dispatched⟩)

/-! ### What a run that ends has found -/

namespace ReachesIn

variable {workload : List Instruction} {config : SimulatorConfig} {k : ℕ} {s : SimState}

theorem readyQueueCapacity_pos (h : ReachesIn workload config k s)
    (hexit : hasWorkLeft s = false) (hne : workload ≠ []) : 1 ≤ config.readyQueueCapacity := by
  by_contra hzero
  have hnone : ∀ i, ¬s.Reached .ready i := by
    refine h.keeps (fun s => ∀ i, ¬s.Reached .ready i) (fun i hi => Nat.not_lt_zero i hi.1) ?_
    intro _ u t v hu _ it hnone i hready
    have hmem := (it.mem_readyQ_dispatched_iff i).mpr
      ⟨hready, fun hissued => hnone i (hissued.mono (by decide))⟩
    have hle := it.length_readyQ_dispatched_le (withinCapacity_of_reachesIn hu)
    have hpos := List.length_pos_of_mem hmem
    omega
  have hdone := (placed_of_reachesIn h).reached_done_of_exit hexit (List.length_pos_iff.mpr hne)
  exact hnone 0 (hdone.mono (by decide))

theorem serves (h : ReachesIn workload config k s) (hexit : hasWorkLeft s = false)
    (hne : workload ≠ []) : config.Serves workload := by
  have hfront := h.frontWidth_pos hexit hne
  rw [SimulatorConfig.frontWidth, lt_min_iff, lt_min_iff] at hfront
  constructor
  case fetchWidth => exact hfront.1
  case decodeWidth => exact hfront.2.1
  case dispatchWidth => exact hfront.2.2
  case issueWidth => exact h.issueWidth_pos hexit hne
  case readyQueueCapacity => exact h.readyQueueCapacity_pos hexit hne
  case units =>
    intro i hi
    rw [← map_programAt_range workload] at hi
    obtain ⟨p, hp, rfl⟩ := List.mem_map.mp hi
    have hpos := h.units_pos hexit (List.mem_range.mp hp)
    rwa [(placed_of_reachesIn h).type_eq] at hpos

end ReachesIn

theorem exists_exit_iff (workload : List Instruction) (config : SimulatorConfig)
    (hids : (workload.map fun i => i.id).Nodup) (hnamed : DepsNamed workload) :
    (∃ k s, ReachesIn workload config k s ∧ hasWorkLeft s = false) ↔
      workload = [] ∨ config.Serves workload ∧ Acyclic (DependsOn workload) ∧
        ∀ p, p < workload.length →
          (waiters workload p).card < config.dispatchQueueCapacity := by
  by_cases hne : workload = []
  · subst hne
    exact iff_of_true ⟨0, initState [], .zero, rfl⟩ (.inl rfl)
  rw [or_iff_right hne]
  constructor
  · rintro ⟨k, s, h, hexit⟩
    have hterm := terminates_iff.mpr ⟨k, s, h, hexit⟩
    refine ⟨h.serves hexit hne, fun i hcycle => ?_, fun p hp => ?_⟩
    · refine not_terminates_of_never_done (lt_length_of_cycle hcycle) ?_ hterm
      intro k s h hdone
      exact not_reached_ready_of_cycle hids hcycle h (hdone.mono (by decide))
    · by_contra hfull
      exact not_terminates_of_full hids hp (Nat.le_of_not_lt hfull) hterm
  · rintro ⟨hserves, hac, hroom⟩
    have hpos : config.furnished.Positive := by
      constructor
      case fetchWidth => exact hserves.fetchWidth
      case decodeWidth => exact hserves.decodeWidth
      case dispatchWidth => exact hserves.dispatchWidth
      case issueWidth => exact hserves.issueWidth
      case computeUnits => exact le_max_left _ _
      case memoryPorts => exact le_max_left _ _
      case dispatchQueueCapacity =>
        exact Nat.zero_lt_of_lt (hroom 0 (List.length_pos_iff.mpr hne))
      case readyQueueCapacity => exact hserves.readyQueueCapacity
    obtain ⟨k, s, _, h, hexit⟩ := exists_exit_of_card_waiters_lt hids hnamed hac hpos hroom
    exact ⟨k, s, reachesIn_furnished hserves h, hexit⟩

/-- **When a run ends**: exactly when there is nothing to do, or the configuration has some
    of everything that the workload uses, no instruction depends on itself, and at every
    position the instructions that wait for it or a later one leave room in the dispatch
    queue. -/
theorem terminates_iff_serves (workload : List Instruction) (config : SimulatorConfig)
    (hids : (workload.map fun i => i.id).Nodup) (hnamed : DepsNamed workload) :
    Terminates workload config ↔
      workload = [] ∨ config.Serves workload ∧ Acyclic (DependsOn workload) ∧
        ∀ p, p < workload.length →
          (waiters workload p).card < config.dispatchQueueCapacity :=
  terminates_iff.trans (exists_exit_iff workload config hids hnamed)

/-- Compute operations run without a memory port, and not without a compute unit. -/
theorem terminates_iff_serves_dependentPair :
    Terminates dependentPair { memoryPorts := 0 } ∧
      ¬Terminates dependentPair { computeUnits := 0 } := by
  have hnamed : DepsNamed dependentPair := by
    unfold DepsNamed
    decide
  constructor
  · refine (terminates_iff_serves dependentPair _ (by decide) hnamed).mpr (.inr ⟨?_, ?_, ?_⟩)
    · constructor <;> decide
    · refine ProgramOrdered.acyclic ?_ (by decide)
      unfold ProgramOrdered
      decide
    · intro p hp
      exact (card_waiters_le dependentPair p).trans_lt (hp.trans (by decide))
  · intro hterm
    rcases (terminates_iff_serves dependentPair _ (by decide) hnamed).mp hterm with hnil | h
    · exact absurd hnil (by decide)
    · exact absurd (h.1.units { id := 7, executeLatency := 3 } (by decide)) (by decide)

end AccelSim
