import AccelSimLite.Simulator.Passes

/-!
# Runs of the simulator

The fuelled `runWorkload` returns exactly the end states of runs of the loop, so
a property of every run is a property of every state that `ReachesIn` relates to
the initial one.
-/

namespace AccelSim

/-! ### The states between the passes -/

/-- After the dispatch pass of an iteration whose dispatch pass starts in `t`. -/
abbrev afterDispatch (config : SimulatorConfig) (t : SimState) : SimState := dispatchPass config t

/-- After its issue pass. -/
abbrev afterIssue (config : SimulatorConfig) (t : SimState) : SimState :=
  issuePass config (afterDispatch config t)

/-- After its loop into `dispatch_q`. -/
abbrev afterEnter (config : SimulatorConfig) (t : SimState) : SimState :=
  enterDispatch config (afterIssue config t)

/-- After its decode pass. -/
abbrev afterDecode (config : SimulatorConfig) (t : SimState) : SimState :=
  decodePass config (afterEnter config t)

/-- After its fetch pass. -/
abbrev afterFetch (config : SimulatorConfig) (t : SimState) : SimState :=
  fetchPass config (afterDecode config t)

theorem scheduleCycle_eq (config : SimulatorConfig) (t : SimState) :
    scheduleCycle config t = recordCycle (afterFetch config t) := rfl

theorem cycleBody_ok_iff {config : SimulatorConfig} {s s' : SimState} :
    cycleBody config s = .ok s' ↔
      ∃ t, dispatchStart s = .ok t ∧ s' = scheduleCycle config t := by
  unfold cycleBody
  cases dispatchStart s with
  | error e => simp
  | ok t => simp [eq_comm]

theorem dispatchStart_cycle {s t : SimState} (h : dispatchStart s = .ok t) : t.cycle = s.cycle := by
  obtain ⟨_, _, rfl⟩ := (executeTick_ok_iff _ _).mp h
  rw [retirePass_eq]
  rfl

theorem scheduleCycle_cycle (config : SimulatorConfig) (s : SimState) :
    (scheduleCycle config s).cycle = s.cycle + 1 := by
  simp only [scheduleCycle, recordCycle, fetchPass_eq, decodePass_eq, enterDispatch_eq,
    issuePass_eq, dispatchPass_eq]
  rfl

theorem ReachesIn.cycle_eq {workload : List Instruction} {config : SimulatorConfig} {k : ℕ}
    {s : SimState} (h : ReachesIn workload config k s) : s.cycle = k :=
  WhileLoop.ReachesIn.invariant (fun k s => s.cycle = k) h rfl fun j v w hv _ hb => by
    obtain ⟨t, ht, rfl⟩ := cycleBody_ok_iff.mp hb
    rw [scheduleCycle_cycle, dispatchStart_cycle ht, hv]

theorem hasWorkLeft_eq_false {s : SimState} :
    hasWorkLeft s = false ↔
      s.instructions.length ≤ s.nextToFetch ∧ s.fetchQ = [] ∧ s.decodeQ = [] ∧ s.dispatchQ = [] ∧
        s.readyQ = [] ∧ s.retireQ = [] ∧ s.execSlots = [] := by
  simp [hasWorkLeft, and_assoc]

/-- `run_workload` returns what the exit state of a run gives. -/
theorem runWorkload_eq_some_iff {fuel : ℕ} {workload : List Instruction}
    {config : SimulatorConfig} {result : RunResult} :
    runWorkload fuel workload config = .ok (some result) ↔
      ∃ k s, k ≤ fuel ∧ ReachesIn workload config k s ∧ hasWorkLeft s = false ∧
        result = resultOf config s := by
  unfold runWorkload
  constructor
  · intro h
    cases hrun : WhileLoop.run hasWorkLeft (cycleBody config) fuel (initState workload) with
    | error e => simp [hrun, Except.map] at h
    | ok final =>
      cases final with
      | none => simp [hrun, Except.map] at h
      | some s =>
        obtain ⟨k, hk, hr, hexit⟩ := WhileLoop.run_eq_some_iff.mp hrun
        simp only [hrun, Except.map, Option.map_some, Except.ok.injEq, Option.some.injEq] at h
        exact ⟨k, s, hk, hr, hexit, h.symm⟩
  · rintro ⟨k, s, hk, hr, hexit, rfl⟩
    rw [WhileLoop.run_eq_some_iff.mpr ⟨k, hk, hr, hexit⟩]
    rfl

theorem terminates_iff {workload : List Instruction} {config : SimulatorConfig} :
    Terminates workload config ↔
      ∃ k s, ReachesIn workload config k s ∧ hasWorkLeft s = false := by
  constructor
  · rintro ⟨fuel, result, h⟩
    obtain ⟨k, s, _, hr, hexit, _⟩ := runWorkload_eq_some_iff.mp h
    exact ⟨k, s, hr, hexit⟩
  · rintro ⟨k, s, hr, hexit⟩
    exact ⟨k, _, runWorkload_eq_some_iff.mpr ⟨k, s, le_rfl, hr, hexit, rfl⟩⟩

theorem ReachesIn.eq_stateAfter {workload : List Instruction} {config : SimulatorConfig} {k : ℕ}
    {s : SimState} (h : ReachesIn workload config k s) : s = stateAfter workload config k :=
  WhileLoop.ReachesIn.eq_after h

end AccelSim
