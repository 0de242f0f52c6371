import AccelSimLite.Simulator.ListScheduling

/-!
# The top bottleneck of a run

A model of `Stats::top_bottleneck`, which names the stall reason that a run has been
charged most often. It names none exactly for the runs in which nothing has waited but for
the widths.

## Main definitions

- `StallReason.name` — the keys of `stall_counts`
- `Stats.topBottleneck` — the function
- `WaitsForWidthsOnly` — a cycle in which nothing waits for anything but a width

## Main results

- `top_bottleneck_spec` — what the name says of the run
-/

namespace AccelSim

def StallReason.name : StallReason → String
  | .dispatchQueueFull => "DispatchQueueFull"
  | .noComputeUnit => "NoComputeUnit"
  | .noMemoryPort => "NoMemoryPort"
  | .readyQueueFull => "ReadyQueueFull"
  | .waitingDependency => "WaitingDependency"

/-- The order of the keys is that of their names. -/
theorem StallReason.name_lt_iff (a b : StallReason) : a.name < b.name ↔ a < b := by
  cases a <;> cases b <;> decide

theorem StallReason.name_ne_none (reason : StallReason) : reason.name ≠ "None" := by
  cases reason <;> decide

def Stats.topBottleneck (stats : Stats) : String :=
  (Counters.scanMax StallReason.name ("None", 0) stats.stallCounts.entries).1

theorem Stats.topBottleneck_eq_none_iff (stats : Stats) :
    stats.topBottleneck = "None" ↔ ∀ reason, stats.stallCounts.count reason = 0 := by
  rcases Counters.scanMax_entries StallReason.name "None" stats.stallCounts with
    ⟨hzero, hname⟩ | ⟨reason, hname, hpos, _⟩
  · exact iff_of_true hname hzero
  · refine iff_of_false (fun hnone => ?_) fun hzero => hpos.ne' (hzero reason)
    exact reason.name_ne_none (hname.symm.trans hnone)

/-! ### Cycles without a stall -/

/-- From a state at the head of the loop, the dispatch pass leaves nothing, the issue pass
    puts back only what it finds the width used up for, and the loop into `dispatch_q`
    moves as many as its width. -/
def WaitsForWidthsOnly (config : SimulatorConfig) (s : SimState) : Prop :=
  ∀ t, dispatchStart s = .ok t →
    let dispatched := dispatchPass config t
    let issued := issuePass config dispatched
    dispatched.dispatchQ = [] ∧ widthHolds config dispatched = issued.readyQ.length ∧
      (enterDispatch config issued).decodeQ = issued.decodeQ.drop config.dispatchWidth

theorem dispatchStalls_eq_nil_iff (config : SimulatorConfig) (t : SimState) :
    dispatchStalls config t = [] ↔ (dispatchPass config t).dispatchQ = [] := by
  rw [dispatchPass_eq]
  change _ ↔ dispatchHeld config t = []
  rw [dispatchStalls, dispatchHeld, Admission.kept, List.map_eq_nil_iff, List.map_eq_nil_iff]

theorem issueStalls_eq_nil_iff (config : SimulatorConfig) (t : SimState) :
    (issueStalls config t).reduceOption = [] ↔
      widthHolds config t = (issuePass config t).readyQ.length := by
  have hcount := countP_issueStalls_add config t
  have hall : ∀ reason ∈ (issueStalls config t).reduceOption, reason.holds = true := by
    intro reason hr
    obtain ⟨⟨i, _⟩, hi, hsome⟩ := List.mem_map.mp (List.reduceOption_mem_iff.mp hr)
    obtain ⟨_, _, _, hv⟩ := Admission.mem_refused_split hi
    exact (issueVisit_error hv).2 reason hsome
  rw [List.countP_eq_length.mpr hall, ← widthHolds_eq] at hcount
  rw [issuePass_eq]
  change _ ↔ _ = (issueHeld config t).length
  rw [← List.length_eq_zero_iff]
  omega

theorem enteringStalls_eq_nil_iff (config : SimulatorConfig) (t : SimState) :
    enteringStalls config t = [] ↔
      (enterDispatch config t).decodeQ = t.decodeQ.drop config.dispatchWidth := by
  have hle : dispatchRoom config t ≤ config.dispatchWidth := min_le_left _ _
  rw [enterDispatch_eq, enteringStalls]
  change _ ↔ t.decodeQ.drop (dispatchRoom config t) = _
  split_ifs with hfull
  · refine iff_of_false (by simp) fun hdrop => ?_
    have hlength := congrArg List.length hdrop
    rw [List.length_drop, List.length_drop] at hlength
    omega
  · refine iff_of_true rfl ?_
    rcases not_and_or.mp hfull with hroom | hroom
    · rw [Nat.le_antisymm hle (Nat.le_of_not_lt hroom)]
    · rw [List.drop_eq_nil_of_le (by omega), List.drop_eq_nil_of_le (by omega)]

variable {workload : List Instruction} {config : SimulatorConfig} {s t s' : SimState}

theorem Iteration.waitsForWidthsOnly_iff (it : Iteration workload config s t s') :
    WaitsForWidthsOnly config s ↔
      dispatchStalls config t = [] ∧
        (issueStalls config (afterDispatch config t)).reduceOption = [] ∧
          enteringStalls config (afterIssue config t) = [] := by
  rw [dispatchStalls_eq_nil_iff, issueStalls_eq_nil_iff, enteringStalls_eq_nil_iff]
  constructor
  · intro h
    exact h t it.start
  · intro h u hu
    obtain rfl : u = t := Except.ok.inj (hu.symm.trans it.start)
    exact h

/-- The counts are all zero after an iteration when they were before it and it waits for
    widths only. -/
theorem Iteration.noStalls_iff (it : Iteration workload config s t s') :
    (∀ reason, s'.stats.stallCounts.count reason = 0) ↔
      (∀ reason, s.stats.stallCounts.count reason = 0) ∧ WaitsForWidthsOnly config s := by
  rw [it.waitsForWidthsOnly_iff, it.stallCounts_finish]
  simp only [count_bumpAll_eq_zero_iff, List.eq_nil_iff_forall_not_mem]
  constructor
  · intro h
    exact ⟨fun r => (h r).1.1.1, fun r => (h r).1.1.2, fun r => (h r).1.2, fun r => (h r).2⟩
  · rintro ⟨hbefore, hdispatch, hissue, henter⟩ r
    exact ⟨⟨⟨hbefore r, hdispatch r⟩, hissue r⟩, henter r⟩

theorem ReachesIn.noStalls_iff {k : ℕ} (h : ReachesIn workload config k s) :
    (∀ reason, s.stats.stallCounts.count reason = 0) ↔
      ∀ j, j < k → WaitsForWidthsOnly config (AccelSim.stateAfter workload config j) := by
  have hinv : (∀ reason, s.stats.stallCounts.count reason = 0) ↔
      ∀ j, j < s.cycle → WaitsForWidthsOnly config (AccelSim.stateAfter workload config j) := by
    refine h.keeps (fun s => (∀ reason, s.stats.stallCounts.count reason = 0) ↔
      ∀ j, j < s.cycle → WaitsForWidthsOnly config (AccelSim.stateAfter workload config j)) ?_ ?_
    · refine iff_of_true (fun reason => ?_) fun j hj => absurd hj (Nat.not_lt_zero j)
      cases reason <;> rfl
    · intro j u t v hu _ it ih
      rw [it.noStalls_iff, ih, it.cycle_finish]
      have hlast : WaitsForWidthsOnly config u ↔
          WaitsForWidthsOnly config (AccelSim.stateAfter workload config u.cycle) := by
        rw [hu.cycle_eq, ← hu.eq_stateAfter]
      rw [hlast]
      exact Nat.forall_lt_succ_right.symm
  rwa [h.cycle_eq] at hinv

/-- **The top bottleneck**: it is `None` exactly for a run in whose cycles nothing waits but
    for a width, and otherwise the alphabetically first of the reasons that have been
    charged most often. -/
theorem top_bottleneck_spec (workload : List Instruction) (config : SimulatorConfig)
    (fuel : ℕ) (result : RunResult) (hrun : runWorkload fuel workload config = .ok (some result)) :
    (result.stats.topBottleneck = "None" ↔
      ∀ j, j < result.stats.totalCycles →
        WaitsForWidthsOnly config (stateAfter workload config j)) ∧
    ∀ reason : StallReason, result.stats.topBottleneck = reason.name ↔
      0 < result.stats.stallCounts.count reason ∧
        (∀ r, result.stats.stallCounts.count r ≤ result.stats.stallCounts.count reason) ∧
        ∀ r : StallReason, r.name < reason.name →
          result.stats.stallCounts.count r < result.stats.stallCounts.count reason := by
  obtain ⟨k, s, _, h, hexit, rfl⟩ := runWorkload_eq_some_iff.mp hrun
  constructor
  · rw [Stats.topBottleneck_eq_none_iff]
    change (∀ reason, s.stats.stallCounts.count reason = 0) ↔ ∀ j, j < s.cycle → _
    rw [h.noStalls_iff, h.cycle_eq]
  · intro reason
    simp only [StallReason.name_lt_iff]
    rcases Counters.scanMax_entries StallReason.name "None"
      (resultOf config s).stats.stallCounts with ⟨hzero, hname⟩ | ⟨top, hname, hpos, hmax, hfirst⟩
    · refine iff_of_false (fun heq => ?_) fun hpos => hpos.1.ne' (hzero reason)
      exact reason.name_ne_none (heq.symm.trans hname)
    · constructor
      · intro heq
        have hsame : top = reason := by
          have hnames := hname.symm.trans heq
          revert hnames
          cases top <;> cases reason <;> decide
        subst hsame
        exact ⟨hpos, hmax, hfirst⟩
      · rintro ⟨_, hmax', hfirst'⟩
        refine hname.trans (congrArg _ ?_)
        rcases lt_trichotomy top reason with hlt | heq | hlt
        · exact absurd (hfirst' top hlt) (Nat.not_lt.mpr (hmax reason))
        · exact heq
        · exact absurd (hfirst reason hlt) (Nat.not_lt.mpr (hmax' top))

theorem top_bottleneck_spec_dependentPair :
    ∃ result, runWorkload 12 dependentPair {} = .ok (some result) ∧
      result.stats.topBottleneck = "WaitingDependency" ∧
      ∃ j, j < result.stats.totalCycles ∧
        ¬WaitsForWidthsOnly {} (stateAfter dependentPair {} j) := by
  have hrun : ∃ result, runWorkload 12 dependentPair {} = .ok (some result) ∧
      result.stats.topBottleneck = "WaitingDependency" := ⟨_, rfl, by decide⟩
  obtain ⟨result, hrun, hname⟩ := hrun
  refine ⟨result, hrun, hname, ?_⟩
  by_contra hall
  push Not at hall
  have hnone := (top_bottleneck_spec dependentPair {} 12 result hrun).1.mpr hall
  rw [hname] at hnone
  exact absurd hnone (by decide)

end AccelSim
