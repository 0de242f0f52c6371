import AccelSimLite.Simulator.Comparison

/-!
# Greedy issue without overtaking

The rotations of the dispatch and issue passes hold an entry back only for want of a
resource, and keep the order of what they hold back: of two instructions of one class
of which the first waits for no more than the second, the first is issued first.

## Main results

- `Iteration.units_full_of_left` — what the issue pass leaves without using its width up
- `ReachesIn.issueCycle_le_of_nested` — no overtaking
- `greedy_issue` — both, and what the dispatch pass leaves, in every cycle
-/

namespace AccelSim

/-- The iteration of the loop that makes the passes of a cycle from `t`. -/
theorem ReachesIn.iteration_of_start {workload : List Instruction} {config : SimulatorConfig}
    {k : ℕ} {s t : SimState} (h : ReachesIn workload config k s) (ht : dispatchStart s = .ok t) :
    Iteration workload config s t (scheduleCycle config t) := by
  have hbody : cycleBody config s = .ok (scheduleCycle config t) :=
    cycleBody_ok_iff.mpr ⟨t, ht, rfl⟩
  obtain ⟨t', it⟩ := (placed_of_reachesIn h).iteration hbody
  obtain rfl : t' = t := Except.ok.inj (it.start.symm.trans ht)
  exact it

/-! ### What the passes leave behind -/

namespace Iteration

variable {workload : List Instruction} {config : SimulatorConfig} {s t s' : SimState}

theorem issued_eq (config : SimulatorConfig) (s : SimState) :
    ((issueIter config)^[s.readyQ.length] (s, 0)).2 = (issueMoved config s).length := by
  rw [issueIter_iterate config s.readyQ [] s 0 (List.append_nil _).symm]
  exact issueFinal_issued config s

/-- An issue pass with width left leaves an instruction only when the units of its class are
    all in use. -/
theorem units_full_of_left (it : Iteration workload config s t s') (hb : Balanced config s')
    (hwidth : (issueMoved config (afterDispatch config t)).length < config.issueWidth) {i : ℕ}
    (hi : i ∈ (afterIssue config t).readyQ) {memory : Bool}
    (hclass : isMemoryOp ((afterIssue config t).instr i).type = memory) :
    (afterIssue config t).inUse memory = config.units memory := by
  have hleft : i ∈ issueHeld config (afterDispatch config t) := by
    rwa [afterIssue, issuePass_eq] at hi
  obtain ⟨hmem, hnot⟩ := (Admission.mem_kept_iff it.nodup_readyQ_dispatched).mp hleft
  have hlt : i < workload.length :=
    ((it.issued.mem_iff .ready i).mp hi).1.trans_le it.issued.next_le
  have hof : OfClass workload memory i := ⟨hlt, it.issued.type_eq i ▸ hclass⟩
  have hsame : (afterIssue config t).inUse memory = s'.inUse memory := by
    rw [it.inUse_finish, afterIssue, issuePass_eq]
    rfl
  rw [hsame]
  refine Nat.le_antisymm (hb.inUse_le memory) ?_
  exact (it.issue_full_of_held hmem hnot hof).resolve_left (Nat.not_le.mpr hwidth)

/-- The dispatch pass leaves an instruction that waits for nothing only when the ready queue
    is full. -/
theorem ready_full_of_left (it : Iteration workload config s t s') {i : ℕ}
    (hi : i ∈ (afterDispatch config t).dispatchQ)
    (hdeps : ∀ dep ∈ ((afterDispatch config t).instr i).deps,
      dep ∈ (afterDispatch config t).retiredIds) :
    config.readyQueueCapacity ≤ (afterDispatch config t).readyQ.length := by
  have hleft : i ∈ dispatchHeld config t := by
    rwa [afterDispatch, dispatchPass_eq] at hi
  obtain ⟨hmem, hnot⟩ := (Admission.mem_kept_iff (it.started.nodup .dispatch)).mp hleft
  refine it.ready_full_of_held hmem hnot (depsSatisfied_iff.mpr ?_)
  have hids : (afterDispatch config t).retiredIds = t.retiredIds := by
    rw [afterDispatch, dispatchPass_eq]
    rfl
  rwa [it.dispatched.deps_eq, ← it.started.deps_eq, hids] at hdeps

end Iteration

/-! ### No overtaking -/

/-- Of two instructions of one class, the first in program order is issued no later when it
    waits for nothing that the second does not wait for. -/
theorem ReachesIn.issueCycle_le_of_nested {workload : List Instruction} {config : SimulatorConfig}
    {k : ℕ} {s : SimState} (h : ReachesIn workload config k s) {i j : ℕ} (hij : i < j)
    (hclass : isMemoryOp (programAt workload i).type = isMemoryOp (programAt workload j).type)
    (hdeps : (programAt workload i).deps ⊆ (programAt workload j).deps) (hj : s.Issued j) :
    s.Issued i ∧ (s.instr i).issueCycle ≤ (s.instr j).issueCycle := by
  have hnested : NestedDeps workload fun n => n = i ∨ n = j := by
    rintro a b hab _ (rfl | rfl) (rfl | rfl)
    · exact absurd hab (Nat.lt_irrefl _)
    · exact hdeps
    · exact absurd hij (Nat.lt_asymm hab)
    · exact absurd hab (Nat.lt_irrefl _)
  have hof : ∀ n, n = i ∨ n = j → isMemoryOp (programAt workload n).type =
      isMemoryOp (programAt workload i).type := by
    rintro n (rfl | rfl)
    · rfl
    · exact hclass.symm
  have hordered {m : ℕ} {u : SimState} (hu : ReachesIn workload config m u) (hj : u.Issued j) :
      u.Issued i := by
    have hsatisfied := hnested.satisfiedInOrder config
    exact issueOrdered_of_reachesIn hsatisfied hof hu i j hij (.inl rfl) (.inr rfl) hj
  refine ⟨hordered h hj, ?_⟩
  -- in the state after the cycle that issues `j`, `i` has been issued
  have hlt : (s.instr j).issueCycle < k :=
    ((stamped_issue.reached_iff h h le_rfl j).1.mp hj).2
  have hu := h.stateAfter hlt
  have hissued := (stamped_issue.reached_iff hu h hlt j).1.mpr ⟨hj, Nat.lt_succ_self _⟩
  exact Nat.le_of_lt_succ ((stamped_issue.reached_iff hu h hlt i).1.mp (hordered hu hissued)).2

/-! ### The theorem -/

/-- **Greedy issue without overtaking**, for every workload and configuration. In every cycle:
    when the issue pass has issued less than its width, whatever it leaves in the ready queue
    finds all units of its class in use; what the dispatch pass leaves with its dependencies
    retired meets a full ready queue. And in every state at the head of the loop, an issued
    instruction has behind it every earlier one of its class that waits for no more. -/
theorem greedy_issue (workload : List Instruction) (config : SimulatorConfig) :
    (∀ k s t, ReachesIn workload config k s → dispatchStart s = .ok t →
      let dispatched := dispatchPass config t
      let issued := issuePass config dispatched
      (((issueIter config)^[dispatched.readyQ.length] (dispatched, 0)).2 < config.issueWidth →
        ∀ i ∈ issued.readyQ,
          (isMemoryOp (issued.instr i).type = true → issued.memoryInUse = config.memoryPorts) ∧
          (isMemoryOp (issued.instr i).type = false →
            issued.computeInUse = config.computeUnits)) ∧
      ∀ i ∈ dispatched.dispatchQ,
        (∀ dep ∈ (dispatched.instr i).deps, dep ∈ dispatched.retiredIds) →
          config.readyQueueCapacity ≤ dispatched.readyQ.length) ∧
    ∀ i j, i < j → j < workload.length →
      isMemoryOp (programAt workload i).type = isMemoryOp (programAt workload j).type →
      (programAt workload i).deps ⊆ (programAt workload j).deps →
      ∀ k s, ReachesIn workload config k s → s.Issued j →
        s.Issued i ∧ (s.instr i).issueCycle ≤ (s.instr j).issueCycle := by
  constructor
  · intro k s t h ht
    have it := h.iteration_of_start ht
    have hb := it.balanced (balanced_of_reachesIn h)
    constructor
    · intro hwidth i hi
      rw [Iteration.issued_eq] at hwidth
      exact ⟨fun hclass => it.units_full_of_left hb hwidth hi hclass,
        fun hclass => it.units_full_of_left hb hwidth hi hclass⟩
    · intro i hi hdeps
      exact it.ready_full_of_left hi hdeps
  · intro i j hij _ hclass hdeps k s h hj
    exact h.issueCycle_le_of_nested hij hclass hdeps hj

end AccelSim
