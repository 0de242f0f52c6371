import AccelSimLite.Simulator.FrontEnd

/-!
# What the statistics sample

At the end of every cycle the loop body bumps a counter for each stage that is busy
and raises a maximum for each queue. After some cycles a counter is the number of
cycles that ended busy, and a maximum the largest occupancy at the end of a cycle.

## Main definitions

- `SimState.busyWith`, `SimState.occupancyOf` — what is sampled

## Main results

- `ReachesIn.stageBusyCycles_eq` — the counters
- `ReachesIn.maxQueueOccupancy_spec` — the maxima
-/

namespace AccelSim

namespace SimState

/-- The condition under which a cycle that ends in a state bumps a counter. -/
def busyWith (s : SimState) : BusyStage → Bool
  | .fetch => s.nextToFetch < s.instructions.length
  | .decode => !s.fetchQ.isEmpty
  | .dispatch => !s.decodeQ.isEmpty || !s.dispatchQ.isEmpty
  | .issue => !s.readyQ.isEmpty
  | .execute => !s.execSlots.isEmpty
  | .retire => !s.retireQ.isEmpty

/-- The size that a cycle that ends in a state offers to a maximum. -/
def occupancyOf (s : SimState) : QueueName → ℕ
  | .fetchQ => s.fetchQ.length
  | .decodeQ => s.decodeQ.length
  | .dispatchQ => s.dispatchQ.length
  | .readyQ => s.readyQ.length
  | .executeSlots => s.execSlots.length
  | .retireQ => s.retireQ.length

end SimState

theorem count_bumpBusyIf (busy : Bool) (stage : BusyStage) (m : Counters BusyStage)
    (x : BusyStage) :
    (bumpBusyIf busy stage m).count x = m.count x + if x = stage ∧ busy then 1 else 0 := by
  cases busy
  · simp [bumpBusyIf]
  · simp [bumpBusyIf]

/-! ### One cycle -/

theorem recordCycle_busy (s : SimState) (stage : BusyStage) :
    (recordCycle s).stats.stageBusyCycles.count stage =
      s.stats.stageBusyCycles.count stage + if s.busyWith stage then 1 else 0 := by
  simp only [recordCycle, count_bumpBusyIf]
  cases stage <;> simp [SimState.busyWith]

theorem recordCycle_occupancy (s : SimState) (queue : QueueName) :
    (recordCycle s).stats.maxQueueOccupancy.count queue =
      max (s.stats.maxQueueOccupancy.count queue) (s.occupancyOf queue) := by
  simp only [recordCycle, Counters.count_updateMax]
  cases queue <;> simp [SimState.occupancyOf]

theorem recordCycle_occupancy_isSome (s : SimState) (queue : QueueName) :
    ((recordCycle s).stats.maxQueueOccupancy.find? queue).isSome := by
  simp only [recordCycle, Counters.isSome_find?_updateMax]
  cases queue <;> simp

namespace Iteration

variable {workload : List Instruction} {config : SimulatorConfig} {s t s' : SimState}

theorem samples_unchanged (it : Iteration workload config s t s') :
    (afterFetch config t).stats.stageBusyCycles = s.stats.stageBusyCycles ∧
      (afterFetch config t).stats.maxQueueOccupancy = s.stats.maxQueueOccupancy := by
  obtain ⟨_, _, ht⟩ := (executeTick_ok_iff _ _).mp it.start
  have hstart : t.stats.stageBusyCycles = s.stats.stageBusyCycles ∧
      t.stats.maxQueueOccupancy = s.stats.maxQueueOccupancy := by
    rw [ht, retirePass_eq]
    exact ⟨rfl, rfl⟩
  rw [← hstart.1, ← hstart.2]
  simp only [afterFetch, fetchPass_eq, decodePass_eq, enterDispatch_eq, afterIssue, issuePass_eq,
    afterDispatch, dispatchPass_eq]
  exact ⟨rfl, rfl⟩

theorem busy_finish (it : Iteration workload config s t s') (stage : BusyStage) :
    s'.stats.stageBusyCycles.count stage =
      s.stats.stageBusyCycles.count stage + if s'.busyWith stage then 1 else 0 := by
  rw [it.finish, recordCycle_busy, it.samples_unchanged.1]
  cases stage <;> rfl

theorem occupancy_finish (it : Iteration workload config s t s') (queue : QueueName) :
    s'.stats.maxQueueOccupancy.count queue =
      max (s.stats.maxQueueOccupancy.count queue) (s'.occupancyOf queue) := by
  rw [it.finish, recordCycle_occupancy, it.samples_unchanged.2]
  cases queue <;> rfl

end Iteration

/-! ### A whole run -/

/-- A counter is the number of cycles that ended with its stage busy. -/
theorem ReachesIn.stageBusyCycles_eq {workload : List Instruction} {config : SimulatorConfig}
    {k : ℕ} {s : SimState} (h : ReachesIn workload config k s) (stage : BusyStage) :
    s.stats.stageBusyCycles.count stage = (List.range k).countP
      fun t => (AccelSim.stateAfter workload config (t + 1)).busyWith stage := by
  have hinv : s.stats.stageBusyCycles.count stage = (List.range s.cycle).countP
      fun t => (AccelSim.stateAfter workload config (t + 1)).busyWith stage := by
    refine h.keeps (fun s => s.stats.stageBusyCycles.count stage = (List.range s.cycle).countP
      fun t => (AccelSim.stateAfter workload config (t + 1)).busyWith stage) ?_ ?_
    · cases stage <;> rfl
    · intro j u t v hu hv it ih
      rw [it.busy_finish, ih, it.cycle_finish, List.range_succ, List.countP_append, hu.cycle_eq,
        List.countP_singleton, hv.eq_stateAfter]
  rwa [h.cycle_eq] at hinv

/-- After a cycle there is an entry for every queue. -/
theorem ReachesIn.maxQueueOccupancy_isSome {workload : List Instruction} {config : SimulatorConfig}
    {k : ℕ} {s : SimState} (h : ReachesIn workload config k s) (hk : 0 < k) (queue : QueueName) :
    (s.stats.maxQueueOccupancy.find? queue).isSome := by
  obtain ⟨t, it⟩ := h.iteration_at (Nat.sub_lt hk Nat.one_pos)
  rw [h.eq_stateAfter, ← Nat.sub_add_cancel hk, it.finish]
  exact recordCycle_occupancy_isSome _ queue

/-- No cycle ends with more in a queue than its maximum, and some cycle ends with as much,
    unless the maximum is zero. -/
theorem ReachesIn.maxQueueOccupancy_spec {workload : List Instruction} {config : SimulatorConfig}
    {k : ℕ} {s : SimState} (h : ReachesIn workload config k s) (queue : QueueName) :
    (∀ t, t < k → (AccelSim.stateAfter workload config (t + 1)).occupancyOf queue ≤
        s.stats.maxQueueOccupancy.count queue) ∧
      (s.stats.maxQueueOccupancy.count queue = 0 ∨ ∃ t, t < k ∧
        (AccelSim.stateAfter workload config (t + 1)).occupancyOf queue =
          s.stats.maxQueueOccupancy.count queue) := by
  have hinv : (∀ t, t < s.cycle → (AccelSim.stateAfter workload config (t + 1)).occupancyOf queue ≤
        s.stats.maxQueueOccupancy.count queue) ∧
      (s.stats.maxQueueOccupancy.count queue = 0 ∨ ∃ t, t < s.cycle ∧
        (AccelSim.stateAfter workload config (t + 1)).occupancyOf queue =
          s.stats.maxQueueOccupancy.count queue) := by
    refine h.keeps (fun s =>
      (∀ t, t < s.cycle → (AccelSim.stateAfter workload config (t + 1)).occupancyOf queue ≤
        s.stats.maxQueueOccupancy.count queue) ∧
      (s.stats.maxQueueOccupancy.count queue = 0 ∨ ∃ t, t < s.cycle ∧
        (AccelSim.stateAfter workload config (t + 1)).occupancyOf queue =
          s.stats.maxQueueOccupancy.count queue)) ?_ ?_
    · exact ⟨fun t ht => absurd ht (Nat.not_lt_zero t), .inl rfl⟩
    · intro j u t v hu hv it ih
      have hlast : (AccelSim.stateAfter workload config (u.cycle + 1)).occupancyOf queue =
          v.occupancyOf queue := by rw [hu.cycle_eq, ← hv.eq_stateAfter]
      rw [it.occupancy_finish, it.cycle_finish]
      constructor
      · intro n hn
        rcases Nat.lt_succ_iff_lt_or_eq.mp hn with hlt | rfl
        · exact (ih.1 n hlt).trans (le_max_left _ _)
        · exact hlast.trans_le (le_max_right _ _)
      · rcases le_total (v.occupancyOf queue) (u.stats.maxQueueOccupancy.count queue) with hle | hle
        · rw [max_eq_left hle]
          refine ih.2.imp id ?_
          rintro ⟨n, hn, heq⟩
          exact ⟨n, Nat.lt_succ_of_lt hn, heq⟩
        · rw [max_eq_right hle]
          exact .inr ⟨u.cycle, Nat.lt_succ_self _, hlast⟩
  rwa [h.cycle_eq] at hinv

end AccelSim
