import AccelSimLite.Simulator.Dependencies
import AccelSimLite.Simulator.Resources

/-!
# What a run depends on

Two workloads have the same shape when they agree, position by position, on the
class of the instruction, on the cycles it executes for, and on the positions it
depends on. Their runs then go through the same schedule: in every cycle the
queues, the units in use and the statistics are the same, and so are the
timestamps of everything that has got that far.

## Main definitions

- `SameShape` — what the scheduler can see of two workloads is the same
- `SameSchedule` — two states that differ at most in their instructions
- `Paired` — two runs after the same number of iterations
- `SameTimestamps` — two records of an instruction with the same timestamps
-/

namespace AccelSim

/-- Two workloads between which the scheduler cannot tell. -/
structure SameShape (workload workload' : List Instruction) : Prop where
  length_eq : workload.length = workload'.length
  memory_eq : ∀ i, i < workload.length →
    isMemoryOp (programAt workload i).type = isMemoryOp (programAt workload' i).type
  ticks_eq : ∀ i, i < workload.length →
    (programAt workload i).ticks = (programAt workload' i).ticks
  dependsOn_iff : ∀ i d, DependsOn workload i d ↔ DependsOn workload' i d

theorem programAt_of_length_le {workload : List Instruction} {i : ℕ} (hi : workload.length ≤ i) :
    programAt workload i = default := by
  rw [programAt, List.getD_eq_getElem?_getD, List.getElem?_eq_none hi, Option.getD_none]

namespace SameShape

variable {workload workload' : List Instruction}

/-- Behind the end both workloads are the default instruction. -/
theorem program_cases (h : SameShape workload workload') (i : ℕ) :
    i < workload.length ∨ programAt workload i = programAt workload' i := by
  by_cases hi : i < workload.length
  · exact .inl hi
  · have hle := Nat.le_of_not_lt hi
    right
    rw [programAt_of_length_le hle, programAt_of_length_le (h.length_eq ▸ hle)]

theorem memory (h : SameShape workload workload') (i : ℕ) :
    isMemoryOp (programAt workload i).type = isMemoryOp (programAt workload' i).type := by
  obtain hi | he := h.program_cases i
  · exact h.memory_eq i hi
  · rw [he]

theorem ticks (h : SameShape workload workload') (i : ℕ) :
    (programAt workload i).ticks = (programAt workload' i).ticks := by
  obtain hi | he := h.program_cases i
  · exact h.ticks_eq i hi
  · rw [he]

end SameShape

/-! ### Slots -/

/-- A slot with no ticks left counts as a slot on its last tick. -/
def ExecSlot.clamped (slot : ExecSlot) : ExecSlot := { slot with remaining := max 1 slot.remaining }

theorem finishingSlots_map_clamped (slots : List ExecSlot) :
    finishingSlots (slots.map ExecSlot.clamped) = (finishingSlots slots).map ExecSlot.clamped := by
  unfold finishingSlots
  rw [List.filter_map]
  congr 1
  apply List.filter_congr
  intro slot _
  show decide (max 1 slot.remaining ≤ 1) = decide (slot.remaining ≤ 1)
  exact decide_eq_decide.mpr (by omega)

/-- A slot that survives a tick had more than one to go. -/
theorem survivingSlots_map_clamped (slots : List ExecSlot) :
    survivingSlots (slots.map ExecSlot.clamped) = survivingSlots slots := by
  unfold survivingSlots
  rw [List.filter_map, List.map_map]
  have hfilter : slots.filter ((fun slot => decide (1 < slot.remaining)) ∘ ExecSlot.clamped) =
      slots.filter fun slot => 1 < slot.remaining := by
    apply List.filter_congr
    intro slot _
    show decide (1 < max 1 slot.remaining) = decide (1 < slot.remaining)
    exact decide_eq_decide.mpr (by omega)
  rw [hfilter]
  apply List.map_congr_left
  intro slot hslot
  have hrem : 1 < slot.remaining := by simpa using (List.mem_filter.mp hslot).2
  show ExecSlot.mk slot.index (max 1 slot.remaining - 1) slot.usesMemory = _
  rw [max_eq_right hrem.le]

/-- What a tick reads of the slots does not see the difference. -/
theorem slots_agree {slots slots' : List ExecSlot}
    (h : slots.map ExecSlot.clamped = slots'.map ExecSlot.clamped) :
    survivingSlots slots = survivingSlots slots' ∧
      (finishingSlots slots).map (fun slot => slot.index) =
        (finishingSlots slots').map (fun slot => slot.index) ∧
      memorySlots (finishingSlots slots) = memorySlots (finishingSlots slots') ∧
      computeSlots (finishingSlots slots) = computeSlots (finishingSlots slots') := by
  have hfinish : (finishingSlots slots).map ExecSlot.clamped =
      (finishingSlots slots').map ExecSlot.clamped := by
    rw [← finishingSlots_map_clamped, h, finishingSlots_map_clamped]
  refine ⟨?_, ?_, ?_, ?_⟩
  · rw [← survivingSlots_map_clamped slots, h, survivingSlots_map_clamped]
  · have hindex := congrArg (List.map fun slot : ExecSlot => slot.index) hfinish
    rw [List.map_map, List.map_map] at hindex
    exact hindex
  · have hcount := congrArg (List.countP fun slot : ExecSlot => slot.usesMemory) hfinish
    rw [List.countP_map, List.countP_map] at hcount
    exact hcount
  · have hcount := congrArg (List.countP fun slot : ExecSlot => !slot.usesMemory) hfinish
    rw [List.countP_map, List.countP_map] at hcount
    exact hcount

/-! ### Schedules -/

/-- Two states of the same schedule: they differ at most in their instructions,
    in the ids they remember as retired, and in slots that have run out. -/
structure SameSchedule (s s' : SimState) : Prop where
  length : s.instructions.length = s'.instructions.length
  stats : s.stats = s'.stats
  fetchQ : s.fetchQ = s'.fetchQ
  decodeQ : s.decodeQ = s'.decodeQ
  dispatchQ : s.dispatchQ = s'.dispatchQ
  readyQ : s.readyQ = s'.readyQ
  retireQ : s.retireQ = s'.retireQ
  execSlots : s.execSlots.map ExecSlot.clamped = s'.execSlots.map ExecSlot.clamped
  nextToFetch : s.nextToFetch = s'.nextToFetch
  cycle : s.cycle = s'.cycle
  computeInUse : s.computeInUse = s'.computeInUse
  memoryInUse : s.memoryInUse = s'.memoryInUse

namespace SameSchedule

variable {config : SimulatorConfig} {s s' : SimState}

theorem initState {workload workload' : List Instruction}
    (h : workload.length = workload'.length) :
    SameSchedule (initState workload) (AccelSim.initState workload') :=
  ⟨h, rfl, rfl, rfl, rfl, rfl, rfl, rfl, rfl, rfl, rfl, rfl⟩

theorem queueOf (h : SameSchedule s s') {st : Stage} (hst : st ≠ .done) :
    s.queueOf st = s'.queueOf st := by
  cases st with
  | fetch => exact h.fetchQ
  | decode => exact h.decodeQ
  | dispatch => exact h.dispatchQ
  | ready => exact h.readyQ
  | execute =>
    have hindex := congrArg (List.map fun slot : ExecSlot => slot.index) h.execSlots
    rw [List.map_map, List.map_map] at hindex
    exact hindex
  | retire => exact h.retireQ
  | done => exact absurd rfl hst

theorem execSlots_isEmpty (h : SameSchedule s s') :
    s.execSlots.isEmpty = s'.execSlots.isEmpty ∧ s.execSlots.length = s'.execSlots.length := by
  have hlen := congrArg List.length h.execSlots
  rw [List.length_map, List.length_map] at hlen
  refine ⟨?_, hlen⟩
  rw [Bool.eq_iff_iff, List.isEmpty_iff_length_eq_zero, List.isEmpty_iff_length_eq_zero, hlen]

theorem hasWorkLeft (h : SameSchedule s s') : hasWorkLeft s = AccelSim.hasWorkLeft s' := by
  simp only [AccelSim.hasWorkLeft, h.nextToFetch, h.length, h.fetchQ, h.decodeQ, h.dispatchQ,
    h.readyQ, h.retireQ, h.execSlots_isEmpty.1]

/-- The dispatch pass, when both states decide alike. -/
theorem dispatchPass (h : SameSchedule s s')
    (hvisit : dispatchVisit config s = dispatchVisit config s') :
    SameSchedule (dispatchPass config s) (AccelSim.dispatchPass config s') := by
  have hmoved : dispatchMoved config s = dispatchMoved config s' := by
    rw [dispatchMoved, hvisit, h.readyQ, h.dispatchQ, dispatchMoved]
  have hheld : dispatchHeld config s = dispatchHeld config s' := by
    rw [dispatchHeld, hvisit, h.readyQ, h.dispatchQ, dispatchHeld]
  have hstalls : dispatchStalls config s = dispatchStalls config s' := by
    rw [dispatchStalls, hvisit, h.readyQ, h.dispatchQ, dispatchStalls]
  rw [dispatchPass_eq, dispatchPass_eq]
  exact { h with
    length := by simpa using h.length
    stats := by simp only [h.stats, hstalls]
    dispatchQ := hheld
    readyQ := by simp only [h.readyQ, hmoved] }

/-- The issue pass, when both states have instructions of the same class and
    number of ticks at every position. -/
theorem issuePass (h : SameSchedule s s')
    (hmemory : ∀ i, isMemoryOp (s.instr i).type = isMemoryOp (s'.instr i).type)
    (hticks : ∀ i, (s.instr i).ticks = (s'.instr i).ticks) :
    SameSchedule (issuePass config s) (AccelSim.issuePass config s') := by
  have hvisit : issueVisit config s = issueVisit config s' := by
    funext use idx
    simp only [issueVisit, hmemory]
  have hslot : ExecSlot.clamped ∘ s.slotFor = ExecSlot.clamped ∘ s'.slotFor := by
    funext i
    show ExecSlot.mk i (s.instr i).ticks (isMemoryOp (s.instr i).type) =
      ExecSlot.mk i (s'.instr i).ticks (isMemoryOp (s'.instr i).type)
    rw [hmemory, hticks]
  have huse : s.issueUse = s'.issueUse := by
    rw [SimState.issueUse, h.memoryInUse, h.computeInUse, SimState.issueUse]
  have hmoved : issueMoved config s = issueMoved config s' := by
    rw [issueMoved, hvisit, huse, h.readyQ, issueMoved]
  have hheld : issueHeld config s = issueHeld config s' := by
    rw [issueHeld, hvisit, huse, h.readyQ, issueHeld]
  have hstalls : issueStalls config s = issueStalls config s' := by
    rw [issueStalls, hvisit, huse, h.readyQ, issueStalls]
  have hfinal : issueFinal config s = issueFinal config s' := by
    rw [issueFinal, hvisit, huse, h.readyQ, issueFinal]
  rw [issuePass_eq, issuePass_eq]
  exact { h with
    length := by simpa using h.length
    stats := by simp only [h.stats, hstalls]
    readyQ := hheld
    execSlots := by
      rw [List.map_append, List.map_append, List.map_map, List.map_map, h.execSlots, hslot,
        hmoved]
    computeInUse := by simp only [hfinal]
    memoryInUse := by simp only [hfinal] }

theorem enterDispatch (h : SameSchedule s s') :
    SameSchedule (enterDispatch config s) (AccelSim.enterDispatch config s') := by
  have hroom : dispatchRoom config s = dispatchRoom config s' := by
    rw [dispatchRoom, h.dispatchQ, dispatchRoom]
  have henter : entering config s = entering config s' := by
    rw [entering, hroom, h.decodeQ, entering]
  have hstalls : enteringStalls config s = enteringStalls config s' := by
    rw [enteringStalls, hroom, h.decodeQ, enteringStalls]
  rw [enterDispatch_eq, enterDispatch_eq]
  exact { h with
    length := by simpa using h.length
    stats := by simp only [h.stats, hstalls]
    decodeQ := by simp only [h.decodeQ, hroom]
    dispatchQ := by simp only [h.dispatchQ, henter] }

theorem decodePass (h : SameSchedule s s') :
    SameSchedule (decodePass config s) (AccelSim.decodePass config s') := by
  rw [decodePass_eq, decodePass_eq]
  exact { h with
    length := by simpa using h.length
    fetchQ := by simp only [h.fetchQ]
    decodeQ := by simp only [h.decodeQ, decoding, h.fetchQ] }

theorem fetchPass (h : SameSchedule s s') :
    SameSchedule (fetchPass config s) (AccelSim.fetchPass config s') := by
  rw [fetchPass_eq, fetchPass_eq]
  exact { h with
    length := by simpa using h.length
    fetchQ := by simp only [h.fetchQ, fetching, h.nextToFetch, h.length]
    nextToFetch := by simp only [h.nextToFetch, h.length] }

theorem recordCycle (h : SameSchedule s s') :
    SameSchedule (recordCycle s) (AccelSim.recordCycle s') := by
  exact { h with
    stats := by
      simp only [AccelSim.recordCycle, h.stats, h.nextToFetch, h.length, h.fetchQ, h.decodeQ,
        h.dispatchQ, h.readyQ, h.retireQ, h.execSlots_isEmpty.1, h.execSlots_isEmpty.2]
    cycle := congrArg (· + 1) h.cycle }

/-- The retire pass, when what retires has the same latency in both states. -/
theorem retirePass (h : SameSchedule s s')
    (hlatency : ∀ i ∈ s.retireQ, latencyOf (s.instr i) = latencyOf (s'.instr i)) :
    SameSchedule (retirePass s) (AccelSim.retirePass s') := by
  have hsum : s.retireQ.map (fun i => latencyOf (s.instr i)) =
      s'.retireQ.map fun i => latencyOf (s'.instr i) := by
    rw [← h.retireQ]
    exact List.map_congr_left hlatency
  rw [retirePass_eq, retirePass_eq]
  exact { h with
    length := by simpa using h.length
    stats := by rw [hsum, h.retireQ, h.stats]
    retireQ := rfl }

theorem executeTick {t t' : SimState} (h : SameSchedule s s') (ht : executeTick s = .ok t)
    (ht' : AccelSim.executeTick s' = .ok t') : SameSchedule t t' := by
  obtain ⟨hsurvive, hfinish, hmemory, hcompute⟩ := slots_agree h.execSlots
  obtain ⟨_, _, rfl⟩ := (executeTick_ok_iff _ _).mp ht
  obtain ⟨_, _, rfl⟩ := (executeTick_ok_iff _ _).mp ht'
  exact { h with
    length := by simpa using h.length
    retireQ := congrArg₂ (· ++ ·) h.retireQ hfinish
    execSlots := by simp only [hsurvive]
    computeInUse := by simp only [h.computeInUse, hcompute]
    memoryInUse := by simp only [h.memoryInUse, hmemory] }

/-- States of one schedule have every instruction at the same stage. -/
theorem stage_eq {workload workload' : List Instruction} (h : SameSchedule s s')
    (hp : Placed workload s) (hp' : Placed workload' s') {i : ℕ} (hi : i < s.nextToFetch) :
    (s.instr i).stage = (s'.instr i).stage := by
  have hi' : i < s'.nextToFetch := h.nextToFetch ▸ hi
  by_cases hst : (s.instr i).stage = .done
  · by_contra hne
    have hst' : (s'.instr i).stage ≠ .done := fun h' => hne (hst.trans h'.symm)
    have hmem := (hp'.mem_iff _ i).mpr ⟨hi', rfl⟩
    rw [← h.queueOf hst'] at hmem
    exact hne ((hp.mem_iff _ i).mp hmem).2
  · have hmem := (hp.mem_iff _ i).mpr ⟨hi, rfl⟩
    rw [h.queueOf hst] at hmem
    exact ((hp'.mem_iff _ i).mp hmem).2.symm

theorem reached_iff {workload workload' : List Instruction} (h : SameSchedule s s')
    (hp : Placed workload s) (hp' : Placed workload' s') (st : Stage) (i : ℕ) :
    s.Reached st i ↔ s'.Reached st i := by
  unfold SimState.Reached
  rw [h.nextToFetch]
  refine and_congr_right fun hi => ?_
  rw [h.stage_eq hp hp' (h.nextToFetch ▸ hi)]

end SameSchedule

/-! ### Two runs -/

/-- Runs of two workloads of one shape after `k` iterations each, with the same
    schedule so far. -/
structure Paired (config : SimulatorConfig) (workload workload' : List Instruction) (k : ℕ)
    (s s' : SimState) : Prop where
  left : ReachesIn workload config k s
  right : ReachesIn workload' config k s'
  same : ∀ j u u', j ≤ k → ReachesIn workload config j u → ReachesIn workload' config j u' →
    SameSchedule u u'

namespace Paired

variable {config : SimulatorConfig} {workload workload' : List Instruction} {k : ℕ}
  {s s' : SimState}

theorem schedule (p : Paired config workload workload' k s s') : SameSchedule s s' :=
  p.same k s s' le_rfl p.left p.right

theorem reached_iff (p : Paired config workload workload' k s s') (st : Stage) (i : ℕ) :
    s.Reached st i ↔ s'.Reached st i :=
  p.schedule.reached_iff (placed_of_reachesIn p.left) (placed_of_reachesIn p.right) st i

/-- An event that both runs have seen has the same stamp in both. -/
theorem stamp_eq (p : Paired config workload workload' k s s') {st : Stage}
    {stamp : Instruction → ℕ} (hstamp : Stamped st stamp) {i : ℕ} (hi : s.Reached st i) :
    stamp (s.instr i) = stamp (s'.instr i) := by
  have hi' := (p.reached_iff st i).mp hi
  have hsame : ∀ j u u', j ≤ k → ReachesIn workload config j u → ReachesIn workload' config j u' →
      (u.Reached st i ↔ u'.Reached st i) := fun j u u' hj hu hu' =>
    (p.same j u u' hj hu hu').reached_iff (placed_of_reachesIn hu) (placed_of_reachesIn hu') st i
  apply Nat.le_antisymm
  · exact hstamp.le_of_ahead p.right p.left
      (fun j u' u hj hu' hu => (hsame j u u' hj hu hu').mpr) hi' hi
  · exact hstamp.le_of_ahead p.left p.right
      (fun j u u' hj hu hu' => (hsame j u u' hj hu hu').mp) hi hi'

theorem ticks_eq (p : Paired config workload workload' k s s')
    (hshape : SameShape workload workload') (i : ℕ) : (s.instr i).ticks = (s'.instr i).ticks := by
  rw [(placed_of_reachesIn p.left).ticks_eq, (placed_of_reachesIn p.right).ticks_eq, hshape.ticks]

/-- What has completed in both runs did so in the same cycle. -/
theorem completeCycle_eq (p : Paired config workload workload' k s s')
    (hshape : SameShape workload workload') {i : ℕ} (hi : s.Reached .retire i) :
    (s.instr i).completeCycle = (s'.instr i).completeCycle := by
  have hissue := p.stamp_eq stamped_issue (hi.mono (by decide))
  rw [(timed_of_reachesIn p.left).completeCycle_eq hi,
    (timed_of_reachesIn p.right).completeCycle_eq ((p.reached_iff _ i).mp hi), hissue,
    p.ticks_eq hshape]

theorem latencyOf_eq (p : Paired config workload workload' k s s')
    (hshape : SameShape workload workload') {i : ℕ} (hi : i ∈ s.retireQ) :
    latencyOf (s.instr i) = latencyOf (s'.instr i) := by
  have hreached : s.Reached .retire i := by
    obtain ⟨hlt, hst⟩ := ((placed_of_reachesIn p.left).mem_iff .retire i).mp hi
    exact ⟨hlt, by rw [hst]⟩
  rw [latencyOf, p.completeCycle_eq hshape hreached,
    p.stamp_eq stamped_enqueue (hreached.mono (by decide)), latencyOf]

/-- Both dispatch passes see the same dependencies satisfied. -/
theorem dispatchVisit_eq (p : Paired config workload workload' k s s')
    (hshape : SameShape workload workload') {t t' v v' : SimState}
    (hids : (workload.map fun i => i.id).Nodup) (hids' : (workload'.map fun i => i.id).Nodup)
    (hnamed : DepsNamed workload) (hnamed' : DepsNamed workload')
    (it : Iteration workload config s t v) (it' : Iteration workload' config s' t' v')
    (ha : Accounted v) (ha' : Accounted v') :
    dispatchVisit config t = dispatchVisit config t' := by
  have hdeps : ∀ i, depsSatisfied (t.instr i) t.retiredIds =
      depsSatisfied (t'.instr i) t'.retiredIds := by
    intro i
    rw [Bool.eq_iff_iff]
    by_cases hi : i < workload.length
    · rw [it.depsSatisfied_start_iff hids ha hnamed hi,
        it'.depsSatisfied_start_iff hids' ha' hnamed' (hshape.length_eq ▸ hi)]
      refine forall_congr' fun d => ?_
      rw [hshape.dependsOn_iff, p.reached_iff]
    · -- behind the end the dependencies of both are those of the default instruction
      have hle := Nat.le_of_not_lt hi
      rw [depsSatisfied_iff, depsSatisfied_iff, it.started.deps_eq, it'.started.deps_eq,
        programAt_of_length_le hle, programAt_of_length_le (hshape.length_eq ▸ hle)]
      exact iff_of_true (fun _ h => absurd h List.not_mem_nil) fun _ h =>
        absurd h List.not_mem_nil
  funext size idx
  simp only [dispatchVisit, hdeps]

/-- **One iteration keeps two runs on the same schedule.** -/
theorem step (p : Paired config workload workload' k s s')
    (hshape : SameShape workload workload')
    (hids : (workload.map fun i => i.id).Nodup) (hids' : (workload'.map fun i => i.id).Nodup)
    (hnamed : DepsNamed workload) (hnamed' : DepsNamed workload') {v v' : SimState}
    (hv : ReachesIn workload config (k + 1) v) (hv' : ReachesIn workload' config (k + 1) v')
    (hb : cycleBody config s = .ok v) (hb' : cycleBody config s' = .ok v') :
    SameSchedule v v' := by
  obtain ⟨t, it⟩ := (placed_of_reachesIn p.left).iteration hb
  obtain ⟨t', it'⟩ := (placed_of_reachesIn p.right).iteration hb'
  have hvisit := p.dispatchVisit_eq hshape hids hids' hnamed hnamed' it it'
    (accounted_of_reachesIn hv) (accounted_of_reachesIn hv')
  have hstart : SameSchedule t t' :=
    (p.schedule.retirePass fun i hi => p.latencyOf_eq hshape hi).executeTick it.start it'.start
  have hdispatch : SameSchedule (afterDispatch config t) (afterDispatch config t') :=
    hstart.dispatchPass hvisit
  have hissue : SameSchedule (afterIssue config t) (afterIssue config t') := by
    apply hdispatch.issuePass
    · intro i
      rw [it.dispatched.type_eq, it'.dispatched.type_eq, hshape.memory]
    · intro i
      rw [it.dispatched.ticks_eq, it'.dispatched.ticks_eq, hshape.ticks]
  rw [it.finish, it'.finish]
  exact hissue.enterDispatch.decodePass.fetchPass.recordCycle

end Paired

/-! ### Results -/

/-- Two records of an instruction with the same timestamps. -/
structure SameTimestamps (i i' : Instruction) : Prop where
  enqueueCycle : i.enqueueCycle = i'.enqueueCycle
  issueCycle : i.issueCycle = i'.issueCycle
  completeCycle : i.completeCycle = i'.completeCycle

theorem Paired.sameTimestamps {config : SimulatorConfig} {workload workload' : List Instruction}
    {k : ℕ} {s s' : SimState} (p : Paired config workload workload' k s s')
    (hshape : SameShape workload workload') (hexit : hasWorkLeft s = false) {i : ℕ}
    (hi : i < workload.length) : SameTimestamps (s.instr i) (s'.instr i) := by
  have hdone := (placed_of_reachesIn p.left).reached_done_of_exit hexit hi
  exact ⟨p.stamp_eq stamped_enqueue (hdone.mono (by decide)),
    p.stamp_eq stamped_issue (hdone.mono (by decide)),
    p.completeCycle_eq hshape (hdone.mono (by decide))⟩

/-- Equal up to what a run writes, and at the end of a run, is equal. -/
theorem SameTimestamps.eq {i i' : Instruction} (h : SameTimestamps i i')
    (hprogram : i.program = i'.program) (hstage : i.stage = i'.stage) : i = i' := by
  obtain ⟨id, type, latency, bytes, deps, stage, enqueue, issue, complete⟩ := i
  obtain ⟨id', type', latency', bytes', deps', stage', enqueue', issue', complete'⟩ := i'
  obtain ⟨henqueue, hissue, hcomplete⟩ := h
  simp only [Instruction.program, Instruction.mk.injEq, and_true] at hprogram
  obtain ⟨rfl, rfl, rfl, rfl, rfl⟩ := hprogram
  simp only at henqueue hissue hcomplete hstage
  rw [henqueue, hissue, hcomplete, hstage]

/-- The instructions of a state have the shape of the workload they come from. -/
theorem Placed.sameShape {workload : List Instruction} {s : SimState} (h : Placed workload s) :
    SameShape workload s.instructions where
  length_eq := h.length_eq.symm
  memory_eq i _ := congrArg isMemoryOp (h.type_eq i).symm
  ticks_eq i _ := (h.ticks_eq i).symm
  dependsOn_iff i d := by
    have hid : (programAt s.instructions d).id = (programAt workload d).id := h.id_eq d
    have hdeps : (programAt s.instructions i).deps = (programAt workload i).deps := h.deps_eq i
    unfold DependsOn
    rw [h.length_eq, hid, hdeps]

theorem Placed.map_id_eq {workload : List Instruction} {s : SimState} (h : Placed workload s) :
    (s.instructions.map fun i => i.id) = workload.map fun i => i.id := by
  rw [s.instructions_eq_map, h.length_eq, ← map_programAt_range workload, List.map_map,
    List.map_map, List.length_map, List.length_range]
  apply List.map_congr_left
  intro i _
  exact h.id_eq i

theorem Placed.depsNamed {workload : List Instruction} {s : SimState} (h : Placed workload s)
    (hnamed : DepsNamed workload) : DepsNamed s.instructions := by
  intro i hi dep hdep
  rw [h.length_eq] at hi ⊢
  obtain ⟨j, hj, hid⟩ := hnamed i hi dep (h.deps_eq i ▸ hdep)
  exact ⟨j, hj, (h.id_eq j).trans hid⟩

section Shape

variable {config : SimulatorConfig} {workload workload' : List Instruction}
  (hshape : SameShape workload workload')
  (hids : (workload.map fun i => i.id).Nodup) (hids' : (workload'.map fun i => i.id).Nodup)
  (hnamed : DepsNamed workload) (hnamed' : DepsNamed workload')

include hshape hids hids' hnamed hnamed'

/-- Whatever one run reaches, the other reaches on the same schedule. -/
theorem exists_paired {k : ℕ} {s : SimState} (h : ReachesIn workload config k s) :
    ∃ s', Paired config workload workload' k s s' := by
  induction k generalizing s with
  | zero =>
    cases h
    refine ⟨initState workload', .zero, .zero, fun j u u' hj hu hu' => ?_⟩
    obtain rfl : j = 0 := Nat.le_zero.mp hj
    cases hu
    cases hu'
    exact SameSchedule.initState hshape.length_eq
  | succ k ih =>
    have hlast := h
    cases h with | @step _ _ u _ hu hg hb =>
    obtain ⟨u', p⟩ := ih hu
    obtain ⟨_, v', hb', _⟩ := ReachesIn.exists_iteration p.right
    have hv' : ReachesIn workload' config (k + 1) v' :=
      .step p.right (p.schedule.hasWorkLeft ▸ hg) hb'
    have hsame := p.step hshape hids hids' hnamed hnamed' hlast hv' hb hb'
    refine ⟨v', hlast, hv', fun j w w' hj hw hw' => ?_⟩
    by_cases hjk : j ≤ k
    · exact p.same j w w' hjk hw hw'
    · obtain rfl : j = k + 1 := by omega
      rw [WhileLoop.ReachesIn.unique hw hlast, WhileLoop.ReachesIn.unique hw' hv']
      exact hsame

/-- Two runs of workloads of one shape end after the same number of cycles. -/
theorem exists_paired_exit {k : ℕ} {s : SimState} (h : ReachesIn workload config k s)
    (hexit : hasWorkLeft s = false) :
    ∃ s', Paired config workload workload' k s s' ∧ hasWorkLeft s' = false := by
  obtain ⟨s', p⟩ := exists_paired hshape hids hids' hnamed hnamed' h
  exact ⟨s', p, p.schedule.hasWorkLeft ▸ hexit⟩

end Shape

theorem SameShape.symm {workload workload' : List Instruction}
    (h : SameShape workload workload') : SameShape workload' workload where
  length_eq := h.length_eq.symm
  memory_eq i _ := (h.memory i).symm
  ticks_eq i _ := (h.ticks i).symm
  dependsOn_iff i d := (h.dependsOn_iff i d).symm

/-- A run on the instructions that another run has left behind repeats that run. -/
theorem runWorkload_result {workload : List Instruction} {config : SimulatorConfig}
    (hids : (workload.map fun i => i.id).Nodup) (hnamed : DepsNamed workload) {fuel : ℕ}
    {result : RunResult} (hrun : runWorkload fuel workload config = .ok (some result)) :
    runWorkload fuel result.instructions config = .ok (some result) := by
  obtain ⟨k, s, hk, h, hexit, rfl⟩ := runWorkload_eq_some_iff.mp hrun
  have hp := placed_of_reachesIn h
  have hids' : (s.instructions.map fun i => i.id).Nodup := hp.map_id_eq ▸ hids
  obtain ⟨s', p, hexit'⟩ := exists_paired_exit hp.sameShape hids hids' hnamed
    (hp.depsNamed hnamed) h hexit
  have hp' := placed_of_reachesIn p.right
  refine runWorkload_eq_some_iff.mpr ⟨k, s', hk, p.right, hexit', ?_⟩
  have hinstr : s.instructions = s'.instructions := by
    rw [s.instructions_eq_map, s'.instructions_eq_map, hp'.length_eq]
    apply List.map_congr_left
    intro i hi
    have hlt : i < workload.length := by simpa [hp.length_eq] using hi
    have hlt' : i < s.instructions.length := hp.length_eq ▸ hlt
    refine (p.sameTimestamps hp.sameShape hexit hlt).eq (hp'.program i).symm ?_
    rw [hp.eq_done_of_exit hexit hlt, hp'.eq_done_of_exit hexit' hlt']
  show RunResult.mk config { s.stats with totalCycles := s.cycle } s.instructions =
    RunResult.mk config { s'.stats with totalCycles := s'.cycle } s'.instructions
  rw [p.schedule.stats, p.schedule.cycle, hinstr]

/-- **Timing depends only on the shape of the workload.** Runs of two workloads of
    one shape both end or both go on for ever, with the same statistics and
    timestamps; and a run on the instructions of its own result repeats it. -/
theorem timing_depends_on_shape (config : SimulatorConfig) (workload workload' : List Instruction)
    (hids : (workload.map fun i => i.id).Nodup) (hids' : (workload'.map fun i => i.id).Nodup)
    (hnamed : DepsNamed workload) (hnamed' : DepsNamed workload')
    (hshape : SameShape workload workload') :
    (Terminates workload config ↔ Terminates workload' config) ∧
    (∀ fuel fuel' r r', runWorkload fuel workload config = .ok (some r) →
      runWorkload fuel' workload' config = .ok (some r') →
      r.stats = r'.stats ∧ List.Forall₂ SameTimestamps r.instructions r'.instructions) ∧
    ∀ fuel r, runWorkload fuel workload config = .ok (some r) →
      runWorkload fuel r.instructions config = .ok (some r) := by
  refine ⟨⟨?_, ?_⟩, ?_, fun fuel r hrun => runWorkload_result hids hnamed hrun⟩
  · rw [terminates_iff, terminates_iff]
    rintro ⟨k, s, h, hexit⟩
    obtain ⟨s', p, hexit'⟩ := exists_paired_exit hshape hids hids' hnamed hnamed' h hexit
    exact ⟨k, s', p.right, hexit'⟩
  · rw [terminates_iff, terminates_iff]
    rintro ⟨k, s, h, hexit⟩
    obtain ⟨s', p, hexit'⟩ := exists_paired_exit hshape.symm hids' hids hnamed' hnamed h hexit
    exact ⟨k, s', p.right, hexit'⟩
  · intro fuel fuel' r r' hrun hrun'
    obtain ⟨k, s, _, h, hexit, rfl⟩ := runWorkload_eq_some_iff.mp hrun
    obtain ⟨k', s', _, h', hexit', rfl⟩ := runWorkload_eq_some_iff.mp hrun'
    obtain ⟨u, p, hexitu⟩ := exists_paired_exit hshape hids hids' hnamed hnamed' h hexit
    -- both runs of the second workload have ended, so they are one
    obtain rfl : k' = k := Nat.le_antisymm
      (WhileLoop.ReachesIn.le_of_exit p.right hexitu h')
      (WhileLoop.ReachesIn.le_of_exit h' hexit' p.right)
    obtain rfl := WhileLoop.ReachesIn.unique h' p.right
    have hlen := (placed_of_reachesIn h).length_eq
    have hlen' := (placed_of_reachesIn h').length_eq
    constructor
    · show { s.stats with totalCycles := s.cycle } = { s'.stats with totalCycles := s'.cycle }
      rw [p.schedule.stats, p.schedule.cycle]
    · show List.Forall₂ SameTimestamps s.instructions s'.instructions
      rw [s.instructions_eq_map, s'.instructions_eq_map, hlen, hlen', ← hshape.length_eq,
        List.forall₂_map_left_iff, List.forall₂_map_right_iff, List.forall₂_same]
      intro i hi
      exact p.sameTimestamps hshape hexit (List.mem_range.mp hi)

/-- `dependentPair` with other ids, kinds of operation, latencies of one tick and
    times from another run. -/
def dependentPairRenamed : List Instruction :=
  [{ id := 3, executeLatency := 3, memoryBytes := 8, enqueueCycle := 5, stage := .done },
    { id := 1, executeLatency := 0, deps := [3, 3] }]

theorem sameShape_dependentPairRenamed : SameShape dependentPair dependentPairRenamed where
  length_eq := rfl
  memory_eq := by decide
  ticks_eq := by decide
  dependsOn_iff i d := by
    have hdeps : ∀ d < 2, ∀ i < 2,
        ((programAt dependentPair d).id ∈ (programAt dependentPair i).deps ↔
          (programAt dependentPairRenamed d).id ∈ (programAt dependentPairRenamed i).deps) := by
      decide
    exact and_congr_right fun hd => and_congr_right fun hi => hdeps d hd i hi

theorem timing_depends_on_shape_dependentPair :
    ∃ r r', runWorkload 12 dependentPair {} = .ok (some r) ∧
      runWorkload 12 dependentPairRenamed {} = .ok (some r') ∧ r.stats = r'.stats := by
  have hrun : ∃ r, runWorkload 12 dependentPair {} = .ok (some r) := ⟨_, rfl⟩
  have hrun' : ∃ r, runWorkload 12 dependentPairRenamed {} = .ok (some r) := ⟨_, rfl⟩
  obtain ⟨r, hrun⟩ := hrun
  obtain ⟨r', hrun'⟩ := hrun'
  have hnamed : DepsNamed dependentPair := by unfold DepsNamed; decide
  have hnamed' : DepsNamed dependentPairRenamed := by unfold DepsNamed; decide
  exact ⟨r, r', hrun, hrun', ((timing_depends_on_shape {} dependentPair dependentPairRenamed
    (by decide) (by decide) hnamed hnamed' sameShape_dependentPairRenamed).2.1 12 12 r r' hrun
    hrun').1⟩

end AccelSim
