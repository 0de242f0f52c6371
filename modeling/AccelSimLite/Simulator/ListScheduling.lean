import AccelSimLite.Lib.Schedule
import AccelSimLite.Simulator.Greedy
import AccelSimLite.Simulator.Timestamps

/-!
# The length of a run

When neither of the bounded queues has ever been full, an instruction that has passed the
front end and has all its operands waits only in cycles that are busy: those that issue as
many instructions as they can, and those in which a class has all its units at work. There
are few of them, so that the length of the run is that of a dependency chain and of the
work that the machine has had to do.

## Main definitions

- `SimState.Unblocked` — neither of the bounded queues has been full
- `FrontEnd` — how far the front end is at least
- `busyCycles` — the cycles in which an instruction may have to wait

## Main results

- `Iteration.busy_of_waits` — who waits, waits in a busy cycle
- `list_scheduling_bound` — the length of a run
-/

namespace AccelSim

open Schedule

/-! ### Runs that are not held up by a full queue -/

/-- No stall has been charged to a full queue. -/
def SimState.Unblocked (s : SimState) : Prop :=
  s.stats.stallCounts.count .dispatchQueueFull = 0 ∧
    s.stats.stallCounts.count .readyQueueFull = 0

theorem count_bumpAll_eq_zero_iff (m : Counters StallReason) (ks : List StallReason)
    (reason : StallReason) :
    (m.bumpAll ks).count reason = 0 ↔ m.count reason = 0 ∧ reason ∉ ks := by
  have hsum := m.sum_count_bumpAll ks (List.nodup_singleton reason)
  simp only [List.map_singleton, List.sum_singleton, List.mem_singleton] at hsum
  rw [hsum, Nat.add_eq_zero_iff, List.countP_eq_zero]
  refine and_congr_right fun _ => ⟨fun h hmem => h reason hmem (by simp), fun h k hk he => h ?_⟩
  rwa [of_decide_eq_true he] at hk

namespace Iteration

variable {workload : List Instruction} {config : SimulatorConfig} {s t s' : SimState}

theorem stallCounts_finish (it : Iteration workload config s t s') :
    s'.stats.stallCounts = ((s.stats.stallCounts.bumpAll (dispatchStalls config t)).bumpAll
      (issueStalls config (afterDispatch config t)).reduceOption).bumpAll
        (enteringStalls config (afterIssue config t)) := by
  have hstart : t.stats.stallCounts = s.stats.stallCounts := by
    obtain ⟨_, _, ht⟩ := (executeTick_ok_iff _ _).mp it.start
    rw [ht, retirePass_eq]
    rfl
  rw [it.finish, ← hstart]
  simp only [recordCycle, afterFetch, fetchPass_eq, decodePass_eq, enterDispatch_eq, afterIssue,
    issuePass_eq, afterDispatch, dispatchPass_eq]
  rfl

theorem unblocked_iff (it : Iteration workload config s t s') :
    s'.Unblocked ↔ s.Unblocked ∧ .readyQueueFull ∉ dispatchStalls config t ∧
      enteringStalls config (afterIssue config t) = [] := by
  have hissue : ∀ reason ∈ (issueStalls config (afterDispatch config t)).reduceOption,
      reason = .noMemoryPort ∨ reason = .noComputeUnit := by
    intro reason hr
    obtain ⟨⟨i, stall⟩, hi, hsome⟩ := List.mem_map.mp (List.reduceOption_mem_iff.mp hr)
    obtain rfl : stall = some reason := hsome
    obtain ⟨_, _, _, hv⟩ := Admission.mem_refused_split hi
    unfold issueVisit at hv
    split_ifs at hv <;> cases hv
    · exact .inl rfl
    · exact .inr rfl
  have hdispatch : .dispatchQueueFull ∉ dispatchStalls config t := by
    intro hr
    obtain ⟨⟨i, _⟩, hi, rfl⟩ := List.mem_map.mp hr
    obtain ⟨_, _, _, hv⟩ := Admission.mem_refused_split hi
    exact Bool.noConfusion (dispatchVisit_error hv)
  have hentering : .readyQueueFull ∉ enteringStalls config (afterIssue config t) ∧
      (.dispatchQueueFull ∉ enteringStalls config (afterIssue config t) ↔
        enteringStalls config (afterIssue config t) = []) := by
    unfold enteringStalls
    split_ifs <;> simp
  have hnotIssue : .dispatchQueueFull ∉ (issueStalls config (afterDispatch config t)).reduceOption ∧
      .readyQueueFull ∉ (issueStalls config (afterDispatch config t)).reduceOption := by
    constructor
    · intro hr
      rcases hissue _ hr with h | h <;> cases h
    · intro hr
      rcases hissue _ hr with h | h <;> cases h
  rw [SimState.Unblocked, it.stallCounts_finish]
  simp only [count_bumpAll_eq_zero_iff]
  rw [hentering.2, SimState.Unblocked]
  tauto

/-! ### One cycle -/

/-- An instruction that has entered the dispatch queue and has all its operands is issued,
    or finds the width used up or the units of its class at work. -/
theorem busy_of_waits (it : Iteration workload config s t s')
    (hids : (workload.map fun i => i.id).Nodup) (ha : Accounted s') (hnamed : DepsNamed workload)
    (hfree : s'.Unblocked) {i : ℕ} (hentered : s.Reached .dispatch i)
    (hdeps : ∀ d, DependsOn workload i d → s.Reached .retire d) (hwaits : ¬s'.Issued i) :
    config.issueWidth ≤ (issueMoved config (afterDispatch config t)).length ∨
      config.units (isMemoryOp (programAt workload i).type) ≤
        s'.inUse (isMemoryOp (programAt workload i).type) := by
  have hi : i < workload.length := hentered.1.trans_le it.placed.next_le
  have hready : s'.Reached .ready i := by
    by_contra hnot
    have hold : ¬s.Reached .ready i := fun h => hnot (it.reached_mono h)
    have hmem : i ∈ t.dispatchQ := (it.mem_dispatchQ_start_iff i).mpr ⟨hentered, hold⟩
    have hheld : i ∈ dispatchHeld config t :=
      (Admission.mem_kept_iff (it.started.nodup .dispatch)).mpr
        ⟨hmem, fun h => hnot ((it.reached_iff .ready i).mpr (.inr h))⟩
    obtain ⟨⟨_, reason⟩, hrefused, rfl⟩ := List.mem_map.mp hheld
    obtain ⟨_, _, _, hv⟩ := Admission.mem_refused_split hrefused
    have hall := (it.depsSatisfied_start_iff hids ha hnamed hi).mpr hdeps
    unfold dispatchVisit at hv
    rw [if_pos hall] at hv
    split_ifs at hv
    cases hv
    exact (it.unblocked_iff.mp hfree).2.1 (List.mem_map.mpr ⟨_, hrefused, rfl⟩)
  have hold : ¬s.Issued i := fun h => hwaits (it.reached_mono h)
  refine it.issue_full_of_held ((it.mem_readyQ_dispatched_iff i).mpr ⟨hready, hold⟩) ?_ ⟨hi, rfl⟩
  exact fun h => hwaits ((it.reached_iff .execute i).mpr (.inr h))

end Iteration

/-! ### The front end -/

/-- How far the front end is at least, when it takes `w` instructions in each cycle. -/
structure FrontEnd (n w : ℕ) (s : SimState) : Prop where
  fetched : min n (w * s.cycle) ≤ s.nextToFetch
  decoded : min n (w * (s.cycle - 1)) ≤ s.decoded
  entered : min n (w * (s.cycle - 2)) ≤ s.entered

/-- The narrowest part of the front end. -/
def SimulatorConfig.frontWidth (config : SimulatorConfig) : ℕ :=
  min config.fetchWidth (min config.decodeWidth config.dispatchWidth)

/-- To take `w` from what is in front of a queue keeps up with what comes `w` at a time. -/
theorem keeps_up {n w c before after room : ℕ} (hbefore : min n (w * c) ≤ before)
    (hafter : min n (w * (c - 1)) ≤ after) (hle : after ≤ before) (hroom : w ≤ room) :
    min n (w * c) ≤ after + min room (before - after) := by
  cases c with
  | zero => simp
  | succ c =>
    rw [Nat.add_sub_cancel] at hafter
    rw [Nat.mul_succ] at hbefore ⊢
    omega

theorem Iteration.frontEnd {workload : List Instruction} {config : SimulatorConfig}
    {s t s' : SimState} (it : Iteration workload config s t s') (ho : InOrder s)
    (hfree : s'.Unblocked) (h : FrontEnd workload.length config.frontWidth s) :
    FrontEnd workload.length config.frontWidth s' := by
  have hfetch : config.frontWidth ≤ config.fetchWidth := min_le_left _ _
  have hdecode : config.frontWidth ≤ config.decodeWidth :=
    (min_le_right _ _).trans (min_le_left _ _)
  have hdispatch : config.frontWidth ≤ config.dispatchWidth :=
    (min_le_right _ _).trans (min_le_right _ _)
  have hlen := ho.length_le
  have hnext := it.placed.next_le
  constructor
  case fetched =>
    have hwidth := h.fetched
    rw [it.cycle_finish, it.nextToFetch_finish, Nat.mul_succ]
    omega
  case decoded =>
    have hup := keeps_up h.fetched h.decoded (Nat.sub_le _ _) hdecode
    have hleft : s.nextToFetch - s.decoded = s.fetchQ.length := by
      unfold SimState.decoded
      omega
    rw [hleft] at hup
    rwa [it.cycle_finish, Nat.add_sub_cancel, it.decoded_finish ho]
  case entered =>
    have hle : s.entered ≤ s.decoded := Nat.sub_le _ _
    have hup := keeps_up (c := s.cycle - 1) h.decoded h.entered hle hdispatch
    have hleft : s.decoded - s.entered = s.decodeQ.length := by
      unfold SimState.decoded SimState.entered
      omega
    -- the loop into the dispatch queue has not stopped at a full queue
    have hroom : min (dispatchRoom config (afterIssue config t)) s.decodeQ.length =
        min config.dispatchWidth s.decodeQ.length := by
      have hnone := (it.unblocked_iff.mp hfree).2.2
      have hsame : (afterIssue config t).decodeQ = s.decodeQ := by
        rw [← it.front_start.2.1, afterIssue, issuePass_eq, afterDispatch, dispatchPass_eq]
        rfl
      have hle : dispatchRoom config (afterIssue config t) ≤ config.dispatchWidth :=
        min_le_left _ _
      rw [enteringStalls, hsame] at hnone
      split_ifs at hnone with hfull
      omega
    rw [hleft, ← hroom] at hup
    rw [it.cycle_finish, it.entered_finish ho]
    exact hup

namespace ReachesIn

variable {workload : List Instruction} {config : SimulatorConfig} {k j i : ℕ} {s : SimState}

/-- Stalls are never taken back. -/
theorem unblocked_at (h : ReachesIn workload config k s) (hfree : s.Unblocked) (hj : j ≤ k) :
    (AccelSim.stateAfter workload config j).Unblocked := by
  induction hj using Nat.decreasingInduction with
  | self => rwa [← h.eq_stateAfter]
  | of_succ m hm ih =>
    obtain ⟨t, it⟩ := h.iteration_at hm
    exact (it.unblocked_iff.mp ih).1

theorem frontEnd (h : ReachesIn workload config k s) (hfree : s.Unblocked) :
    FrontEnd workload.length config.frontWidth s := by
  refine h.keeps (fun s => s.Unblocked → FrontEnd workload.length config.frontWidth s)
    (fun _ => ⟨?_, ?_, ?_⟩) (fun _ _ _ _ hu _ it ih hfree => ?_) hfree
  · exact min_le_right _ _
  · exact min_le_right _ _
  · exact min_le_right _ _
  · exact it.frontEnd (inOrder_of_reachesIn hu) hfree (ih (it.unblocked_iff.mp hfree).1)

/-- The front end of a run that ends takes something in each cycle. -/
theorem frontWidth_pos (h : ReachesIn workload config k s) (hexit : hasWorkLeft s = false)
    (hne : workload ≠ []) : 0 < config.frontWidth := by
  have hlength := List.length_pos_iff.mpr hne
  obtain ⟨hnext, hfetchQ, hdecodeQ, _⟩ := hasWorkLeft_eq_false.mp hexit
  rw [(placed_of_reachesIn h).length_eq] at hnext
  have hfetch : 0 < config.fetchWidth := by
    by_contra hzero
    refine Nat.not_lt.mpr hnext (lt_of_eq_of_lt ?_ hlength)
    refine h.keeps (fun s => s.nextToFetch = 0) rfl fun _ _ _ _ _ _ it ih => ?_
    rw [it.nextToFetch_finish, ih]
    omega
  have hdecode : 0 < config.decodeWidth := by
    by_contra hzero
    have hnone : s.decoded = 0 := by
      refine h.keeps (fun s => s.decoded = 0) rfl fun _ _ _ _ hu _ it ih => ?_
      rw [it.decoded_finish (inOrder_of_reachesIn hu), ih]
      omega
    rw [SimState.decoded, hfetchQ, List.length_nil] at hnone
    omega
  have hdispatch : 0 < config.dispatchWidth := by
    by_contra hzero
    have hnone : s.entered = 0 := by
      refine h.keeps (fun s => s.entered = 0) rfl fun _ _ _ _ hu _ it ih => ?_
      rw [it.entered_finish (inOrder_of_reachesIn hu), ih, Iteration.dispatchRoom_afterIssue]
      omega
    rw [SimState.entered, hfetchQ, hdecodeQ, List.length_nil] at hnone
    omega
  exact lt_min hfetch (lt_min hdecode hdispatch)

/-- What a run has retired, and so all that a run that ends has waited for, is named. -/
theorem depsNamed_of_exit (h : ReachesIn workload config k s) (hexit : hasWorkLeft s = false) :
    DepsNamed workload := by
  intro i hi dep hdep
  have hp := placed_of_reachesIn h
  have hdone := hp.reached_done_of_exit hexit hi
  rw [← hp.deps_eq] at hdep
  have hretired := depsRetired_of_reachesIn h i (hdone.mono (by decide)) dep hdep
  rw [(accounted_of_reachesIn h).retiredIds_eq, List.mem_toFinset, List.mem_map] at hretired
  obtain ⟨j, hj, hid⟩ := hretired
  rw [hp.id_eq] at hid
  exact ⟨j, (SimState.mem_doneList.mp hj).1.trans_le hp.next_le, hid⟩

end ReachesIn

/-! ### Busy cycles -/

namespace SimState

/-- The positions of a class. -/
def positions (s : SimState) (memory : Bool) : Finset ℕ :=
  (Finset.range s.instructions.length).filter fun i => isMemoryOp (s.instr i).type = memory

/-- What was issued in a cycle. -/
def issuedIn (s : SimState) (t : ℕ) : Finset ℕ :=
  underWay (Finset.range s.instructions.length) (fun i => (s.instr i).issueCycle)
    (fun i => (s.instr i).issueCycle + 1) t

/-- What held a unit of a class in a cycle. -/
def holding (s : SimState) (memory : Bool) (t : ℕ) : Finset ℕ :=
  underWay (s.positions memory) (fun i => (s.instr i).issueCycle)
    (fun i => (s.instr i).completeCycle) t

theorem mem_issuedIn {s : SimState} {t i : ℕ} :
    i ∈ s.issuedIn t ↔ i < s.instructions.length ∧ (s.instr i).issueCycle = t := by
  rw [issuedIn, underWay, Finset.mem_filter, Finset.mem_range]
  refine and_congr_right fun _ => ?_
  omega

theorem mem_holding {s : SimState} {memory : Bool} {t i : ℕ} :
    i ∈ s.holding memory t ↔
      (i < s.instructions.length ∧ isMemoryOp (s.instr i).type = memory) ∧
        (s.instr i).issueCycle ≤ t ∧ t < (s.instr i).completeCycle := by
  rw [holding, underWay, Finset.mem_filter, positions, Finset.mem_filter, Finset.mem_range]

end SimState

/-- The cycles in which an instruction may have to wait: the width is used up, or all units
    of a class are at work. -/
def busyCycles (config : SimulatorConfig) (s : SimState) : Finset ℕ :=
  (Finset.range s.cycle).filter fun t =>
    config.issueWidth ≤ (s.issuedIn t).card ∨
      ∃ memory, 0 < config.units memory ∧ config.units memory ≤ (s.holding memory t).card

/-- The ticks of a class. -/
def ticksOfClass (workload : List Instruction) (memory : Bool) : ℕ :=
  ((workload.filter fun i => isMemoryOp i.type == memory).map Instruction.ticks).sum

namespace ReachesIn

variable {workload : List Instruction} {config : SimulatorConfig} {k j i : ℕ} {s : SimState}

theorem issueMoved_le (h : ReachesIn workload config k s) (hexit : hasWorkLeft s = false)
    {t : SimState} (hj : j < k)
    (it : Iteration workload config (AccelSim.stateAfter workload config j) t
      (AccelSim.stateAfter workload config (j + 1))) :
    (issueMoved config (afterDispatch config t)).length ≤ (s.issuedIn j).card := by
  have hp := placed_of_reachesIn h
  have hnodup : (issueMoved config (afterDispatch config t)).Nodup :=
    it.nodup_readyQ_dispatched.sublist (Admission.taken_sublist _ _)
  rw [← List.toFinset_card_of_nodup hnodup]
  refine Finset.card_le_card fun i hi => ?_
  have hmoved : i ∈ movedTo config (AccelSim.stateAfter workload config j) t .execute :=
    List.mem_toFinset.mp hi
  have hnow := (it.reached_iff .execute i).mpr (.inr hmoved)
  have hnot := it.not_reached_of_movedTo .execute hmoved
  have hlt := hnow.1.trans_le it.placed_finish.next_le
  have hnow := (h.issued_at_iff hexit hlt hj).mp hnow
  have hnot := mt (h.issued_at_iff hexit hlt hj.le).mpr hnot
  rw [SimState.mem_issuedIn, hp.length_eq]
  exact ⟨hlt, by omega⟩

theorem inUse_le (h : ReachesIn workload config k s) (hexit : hasWorkLeft s = false)
    (hj : j < k) (memory : Bool) :
    (AccelSim.stateAfter workload config (j + 1)).inUse memory ≤ (s.holding memory j).card := by
  have hu := h.stateAfter (show j + 1 ≤ k from hj)
  have hp := placed_of_reachesIn h
  have hpu := placed_of_reachesIn hu
  rw [(balanced_of_reachesIn hu).inUse_eq, ← SimState.length_executing,
    ← List.toFinset_card_of_nodup (hpu.nodup_executing memory)]
  refine Finset.card_le_card fun i hi => ?_
  obtain ⟨⟨hissued, hretire⟩, hclass⟩ :=
    ((timed_of_reachesIn hu).mem_executing_iff hpu).mp (List.mem_toFinset.mp hi)
  have hlt := hissued.1.trans_le hpu.next_le
  rw [h.issued_at_iff hexit hlt hj] at hissued
  rw [(h.reached_at_iff hexit hlt hj).1] at hretire
  rw [SimState.mem_holding, hp.length_eq, hp.type_eq]
  exact ⟨⟨hlt, hclass⟩, by omega⟩

/-- Whatever was issued found a unit. -/
theorem units_pos (h : ReachesIn workload config k s) (hexit : hasWorkLeft s = false)
    (hi : i < workload.length) : 0 < config.units (isMemoryOp (s.instr i).type) := by
  have htimed := h.timestamps_of_exit hexit hi
  have hticks := (s.instr i).one_le_ticks
  refine lt_of_lt_of_le ?_ (h.holdsUnit_le hexit (isMemoryOp (s.instr i).type)
    (s.instr i).issueCycle)
  rw [List.countP_pos_iff]
  refine ⟨s.instr i, ((placed_of_reachesIn h).mem_instructions_iff _).mpr ⟨i, hi, rfl⟩, ?_⟩
  simp only [Instruction.holdsUnit, beq_self_eq_true, Bool.true_and, decide_eq_true_eq]
  omega

theorem issueWidth_pos (h : ReachesIn workload config k s) (hexit : hasWorkLeft s = false)
    (hne : workload ≠ []) : 0 < config.issueWidth := by
  have hi := List.length_pos_iff.mpr hne
  refine lt_of_lt_of_le ?_ (h.issueCycle_shared_le hexit (s.instr 0).issueCycle)
  rw [List.countP_pos_iff]
  exact ⟨s.instr 0, ((placed_of_reachesIn h).mem_instructions_iff _).mpr ⟨0, hi, rfl⟩, by simp⟩

/-- **Who waits, waits in a busy cycle**, unless it has not passed the front end or waits
    for something to complete. -/
theorem greedy (h : ReachesIn workload config k s) (hexit : hasWorkLeft s = false)
    (hids : (workload.map fun i => i.id).Nodup) (hfree : s.Unblocked) (hne : workload ≠ []) :
    Greedy (Finset.range workload.length) (fun i => (s.instr i).issueCycle)
      (fun i => (s.instr i).completeCycle) (DependsOn workload) (busyCycles config s)
      ((workload.length - 1) / config.frontWidth + 3) := by
  intro i hi t hwaits
  rw [Finset.mem_range] at hi
  have hwaits : t < (s.instr i).issueCycle := hwaits
  have hp := placed_of_reachesIn h
  have htimed := h.timestamps_of_exit hexit hi
  have ht : t < k := by omega
  by_contra hnone
  push Not at hnone
  obtain ⟨hidle, hbase, hdeps⟩ := hnone
  apply hidle
  obtain ⟨u, it⟩ := h.iteration_at ht
  have hbefore := h.stateAfter ht.le
  have hafter := h.stateAfter (show t + 1 ≤ k from ht)
  have hentered : (AccelSim.stateAfter workload config t).Reached .dispatch i := by
    have hfed := (hbefore.frontEnd (h.unblocked_at hfree ht.le)).entered
    rw [hbefore.cycle_eq] at hfed
    have hwidth : i < config.frontWidth * (t - 2) := by
      rw [Nat.mul_comm]
      refine (Nat.div_lt_iff_lt_mul (h.frontWidth_pos hexit hne)).mp ?_
      have hmono : i / config.frontWidth ≤ (workload.length - 1) / config.frontWidth :=
        Nat.div_le_div_right (by omega)
      omega
    rw [(inOrder_of_reachesIn hbefore).reached_dispatch_iff (placed_of_reachesIn hbefore)]
    exact (lt_min hi hwidth).trans_le hfed
  have hretired : ∀ d, DependsOn workload i d →
      (AccelSim.stateAfter workload config t).Reached .retire d := fun d hd =>
    (h.reached_at_iff hexit hd.1 ht.le).1.mpr (hdeps d (Finset.mem_range.mpr hd.1) hd)
  have hnot : ¬(AccelSim.stateAfter workload config (t + 1)).Issued i := by
    rw [h.issued_at_iff hexit hi ht]
    omega
  have hbusy := it.busy_of_waits hids (accounted_of_reachesIn hafter)
    (h.depsNamed_of_exit hexit) (h.unblocked_at hfree ht) hentered hretired hnot
  refine Finset.mem_filter.mpr ⟨Finset.mem_range.mpr (h.cycle_eq.symm ▸ ht), ?_⟩
  rcases hbusy with hissue | hunits
  · exact .inl (hissue.trans (h.issueMoved_le hexit ht it))
  · rw [← hp.type_eq] at hunits
    exact .inr ⟨_, h.units_pos hexit hi, hunits.trans (h.inUse_le hexit ht _)⟩

/-! ### How many cycles are busy -/

theorem sum_positions (h : ReachesIn workload config k s) (hexit : hasWorkLeft s = false)
    (memory : Bool) :
    ∑ i ∈ s.positions memory, ((s.instr i).completeCycle - (s.instr i).issueCycle) =
      ticksOfClass workload memory := by
  have hp := placed_of_reachesIn h
  have hsum : (∑ i ∈ s.positions memory, ((s.instr i).completeCycle - (s.instr i).issueCycle)) =
      ∑ i ∈ Finset.range workload.length,
        if isMemoryOp (programAt workload i).type = memory then (programAt workload i).ticks
          else 0 := by
    rw [SimState.positions, Finset.sum_filter, hp.length_eq]
    refine Finset.sum_congr rfl fun i hi => ?_
    have htimed := h.timestamps_of_exit hexit (Finset.mem_range.mp hi)
    rw [hp.type_eq, ← hp.ticks_eq]
    split_ifs
    · omega
    · rfl
  rw [hsum, sum_programAt workload fun i => if isMemoryOp i.type = memory then i.ticks else 0,
    ticksOfClass]
  clear hsum hp h
  induction workload with
  | nil => rfl
  | cons i rest ih =>
    rw [List.map_cons, List.sum_cons, ih, List.filter_cons]
    by_cases hclass : isMemoryOp i.type = memory
    · rw [if_pos hclass, if_pos (beq_iff_eq.mpr hclass), List.map_cons, List.sum_cons]
    · rw [if_neg hclass, if_neg (by rwa [beq_iff_eq]), Nat.zero_add]

/-- Each busy cycle issues a widthful of instructions, or has all units of a class at work. -/
theorem card_busyCycles_le (h : ReachesIn workload config k s) (hexit : hasWorkLeft s = false)
    (hne : workload ≠ []) :
    (busyCycles config s).card ≤
      workload.length / config.issueWidth + ticksOfClass workload false / config.computeUnits +
        ticksOfClass workload true / config.memoryPorts := by
  have hclass : ∀ memory, ((Finset.range s.cycle).filter fun t => 0 < config.units memory ∧
      config.units memory ≤ (s.holding memory t).card).card ≤
        ticksOfClass workload memory / config.units memory := by
    intro memory
    by_cases hpos : 0 < config.units memory
    · rw [Nat.le_div_iff_mul_le hpos, Nat.mul_comm, ← h.sum_positions hexit memory]
      exact mul_card_le fun t ht => (Finset.mem_filter.mp ht).2.2
    · simp [hpos]
  have hissue : ((Finset.range s.cycle).filter fun t =>
      config.issueWidth ≤ (s.issuedIn t).card).card ≤ workload.length / config.issueWidth := by
    rw [Nat.le_div_iff_mul_le (h.issueWidth_pos hexit hne), Nat.mul_comm]
    refine (mul_card_le fun t ht => (Finset.mem_filter.mp ht).2).trans_eq ?_
    rw [Finset.sum_congr rfl fun i _ => Nat.add_sub_cancel_left _ 1, Finset.sum_const_nat
      fun _ _ => rfl, Finset.card_range, Nat.mul_one, (placed_of_reachesIn h).length_eq]
  have hsub : busyCycles config s ⊆
      ((Finset.range s.cycle).filter fun t => config.issueWidth ≤ (s.issuedIn t).card) ∪
        (((Finset.range s.cycle).filter fun t => 0 < config.units false ∧
          config.units false ≤ (s.holding false t).card) ∪
        ((Finset.range s.cycle).filter fun t => 0 < config.units true ∧
          config.units true ≤ (s.holding true t).card)) := by
    intro t ht
    obtain ⟨hrange, hbusy⟩ := Finset.mem_filter.mp ht
    simp only [Finset.mem_union, Finset.mem_filter, hrange, true_and]
    rcases hbusy with hbusy | ⟨memory, hbusy⟩
    · exact .inl hbusy
    · cases memory with
      | false => exact .inr (.inl hbusy)
      | true => exact .inr (.inr hbusy)
  have hcompute := hclass false
  have hmemory := hclass true
  calc (busyCycles config s).card ≤ _ := Finset.card_le_card hsub
    _ ≤ _ := (Finset.card_union_le _ _).trans
        (Nat.add_le_add hissue ((Finset.card_union_le _ _).trans
          (Nat.add_le_add hcompute hmemory)))
    _ = _ := (Nat.add_assoc _ _ _).symm

/-- The critical chain of the instruction that completes last. -/
theorem exists_critical_chain (h : ReachesIn workload config k s)
    (hexit : hasWorkLeft s = false) (hids : (workload.map fun i => i.id).Nodup)
    (hfree : s.Unblocked) (hne : workload ≠ []) :
    ∃ chain : List ℕ, chain ≠ [] ∧ (∀ i ∈ chain, i < workload.length) ∧
      IsDependencyChain workload chain ∧
      k ≤ 4 + chain.length + ticksOf workload chain +
        (workload.length - 1) / config.frontWidth + workload.length / config.issueWidth +
        ticksOfClass workload false / config.computeUnits +
        ticksOfClass workload true / config.memoryPorts := by
  have hp := placed_of_reachesIn h
  obtain ⟨last, hlast, hend⟩ := h.exists_last hexit hne
  have hspan : ∀ i, i ∈ Finset.range workload.length →
      (s.instr i).completeCycle = (s.instr i).issueCycle + (programAt workload i).ticks := by
    intro i hi
    rw [← hp.ticks_eq]
    exact (h.timestamps_of_exit hexit (Finset.mem_range.mp hi)).2.1
  have hafter : ∀ i j, DependsOn workload i j →
      (s.instr j).completeCycle < (s.instr i).issueCycle := by
    intro i j hdep
    have hdone := hp.reached_done_of_exit hexit hdep.2.1
    exact (issuedAfterDeps_of_reachesIn hids h i (hdone.mono (by decide)) j hdep).2.2
  obtain ⟨chain, hmem, hchain, hle⟩ :=
    (h.greedy hexit hids hfree hne).exists_critical_chain
      (fun i hi => (hspan i hi).symm ▸ Nat.le_add_right _ _) hafter (Finset.mem_range.mpr hlast)
  refine ⟨chain ++ [last], by simp, fun i hi => Finset.mem_range.mp (hmem i hi), hchain, ?_⟩
  have hlength : ∀ l : List ℕ, (∀ i ∈ l, i ∈ Finset.range workload.length) →
      (l.map fun i => (s.instr i).completeCycle - (s.instr i).issueCycle + 1).sum =
        l.length + ticksOf workload l := by
    intro l hl
    induction l with
    | nil => rfl
    | cons i rest ih =>
      have hi := hspan i (hl i List.mem_cons_self)
      have hrest := ih fun j hj => hl j (List.mem_cons_of_mem i hj)
      unfold ticksOf at hrest ⊢
      rw [List.map_cons, List.map_cons, List.sum_cons, List.sum_cons, hrest, List.length_cons]
      omega
  rw [hlength _ hmem] at hle
  have hbusy : ((busyCycles config s).filter (· < (s.instr last).issueCycle)).card ≤ _ :=
    (Finset.card_filter_le _ _).trans (h.card_busyCycles_le hexit hne)
  omega

end ReachesIn

/-- **The length of a run** that has met no full queue is at most that of a dependency
    chain, of the program order at the width of the front end, of the issues at the issue
    width, and of the work of each class at its number of units. -/
theorem list_scheduling_bound (workload : List Instruction) (config : SimulatorConfig)
    (fuel : ℕ) (result : RunResult) (hids : (workload.map fun i => i.id).Nodup)
    (hne : workload ≠ [])
    (hrun : runWorkload fuel workload config = .ok (some result))
    (hdispatch : result.stats.stallCounts.count .dispatchQueueFull = 0)
    (hready : result.stats.stallCounts.count .readyQueueFull = 0) :
    ∃ chain : List ℕ, chain ≠ [] ∧ (∀ i ∈ chain, i < workload.length) ∧
      IsDependencyChain workload chain ∧
      result.stats.totalCycles ≤ 4 + chain.length + ticksOf workload chain +
        (workload.length - 1) /
          min config.fetchWidth (min config.decodeWidth config.dispatchWidth) +
        workload.length / config.issueWidth +
        ticksOfClass workload false / config.computeUnits +
        ticksOfClass workload true / config.memoryPorts := by
  obtain ⟨k, s, _, h, hexit, rfl⟩ := runWorkload_eq_some_iff.mp hrun
  have hcycles : (resultOf config s).stats.totalCycles = k := h.cycle_eq
  rw [hcycles]
  exact h.exists_critical_chain hexit hids ⟨hdispatch, hready⟩ hne

theorem list_scheduling_bound_dependentPair :
    ∃ result, runWorkload 12 dependentPair {} = .ok (some result) ∧
      ∃ chain : List ℕ, IsDependencyChain dependentPair chain ∧
        result.stats.totalCycles ≤ 4 + chain.length + ticksOf dependentPair chain + 3 := by
  have hrun : ∃ result, runWorkload 12 dependentPair {} = .ok (some result) ∧
      result.stats.stallCounts.count .dispatchQueueFull = 0 ∧
      result.stats.stallCounts.count .readyQueueFull = 0 := ⟨_, rfl, by decide, by decide⟩
  obtain ⟨result, hrun, hdispatch, hready⟩ := hrun
  obtain ⟨chain, _, _, hchain, hle⟩ := list_scheduling_bound dependentPair {} 12 result
    (by decide) (by decide) hrun hdispatch hready
  exact ⟨result, hrun, chain, hchain, hle⟩

end AccelSim
