import AccelSimLite.Simulator.FrontEnd

/-!
# Latency accounting

Where the latency of a run goes. Between its fetch and its issue an instruction
spends every cycle but one either in the fetch or decode queue or being put back
by the dispatch or issue pass, and each of these is counted somewhere. Summed
over a run the counts give the total latency, in the arithmetic of its counter.

## Main definitions

- `widthHolds` — how often an issue pass puts an entry back at its width test
- `SimState.holdStalls` — the stall counts of the branches that put an entry back
- `SimState.stampOr` — the cycle of an event, or the present one while it is to come
- `Settled` — the law that every iteration keeps
- `Instruction.latency` — the cycles from its fetch to its completion

## Main results

- `ReachesIn.totalLatency_of_exit` — the counter holds the sum of the latencies
- `total_latency_eq` — where the cycles of that sum are spent
-/

namespace AccelSim

/-- How often the issue pass that begins in `s` puts an entry back at its width test. -/
def widthHolds (config : SimulatorConfig) (s : SimState) : ℕ :=
  ∑ n ∈ Finset.range s.readyQ.length,
    if config.issueWidth ≤ ((issueIter config)^[n] (s, 0)).2 then 1 else 0

/-- The state in which the issue pass of an iteration from `s` begins. -/
def issueStart (config : SimulatorConfig) (s : SimState) : SimState :=
  match dispatchStart s with
  | .ok t => dispatchPass config t
  | .error _ => s

/-- The stall counts of the branches that put an entry back into its queue. -/
def SimState.holdStalls (s : SimState) : ℕ :=
  s.stats.stallCounts.count .waitingDependency + s.stats.stallCounts.count .readyQueueFull +
    s.stats.stallCounts.count .noMemoryPort + s.stats.stallCounts.count .noComputeUnit

/-! ### What the passes hold back -/

/-- The stall reasons of the branches that put an entry back. -/
def StallReason.holds : StallReason → Bool
  | .dispatchQueueFull => false
  | _ => true

theorem holdStalls_bumpAll (m : Counters StallReason) (ks : List StallReason) :
    (m.bumpAll ks).count .waitingDependency + (m.bumpAll ks).count .readyQueueFull +
        (m.bumpAll ks).count .noMemoryPort + (m.bumpAll ks).count .noComputeUnit =
      m.count .waitingDependency + m.count .readyQueueFull + m.count .noMemoryPort +
        m.count .noComputeUnit + ks.countP StallReason.holds := by
  have hkeys : [StallReason.waitingDependency, .readyQueueFull, .noMemoryPort,
      .noComputeUnit].Nodup := by decide
  have hsum := (m.sum_count_bumpAll ks hkeys).trans (congrArg _ (List.countP_congr
    (q := StallReason.holds) fun k _ => by cases k <;> decide))
  simp only [List.map_cons, List.map_nil, List.sum_cons, List.sum_nil] at hsum
  omega

theorem dispatchVisit_error {config : SimulatorConfig} {s : SimState} {size idx : ℕ}
    {reason : StallReason} (h : dispatchVisit config s size idx = .error reason) :
    reason.holds = true := by
  unfold dispatchVisit at h
  split_ifs at h <;> cases h <;> rfl

theorem issueVisit_error {config : SimulatorConfig} {s : SimState} {use : IssueUse} {idx : ℕ}
    {reason : Option StallReason} (h : issueVisit config s use idx = .error reason) :
    (reason = none ↔ config.issueWidth ≤ use.issued) ∧
      ∀ r, reason = some r → r.holds = true := by
  unfold issueVisit at h
  split_ifs at h with hwidth hmem hport hunit <;> cases h
  · exact ⟨iff_of_true rfl hwidth, fun r hr => by cases hr⟩
  · refine ⟨iff_of_false (by simp) hwidth, fun r hr => ?_⟩
    cases hr
    rfl
  · refine ⟨iff_of_false (by simp) hwidth, fun r hr => ?_⟩
    cases hr
    rfl

/-- Every entry the dispatch pass holds is counted as a stall. -/
theorem countP_dispatchStalls (config : SimulatorConfig) (s : SimState) :
    (dispatchStalls config s).countP StallReason.holds = (dispatchHeld config s).length := by
  have hall : ∀ reason ∈ dispatchStalls config s, reason.holds = true := by
    intro reason hr
    obtain ⟨⟨i, _⟩, hi, rfl⟩ := List.mem_map.mp hr
    obtain ⟨_, _, _, hv⟩ := Admission.mem_refused_split hi
    exact dispatchVisit_error hv
  rw [List.countP_eq_length.mpr hall, dispatchStalls, dispatchHeld, Admission.kept,
    List.length_map, List.length_map]

/-- Every entry the issue pass holds is counted as a stall or as held by the width. -/
theorem countP_issueStalls_add (config : SimulatorConfig) (s : SimState) :
    (issueStalls config s).reduceOption.countP StallReason.holds +
        (issueStalls config s).countP Option.isNone = (issueHeld config s).length := by
  have hall : ∀ reason ∈ (issueStalls config s).reduceOption, reason.holds = true := by
    intro reason hr
    obtain ⟨⟨i, _⟩, hi, hsome⟩ := List.mem_map.mp (List.reduceOption_mem_iff.mp hr)
    obtain ⟨_, _, _, hv⟩ := Admission.mem_refused_split hi
    exact (issueVisit_error hv).2 reason hsome
  have hsplit : ∀ l : List (Option StallReason),
      l.reduceOption.length + l.countP Option.isNone = l.length := by
    intro l
    induction l with
    | nil => rfl
    | cons o l ih =>
      cases o with
      | none =>
        rw [List.reduceOption_cons_of_none, List.countP_cons, List.length_cons]
        simp only [Option.isNone_none, if_true]
        omega
      | some r =>
        rw [List.reduceOption_cons_of_some, List.countP_cons, List.length_cons, List.length_cons]
        simp only [Option.isNone_some, Bool.false_eq_true, if_false]
        omega
  rw [List.countP_eq_length.mpr hall, hsplit, issueStalls, issueHeld, Admission.kept,
    List.length_map, List.length_map]

theorem sum_width_refusals (config : SimulatorConfig) (s : SimState) (use : IssueUse)
    (l : List ℕ) :
    (∑ n ∈ Finset.range l.length,
        if config.issueWidth ≤ (Admission.final (issueVisit config s) use (l.take n)).issued
          then 1 else 0) =
      ((Admission.refused (issueVisit config s) use l).map Prod.snd).countP Option.isNone := by
  induction l generalizing use with
  | nil => rfl
  | cons i l ih =>
    rw [List.length_cons, Finset.sum_range_succ']
    simp only [List.take_succ_cons, List.take_zero, Admission.final_nil]
    cases hv : issueVisit config s use i with
    | ok use' =>
      have hroom := (issueVisit_ok_iff.mp hv).1
      simp only [Admission.final_cons_ok hv, Admission.refused_cons_ok hv, ih,
        Nat.not_le.mpr hroom, if_false, Nat.add_zero]
    | error reason =>
      have hnone := (issueVisit_error hv).1
      simp only [Admission.final_cons_error hv, Admission.refused_cons_error hv, ih, List.map_cons,
        List.countP_cons, ← hnone]
      cases reason <;> simp

theorem widthHolds_eq (config : SimulatorConfig) (s : SimState) :
    widthHolds config s = (issueStalls config s).countP Option.isNone := by
  rw [issueStalls, ← sum_width_refusals, widthHolds]
  apply Finset.sum_congr rfl
  intro n hn
  have hlen := (Finset.mem_range.mp hn).le
  have h := issueIter_iterate config (s.readyQ.take n) (s.readyQ.drop n) s 0
    (List.take_append_drop n _).symm
  rw [List.length_take, Nat.min_eq_left hlen] at h
  rw [h]
  rfl

namespace Iteration

variable {workload : List Instruction} {config : SimulatorConfig} {s t s' : SimState}

theorem issueStart_eq (it : Iteration workload config s t s') :
    issueStart config s = afterDispatch config t := by
  unfold issueStart
  rw [it.start]

/-- The stalls an iteration counts: one for each entry it holds back, but for those
    the width holds. -/
theorem holdStalls_finish (it : Iteration workload config s t s') :
    s'.holdStalls + widthHolds config (issueStart config s) =
      s.holdStalls + (dispatchHeld config t).length +
        (issueHeld config (afterDispatch config t)).length := by
  have hstart : t.stats.stallCounts = s.stats.stallCounts := by
    obtain ⟨_, _, ht⟩ := (executeTick_ok_iff _ _).mp it.start
    rw [ht, retirePass_eq]
    rfl
  have hfinish : s'.stats.stallCounts = ((s.stats.stallCounts.bumpAll
      (dispatchStalls config t)).bumpAll
        (issueStalls config (afterDispatch config t)).reduceOption).bumpAll
          (enteringStalls config (afterIssue config t)) := by
    rw [it.finish, ← hstart]
    simp only [recordCycle, afterFetch, fetchPass_eq, decodePass_eq, enterDispatch_eq, afterIssue,
      issuePass_eq, afterDispatch, dispatchPass_eq]
    rfl
  have hentering : (enteringStalls config (afterIssue config t)).countP StallReason.holds = 0 := by
    unfold enteringStalls
    split_ifs <;> rfl
  rw [SimState.holdStalls, hfinish, holdStalls_bumpAll, holdStalls_bumpAll, holdStalls_bumpAll,
    hentering, countP_dispatchStalls, it.issueStart_eq, widthHolds_eq,
    ← countP_issueStalls_add config (afterDispatch config t), SimState.holdStalls]
  omega

end Iteration

/-! ### Waiting times -/

/-- The cycle of an event of an instruction, or the present one while it is to come. -/
def SimState.stampOr (s : SimState) (st : Stage) (stamp : Instruction → ℕ) (i : ℕ) : ℕ :=
  if s.Reached st i then stamp (s.instr i) else s.cycle

theorem Stamped.stampOr_finish {st : Stage} {stamp : Instruction → ℕ} (hstamp : Stamped st stamp)
    {workload : List Instruction} {config : SimulatorConfig} {s t s' : SimState}
    (it : Iteration workload config s t s') (i : ℕ) :
    s'.stampOr st stamp i = s.stampOr st stamp i + if s'.Reached st i then 0 else 1 := by
  unfold SimState.stampOr
  by_cases hold : s.Reached st i
  · rw [if_pos hold, if_pos (it.reached_mono hold), if_pos (it.reached_mono hold),
      hstamp.kept it i hold]
    rfl
  · by_cases hnew : s'.Reached st i
    · rw [if_pos hnew, if_neg hold, if_pos hnew, hstamp.fresh it i hold hnew]
      rfl
    · rw [if_neg hnew, if_neg hold, if_neg hnew, it.cycle_finish]

theorem sum_mem_eq_length {n : ℕ} {l : List ℕ} (hnodup : l.Nodup) (hlt : ∀ i ∈ l, i < n) :
    (∑ i ∈ Finset.range n, if i ∈ l then 1 else 0) = l.length := by
  rw [← Finset.card_filter, ← List.toFinset_card_of_nodup hnodup]
  congr 1
  ext i
  rw [Finset.mem_filter, Finset.mem_range, List.mem_toFinset]
  exact and_iff_right_of_imp (hlt i)

/-- What is fetched but not issued is in one of the first four queues. -/
theorem Placed.sum_not_issued {workload : List Instruction} {s : SimState}
    (h : Placed workload s) :
    (∑ i ∈ Finset.range workload.length, if s.Reached .execute i then 0 else 1) =
      (∑ i ∈ Finset.range workload.length, if s.Reached .fetch i then 0 else 1) +
        (s.fetchQ.length + s.decodeQ.length + s.dispatchQ.length + s.readyQ.length) := by
  have hlen : ∀ st, (s.queueOf st).length =
      ∑ i ∈ Finset.range workload.length, if i ∈ s.queueOf st then 1 else 0 := by
    intro st
    refine (sum_mem_eq_length (h.nodup st) fun i hi => ?_).symm
    exact ((h.mem_iff st i).mp hi).1.trans_le h.next_le
  have hfetch := hlen .fetch
  have hdecode := hlen .decode
  have hdispatch := hlen .dispatch
  have hready := hlen .ready
  simp only [SimState.queueOf] at hfetch hdecode hdispatch hready
  rw [hfetch, hdecode, hdispatch, hready, ← Finset.sum_add_distrib, ← Finset.sum_add_distrib,
    ← Finset.sum_add_distrib, ← Finset.sum_add_distrib]
  apply Finset.sum_congr rfl
  intro i _
  have h1 := h.mem_iff .fetch i
  have h2 := h.mem_iff .decode i
  have h3 := h.mem_iff .dispatch i
  have h4 := h.mem_iff .ready i
  simp only [SimState.queueOf] at h1 h2 h3 h4
  have hissued : s.Reached .execute i ↔
      i < s.nextToFetch ∧ Stage.execute.rank ≤ (s.instr i).stage.rank := Iff.rfl
  by_cases hi : i < s.nextToFetch
  · cases hst : (s.instr i).stage <;>
      simp [h1, h2, h3, h4, hissued, reached_fetch_iff, hi, hst, Stage.rank]
  · simp [h1, h2, h3, h4, hissued, reached_fetch_iff, hi]

/-- What cycle `j` leaves waiting in the front end, and what its width test held back. -/
def waitingIn (workload : List Instruction) (config : SimulatorConfig) (j : ℕ) : ℕ :=
  (stateAfter workload config (j + 1)).fetchQ.length +
    (stateAfter workload config (j + 1)).decodeQ.length +
      widthHolds config (issueStart config (stateAfter workload config j))

/-- **Settled accounts**: the issue cycles exceed the enqueue cycles by what has been
    counted so far, where what is still to come is taken to come at present. -/
def Settled (workload : List Instruction) (config : SimulatorConfig) (s : SimState) : Prop :=
  ∑ i ∈ Finset.range workload.length, s.stampOr .execute Instruction.issueCycle i =
    (∑ i ∈ Finset.range workload.length, s.stampOr .fetch Instruction.enqueueCycle i) +
      s.entered + s.holdStalls + ∑ j ∈ Finset.range s.cycle, waitingIn workload config j

theorem Iteration.settled {workload : List Instruction} {config : SimulatorConfig}
    {s t s' : SimState} (it : Iteration workload config s t s') (ho : InOrder s)
    (hs : s = stateAfter workload config s.cycle)
    (hs' : s' = stateAfter workload config (s.cycle + 1)) (h : Settled workload config s) :
    Settled workload config s' := by
  have hissue := Finset.sum_congr rfl fun i (_ : i ∈ Finset.range workload.length) =>
    stamped_issue.stampOr_finish it i
  have henqueue := Finset.sum_congr rfl fun i (_ : i ∈ Finset.range workload.length) =>
    stamped_enqueue.stampOr_finish it i
  -- every cycle adds one for each event to come, so the two sums come apart by what is
  -- fetched but not issued
  rw [Finset.sum_add_distrib] at hissue henqueue
  have hwaiting := it.placed_finish.sum_not_issued
  have hentered := it.entered_finish ho
  have hstalls := it.holdStalls_finish
  have hdispatch := congrArg List.length it.dispatchQ_finish
  rw [List.length_append, List.length_take] at hdispatch
  have hready := congrArg List.length it.readyQ_finish
  have hcycle : waitingIn workload config s.cycle =
      s'.fetchQ.length + s'.decodeQ.length + widthHolds config (issueStart config s) := by
    rw [waitingIn, ← hs, ← hs']
  unfold Settled at h ⊢
  rw [it.cycle_finish, Finset.sum_range_succ, hcycle, hissue, henqueue]
  omega

theorem settled_of_reachesIn {workload : List Instruction} {config : SimulatorConfig} {k : ℕ}
    {s : SimState} (h : ReachesIn workload config k s) : Settled workload config s := by
  refine h.keeps (Settled workload config) ?_ ?_
  · have hzero : ∀ st stamp, (∑ i ∈ Finset.range workload.length,
        (initState workload).stampOr st stamp i) = 0 := by
      intro st stamp
      refine Finset.sum_eq_zero fun i _ => ?_
      exact if_neg fun hi => Nat.not_lt_zero i hi.1
    unfold Settled
    rw [hzero, hzero]
    rfl
  · intro j u t v hu hv it hsettled
    have hj := ReachesIn.cycle_eq hu
    refine it.settled (inOrder_of_reachesIn hu) ?_ ?_ hsettled
    · rw [hj]
      exact hu.eq_stateAfter
    · rw [hj]
      exact hv.eq_stateAfter

/-! ### The total latency -/

/-- The cycles from the fetch of an instruction to its completion. -/
def Instruction.latency (i : Instruction) : ℕ := i.completeCycle - i.enqueueCycle

theorem latencyOf_eq {i : Instruction} (h : i.enqueueCycle ≤ i.completeCycle) :
    latencyOf i = UInt64.ofNat i.latency := (UInt64.ofNat_sub h).symm

theorem Advance.latencyOf_eq {c : ℕ} {i i' : Instruction} (h : Advance c i i')
    (hst : i.stage = .done ∨ i.stage = .retire) : latencyOf i' = latencyOf i := by
  cases h with
  | stay _ => rfl
  | retire _ => rfl
  | _ h => rcases hst with hst | hst <;> · rw [hst] at h; cases h

open scoped UInt64.CommRing

theorem sum_latencyOf {l : List Instruction} (h : ∀ i ∈ l, i.enqueueCycle ≤ i.completeCycle) :
    (l.map latencyOf).sum = UInt64.ofNat (l.map Instruction.latency).sum := by
  induction l with
  | nil => rfl
  | cons i l ih =>
    rw [List.forall_mem_cons] at h
    rw [List.map_cons, List.map_cons, List.sum_cons, List.sum_cons, ih h.2, latencyOf_eq h.1,
      UInt64.ofNat_add]

theorem Iteration.totalLatency_finish {workload : List Instruction} {config : SimulatorConfig}
    {s t s' : SimState} (it : Iteration workload config s t s')
    (h : s.stats.totalLatency = (s.doneList.map fun i => latencyOf (s.instr i)).sum) :
    s'.stats.totalLatency = (s'.doneList.map fun i => latencyOf (s'.instr i)).sum := by
  have hadd : s'.stats.totalLatency =
      s.stats.totalLatency + (s.retireQ.map fun i => latencyOf (s.instr i)).sum := by
    obtain ⟨_, _, ht⟩ := (executeTick_ok_iff _ _).mp it.start
    rw [it.finish, ht]
    simp only [afterFetch, fetchPass_eq, decodePass_eq, enterDispatch_eq, issuePass_eq,
      dispatchPass_eq, retirePass_eq]
    rfl
  have hsame : (s.doneList ++ s.retireQ).map (fun i => latencyOf (s'.instr i)) =
      (s.doneList ++ s.retireQ).map fun i => latencyOf (s.instr i) := by
    apply List.map_congr_left
    intro i hi
    rcases List.mem_append.mp hi with hd | hr
    · obtain ⟨hlt, hst⟩ := SimState.mem_doneList.mp hd
      exact (it.advance hlt).latencyOf_eq (.inl hst)
    · obtain ⟨hlt, hst⟩ := (it.placed.mem_iff .retire i).mp hr
      exact (it.advance hlt).latencyOf_eq (.inr hst)
  rw [(it.doneList_perm.map _).sum_eq, hsame, List.map_append, List.sum_append, hadd, h]

theorem totalLatency_of_reachesIn {workload : List Instruction} {config : SimulatorConfig} {k : ℕ}
    {s : SimState} (h : ReachesIn workload config k s) :
    s.stats.totalLatency = (s.doneList.map fun i => latencyOf (s.instr i)).sum :=
  h.keeps (fun s => s.stats.totalLatency = (s.doneList.map fun i => latencyOf (s.instr i)).sum) rfl
    fun _ _ _ _ _ _ it => it.totalLatency_finish

namespace ReachesIn

variable {workload : List Instruction} {config : SimulatorConfig} {k : ℕ} {s : SimState}

/-- The total latency of a run that has ended, by instructions. -/
theorem totalLatency_eq_sum (h : ReachesIn workload config k s)
    (hexit : hasWorkLeft s = false) :
    s.stats.totalLatency = UInt64.ofNat (s.instructions.map Instruction.latency).sum := by
  have hp := placed_of_reachesIn h
  have hmap : s.instructions.map latencyOf =
      (List.range workload.length).map fun i => latencyOf (s.instr i) := by
    conv_lhs => rw [s.instructions_eq_map, List.map_map, hp.length_eq]
    rfl
  rw [totalLatency_of_reachesIn h, ((hp.doneList_of_exit hexit).map _).sum_eq, ← hmap]
  refine sum_latencyOf fun instruction hinstruction => ?_
  obtain ⟨i, hi, rfl⟩ := (hp.mem_instructions_iff instruction).mp hinstruction
  have htimed := h.timestamps_of_exit hexit hi
  omega

theorem sum_latency (h : ReachesIn workload config k s) :
    (s.instructions.map Instruction.latency).sum =
      ∑ i ∈ Finset.range workload.length, (s.instr i).latency := by
  conv_lhs => rw [s.instructions_eq_map, List.map_map, (placed_of_reachesIn h).length_eq]
  rfl

/-- The total latency of a run that has ended, as its counter holds it. -/
theorem totalLatency_of_exit (h : ReachesIn workload config k s)
    (hexit : hasWorkLeft s = false) :
    s.stats.totalLatency =
      UInt64.ofNat (∑ i ∈ Finset.range workload.length, (s.instr i).latency) := by
  rw [h.totalLatency_eq_sum hexit, h.sum_latency]

theorem sum_latency_add (h : ReachesIn workload config k s) (hexit : hasWorkLeft s = false) :
    (∑ i ∈ Finset.range workload.length, (s.instr i).latency) +
        ∑ i ∈ Finset.range workload.length, (s.instr i).enqueueCycle =
      (∑ i ∈ Finset.range workload.length, (s.instr i).issueCycle) +
        (workload.map Instruction.ticks).sum := by
  have hp := placed_of_reachesIn h
  rw [← sum_programAt, ← Finset.sum_add_distrib, ← Finset.sum_add_distrib]
  apply Finset.sum_congr rfl
  intro i hi
  obtain ⟨hissue, hcomplete, _⟩ := h.timestamps_of_exit hexit (Finset.mem_range.mp hi)
  rw [Instruction.latency, hcomplete, hp.ticks_eq]
  omega

end ReachesIn

/-- **Latency accounting**: the total latency of a run is what its cycles leave in
    the fetch and decode queues, one cycle for each instruction, the stalls of the
    dispatch and issue passes, the entries its width test holds, and the ticks, all
    added up as the `uint64_t` of the counter is. -/
theorem total_latency_eq (fuel : ℕ) (workload : List Instruction) (config : SimulatorConfig)
    (result : RunResult) (hrun : runWorkload fuel workload config = .ok (some result)) :
    result.stats.totalLatency = UInt64.ofNat (
      (∑ j ∈ Finset.range result.stats.totalCycles,
        ((stateAfter workload config (j + 1)).fetchQ.length +
          (stateAfter workload config (j + 1)).decodeQ.length)) +
      workload.length +
      result.stats.stallCounts.count .waitingDependency +
      result.stats.stallCounts.count .readyQueueFull +
      result.stats.stallCounts.count .noMemoryPort +
      result.stats.stallCounts.count .noComputeUnit +
      (∑ j ∈ Finset.range result.stats.totalCycles,
        widthHolds config (issueStart config (stateAfter workload config j))) +
      (workload.map Instruction.ticks).sum) := by
  obtain ⟨k, s, _, h, hexit, rfl⟩ := runWorkload_eq_some_iff.mp hrun
  have hp := placed_of_reachesIn h
  have hlatency := h.sum_latency_add hexit
  have hsettled := settled_of_reachesIn h
  have hstamp : ∀ st stamp, (∑ i ∈ Finset.range workload.length, s.stampOr st stamp i) =
      ∑ i ∈ Finset.range workload.length, stamp (s.instr i) := by
    intro st stamp
    refine Finset.sum_congr rfl fun i hi => ?_
    have hdone := hp.reached_done_of_exit hexit (Finset.mem_range.mp hi)
    exact if_pos (hdone.mono (by cases st <;> decide))
  have hentered : s.entered = workload.length := by
    obtain ⟨hnext, hf, hd, _⟩ := hasWorkLeft_eq_false.mp hexit
    have hle := hp.next_le
    rw [hp.length_eq] at hnext
    simp only [SimState.entered, hf, hd, List.length_nil]
    omega
  unfold Settled at hsettled
  simp only [waitingIn, Finset.sum_add_distrib] at hsettled
  rw [hstamp, hstamp, hentered, SimState.holdStalls] at hsettled
  change s.stats.totalLatency = _
  rw [h.totalLatency_of_exit hexit]
  congr 1
  change _ = (∑ j ∈ Finset.range s.cycle, _) + _ + _ + _ + _ + _ +
    (∑ j ∈ Finset.range s.cycle, _) + _
  simp only [Finset.sum_add_distrib]
  change _ = _ + s.stats.stallCounts.count .waitingDependency +
    s.stats.stallCounts.count .readyQueueFull + s.stats.stallCounts.count .noMemoryPort +
    s.stats.stallCounts.count .noComputeUnit + _ + _
  omega

theorem total_latency_eq_dependentPair :
    ∃ result, runWorkload 12 dependentPair {} = .ok (some result) ∧
      result.stats.totalLatency = UInt64.ofNat (
        (∑ j ∈ Finset.range result.stats.totalCycles,
          ((stateAfter dependentPair {} (j + 1)).fetchQ.length +
            (stateAfter dependentPair {} (j + 1)).decodeQ.length)) + 2 +
        result.stats.stallCounts.count .waitingDependency +
        result.stats.stallCounts.count .readyQueueFull +
        result.stats.stallCounts.count .noMemoryPort +
        result.stats.stallCounts.count .noComputeUnit +
        (∑ j ∈ Finset.range result.stats.totalCycles,
          widthHolds {} (issueStart {} (stateAfter dependentPair {} j))) + (3 + 1)) := by
  have hrun : ∃ result, runWorkload 12 dependentPair {} = .ok (some result) := ⟨_, rfl⟩
  obtain ⟨result, hrun⟩ := hrun
  exact ⟨result, hrun, total_latency_eq 12 dependentPair {} result hrun⟩

end AccelSim
