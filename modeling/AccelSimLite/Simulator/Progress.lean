import AccelSimLite.Lib.Acyclic
import AccelSimLite.Simulator.Dependencies
import AccelSimLite.Simulator.FrontEnd

/-!
# Progress

Every instruction carries a potential: the cycles it still needs when nothing
holds it up. No iteration raises a potential, and one that lowers none leaves a
state that is stuck: everything is fetched and either done or waiting before the
ready queue. How far a run can be from its end is therefore known in advance,
unless it gets stuck.

## Main definitions

- `potentialAt`, `SimState.potential` — the potential of an instruction and of a state
- `Stuck` — what a state looks like when an iteration moves nothing
- `SimulatorConfig.Positive` — all widths, units and capacities are at least one
-/

namespace AccelSim

/-- All widths, units and capacities are at least one. -/
structure SimulatorConfig.Positive (config : SimulatorConfig) : Prop where
  fetchWidth : 1 ≤ config.fetchWidth
  decodeWidth : 1 ≤ config.decodeWidth
  dispatchWidth : 1 ≤ config.dispatchWidth
  issueWidth : 1 ≤ config.issueWidth
  computeUnits : 1 ≤ config.computeUnits
  memoryPorts : 1 ≤ config.memoryPorts
  dispatchQueueCapacity : 1 ≤ config.dispatchQueueCapacity
  readyQueueCapacity : 1 ≤ config.readyQueueCapacity

theorem SimulatorConfig.Positive.units {config : SimulatorConfig} (h : config.Positive)
    (memory : Bool) : 1 ≤ config.units memory := by
  cases memory
  · exact h.computeUnits
  · exact h.memoryPorts

/-! ### The potential -/

/-- The cycles a fetched instruction still needs at the head of cycle `c`. -/
def potentialAt (c : ℕ) (i : Instruction) : ℕ :=
  match i.stage with
  | .fetch => 5 + i.ticks
  | .decode => 4 + i.ticks
  | .dispatch => 3 + i.ticks
  | .ready => 2 + i.ticks
  | .execute => i.issueCycle + i.ticks + 2 - c
  | .retire => 1
  | .done => 0

def SimState.potentialOf (s : SimState) (i : ℕ) : ℕ :=
  if i < s.nextToFetch then potentialAt s.cycle (s.instr i) else 6 + (s.instr i).ticks

def SimState.potential (s : SimState) : ℕ :=
  ∑ i ∈ Finset.range s.instructions.length, s.potentialOf i

/-- A cycle lowers the potential of whatever it moves or finds executing. -/
theorem Advance.potentialAt_le {c : ℕ} {i i' : Instruction} (h : Advance c i i')
    (hexec : i.stage = .execute → c ≤ i.issueCycle + i.ticks) :
    potentialAt (c + 1) i' + (if i'.stage = i.stage ∧ i.stage ≠ .execute then 0 else 1) ≤
      potentialAt c i := by
  have hticks := i.one_le_ticks
  have hone : (if i'.stage = i.stage ∧ i.stage ≠ .execute then 0 else 1) ≤ 1 := by
    split_ifs
    · exact Nat.zero_le 1
    · exact le_rfl
  cases h with
  | stay hne =>
    by_cases hst : i.stage = .execute
    · have hle := hexec hst
      refine (Nat.add_le_add_left hone _).trans ?_
      simp only [potentialAt, hst]
      omega
    · -- the potential of an instruction that waits does not depend on the cycle
      rw [if_pos ⟨rfl, hst⟩, Nat.add_zero, potentialAt, potentialAt]
      cases hstage : i.stage
      case execute => exact absurd hstage hst
      all_goals exact le_rfl
  | decode hst =>
    refine (Nat.add_le_add_left hone _).trans ?_
    simp only [potentialAt, hst, setDecode, Instruction.ticks]
    omega
  | enter hst =>
    refine (Nat.add_le_add_left hone _).trans ?_
    simp only [potentialAt, hst, setDispatch, Instruction.ticks]
    omega
  | ready hst =>
    refine (Nat.add_le_add_left hone _).trans ?_
    simp only [potentialAt, hst, setReady, Instruction.ticks]
    omega
  | readyIssue hst =>
    refine (Nat.add_le_add_left hone _).trans ?_
    simp only [potentialAt, hst, setReady, setExecute, Instruction.ticks] at hticks ⊢
    omega
  | issue hst =>
    refine (Nat.add_le_add_left hone _).trans ?_
    simp only [potentialAt, hst, setExecute, Instruction.ticks] at hticks ⊢
    omega
  | complete hst =>
    have hle := hexec hst
    refine (Nat.add_le_add_left hone _).trans ?_
    simp only [potentialAt, hst, setRetire]
    omega
  | retire hst =>
    refine (Nat.add_le_add_left hone _).trans ?_
    simp only [potentialAt, hst, setDone]
    omega

/-- An executing instruction completes no earlier than its ticks say. -/
theorem Timed.cycle_le_of_execute {workload : List Instruction} {s : SimState} (ht : Timed s)
    (hp : Placed workload s) {i : ℕ} (hi : i < s.nextToFetch)
    (hst : (s.instr i).stage = .execute) :
    s.cycle ≤ (s.instr i).issueCycle + (s.instr i).ticks := by
  obtain ⟨slot, hslot, rfl⟩ := hp.exists_slot hi hst
  have hrem := (ht.slot slot hslot).remaining_eq
  omega

namespace Iteration

variable {workload : List Instruction} {config : SimulatorConfig} {s t s' : SimState}

theorem ticks_eq (it : Iteration workload config s t s') (i : ℕ) :
    (s'.instr i).ticks = (s.instr i).ticks := by
  rw [it.placed_finish.ticks_eq, it.placed.ticks_eq]

/-- The potential of a fetched instruction falls unless it stays in a waiting stage. -/
theorem potentialOf_fetched (it : Iteration workload config s t s') (ht : Timed s) {i : ℕ}
    (hi : i < s.nextToFetch) :
    s'.potentialOf i + (if (s'.instr i).stage = (s.instr i).stage ∧ (s.instr i).stage ≠ .execute
      then 0 else 1) ≤ s.potentialOf i := by
  have hle := (it.advance hi).potentialAt_le fun hst => ht.cycle_le_of_execute it.placed hi hst
  rw [SimState.potentialOf, SimState.potentialOf, if_pos hi, if_pos (hi.trans_le it.nextToFetch_le),
    it.cycle_finish]
  exact hle

theorem potentialOf_unfetched (it : Iteration workload config s t s') {i : ℕ}
    (hi : ¬i < s.nextToFetch) :
    s'.potentialOf i + (if i < s'.nextToFetch then 1 else 0) = s.potentialOf i := by
  have hticks := it.ticks_eq i
  rw [SimState.potentialOf, SimState.potentialOf, if_neg hi]
  split_ifs with hi'
  · have hstage : (s'.instr i).stage = .fetch := by
      rw [it.instr_fetched (Nat.le_of_not_lt hi) hi']
      rfl
    simp only [potentialAt, hstage, hticks]
    omega
  · rw [hticks, Nat.add_zero]

theorem potentialOf_le (it : Iteration workload config s t s') (ht : Timed s) (i : ℕ) :
    s'.potentialOf i ≤ s.potentialOf i := by
  by_cases hi : i < s.nextToFetch
  · exact (Nat.le_add_right _ _).trans (it.potentialOf_fetched ht hi)
  · exact (Nat.le_add_right _ _).trans (it.potentialOf_unfetched hi).le

/-- What an iteration moves or finds executing has a lower potential after it. -/
theorem potentialOf_lt (it : Iteration workload config s t s') (ht : Timed s) {i : ℕ}
    (hmove : (∃ st, i ∈ movedTo config s t st) ∨ i ∈ s.queueOf .execute) :
    s'.potentialOf i < s.potentialOf i := by
  by_cases hi : i < s.nextToFetch
  · have hle := it.potentialOf_fetched ht hi
    rw [if_neg] at hle
    · exact hle
    · rintro ⟨hsame, hne⟩
      rcases hmove with ⟨st, hst⟩ | hexec
      · obtain ⟨_, hreached⟩ := (it.reached_iff st i).mpr (.inr hst)
        rw [hsame] at hreached
        exact it.not_reached_of_movedTo st hst ⟨hi, hreached⟩
      · exact hne ((it.placed.mem_iff .execute i).mp hexec).2
  · have heq := it.potentialOf_unfetched hi
    rw [if_pos] at heq
    · omega
    · rcases hmove with ⟨st, hst⟩ | hexec
      · exact ((it.reached_iff st i).mpr (.inr hst)).1
      · exact absurd ((it.placed.mem_iff .execute i).mp hexec).1 hi

theorem potential_lt (it : Iteration workload config s t s') (ht : Timed s) {i : ℕ}
    (hmove : (∃ st, i ∈ movedTo config s t st) ∨ i ∈ s.queueOf .execute) :
    s'.potential < s.potential := by
  have hlt : i < s'.nextToFetch := by
    rcases hmove with ⟨st, hst⟩ | hexec
    · exact ((it.reached_iff st i).mpr (.inr hst)).1
    · exact ((it.placed.mem_iff .execute i).mp hexec).1.trans_le it.nextToFetch_le
  have hrange : i ∈ Finset.range workload.length :=
    Finset.mem_range.mpr (hlt.trans_le it.placed_finish.next_le)
  rw [SimState.potential, SimState.potential, it.placed.length_eq, it.placed_finish.length_eq]
  exact Finset.sum_lt_sum (fun j _ => it.potentialOf_le ht j)
    ⟨i, hrange, it.potentialOf_lt ht hmove⟩

end Iteration

/-! ### Stuck states -/

/-- An iteration from `s` whose dispatch pass starts in `t` moves nothing: whatever
    is not done waits in the dispatch queue for a dependency or in the decode
    queue for room. -/
structure Stuck (workload : List Instruction) (config : SimulatorConfig) (s t : SimState) :
    Prop where
  fetched : s.nextToFetch = workload.length
  fetchQ : s.fetchQ = []
  readyQ : s.readyQ = []
  execSlots : s.execSlots = []
  retireQ : s.retireQ = []
  waiting : ∀ i ∈ s.dispatchQ, depsSatisfied (t.instr i) t.retiredIds = false
  full : s.decodeQ = [] ∨ config.dispatchQueueCapacity ≤ s.dispatchQ.length

namespace Iteration

variable {workload : List Instruction} {config : SimulatorConfig} {s t s' : SimState}

/-- When nothing executes, the issue pass takes something from a nonempty ready queue. -/
theorem readyQ_eq_nil_of_idle (it : Iteration workload config s t s') (hpos : config.Positive)
    (hb : Balanced config s) (hslots : s.execSlots = [])
    (hidle : issueMoved config (afterDispatch config t) = []) :
    (afterDispatch config t).readyQ = [] := by
  have hfree : ∀ memory, (afterDispatch config t).issueUse.inUse memory = 0 := by
    intro memory
    have hstart := it.inUse_start memory
    rw [hb.inUse_eq, hslots] at hstart
    exact hstart
  have hissued := issued_final config (afterDispatch config t) (afterDispatch config t).issueUse
    (afterDispatch config t).readyQ (Nat.zero_le _)
  have hzero := issueFinal_issued config (afterDispatch config t)
  have hnone : (afterDispatch config t).issueUse.issued = 0 := rfl
  rw [hidle, issueFinal, hissued, hnone] at hzero
  simp only [unitsWanted, hfree, Nat.sub_zero, List.length_nil] at hzero
  have := hpos.units true
  have := hpos.units false
  have := hpos.issueWidth
  have hmemory : (afterDispatch config t).readyQ.countP
      (fun i => isMemoryOp ((afterDispatch config t).instr i).type == true) = 0 := by omega
  have hcompute : (afterDispatch config t).readyQ.countP
      (fun i => isMemoryOp ((afterDispatch config t).instr i).type == false) = 0 := by omega
  rw [List.eq_nil_iff_forall_not_mem]
  intro i hi
  cases hclass : isMemoryOp ((afterDispatch config t).instr i).type with
  | true => exact List.countP_eq_zero.mp hmemory i hi (by simp [hclass])
  | false => exact List.countP_eq_zero.mp hcompute i hi (by simp [hclass])

theorem fetched_of_idle (it : Iteration workload config s t s') (hpos : config.Positive)
    (hidle : fetching config (afterDecode config t) = []) : s.nextToFetch = workload.length := by
  rw [fetching, List.range'_eq_nil_iff, it.nextToFetch_decoded, it.decoded.length_eq] at hidle
  have := hpos.fetchWidth
  have := it.placed.next_le
  omega

theorem fetchQ_eq_nil_of_idle (it : Iteration workload config s t s') (hpos : config.Positive)
    (hidle : decoding config (afterEnter config t) = []) : s.fetchQ = [] := by
  have hfetchQ : (afterEnter config t).fetchQ = s.fetchQ := by
    rw [← it.front_start.1]
    simp only [afterEnter, enterDispatch_eq, afterIssue, issuePass_eq, dispatchPass_eq]
    rfl
  rw [decoding, hfetchQ, List.take_eq_nil_iff] at hidle
  exact hidle.resolve_left (Nat.pos_iff_ne_zero.mp hpos.decodeWidth)

/-- Nothing enters the dispatch queue only when it is full or nothing is decoded. -/
theorem full_of_idle (it : Iteration workload config s t s') (hpos : config.Positive)
    (hidle : entering config (afterIssue config t) = []) :
    s.decodeQ = [] ∨ config.dispatchQueueCapacity ≤ s.dispatchQ.length := by
  have hdecodeQ : (afterIssue config t).decodeQ = s.decodeQ := by
    rw [← it.front_start.2.1]
    simp only [afterIssue, issuePass_eq, dispatchPass_eq]
    rfl
  have hheld : (dispatchHeld config t).length ≤ s.dispatchQ.length := by
    rw [← it.front_start.2.2.1]
    exact (Admission.kept_sublist _ _).length_le
  rw [entering, hdecodeQ, List.take_eq_nil_iff, dispatchRoom_afterIssue] at hidle
  have := hpos.dispatchWidth
  rcases hidle with hroom | hempty
  · exact .inr (by omega)
  · exact .inl hempty

/-- With an empty ready queue only a dependency can hold an entry of the dispatch queue. -/
theorem waiting_of_idle (it : Iteration workload config s t s') (hpos : config.Positive)
    (hready : s.readyQ = []) (hidle : dispatchMoved config t = []) {i : ℕ} (hi : i ∈ s.dispatchQ) :
    depsSatisfied (t.instr i) t.retiredIds = false := by
  rw [← it.front_start.2.2.1] at hi
  obtain ⟨reason, hv⟩ := Admission.visit_error_of_taken_eq_nil hidle hi
  by_contra hdeps
  rw [Bool.not_eq_false] at hdeps
  have hroom : t.readyQ.length < config.readyQueueCapacity := by
    rw [it.front_start.2.2.2, hready]
    exact hpos.readyQueueCapacity
  have hok := dispatchVisit_ok_iff.mpr ⟨hdeps, hroom, rfl⟩
  rw [hv] at hok
  cases hok

/-- **Progress**: an iteration lowers the potential or leaves the state stuck. -/
theorem potential_lt_or_stuck (it : Iteration workload config s t s') (hpos : config.Positive)
    (ht : Timed s) (hb : Balanced config s) :
    s'.potential < s.potential ∨ Stuck workload config s t := by
  by_cases hlt : s'.potential < s.potential
  · exact .inl hlt
  refine .inr ?_
  have hidle : ∀ st, movedTo config s t st = [] := by
    intro st
    rw [List.eq_nil_iff_forall_not_mem]
    intro i hi
    exact hlt (it.potential_lt ht (.inl ⟨st, hi⟩))
  have hslots : s.execSlots = [] := by
    rw [List.eq_nil_iff_forall_not_mem]
    intro slot hslot
    exact hlt (it.potential_lt ht (.inr (List.mem_map_of_mem hslot)))
  have hready := it.readyQ_eq_nil_of_idle hpos hb hslots (hidle .execute)
  rw [it.readyQ_dispatched, List.append_eq_nil_iff] at hready
  exact
    { fetched := it.fetched_of_idle hpos (hidle .fetch)
      fetchQ := it.fetchQ_eq_nil_of_idle hpos (hidle .decode)
      readyQ := hready.1
      execSlots := hslots
      retireQ := hidle .done
      waiting := fun _ hi => it.waiting_of_idle hpos hready.1 hready.2 hi
      full := it.full_of_idle hpos (hidle .dispatch) }

end Iteration

/-! ### Runs that never get stuck -/

/-- The potential at the start of a run: the cycles that suffice when it never gets stuck. -/
def cycleBound (workload : List Instruction) : ℕ :=
  6 * workload.length + (workload.map Instruction.ticks).sum

theorem potential_initState (workload : List Instruction) :
    (initState workload).potential = cycleBound workload := by
  have hof : ∀ i, (initState workload).potentialOf i = 6 + (programAt workload i).ticks := by
    intro i
    rw [SimState.potentialOf, if_neg (show ¬i < (initState workload).nextToFetch from
      Nat.not_lt_zero i), (placed_initState workload).ticks_eq]
  rw [SimState.potential, show (initState workload).instructions = workload from rfl, cycleBound,
    ← sum_programAt, Finset.sum_congr rfl fun i _ => hof i, Finset.sum_add_distrib,
    Finset.sum_const_nat fun _ _ => rfl, Finset.card_range, Nat.mul_comm]

/-- A run that never gets stuck ends within the bound. -/
theorem exists_exit_of_not_stuck {workload : List Instruction} {config : SimulatorConfig}
    (hpos : config.Positive)
    (hfree : ∀ k s t s', ReachesIn workload config k s → hasWorkLeft s = true →
      ReachesIn workload config (k + 1) s' → Iteration workload config s t s' →
      ¬Stuck workload config s t) :
    ∃ k s, k ≤ cycleBound workload ∧ ReachesIn workload config k s ∧ hasWorkLeft s = false := by
  rw [← potential_initState]
  refine WhileLoop.exists_exit_of_measure (fun u => ∃ k, ReachesIn workload config k u)
    SimState.potential ?_ ⟨0, .zero⟩
  rintro u ⟨k, hu⟩ hwork
  obtain ⟨t, v, hbody, it⟩ := hu.exists_iteration
  have hv : ReachesIn workload config (k + 1) v := .step hu hwork hbody
  refine ⟨v, hbody, ⟨k + 1, hv⟩, ?_⟩
  rcases it.potential_lt_or_stuck hpos (timed_of_reachesIn hu) (balanced_of_reachesIn hu) with h | h
  · exact h
  · exact absurd h (hfree k u t v hu hwork hv it)

end AccelSim
