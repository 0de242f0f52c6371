import AccelSimLite.Simulator.Dependencies
import AccelSimLite.Simulator.FrontEnd

/-!
# File order

The dispatch queue is always in file order. Instructions whose dependencies only
grow along the file become ready in file order, however small the ready queue;
if they also share a class of units, they are issued in file order.

## Main definitions

- `NestedDeps` — the dependencies of some positions grow along the file
- `CoveredDeps` — they grow when dependencies of dependencies count too
- `SatisfiedInOrder` — what either of them means for the dispatch pass
- `ReadyOrdered`, `IssueOrdered` — some positions become ready, or are issued, in file order
-/

namespace AccelSim

/-- Among the positions in `P` a later one has all the dependencies of an earlier one. -/
def NestedDeps (workload : List Instruction) (P : ℕ → Prop) : Prop :=
  ∀ i j, i < j → j < workload.length → P i → P j →
    (programAt workload i).deps ⊆ (programAt workload j).deps

/-- Among the positions in `P` a later one depends, directly or through others, on all that
    an earlier one depends on. -/
def CoveredDeps (workload : List Instruction) (P : ℕ → Prop) : Prop :=
  ∀ i j, i < j → P i → P j →
    ∀ d, DependsOn workload i d → Relation.TransGen (DependsOn workload) j d

/-- Where dispatch takes a later position in `P` the dependencies of an earlier one are
    satisfied. -/
def SatisfiedInOrder (workload : List Instruction) (config : SimulatorConfig)
    (P : ℕ → Prop) : Prop :=
  ∀ k s t s', ReachesIn workload config (k + 1) s' → Iteration workload config s t s' →
    ∀ i j, i < j → P i → P j → j ∈ dispatchMoved config t →
      depsSatisfied (t.instr i) t.retiredIds = true

/-- The positions in `P` become ready in file order, and wait so. -/
structure ReadyOrdered (P : ℕ → Prop) (s : SimState) : Prop where
  closed : ∀ i j, i < j → P i → P j → s.Reached .ready j → s.Reached .ready i
  sorted : s.readyQ.Pairwise fun i j => P i → P j → i < j

/-- The positions in `P` are issued in file order. -/
def IssueOrdered (P : ℕ → Prop) (s : SimState) : Prop :=
  ∀ i j, i < j → P i → P j → s.Issued j → s.Issued i

/-! ### The dispatch queue -/

theorem Iteration.dispatchQ_sorted {workload : List Instruction} {config : SimulatorConfig}
    {s t s' : SimState} (it : Iteration workload config s t s') (ho : InOrder s)
    (h : s.dispatchQ.Pairwise (· < ·)) : s'.dispatchQ.Pairwise (· < ·) := by
  have hheld : (dispatchHeld config t).Sublist s.dispatchQ := by
    rw [← it.front_start.2.2.1]
    exact Admission.kept_sublist _ _
  have htake := List.take_sublist (dispatchRoom config (afterIssue config t)) s.decodeQ
  have hdecode : s.decodeQ.Pairwise (· < ·) := by
    rw [ho.queues.1]
    exact List.pairwise_lt_range'
  rw [it.dispatchQ_finish, List.pairwise_append]
  refine ⟨h.sublist hheld, hdecode.sublist htake, ?_⟩
  intro i hi j hj
  obtain ⟨hlt, hst⟩ := (it.placed.mem_iff .dispatch i).mp (hheld.subset hi)
  have hentered := (ho.reached_dispatch_iff it.placed i).mp ⟨hlt, by rw [hst]⟩
  have hwaiting := htake.subset hj
  rw [ho.queues.1, List.mem_range'_1] at hwaiting
  omega

theorem dispatchQ_sorted_of_reachesIn {workload : List Instruction} {config : SimulatorConfig}
    {k : ℕ} {s : SimState} (h : ReachesIn workload config k s) : s.dispatchQ.Pairwise (· < ·) :=
  h.keeps (fun s => s.dispatchQ.Pairwise (· < ·)) List.Pairwise.nil
    fun _ _ _ _ hu _ it => it.dispatchQ_sorted (inOrder_of_reachesIn hu)

/-! ### Satisfaction in file order -/

theorem Iteration.lt_length_of_dispatchMoved {workload : List Instruction}
    {config : SimulatorConfig} {s t s' : SimState} (it : Iteration workload config s t s') {i : ℕ}
    (hi : i ∈ dispatchMoved config t) : i < workload.length :=
  ((it.reached_iff .ready i).mpr (.inr hi)).1.trans_le it.placed_finish.next_le

theorem NestedDeps.satisfiedInOrder {workload : List Instruction} {P : ℕ → Prop}
    (h : NestedDeps workload P) (config : SimulatorConfig) :
    SatisfiedInOrder workload config P := by
  intro k s t s' _ it i j hij hi hj hmoved
  have hdeps := depsSatisfied_of_mem_dispatchMoved hmoved
  rw [depsSatisfied_iff, it.started.deps_eq] at hdeps ⊢
  exact fun dep hdep => hdeps dep (h i j hij (it.lt_length_of_dispatchMoved hmoved) hi hj hdep)

theorem CoveredDeps.satisfiedInOrder {workload : List Instruction} {P : ℕ → Prop}
    (h : CoveredDeps workload P) (hids : (workload.map fun i => i.id).Nodup)
    (hnamed : DepsNamed workload) (config : SimulatorConfig) :
    SatisfiedInOrder workload config P := by
  intro k s t s' hs' it i j hij hi hj hmoved
  have hlt := hij.trans (it.lt_length_of_dispatchMoved hmoved)
  rw [it.depsSatisfied_start_iff hids (accounted_of_reachesIn hs') hnamed hlt]
  intro d hdep
  rw [← it.reached_done_iff]
  exact (depsHonoured_of_nodup hids).reached_done hs' ((it.reached_iff .ready j).mpr (.inr hmoved))
    (h i j hij hi hj d hdep)

/-! ### Readiness in file order -/

namespace Iteration

variable {workload : List Instruction} {config : SimulatorConfig} {s t s' : SimState}
  {P : ℕ → Prop}

theorem mem_dispatchQ_start_iff (it : Iteration workload config s t s') (i : ℕ) :
    i ∈ t.dispatchQ ↔ s.Reached .dispatch i ∧ ¬s.Reached .ready i := by
  rw [it.front_start.2.2.1]
  exact it.placed.mem_queueOf_iff .dispatch .ready rfl i

/-- The issue pass finds what has become ready by then and was not issued before. -/
theorem mem_readyQ_dispatched_iff (it : Iteration workload config s t s') (i : ℕ) :
    i ∈ (afterDispatch config t).readyQ ↔ s'.Reached .ready i ∧ ¬s.Issued i := by
  have hmem := it.dispatched.mem_queueOf_iff .ready .execute rfl i
  have hready : (afterDispatch config t).Reached .ready i ↔ s'.Reached .ready i := by
    rw [it.reached_iff, it.reached_dispatched_iff, it.reached_start_iff]
    simp [movedTo]
  have hissued : (afterDispatch config t).Reached .execute i ↔ s.Issued i := by
    rw [it.reached_dispatched_iff, it.reached_start_iff]
    simp
  rw [hready, hissued] at hmem
  exact hmem

theorem nodup_readyQ_dispatched (it : Iteration workload config s t s') :
    (afterDispatch config t).readyQ.Nodup :=
  it.dispatched.nodup .ready

/-- Of two positions in `P` the dispatch pass takes the earlier one when it takes the later. -/
theorem ready_closed (it : Iteration workload config s t s')
    (hsatisfied : ∀ i j, i < j → P i → P j → j ∈ dispatchMoved config t →
      depsSatisfied (t.instr i) t.retiredIds = true)
    (ho : InOrder s) (hsorted : s.dispatchQ.Pairwise (· < ·)) (h : ReadyOrdered P s) {i j : ℕ}
    (hij : i < j) (hi : P i) (hj : P j) (hready : s'.Reached .ready j) : s'.Reached .ready i := by
  rw [it.reached_iff] at hready ⊢
  rcases hready with hold | hmoved
  · exact .inl (h.closed i j hij hi hj hold)
  by_cases hold : s.Reached .ready i
  · exact .inl hold
  refine .inr ?_
  have hjmem : j ∈ t.dispatchQ := (Admission.taken_sublist _ _).subset hmoved
  obtain ⟨hjentered, _⟩ := (it.mem_dispatchQ_start_iff j).mp hjmem
  -- `i` is in the queue too, ahead of `j`, and waits for nothing any more
  have himem : i ∈ t.dispatchQ := by
    rw [ho.reached_dispatch_iff it.placed] at hjentered
    rw [it.mem_dispatchQ_start_iff, ho.reached_dispatch_iff it.placed]
    exact ⟨hij.trans hjentered, hold⟩
  rw [← it.front_start.2.2.1] at hsorted
  refine Admission.mem_taken_of_pairwise (dispatchVisit_grows config t) i j ?_ hsorted.nodup hsorted
    hij.ne (Nat.not_lt.mpr hij.le) himem hmoved
  intro size size₂ size₂' hle hv
  obtain ⟨_, hroom, _⟩ := dispatchVisit_ok_iff.mp hv
  exact ⟨size + 1, dispatchVisit_ok_iff.mpr
    ⟨hsatisfied i j hij hi hj hmoved, hle.trans_lt hroom, rfl⟩⟩

theorem readyQ_dispatched_sorted (it : Iteration workload config s t s')
    (hsorted : s.dispatchQ.Pairwise (· < ·)) (h : ReadyOrdered P s) :
    (afterDispatch config t).readyQ.Pairwise fun i j => P i → P j → i < j := by
  rw [it.readyQ_dispatched, List.pairwise_append]
  refine ⟨h.sorted, ?_, ?_⟩
  · rw [← it.front_start.2.2.1] at hsorted
    exact (hsorted.sublist (Admission.taken_sublist _ _)).imp fun hlt _ _ => hlt
  · intro i hi j hj hPi hPj
    have hnew := it.not_reached_of_movedTo .ready hj
    obtain ⟨hready, _⟩ := (it.placed.mem_queueOf_iff .ready .execute rfl i).mp hi
    by_contra hnot
    rcases Nat.lt_or_eq_of_le (Nat.le_of_not_lt hnot) with hlt | rfl
    · exact hnew (h.closed j i hlt hPj hPi hready)
    · exact hnew hready

theorem readyOrdered (it : Iteration workload config s t s')
    (hsatisfied : ∀ i j, i < j → P i → P j → j ∈ dispatchMoved config t →
      depsSatisfied (t.instr i) t.retiredIds = true)
    (ho : InOrder s) (hsorted : s.dispatchQ.Pairwise (· < ·)) (h : ReadyOrdered P s) :
    ReadyOrdered P s' where
  closed _ _ hij hi hj := it.ready_closed hsatisfied ho hsorted h hij hi hj
  sorted := by
    rw [it.readyQ_finish]
    exact (it.readyQ_dispatched_sorted hsorted h).sublist (Admission.kept_sublist _ _)

/-! ### Issue in file order -/

/-- Of two positions in `P` of one class the issue pass takes the earlier one when
    it takes the later. -/
theorem issueOrdered (it : Iteration workload config s t s') {memory : Bool}
    (hclass : ∀ i, P i → isMemoryOp (programAt workload i).type = memory)
    (hsorted : s.dispatchQ.Pairwise (· < ·)) (hr : ReadyOrdered P s) (hr' : ReadyOrdered P s')
    (h : IssueOrdered P s) : IssueOrdered P s' := by
  intro i j hij hi hj hissued
  rw [SimState.Issued, it.reached_iff] at hissued ⊢
  rcases hissued with hold | hmoved
  · exact .inl (h i j hij hi hj hold)
  by_cases hold : s.Issued i
  · exact .inl hold
  refine .inr ?_
  have hjmem : j ∈ (afterDispatch config t).readyQ := (Admission.taken_sublist _ _).subset hmoved
  obtain ⟨hjready, _⟩ := (it.mem_readyQ_dispatched_iff j).mp hjmem
  have himem : i ∈ (afterDispatch config t).readyQ :=
    (it.mem_readyQ_dispatched_iff i).mpr ⟨hr'.closed i j hij hi hj hjready, hold⟩
  refine Admission.mem_taken_of_pairwise (issueVisit_grows config (afterDispatch config t)) i j ?_
    it.nodup_readyQ_dispatched (it.readyQ_dispatched_sorted hsorted hr) hij.ne
    (fun hlt => Nat.lt_asymm hij (hlt hj hi)) himem hmoved
  intro use use₂ use₂' hle hv
  obtain ⟨hwidth, hroom, _⟩ := issueVisit_ok_iff.mp hv
  rw [it.dispatched.type_eq, hclass j hj] at hroom
  obtain ⟨hissued, hunits⟩ := IssueUse.le_iff.mp hle
  refine ⟨_, issueVisit_ok_iff.mpr ⟨hissued.trans_lt hwidth, ?_, rfl⟩⟩
  rw [it.dispatched.type_eq, hclass i hi]
  exact (hunits memory).trans_lt hroom

end Iteration

theorem readyOrdered_of_reachesIn {workload : List Instruction} {config : SimulatorConfig}
    {P : ℕ → Prop} (hsatisfied : SatisfiedInOrder workload config P) {k : ℕ} {s : SimState}
    (h : ReachesIn workload config k s) : ReadyOrdered P s :=
  h.keeps (ReadyOrdered P) ⟨fun _ _ _ _ _ hj => absurd hj.1 (Nat.not_lt_zero _), List.Pairwise.nil⟩
    fun _ _ _ _ hu hv it => it.readyOrdered (hsatisfied _ _ _ _ hv it) (inOrder_of_reachesIn hu)
      (dispatchQ_sorted_of_reachesIn hu)

theorem issueOrdered_of_reachesIn {workload : List Instruction} {config : SimulatorConfig}
    {P : ℕ → Prop} (hsatisfied : SatisfiedInOrder workload config P) {memory : Bool}
    (hclass : ∀ i, P i → isMemoryOp (programAt workload i).type = memory) {k : ℕ} {s : SimState}
    (h : ReachesIn workload config k s) : IssueOrdered P s :=
  h.keeps (IssueOrdered P) (fun _ _ _ _ _ hj => absurd hj.1 (Nat.not_lt_zero _))
    fun _ _ _ _ hu hv it => it.issueOrdered hclass (dispatchQ_sorted_of_reachesIn hu)
      (readyOrdered_of_reachesIn hsatisfied hu) (readyOrdered_of_reachesIn hsatisfied hv)

end AccelSim
