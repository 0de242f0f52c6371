import AccelSimLite.Simulator.Progress
import Mathlib.Data.Finset.Card

/-!
# Termination

Instructions enter the bounded dispatch queue in file order and leave it when
their dependencies have retired. A run ends unless the dependencies have a cycle
or, for some position, the instructions before it that depend on one at or after
it fill the dispatch queue: then that position never enters.

## Main definitions

- `waiters workload p` — the positions before `p` that depend on one from `p` on
- `ProgramOrdered` — every dependency names an earlier instruction
-/

namespace AccelSim

/-- Every dependency names an instruction earlier in the list. -/
def ProgramOrdered (workload : List Instruction) : Prop :=
  ∀ i, i < workload.length → ∀ dep ∈ (programAt workload i).deps,
    ∃ j, j < i ∧ (programAt workload j).id = dep

open Classical in
/-- The positions before `p` that depend, directly or transitively, on one from `p` on. -/
noncomputable def waiters (workload : List Instruction) (p : ℕ) : Finset ℕ :=
  (Finset.range p).filter fun i => ∃ j, p ≤ j ∧ Relation.TransGen (DependsOn workload) i j

theorem mem_waiters {workload : List Instruction} {p i : ℕ} :
    i ∈ waiters workload p ↔
      i < p ∧ ∃ j, p ≤ j ∧ Relation.TransGen (DependsOn workload) i j := by
  simp [waiters]

theorem card_waiters_le (workload : List Instruction) (p : ℕ) : (waiters workload p).card ≤ p := by
  have hsub : waiters workload p ⊆ Finset.range p := by
    intro i hi
    exact Finset.mem_range.mpr (mem_waiters.mp hi).1
  exact (Finset.card_le_card hsub).trans (Finset.card_range p).le

theorem ProgramOrdered.depsNamed {workload : List Instruction} (h : ProgramOrdered workload) :
    DepsNamed workload := by
  intro i hi dep hdep
  obtain ⟨j, hj, hid⟩ := h i hi dep hdep
  exact ⟨j, hj.trans hi, hid⟩

theorem ProgramOrdered.lt_of_dependsOn {workload : List Instruction} (h : ProgramOrdered workload)
    (hids : (workload.map fun i => i.id).Nodup) {i j : ℕ} (hij : DependsOn workload i j) :
    j < i := by
  obtain ⟨d, hd, hid⟩ := h i hij.2.1 _ hij.2.2
  exact programAt_inj hids (hd.trans hij.2.1) hij.1 hid ▸ hd

theorem ProgramOrdered.acyclic {workload : List Instruction} (h : ProgramOrdered workload)
    (hids : (workload.map fun i => i.id).Nodup) : Acyclic (DependsOn workload) :=
  Acyclic.of_decreasing (fun i => i) fun _ _ => h.lt_of_dependsOn hids

theorem ProgramOrdered.waiters_eq_empty {workload : List Instruction} (h : ProgramOrdered workload)
    (hids : (workload.map fun i => i.id).Nodup) (p : ℕ) : waiters workload p = ∅ := by
  rw [Finset.eq_empty_iff_forall_notMem]
  intro i hi
  obtain ⟨hip, j, hpj, hpath⟩ := mem_waiters.mp hi
  have hlt : j < i := by
    clear hip hpj hi
    induction hpath with
    | single hij => exact h.lt_of_dependsOn hids hij
    | tail _ hjk ih => exact (h.lt_of_dependsOn hids hjk).trans ih
  omega

/-! ### A run that gets stuck -/

namespace Iteration

variable {workload : List Instruction} {config : SimulatorConfig} {s t s' : SimState}

/-- What waits in the dispatch queue of a stuck state waits for something that has
    not completed, so for something in the dispatch queue or the decode queue. -/
theorem exists_waits_for (it : Iteration workload config s t s')
    (hids : (workload.map fun i => i.id).Nodup) (ha : Accounted s') (hnamed : DepsNamed workload)
    (hstuck : Stuck workload config s t) {i : ℕ} (hi : i ∈ s.dispatchQ) :
    ∃ d, DependsOn workload i d ∧ (d ∈ s.dispatchQ ∨ d ∈ s.decodeQ) := by
  have hwait := hstuck.waiting i hi
  have hlt : i < workload.length :=
    ((it.placed.mem_iff .dispatch i).mp hi).1.trans_le it.placed.next_le
  have hnot : ¬∀ d, DependsOn workload i d → s.Reached .retire d := by
    rw [← it.depsSatisfied_start_iff hids ha hnamed hlt, hwait]
    exact Bool.false_ne_true
  push Not at hnot
  obtain ⟨d, hdep, hnot⟩ := hnot
  refine ⟨d, hdep, ?_⟩
  have hd : d < s.nextToFetch := hstuck.fetched ▸ hdep.1
  have hmem := (it.placed.mem_iff (s.instr d).stage d).mpr ⟨hd, rfl⟩
  unfold SimState.Reached at hnot
  cases hst : (s.instr d).stage <;>
    simp only [hst, hd, SimState.queueOf, Stage.rank, hstuck.fetchQ, hstuck.readyQ,
      hstuck.execSlots, List.map_nil, List.not_mem_nil, true_and] at hmem hnot
  · exact .inr hmem
  · exact .inl hmem
  · omega
  · omega

/-- Without dependency cycles a dispatch queue that waits only for itself is empty. -/
theorem dispatchQ_eq_nil_of_stuck (it : Iteration workload config s t s')
    (hids : (workload.map fun i => i.id).Nodup) (ha : Accounted s') (hnamed : DepsNamed workload)
    (hac : Acyclic (DependsOn workload)) (hstuck : Stuck workload config s t)
    (hempty : s.decodeQ = []) : s.dispatchQ = [] := by
  rw [List.eq_nil_iff_forall_not_mem]
  intro i hi
  have hescape := hac.exists_escape (s := s.dispatchQ.toFinset) (Q := fun _ => False)
    (fun i hi => by
      obtain ⟨d, hdep, hd⟩ := it.exists_waits_for hids ha hnamed hstuck (List.mem_toFinset.mp hi)
      rw [hempty] at hd
      exact ⟨d, hdep, .inl (List.mem_toFinset.mpr (hd.resolve_right List.not_mem_nil))⟩)
    (List.mem_toFinset.mpr hi)
  exact hescape.elim fun _ h => h.2

/-- Without dependency cycles whatever waits in the dispatch queue of a stuck state
    waits in the end for what has not entered it. -/
theorem dispatchQ_subset_waiters (it : Iteration workload config s t s')
    (hids : (workload.map fun i => i.id).Nodup) (ha : Accounted s') (hnamed : DepsNamed workload)
    (hac : Acyclic (DependsOn workload)) (ho : InOrder s) (hstuck : Stuck workload config s t) :
    s.dispatchQ.toFinset ⊆ waiters workload s.entered := by
  intro i hi
  have hdispatch : s.Reached .dispatch i :=
    ((it.placed.mem_queueOf_iff .dispatch .ready rfl i).mp (List.mem_toFinset.mp hi)).1
  refine mem_waiters.mpr ⟨(ho.reached_dispatch_iff it.placed i).mp hdispatch, ?_⟩
  have hescape := hac.exists_escape (s := s.dispatchQ.toFinset) (Q := fun j => s.entered ≤ j)
    (fun i hi => by
      obtain ⟨d, hdep, hd⟩ := it.exists_waits_for hids ha hnamed hstuck (List.mem_toFinset.mp hi)
      refine ⟨d, hdep, hd.imp List.mem_toFinset.mpr fun hd => ?_⟩
      rw [ho.queues.1, List.mem_range'_1] at hd
      exact hd.1) hi
  obtain ⟨j, hpath, hj⟩ := hescape
  exact ⟨j, hj, hpath⟩

/-- **Deadlock has a cause**: in a stuck state of a workload without dependency
    cycles the dispatch queue is full of waiters for what cannot enter it. -/
theorem exists_full_of_stuck (it : Iteration workload config s t s')
    (hids : (workload.map fun i => i.id).Nodup) (ha : Accounted s') (hnamed : DepsNamed workload)
    (hac : Acyclic (DependsOn workload)) (ho : InOrder s) (hwork : hasWorkLeft s = true)
    (hstuck : Stuck workload config s t) :
    ∃ p, p < workload.length ∧ config.dispatchQueueCapacity ≤ (waiters workload p).card := by
  by_cases hempty : s.decodeQ = []
  · have hnil := it.dispatchQ_eq_nil_of_stuck hids ha hnamed hac hstuck hempty
    have hexit : hasWorkLeft s = false :=
      hasWorkLeft_eq_false.mpr ⟨by rw [it.placed.length_eq, hstuck.fetched], hstuck.fetchQ, hempty,
        hnil, hstuck.readyQ, hstuck.retireQ, hstuck.execSlots⟩
    rw [hexit] at hwork
    cases hwork
  · -- the first index in the decode queue is the position that cannot enter
    have hlt : s.entered < workload.length := by
      have hpos := List.length_pos_of_ne_nil hempty
      have hle := ho.length_le
      have hnext := it.placed.next_le
      unfold SimState.entered
      omega
    refine ⟨s.entered, hlt, (hstuck.full.resolve_left hempty).trans ?_⟩
    have hcard : s.dispatchQ.toFinset.card = s.dispatchQ.length :=
      List.toFinset_card_of_nodup (it.placed.nodup .dispatch)
    rw [← hcard]
    exact Finset.card_le_card (it.dispatchQ_subset_waiters hids ha hnamed hac ho hstuck)

end Iteration

/-- Without dependency cycles a run ends within the bound when no position can be
    kept out of the dispatch queue. -/
theorem exists_exit_of_card_waiters_lt {workload : List Instruction} {config : SimulatorConfig}
    (hids : (workload.map fun i => i.id).Nodup) (hnamed : DepsNamed workload)
    (hac : Acyclic (DependsOn workload)) (hpos : config.Positive)
    (hroom : ∀ p, p < workload.length →
      (waiters workload p).card < config.dispatchQueueCapacity) :
    ∃ k s, k ≤ cycleBound workload ∧ ReachesIn workload config k s ∧ hasWorkLeft s = false := by
  refine exists_exit_of_not_stuck hpos ?_
  intro k s t s' hs hwork hs' it hstuck
  obtain ⟨p, hp, hfull⟩ := it.exists_full_of_stuck hids (accounted_of_reachesIn hs') hnamed hac
    (inOrder_of_reachesIn hs) hwork hstuck
  exact absurd (hroom p hp) (Nat.not_lt.mpr hfull)

/-- A workload in program order runs to its end within the bound. -/
theorem exists_exit_of_programOrdered {workload : List Instruction} {config : SimulatorConfig}
    (hids : (workload.map fun i => i.id).Nodup) (hordered : ProgramOrdered workload)
    (hpos : config.Positive) :
    ∃ k s, k ≤ cycleBound workload ∧ ReachesIn workload config k s ∧ hasWorkLeft s = false := by
  refine exists_exit_of_card_waiters_lt hids hordered.depsNamed (hordered.acyclic hids) hpos ?_
  intro p _
  rw [hordered.waiters_eq_empty hids]
  exact hpos.dispatchQueueCapacity

/-! ### Runs that never end -/

/-- An instruction stays out of the ready queue while a dependency has not completed. -/
theorem Iteration.not_reached_ready {workload : List Instruction} {config : SimulatorConfig}
    {s t s' : SimState} (it : Iteration workload config s t s')
    (hids : (workload.map fun i => i.id).Nodup) (ha : Accounted s') {i d : ℕ}
    (hdep : DependsOn workload i d) (hd : ¬s.Reached .retire d) (hi : ¬s.Reached .ready i) :
    ¬s'.Reached .ready i := by
  rw [it.reached_iff, not_or]
  refine ⟨hi, fun hmoved => hd ?_⟩
  have hsat := depsSatisfied_of_mem_dispatchMoved hmoved
  rw [depsSatisfied_iff, it.started.deps_eq] at hsat
  exact (it.mem_retiredIds_start_iff hids ha hdep.1).mp (hsat _ hdep.2.2)

/-- Instructions that each wait for another of them never become ready. -/
theorem not_reached_ready_of_closed {workload : List Instruction} {config : SimulatorConfig}
    (hids : (workload.map fun i => i.id).Nodup) {P : ℕ → Prop}
    (hclosed : ∀ i, P i → ∃ d, DependsOn workload i d ∧ P d) {k : ℕ} {s : SimState}
    (h : ReachesIn workload config k s) : ∀ i, P i → ¬s.Reached .ready i := by
  refine h.keeps (fun s => ∀ i, P i → ¬s.Reached .ready i)
    (fun i _ hi => Nat.not_lt_zero i hi.1) ?_
  intro j u t v _ hv it hready i hi
  obtain ⟨d, hdep, hd⟩ := hclosed i hi
  refine it.not_reached_ready hids (accounted_of_reachesIn hv) hdep (fun hr => ?_) (hready i hi)
  exact hready d hd (hr.mono (by decide))

/-- A position is kept out when its waiters fill the dispatch queue. -/
def KeptOut (workload : List Instruction) (p : ℕ) (s : SimState) : Prop :=
  s.entered ≤ p ∧ ∀ i ∈ waiters workload p, ¬s.Reached .ready i

theorem KeptOut.not_reached {workload : List Instruction} {s : SimState} {p : ℕ}
    (h : KeptOut workload p s) (hp : Placed workload s) (ho : InOrder s) {j : ℕ} (hj : p ≤ j) :
    ¬s.Reached .dispatch j := by
  rw [ho.reached_dispatch_iff hp]
  exact Nat.not_lt.mpr (h.1.trans hj)

namespace Iteration

variable {workload : List Instruction} {config : SimulatorConfig} {s t s' : SimState} {p : ℕ}

/-- No waiter for a position that is kept out becomes ready. -/
theorem waiter_not_ready (it : Iteration workload config s t s')
    (hids : (workload.map fun i => i.id).Nodup) (ha : Accounted s') (ho : InOrder s)
    (h : KeptOut workload p s) {i : ℕ} (hi : i ∈ waiters workload p) : ¬s'.Reached .ready i := by
  obtain ⟨_, j, hj, hpath⟩ := mem_waiters.mp hi
  -- the next instruction on the path is a waiter too, or has not entered
  obtain ⟨d, hdep, hrest⟩ := Relation.TransGen.head'_iff.mp hpath
  refine it.not_reached_ready hids ha hdep (fun hretired => ?_) (h.2 i hi)
  by_cases hd : p ≤ d
  · exact h.not_reached it.placed ho hd (hretired.mono (by decide))
  · rcases Relation.reflTransGen_iff_eq_or_transGen.mp hrest with rfl | hrest
    · exact hd hj
    · have hwaiter := mem_waiters.mpr ⟨Nat.lt_of_not_le hd, j, hj, hrest⟩
      exact h.2 d hwaiter (hretired.mono (by decide))

theorem keptOut (it : Iteration workload config s t s') (hids : (workload.map fun i => i.id).Nodup)
    (ha : Accounted s') (ho : InOrder s) (ho' : InOrder s') (hcap : WithinCapacity config s')
    (hfull : config.dispatchQueueCapacity ≤ (waiters workload p).card)
    (h : KeptOut workload p s) : KeptOut workload p s' := by
  refine ⟨?_, fun i hi => it.waiter_not_ready hids ha ho h hi⟩
  by_contra hlt
  -- else the waiters and the position itself are in the dispatch queue, which is too small for them
  have hsub : insert p (waiters workload p) ⊆ s'.dispatchQ.toFinset := by
    intro i hi
    have hip : i ≤ p ∧ ¬s'.Reached .ready i := by
      rcases Finset.mem_insert.mp hi with rfl | hi
      · refine ⟨le_rfl, fun hready => ?_⟩
        exact h.not_reached it.placed ho le_rfl (it.reached_dispatch_of_ready hready)
      · exact ⟨(mem_waiters.mp hi).1.le, it.waiter_not_ready hids ha ho h hi⟩
    have hreached : s'.Reached .dispatch i :=
      (ho'.reached_dispatch_iff it.placed_finish i).mpr (hip.1.trans_lt (Nat.lt_of_not_le hlt))
    exact List.mem_toFinset.mpr
      ((it.placed_finish.mem_queueOf_iff .dispatch .ready rfl i).mpr ⟨hreached, hip.2⟩)
  have hcard := (Finset.card_le_card hsub).trans (List.toFinset_card_le _)
  have hnot : p ∉ waiters workload p := fun hp => lt_irrefl p (mem_waiters.mp hp).1
  rw [Finset.card_insert_of_notMem hnot] at hcard
  have := hcap.dispatch_le
  omega

end Iteration

theorem keptOut_of_reachesIn {workload : List Instruction} {config : SimulatorConfig}
    (hids : (workload.map fun i => i.id).Nodup) {p : ℕ}
    (hfull : config.dispatchQueueCapacity ≤ (waiters workload p).card) {k : ℕ} {s : SimState}
    (h : ReachesIn workload config k s) : KeptOut workload p s :=
  h.keeps (KeptOut workload p) ⟨Nat.zero_le p, fun i _ hi => Nat.not_lt_zero i hi.1⟩
    fun _ _ _ _ hu hv it => it.keptOut hids (accounted_of_reachesIn hv) (inOrder_of_reachesIn hu)
      (inOrder_of_reachesIn hv) (withinCapacity_of_reachesIn hv) hfull

/-- A run of which no state has done some instruction never exits. -/
theorem never_exits {workload : List Instruction} {config : SimulatorConfig} {i : ℕ}
    (hi : i < workload.length)
    (hnever : ∀ k s, ReachesIn workload config k s → ¬s.Reached .done i) (k : ℕ) :
    ∃ s, ReachesIn workload config k s ∧ hasWorkLeft s = true := by
  have hwork : ∀ k s, ReachesIn workload config k s → hasWorkLeft s = true := by
    intro k s h
    by_contra hexit
    exact hnever k s h ((placed_of_reachesIn h).reached_done_of_exit (by simpa using hexit) hi)
  have hstep : ∀ u, (∃ k, ReachesIn workload config k u) →
      hasWorkLeft u = true ∧
        ∃ v, cycleBody config u = .ok v ∧ ∃ k, ReachesIn workload config k v := by
    rintro u ⟨k, hu⟩
    obtain ⟨_, v, hbody, _⟩ := ReachesIn.exists_iteration hu
    exact ⟨hwork k u hu, v, hbody, k + 1, .step hu (hwork k u hu) hbody⟩
  obtain ⟨s, hs, _⟩ := WhileLoop.reachesIn_of_forever _ hstep ⟨0, .zero⟩ k
  exact ⟨s, hs, hwork k s hs⟩

theorem not_terminates_of_never_done {workload : List Instruction} {config : SimulatorConfig}
    {i : ℕ} (hi : i < workload.length)
    (hnever : ∀ k s, ReachesIn workload config k s → ¬s.Reached .done i) :
    ¬Terminates workload config := by
  intro hterm
  obtain ⟨k, s, h, hexit⟩ := terminates_iff.mp hterm
  exact hnever k s h ((placed_of_reachesIn h).reached_done_of_exit hexit hi)

/-- A full set of waiters keeps a run from ending. -/
theorem not_terminates_of_full {workload : List Instruction} {config : SimulatorConfig}
    (hids : (workload.map fun i => i.id).Nodup) {p : ℕ} (hp : p < workload.length)
    (hfull : config.dispatchQueueCapacity ≤ (waiters workload p).card) :
    ¬Terminates workload config := by
  refine not_terminates_of_never_done hp ?_
  intro k s h hdone
  have hentered := (inOrder_of_reachesIn h).reached_dispatch_iff (placed_of_reachesIn h) p
  have hout := (keptOut_of_reachesIn hids hfull h).1
  have := hentered.mp (hdone.mono (by decide))
  omega

/-- An instruction on a dependency cycle is never ready. -/
theorem not_reached_ready_of_cycle {workload : List Instruction} {config : SimulatorConfig}
    (hids : (workload.map fun i => i.id).Nodup) {i : ℕ}
    (hcycle : Relation.TransGen (DependsOn workload) i i) {k : ℕ} {s : SimState}
    (h : ReachesIn workload config k s) : ¬s.Reached .ready i := by
  refine not_reached_ready_of_closed hids (P := fun j => Relation.TransGen (DependsOn workload) j i)
    ?_ h i hcycle
  intro j hj
  obtain ⟨d, hdep, hrest⟩ := Relation.TransGen.head'_iff.mp hj
  rcases Relation.reflTransGen_iff_eq_or_transGen.mp hrest with rfl | hrest
  · exact ⟨i, hdep, hcycle⟩
  · exact ⟨d, hdep, hrest⟩

theorem lt_length_of_cycle {workload : List Instruction} {i : ℕ}
    (hcycle : Relation.TransGen (DependsOn workload) i i) : i < workload.length := by
  obtain ⟨d, hdep, _⟩ := Relation.TransGen.head'_iff.mp hcycle
  exact hdep.2.1

/-! ### The theorems -/

/-- **Deadlock freedom**: a workload without dependency cycles runs to its end
    exactly when every position has fewer waiters than the dispatch queue has room. -/
theorem terminates_iff_card_waiters_lt (workload : List Instruction) (config : SimulatorConfig)
    (hids : (workload.map fun i => i.id).Nodup) (hnamed : DepsNamed workload)
    (hac : Acyclic (DependsOn workload)) (hpos : config.Positive) :
    Terminates workload config ↔
      ∀ p, p < workload.length → (waiters workload p).card < config.dispatchQueueCapacity := by
  constructor
  · intro hterm p hp
    by_contra hfull
    exact not_terminates_of_full hids hp (Nat.le_of_not_lt hfull) hterm
  · intro hroom
    obtain ⟨k, s, _, h, hexit⟩ := exists_exit_of_card_waiters_lt hids hnamed hac hpos hroom
    exact terminates_iff.mpr ⟨k, s, h, hexit⟩

/-- A compute operation that depends on the one after it. -/
def forwardPair : List Instruction := [{ id := 1, deps := [2] }, { id := 2 }]

theorem forwardPair_depsNamed : DepsNamed forwardPair := by
  unfold DepsNamed
  decide

theorem forwardPair_dependsOn {i j : ℕ} (h : DependsOn forwardPair i j) : i = 0 ∧ j = 1 := by
  obtain ⟨hj, hi, hdep⟩ := h
  have hi : i = 0 ∨ i = 1 := by
    simp only [forwardPair, List.length_cons, List.length_nil] at hi
    omega
  have hj : j = 0 ∨ j = 1 := by
    simp only [forwardPair, List.length_cons, List.length_nil] at hj
    omega
  rcases hi with rfl | rfl <;> rcases hj with rfl | rfl <;> simp_all [forwardPair, programAt]

theorem forwardPair_acyclic : Acyclic (DependsOn forwardPair) := by
  refine Acyclic.of_decreasing (fun i => 1 - i) fun i j h => ?_
  obtain ⟨rfl, rfl⟩ := forwardPair_dependsOn h
  decide

theorem terminates_forwardPair : Terminates forwardPair { dispatchQueueCapacity := 2 } :=
  (terminates_iff_card_waiters_lt forwardPair { dispatchQueueCapacity := 2 } (by decide)
    forwardPair_depsNamed forwardPair_acyclic (by constructor <;> decide)).mpr
    fun p hp => (card_waiters_le forwardPair p).trans_lt hp

/-- With room for one instruction in the dispatch queue, an instruction that depends
    on the next one occupies that room for ever. -/
theorem dispatch_queue_deadlock :
    ¬∀ (workload : List Instruction) (config : SimulatorConfig),
      (workload.map fun i => i.id).Nodup → DepsNamed workload →
        Acyclic (DependsOn workload) → config.Positive → Terminates workload config := by
  intro halways
  have hdep : DependsOn forwardPair 0 1 := by
    unfold DependsOn
    decide
  have hwaits : 0 ∈ waiters forwardPair 1 :=
    mem_waiters.mpr ⟨by decide, 1, le_rfl, .single hdep⟩
  have hnever : ¬Terminates forwardPair { dispatchQueueCapacity := 1 } :=
    not_terminates_of_full (p := 1) (by decide) (by decide) (Finset.card_pos.mpr ⟨0, hwaits⟩)
  exact hnever (halways forwardPair _ (by decide) forwardPair_depsNamed forwardPair_acyclic
    (by constructor <;> decide))

/-- **Cycle bound**: a workload in program order runs to its end within the bound,
    however small the configuration. -/
theorem program_ordered_cycle_bound (workload : List Instruction) (config : SimulatorConfig)
    (hids : (workload.map fun i => i.id).Nodup) (hordered : ProgramOrdered workload)
    (hpos : config.Positive) :
    ∃ result, runWorkload (cycleBound workload) workload config = .ok (some result) ∧
      result.stats.totalCycles ≤ 6 * workload.length + (workload.map Instruction.ticks).sum := by
  obtain ⟨k, s, hk, h, hexit⟩ := exists_exit_of_programOrdered hids hordered hpos
  refine ⟨_, runWorkload_eq_some_iff.mpr ⟨k, s, hk, h, hexit, rfl⟩, ?_⟩
  change s.cycle ≤ cycleBound workload
  rwa [h.cycle_eq]

theorem program_ordered_cycle_bound_dependentPair :
    ∃ result, runWorkload (cycleBound dependentPair) dependentPair {} = .ok (some result) ∧
      result.stats.totalCycles ≤ 6 * 2 + (3 + 1) := by
  refine program_ordered_cycle_bound dependentPair {} (by decide) ?_ (by constructor <;> decide)
  unfold ProgramOrdered
  decide

/-- Every width, unit count and capacity is positive, but for that of the dispatch queue. -/
structure SimulatorConfig.Supplied (config : SimulatorConfig) : Prop where
  fetchWidth : 1 ≤ config.fetchWidth
  decodeWidth : 1 ≤ config.decodeWidth
  dispatchWidth : 1 ≤ config.dispatchWidth
  issueWidth : 1 ≤ config.issueWidth
  computeUnits : 1 ≤ config.computeUnits
  memoryPorts : 1 ≤ config.memoryPorts
  readyQueueCapacity : 1 ≤ config.readyQueueCapacity

theorem SimulatorConfig.Supplied.positive {config : SimulatorConfig} (h : config.Supplied)
    (hroom : 1 ≤ config.dispatchQueueCapacity) : config.Positive :=
  ⟨h.fetchWidth, h.decodeWidth, h.dispatchWidth, h.issueWidth, h.computeUnits, h.memoryPorts, hroom,
    h.readyQueueCapacity⟩

/-- **Termination is acyclicity** when the dispatch queue can hold the workload:
    nothing on a dependency cycle is ever issued, and the loop never exits. -/
theorem terminates_iff_acyclic (workload : List Instruction) (config : SimulatorConfig)
    (hids : (workload.map fun i => i.id).Nodup) (hnamed : DepsNamed workload)
    (hsupplied : config.Supplied) (hroom : workload.length ≤ config.dispatchQueueCapacity) :
    (Terminates workload config ↔ Acyclic (DependsOn workload)) ∧
    ∀ i, Relation.TransGen (DependsOn workload) i i →
      (∀ k s, ReachesIn workload config k s → ¬s.Issued i) ∧
      ∀ k, ∃ s, ReachesIn workload config k s ∧ hasWorkLeft s = true := by
  refine ⟨⟨?_, ?_⟩, ?_⟩
  · intro hterm i hcycle
    refine not_terminates_of_never_done (lt_length_of_cycle hcycle) ?_ hterm
    intro k s h hdone
    exact not_reached_ready_of_cycle hids hcycle h (hdone.mono (by decide))
  · intro hac
    -- a dispatch queue without room is no obstacle when there is nothing to hold
    by_cases hne : workload = []
    · subst hne
      exact terminates_iff.mpr ⟨0, initState [], .zero, rfl⟩
    have hpos := hsupplied.positive ((List.length_pos_iff.mpr hne).trans_le hroom)
    obtain ⟨k, s, _, h, hexit⟩ := exists_exit_of_card_waiters_lt hids hnamed hac hpos
      fun p hp => (card_waiters_le workload p).trans_lt (hp.trans_le hroom)
    exact terminates_iff.mpr ⟨k, s, h, hexit⟩
  · intro i hcycle
    have hready : ∀ k s, ReachesIn workload config k s → ¬s.Reached .ready i :=
      fun _ _ h => not_reached_ready_of_cycle hids hcycle h
    refine ⟨fun k s h hissued => hready k s h (hissued.mono (by decide)), ?_⟩
    exact never_exits (lt_length_of_cycle hcycle)
      fun k s h hdone => hready k s h (hdone.mono (by decide))

theorem terminates_iff_acyclic_selfDependent :
    ¬Terminates [{ id := 1, deps := [1] }] {} ∧ Terminates forwardPair {} := by
  have hself : DependsOn [{ id := 1, deps := [1] }] 0 0 := by
    unfold DependsOn
    decide
  constructor
  · intro hterm
    have hac := (terminates_iff_acyclic [{ id := 1, deps := [1] }] {} (by decide)
      (by unfold DepsNamed; decide) (by constructor <;> decide) (by decide)).1.mp hterm
    exact hac 0 (.single hself)
  · exact (terminates_iff_acyclic forwardPair {} (by decide) forwardPair_depsNamed
      (by constructor <;> decide) (by decide)).1.mpr forwardPair_acyclic

end AccelSim
