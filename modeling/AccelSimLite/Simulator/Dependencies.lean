import AccelSimLite.Simulator.History
import Mathlib.Logic.Relation

/-!
# Dependencies

An instruction becomes ready only when every id among its dependencies has been
retired, so it is issued strictly after each of them completed. Along a chain of
dependencies the latencies add up to a lower bound on the cycles of a run.

## Main definitions

- `DependsOn` — an instruction names another among its dependencies
- `DepsHonoured` — in no run is an instruction ready before what it names is done
-/

namespace AccelSim

/-- Position `j` names the instruction at position `i` among its dependencies. -/
def DependsOn (workload : List Instruction) (j i : ℕ) : Prop :=
  i < workload.length ∧ j < workload.length ∧
    (programAt workload i).id ∈ (programAt workload j).deps

/-! ### What the program says -/

theorem programAt_inj {workload : List Instruction}
    (hids : (workload.map fun i => i.id).Nodup) {i j : ℕ} (hi : i < workload.length)
    (hj : j < workload.length) (he : (programAt workload i).id = (programAt workload j).id) :
    i = j := by
  have hi' : i < (workload.map fun i => i.id).length := by simpa using hi
  have hj' : j < (workload.map fun i => i.id).length := by simpa using hj
  have hmap : (workload.map fun i => i.id)[i] = (workload.map fun i => i.id)[j] := by
    simpa [programAt, List.getD_eq_getElem?_getD, hi, hj] using he
  exact hids.getElem_inj_iff.mp hmap

/-- An id is retired exactly when the instruction that bears it is done. -/
theorem mem_retiredIds_iff {workload : List Instruction}
    (hids : (workload.map fun i => i.id).Nodup) {s : SimState} (hp : Placed workload s)
    (ha : Accounted s) {d : ℕ} (hd : d < workload.length) :
    (programAt workload d).id ∈ s.retiredIds ↔ d ∈ s.doneList := by
  rw [ha.retiredIds_eq, List.mem_toFinset, List.mem_map]
  constructor
  · rintro ⟨j, hj, he⟩
    rw [hp.id_eq] at he
    have hjlt := (SimState.mem_doneList.mp hj).1.trans_le hp.next_le
    exact programAt_inj hids hjlt hd he ▸ hj
  · intro h
    exact ⟨d, h, hp.id_eq d⟩

/-! ### Readiness -/

theorem depsSatisfied_iff {i : Instruction} {retiredIds : Finset ℕ} :
    depsSatisfied i retiredIds = true ↔ ∀ dep ∈ i.deps, dep ∈ retiredIds := by
  simp [depsSatisfied]

theorem depsSatisfied_of_mem_dispatchMoved {config : SimulatorConfig} {t : SimState} {i : ℕ}
    (hi : i ∈ dispatchMoved config t) : depsSatisfied (t.instr i) t.retiredIds = true := by
  refine Admission.of_mem_taken (P := fun i => depsSatisfied (t.instr i) t.retiredIds = true) ?_ hi
  intro size idx size' hv
  exact (dispatchVisit_ok_iff.mp hv).1

/-- Every dependency names an instruction of the workload. -/
def DepsNamed (workload : List Instruction) : Prop :=
  ∀ i, i < workload.length → ∀ dep ∈ (programAt workload i).deps,
    ∃ j, j < workload.length ∧ (programAt workload j).id = dep

namespace Iteration

variable {workload : List Instruction} {config : SimulatorConfig} {s t s' : SimState}

/-- An iteration retires what had completed when it began. -/
theorem reached_done_iff (it : Iteration workload config s t s') (i : ℕ) :
    s'.Reached .done i ↔ s.Reached .retire i := by
  rw [it.reached_iff .done i, show movedTo config s t .done = s.queueOf .retire from rfl,
    it.placed.mem_iff .retire i, SimState.Reached, SimState.Reached, ← and_or_left]
  refine and_congr_right fun _ => ?_
  cases (s.instr i).stage <;> decide

/-- The dispatch pass sees the ids of what had completed when the iteration began. -/
theorem mem_retiredIds_start_iff (it : Iteration workload config s t s')
    (hids : (workload.map fun i => i.id).Nodup) (ha : Accounted s') {d : ℕ}
    (hd : d < workload.length) :
    (programAt workload d).id ∈ t.retiredIds ↔ s.Reached .retire d := by
  rw [← it.retiredIds_finish, mem_retiredIds_iff hids it.placed_finish ha hd,
    ← SimState.reached_done_iff, it.reached_done_iff]

theorem depsSatisfied_start_iff (it : Iteration workload config s t s')
    (hids : (workload.map fun i => i.id).Nodup) (ha : Accounted s') (hnamed : DepsNamed workload)
    {i : ℕ} (hi : i < workload.length) :
    depsSatisfied (t.instr i) t.retiredIds = true ↔
      ∀ d, DependsOn workload i d → s.Reached .retire d := by
  rw [depsSatisfied_iff, it.started.deps_eq]
  constructor
  · intro h d hd
    exact (it.mem_retiredIds_start_iff hids ha hd.1).mp (h _ hd.2.2)
  · intro h dep hdep
    obtain ⟨d, hd, rfl⟩ := hnamed i hi dep hdep
    exact (it.mem_retiredIds_start_iff hids ha hd).mpr (h d ⟨hd, hi, hdep⟩)

end Iteration

/-- Whatever is ready or beyond has all of its dependencies retired. -/
def DepsRetired (s : SimState) : Prop :=
  ∀ i, s.Reached .ready i → ∀ dep ∈ (s.instr i).deps, dep ∈ s.retiredIds

namespace Iteration

variable {workload : List Instruction} {config : SimulatorConfig} {s t s' : SimState}

theorem retiredIds_subset (it : Iteration workload config s t s') :
    s.retiredIds ⊆ s'.retiredIds := by
  rw [it.retiredIds_finish, it.retiredIds_start]
  exact Finset.subset_union_left

theorem depsRetired (it : Iteration workload config s t s') (h : DepsRetired s) :
    DepsRetired s' := by
  intro i hi dep hdep
  rw [it.placed_finish.deps_eq, ← it.placed.deps_eq] at hdep
  rcases (it.reached_iff .ready i).mp hi with hold | hmoved
  · exact it.retiredIds_subset (h i hold dep hdep)
  · have hsat := depsSatisfied_of_mem_dispatchMoved hmoved
    rw [depsSatisfied_iff, it.started.deps_eq, ← it.placed.deps_eq] at hsat
    rw [it.retiredIds_finish]
    exact hsat dep hdep

end Iteration

theorem depsRetired_of_reachesIn {workload : List Instruction} {config : SimulatorConfig} {k : ℕ}
    {s : SimState} (h : ReachesIn workload config k s) : DepsRetired s :=
  h.keeps DepsRetired (fun i hi => absurd hi.1 (Nat.not_lt_zero i))
    fun _ _ _ _ _ _ it => it.depsRetired

/-- Whatever is ready in a run has all the instructions done that it names. -/
def DepsHonoured (workload : List Instruction) : Prop :=
  ∀ config k s, ReachesIn workload config k s → ∀ i, s.Reached .ready i →
    ∀ d, DependsOn workload i d → s.Reached .done d

theorem depsHonoured_of_nodup {workload : List Instruction}
    (hids : (workload.map fun i => i.id).Nodup) : DepsHonoured workload := by
  intro config k s h i hi d hdep
  have hp := placed_of_reachesIn h
  have hretired := depsRetired_of_reachesIn h i hi (programAt workload d).id
    (by rw [hp.deps_eq]; exact hdep.2.2)
  rw [SimState.reached_done_iff]
  exact (mem_retiredIds_iff hids hp (accounted_of_reachesIn h) hdep.1).mp hretired

theorem depsHonoured_of_independent {workload : List Instruction}
    (hdeps : ∀ i ∈ workload, i.deps = []) : DepsHonoured workload := by
  intro config k s _ i _ d hdep
  have hnamed := hdep.2.2
  rw [hdeps _ (programAt_mem hdep.2.1)] at hnamed
  cases hnamed

/-- Whatever is ready has all done that it depends on, directly or through others. -/
theorem DepsHonoured.reached_done {workload : List Instruction} (h : DepsHonoured workload)
    {config : SimulatorConfig} {k : ℕ} {s : SimState} (hs : ReachesIn workload config k s) {i d : ℕ}
    (hi : s.Reached .ready i) (hdep : Relation.TransGen (DependsOn workload) i d) :
    s.Reached .done d := by
  induction hdep with
  | single hdep => exact h config k s hs i hi _ hdep
  | tail _ hdep ih => exact h config k s hs _ (ih.mono (by decide)) _ hdep

/-! ### Issue after completion -/

/-- Whatever is issued was issued after each of its dependencies completed. -/
def IssuedAfterDeps (workload : List Instruction) (s : SimState) : Prop :=
  ∀ i, s.Issued i → ∀ d, DependsOn workload i d →
    d < s.nextToFetch ∧ (s.instr d).stage = .done ∧
      (s.instr d).completeCycle + 1 ≤ (s.instr i).issueCycle

/-- A done instruction is never written again. -/
theorem Advance.eq_of_done {c : ℕ} {i i' : Instruction} (h : Advance c i i')
    (hst : i.stage = .done) : i' = i := by
  cases h with
  | stay _ => rfl
  | _ h => rw [hst] at h; cases h

theorem Iteration.issuedAfterDeps {workload : List Instruction} {config : SimulatorConfig}
    {s t s' : SimState} (it : Iteration workload config s t s')
    (hids : (workload.map fun i => i.id).Nodup) (ha : Accounted s') (ht : Timed s')
    (hready : DepsRetired s') (h : IssuedAfterDeps workload s) : IssuedAfterDeps workload s' := by
  intro i hissued d hdep
  by_cases hold : s.Issued i
  · obtain ⟨hd, hdone, hlt⟩ := h i hold d hdep
    have hsame := (it.advance hd).eq_of_done hdone
    rw [(it.advance hold.1).issueCycle_eq hold.2, hsame]
    exact ⟨hd.trans_le it.nextToFetch_le, hdone, hlt⟩
  -- issued now: a done instruction completed at least two cycles before the next one
  · have hcycle := stamped_issue.fresh it i hold hissued
    have hretired := hready i (hissued.mono (by decide))
      (programAt workload d).id (by rw [it.placed_finish.deps_eq]; exact hdep.2.2)
    rw [mem_retiredIds_iff hids it.placed_finish ha hdep.1, SimState.mem_doneList] at hretired
    obtain ⟨hd, hdone⟩ := hretired
    have htimed := ht.instr d hd
    simp only [TimedAt, hdone, it.cycle_finish] at htimed
    exact ⟨hd, hdone, by omega⟩

theorem issuedAfterDeps_of_reachesIn {workload : List Instruction} {config : SimulatorConfig}
    (hids : (workload.map fun i => i.id).Nodup) {k : ℕ} {s : SimState}
    (h : ReachesIn workload config k s) : IssuedAfterDeps workload s :=
  h.keeps (IssuedAfterDeps workload) (fun i hi => absurd hi.1 (Nat.not_lt_zero i))
    fun _ _ _ _ _ hv it => it.issuedAfterDeps hids (accounted_of_reachesIn hv)
      (timed_of_reachesIn hv) (depsRetired_of_reachesIn hv)

/-! ### Chains -/

/-- A chain of dependencies: each member is named by the next. -/
def IsDependencyChain (workload : List Instruction) (chain : List ℕ) : Prop :=
  chain.IsChain fun i j => DependsOn workload j i

/-- The ticks of a list of positions. -/
def ticksOf (workload : List Instruction) (l : List ℕ) : ℕ :=
  (l.map fun i => (programAt workload i).ticks).sum

/-- The latencies along a chain add up between its first issue and its last completion. -/
theorem chain_le_completeCycle {workload : List Instruction} {s : SimState}
    (hp : Placed workload s) (ht : Timed s) (hafter : IssuedAfterDeps workload s)
    (hdone : ∀ i, i < workload.length → i < s.nextToFetch ∧ (s.instr i).stage = .done)
    (i : ℕ) (rest : List ℕ) (hi : i < workload.length)
    (hchain : IsDependencyChain workload (i :: rest)) :
    ∃ j, j < workload.length ∧
      (s.instr i).issueCycle + rest.length + ticksOf workload (i :: rest) ≤
        (s.instr j).completeCycle := by
  induction rest generalizing i with
  | nil =>
    refine ⟨i, hi, ?_⟩
    have htimed := ht.instr i (hdone i hi).1
    simp only [TimedAt, (hdone i hi).2] at htimed
    simp only [ticksOf, List.map_cons, List.map_nil, List.sum_cons, List.sum_nil,
      List.length_nil, ← hp.ticks_eq]
    omega
  | cons j rest ih =>
    have hdep : DependsOn workload j i := by
      simp only [IsDependencyChain, List.isChain_cons_cons] at hchain
      exact hchain.1
    have htail : IsDependencyChain workload (j :: rest) := by
      simp only [IsDependencyChain, List.isChain_cons_cons] at hchain
      exact hchain.2
    -- the chain from `j` on, and one cycle between the completion of `i` and the issue of `j`
    obtain ⟨last, hlast, hle⟩ := ih j hdep.2.1 htail
    refine ⟨last, hlast, ?_⟩
    have hissued : s.Issued j := by
      refine ⟨(hdone j hdep.2.1).1, ?_⟩
      rw [(hdone j hdep.2.1).2]
      decide
    obtain ⟨_, _, horder⟩ := hafter j hissued i hdep
    have htimed := ht.instr i (hdone i hi).1
    simp only [TimedAt, (hdone i hi).2] at htimed
    have hsum : ticksOf workload (i :: j :: rest) =
        (s.instr i).ticks + ticksOf workload (j :: rest) := by
      rw [hp.ticks_eq]
      rfl
    rw [hsum, List.length_cons]
    omega

/-- **Legal dependency order**: whatever is issued has all of its dependencies
    retired, each completed in an earlier cycle; and in a run that ends, every
    chain of dependencies bounds the cycles from below. -/
theorem issued_after_dependencies (workload : List Instruction) (config : SimulatorConfig)
    (hids : (workload.map fun i => i.id).Nodup) :
    (∀ k s, ReachesIn workload config k s → ∀ i, s.Issued i →
      (∀ dep ∈ (s.instr i).deps, dep ∈ s.retiredIds) ∧
      ∀ d, DependsOn workload i d → d < s.nextToFetch ∧ (s.instr d).stage = .done ∧
        (s.instr d).completeCycle + 1 ≤ (s.instr i).issueCycle) ∧
    ∀ fuel result, runWorkload fuel workload config = .ok (some result) →
      ∀ chain : List ℕ, chain ≠ [] → (∀ i ∈ chain, i < workload.length) →
        IsDependencyChain workload chain →
        4 + chain.length + ticksOf workload chain ≤ result.stats.totalCycles := by
  constructor
  · intro k s h i hissued
    exact ⟨depsRetired_of_reachesIn h i (hissued.mono (by decide)),
      issuedAfterDeps_of_reachesIn hids h i hissued⟩
  · intro fuel result hrun chain hne hrange hchain
    obtain ⟨k, s, _, h, hexit, rfl⟩ := runWorkload_eq_some_iff.mp hrun
    have hp := placed_of_reachesIn h
    have ht := timed_of_reachesIn h
    have hdone : ∀ i, i < workload.length → i < s.nextToFetch ∧ (s.instr i).stage = .done := by
      intro i hi
      rw [← SimState.mem_doneList, (hp.doneList_of_exit hexit).mem_iff, List.mem_range]
      exact hi
    obtain ⟨i, rest, rfl⟩ := List.exists_cons_of_ne_nil hne
    have hi := hrange i List.mem_cons_self
    obtain ⟨j, hj, hle⟩ := chain_le_completeCycle hp ht (issuedAfterDeps_of_reachesIn hids h)
      hdone i rest hi hchain
    have hfirst := ht.instr i (hdone i hi).1
    have hlast := ht.instr j (hdone j hj).1
    simp only [TimedAt, (hdone i hi).2] at hfirst
    simp only [TimedAt, (hdone j hj).2] at hlast
    change 4 + (rest.length + 1) + ticksOf workload (i :: rest) ≤ s.cycle
    omega

theorem issued_after_dependencies_dependentPair :
    ∃ result, runWorkload 12 dependentPair {} = .ok (some result) ∧
      4 + 2 + (3 + 1) ≤ result.stats.totalCycles := by
  have hrun : ∃ result, runWorkload 12 dependentPair {} = .ok (some result) := ⟨_, rfl⟩
  obtain ⟨result, hrun⟩ := hrun
  refine ⟨result, hrun, ?_⟩
  exact (issued_after_dependencies dependentPair {} (by decide)).2 12 result hrun [0, 1]
    (by decide) (by decide) (by simp [IsDependencyChain, DependsOn, programAt, dependentPair])

end AccelSim
