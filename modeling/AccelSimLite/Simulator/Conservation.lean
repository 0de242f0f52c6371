import AccelSimLite.Simulator.Lifecycle

/-!
# Conservation of instructions

Placement says where every fetched instruction is. Here the counters of
completed work are tied to it, and the two together give the conservation law of
a run: nothing is lost, nothing is duplicated, and a run that ends has completed
everything.
-/

namespace AccelSim

/-- The counters of completed work describe the instructions that are `Done`. -/
structure Accounted (s : SimState) : Prop where
  completedOps_eq : s.stats.completedOps = s.doneList.length
  retiredIds_eq : s.retiredIds = (s.doneList.map fun i => (s.instr i).id).toFinset

/-- The indices that are not yet fetched. -/
def SimState.unfetched (s : SimState) : List ℕ :=
  List.range' s.nextToFetch (s.instructions.length - s.nextToFetch)

/-- Every place an index can be in, one after the other. -/
def SimState.places (s : SimState) : List ℕ :=
  s.unfetched ++ s.fetchQ ++ s.decodeQ ++ s.dispatchQ ++ s.readyQ ++
    (s.execSlots.map fun slot => slot.index) ++ s.retireQ ++ s.doneList

theorem Advance.stage_done_iff {c : ℕ} {i i' : Instruction} (h : Advance c i i') :
    i'.stage = .done ↔ i.stage = .done ∨ i.stage = .retire := by
  cases h <;> simp_all [setDecode, setDispatch, setReady, setExecute, setRetire, setDone]

theorem Advance.id_eq {c : ℕ} {i i' : Instruction} (h : Advance c i i') : i'.id = i.id := by
  cases h <;> rfl

namespace Iteration

variable {workload : List Instruction} {config : SimulatorConfig} {s t s' : SimState}

/-- A cycle retires what was in the retire queue when it began. -/
theorem doneList_perm (it : Iteration workload config s t s') :
    s'.doneList.Perm (s.doneList ++ s.retireQ) := by
  have hdisj : s.doneList.Disjoint s.retireQ := by
    intro i hd hr
    have hst := (SimState.mem_doneList.mp hd).2
    rw [((it.placed.mem_iff .retire i).mp hr).2] at hst
    cases hst
  have hretired : s.retireQ.Nodup := it.placed.nodup .retire
  rw [List.perm_ext_iff_of_nodup s'.nodup_doneList (s.nodup_doneList.append hretired hdisj)]
  intro i
  have hretire : i ∈ s.retireQ ↔ i < s.nextToFetch ∧ (s.instr i).stage = .retire :=
    it.placed.mem_iff .retire i
  rw [List.mem_append, SimState.mem_doneList, SimState.mem_doneList, hretire]
  by_cases hi : i < s.nextToFetch
  · have hi' := hi.trans_le it.nextToFetch_le
    simp only [hi, hi', true_and]
    exact (it.advance hi).stage_done_iff
  · have hnot : ¬(i < s'.nextToFetch ∧ (s'.instr i).stage = .done) := by
      rintro ⟨hi', hst⟩
      rw [it.instr_fetched (Nat.le_of_not_lt hi) hi'] at hst
      cases hst
    simp [hi, hnot]

theorem completedOps_eq (it : Iteration workload config s t s') :
    s'.stats.completedOps = s.stats.completedOps + s.retireQ.length := by
  obtain ⟨_, _, ht⟩ := (executeTick_ok_iff _ _).mp it.start
  rw [it.finish, ht]
  simp only [afterFetch, fetchPass_eq, decodePass_eq, enterDispatch_eq, issuePass_eq,
    dispatchPass_eq, retirePass_eq]
  rfl

theorem retiredIds_start (it : Iteration workload config s t s') :
    t.retiredIds = s.retiredIds ∪ (s.retireQ.map fun i => (s.instr i).id).toFinset := by
  obtain ⟨_, _, ht⟩ := (executeTick_ok_iff _ _).mp it.start
  rw [ht, retirePass_eq]
  rfl

theorem retiredIds_finish (it : Iteration workload config s t s') :
    s'.retiredIds = t.retiredIds := by
  rw [it.finish]
  simp only [afterFetch, fetchPass_eq, decodePass_eq, enterDispatch_eq, issuePass_eq,
    dispatchPass_eq]
  rfl

theorem accounted (it : Iteration workload config s t s') (h : Accounted s) : Accounted s' where
  completedOps_eq := by
    rw [it.completedOps_eq, h.completedOps_eq, it.doneList_perm.length_eq, List.length_append]
  retiredIds_eq := by
    have hids : s'.doneList.map (fun i => (s'.instr i).id) =
        s'.doneList.map fun i => (s.instr i).id := by
      apply List.map_congr_left
      intro i hi
      rcases List.mem_append.mp (it.doneList_perm.subset hi) with hd | hr
      · exact (it.advance (SimState.mem_doneList.mp hd).1).id_eq
      · exact (it.advance ((it.placed.mem_iff .retire i).mp hr).1).id_eq
    rw [hids, List.toFinset_eq_of_perm _ _ (it.doneList_perm.map _), List.map_append,
      List.toFinset_append, ← h.retiredIds_eq, it.retiredIds_finish, it.retiredIds_start]

end Iteration

theorem accounted_initState (workload : List Instruction) : Accounted (initState workload) :=
  ⟨rfl, rfl⟩

theorem accounted_of_reachesIn {workload : List Instruction} {config : SimulatorConfig} {k : ℕ}
    {s : SimState} (h : ReachesIn workload config k s) : Accounted s :=
  h.keeps Accounted (accounted_initState workload) fun _ _ _ _ _ _ it => it.accounted

theorem Placed.count_queueOf {workload : List Instruction} {s : SimState} (h : Placed workload s)
    (st : Stage) (i : ℕ) :
    (s.queueOf st).count i = if i < s.nextToFetch ∧ (s.instr i).stage = st then 1 else 0 := by
  by_cases hmem : i ∈ s.queueOf st
  · rw [List.count_eq_one_of_mem (h.nodup st) hmem, if_pos ((h.mem_iff st i).mp hmem)]
  · rw [List.count_eq_zero_of_not_mem hmem, if_neg (fun hi => hmem ((h.mem_iff st i).mpr hi))]

theorem SimState.count_places (s : SimState) (i : ℕ) :
    s.places.count i = s.unfetched.count i + ((s.queueOf .fetch).count i +
      (s.queueOf .decode).count i + (s.queueOf .dispatch).count i + (s.queueOf .ready).count i +
      (s.queueOf .execute).count i + (s.queueOf .retire).count i + (s.queueOf .done).count i) := by
  simp only [places, queueOf, List.count_append]
  omega

/-- The queues of a placed state hold every index exactly once. -/
theorem Placed.places_perm {workload : List Instruction} {s : SimState} (h : Placed workload s) :
    s.places.Perm (List.range workload.length) := by
  rw [List.perm_iff_count]
  intro i
  have hunfetched : s.unfetched.count i =
      if s.nextToFetch ≤ i ∧ i < workload.length then 1 else 0 := by
    have := h.next_le
    by_cases hi : s.nextToFetch ≤ i ∧ i < workload.length
    · rw [if_pos hi]
      apply List.count_eq_one_of_mem List.nodup_range'
      rw [List.mem_range'_1, h.length_eq]
      omega
    · rw [if_neg hi]
      apply List.count_eq_zero_of_not_mem
      rw [SimState.unfetched, List.mem_range'_1, h.length_eq]
      omega
  have hrange : (List.range workload.length).count i = if i < workload.length then 1 else 0 := by
    by_cases hi : i < workload.length
    · rw [if_pos hi]
      exact List.count_eq_one_of_mem List.nodup_range (List.mem_range.mpr hi)
    · rw [if_neg hi]
      exact List.count_eq_zero_of_not_mem (by simpa using hi)
  rw [SimState.count_places, hunfetched, hrange]
  simp only [h.count_queueOf]
  by_cases hi : i < s.nextToFetch
  · have hlt := hi.trans_le h.next_le
    -- the stage of the instruction names the one queue that holds it
    cases (s.instr i).stage <;> simp [hi, hlt]
  · simp [hi, Nat.le_of_not_lt hi]

theorem Placed.doneList_of_exit {workload : List Instruction} {s : SimState}
    (h : Placed workload s) (hexit : hasWorkLeft s = false) :
    s.doneList.Perm (List.range workload.length) := by
  obtain ⟨hnext, hf, hd, hp, hr, ht, he⟩ := hasWorkLeft_eq_false.mp hexit
  have hplaces := h.places_perm
  have hunfetched : s.unfetched = [] := by simp [SimState.unfetched, Nat.sub_eq_zero_of_le hnext]
  simpa [SimState.places, hunfetched, hf, hd, hp, hr, ht, he] using hplaces

/-- Everything is completed when a run is over. -/
theorem ReachesIn.completedOps_of_exit {workload : List Instruction} {config : SimulatorConfig}
    {k : ℕ} {s : SimState} (h : ReachesIn workload config k s) (hexit : hasWorkLeft s = false) :
    s.stats.completedOps = s.instructions.length := by
  have hp := placed_of_reachesIn h
  rw [(accounted_of_reachesIn h).completedOps_eq, (hp.doneList_of_exit hexit).length_eq,
    List.length_range, hp.length_eq]

/-- **Conservation of instructions**: after every number of iterations each index
    is in exactly one place, which the stage names, and the completed work is the
    done instructions; a run that ends has done all of them. -/
theorem instructions_conserved (workload : List Instruction) (config : SimulatorConfig) :
    (∀ k s, ReachesIn workload config k s →
      s.places.Perm (List.range workload.length) ∧
      (∀ st i, i ∈ s.queueOf st ↔ i < s.nextToFetch ∧ (s.instr i).stage = st) ∧
      s.stats.completedOps = s.doneList.length ∧
      s.retiredIds = (s.doneList.map fun i => (s.instr i).id).toFinset) ∧
    ∀ fuel result, runWorkload fuel workload config = .ok (some result) →
      result.instructions.length = workload.length ∧
      (∀ i ∈ result.instructions, i.stage = .done) ∧
      result.stats.completedOps = workload.length := by
  constructor
  · intro k s h
    have hp := placed_of_reachesIn h
    have ha := accounted_of_reachesIn h
    exact ⟨hp.places_perm, hp.mem_iff, ha.completedOps_eq, ha.retiredIds_eq⟩
  · intro fuel result hrun
    obtain ⟨k, s, _, h, hexit, rfl⟩ := runWorkload_eq_some_iff.mp hrun
    have hp := placed_of_reachesIn h
    refine ⟨hp.length_eq, ?_, ?_⟩
    · intro i hi
      obtain ⟨idx, hidx, rfl⟩ := List.getElem_of_mem hi
      have hdone := hp.eq_done_of_exit hexit (hp.length_eq ▸ hidx)
      exact s.instr_eq_getElem hidx ▸ hdone
    · rw [show (resultOf config s).stats.completedOps = s.stats.completedOps from rfl,
        (accounted_of_reachesIn h).completedOps_eq, (hp.doneList_of_exit hexit).length_eq,
        List.length_range]

/-- A compute operation of three cycles and one that depends on it. -/
def dependentPair : List Instruction :=
  [{ id := 7, executeLatency := 3 }, { id := 8, deps := [7] }]

theorem instructions_conserved_dependentPair :
    ∃ result, runWorkload 12 dependentPair {} = .ok (some result) ∧
      result.stats.completedOps = 2 := by
  have hrun : ∃ result, runWorkload 12 dependentPair {} = .ok (some result) := ⟨_, rfl⟩
  obtain ⟨result, hrun⟩ := hrun
  exact ⟨result, hrun, ((instructions_conserved dependentPair {}).2 12 result hrun).2.2⟩

end AccelSim
