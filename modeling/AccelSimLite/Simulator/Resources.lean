import AccelSimLite.Simulator.History
import Mathlib.Algebra.BigOperators.Group.Finset.Piecewise
import Mathlib.Algebra.Order.BigOperators.Group.Finset

/-!
# Functional units

Memory ports and compute units are handed out by the issue pass and given back
by the execute tick. Both classes obey the same laws, so a class is named by
whether its operations use memory, and everything is said once for a class.

## Main definitions

- `SimulatorConfig.units`, `SimState.inUse`, `slotsOf` — a class's units, its
  counter, and the slots that hold one of its units
- `IssueUse.take` — handing out one unit
- `Balanced` — the counters agree with the slots and stay within the units

## Main results

- `ReachesIn.fetched_at_iff`, `ReachesIn.issued_at_iff`, `ReachesIn.reached_at_iff` — the
  place of an instruction from its timestamps
- `units_not_oversubscribed` — units, issues and work per cycle in every run
-/

namespace AccelSim

/-- The units of a class: memory ports, or compute units. -/
def SimulatorConfig.units (config : SimulatorConfig) (memory : Bool) : ℕ :=
  if memory then config.memoryPorts else config.computeUnits

def IssueUse.inUse (use : IssueUse) (memory : Bool) : ℕ :=
  if memory then use.memoryInUse else use.computeInUse

/-- The units of a class that are counted as taken. -/
def SimState.inUse (s : SimState) (memory : Bool) : ℕ := s.issueUse.inUse memory

/-- One more instruction issued, on a unit of a class. -/
def IssueUse.take (use : IssueUse) (memory : Bool) : IssueUse :=
  if memory then ⟨use.issued + 1, use.memoryInUse + 1, use.computeInUse⟩
  else ⟨use.issued + 1, use.memoryInUse, use.computeInUse + 1⟩

/-- How many slots hold a unit of a class. -/
def slotsOf (memory : Bool) (slots : List ExecSlot) : ℕ :=
  slots.countP fun slot => slot.usesMemory == memory

@[simp] theorem IssueUse.issued_take (use : IssueUse) (memory : Bool) :
    (use.take memory).issued = use.issued + 1 := by
  cases memory <;> rfl

@[simp] theorem IssueUse.inUse_take (use : IssueUse) (memory m : Bool) :
    (use.take memory).inUse m = use.inUse m + if m = memory then 1 else 0 := by
  cases memory <;> cases m <;> rfl

instance : Preorder IssueUse :=
  Preorder.lift fun use => (use.issued, use.memoryInUse, use.computeInUse)

theorem IssueUse.le_iff {use use' : IssueUse} :
    use ≤ use' ↔ use.issued ≤ use'.issued ∧ ∀ memory, use.inUse memory ≤ use'.inUse memory := by
  constructor
  · rintro ⟨hissued, hmemory, hcompute⟩
    refine ⟨hissued, fun memory => ?_⟩
    cases memory
    · exact hcompute
    · exact hmemory
  · rintro ⟨hissued, hunits⟩
    exact ⟨hissued, hunits true, hunits false⟩

theorem slotsOf_true (slots : List ExecSlot) : slotsOf true slots = memorySlots slots := by
  simp [slotsOf, memorySlots]

theorem slotsOf_false (slots : List ExecSlot) : slotsOf false slots = computeSlots slots := by
  simp [slotsOf, computeSlots]

/-- The tick splits the slots of a class into those that finish and the others. -/
theorem slotsOf_finishing_add_surviving (memory : Bool) (slots : List ExecSlot) :
    slotsOf memory (finishingSlots slots) + slotsOf memory (survivingSlots slots) =
      slotsOf memory slots := by
  induction slots with
  | nil => rfl
  | cons slot slots ih =>
    simp only [slotsOf, finishingSlots, survivingSlots, List.countP_map] at ih ⊢
    by_cases hfin : slot.remaining ≤ 1
    · have hnot : ¬1 < slot.remaining := Nat.not_lt.mpr hfin
      simp only [List.filter_cons, hfin, hnot, decide_true, decide_false, if_true,
        Bool.false_eq_true, if_false, List.countP_cons]
      omega
    · have hlt : 1 < slot.remaining := Nat.lt_of_not_le hfin
      simp only [List.filter_cons, hfin, hlt, decide_true, decide_false, if_true,
        Bool.false_eq_true, if_false, List.countP_cons, Function.comp_apply]
      omega

/-! ### The issue pass -/

/-- The issue loop takes an entry exactly when the width and the units of its
    class allow one more. -/
theorem issueVisit_ok_iff {config : SimulatorConfig} {s : SimState} {use use' : IssueUse}
    {idx : ℕ} :
    issueVisit config s use idx = .ok use' ↔
      use.issued < config.issueWidth ∧
        use.inUse (isMemoryOp (s.instr idx).type) < config.units (isMemoryOp (s.instr idx).type) ∧
        use' = use.take (isMemoryOp (s.instr idx).type) := by
  unfold issueVisit
  cases isMemoryOp (s.instr idx).type <;>
    simp only [IssueUse.inUse, SimulatorConfig.units, IssueUse.take, Bool.false_eq_true, if_true,
      if_false] <;>
    split_ifs <;> simp_all [eq_comm]

theorem issueVisit_grows (config : SimulatorConfig) (s : SimState) (use : IssueUse) (idx : ℕ)
    (use' : IssueUse) (h : issueVisit config s use idx = .ok use') : use ≤ use' := by
  obtain ⟨_, _, rfl⟩ := issueVisit_ok_iff.mp h
  refine IssueUse.le_iff.mpr ⟨?_, fun m => ?_⟩
  · rw [IssueUse.issued_take]
    exact Nat.le_succ _
  · rw [IssueUse.inUse_take]
    exact Nat.le_add_right _ _

/-- What the issue pass adds to the counter of a class. -/
theorem issueFinal_inUse (config : SimulatorConfig) (s : SimState) (memory : Bool) :
    (issueFinal config s).inUse memory =
      s.inUse memory + slotsOf memory ((issueMoved config s).map s.slotFor) := by
  have hstep : ∀ use i use', issueVisit config s use i = .ok use' →
      use'.inUse memory =
        use.inUse memory + if memory = isMemoryOp (s.instr i).type then 1 else 0 := by
    intro use i use' hv
    obtain ⟨_, _, rfl⟩ := issueVisit_ok_iff.mp hv
    exact IssueUse.inUse_take _ _ _
  have hsum := Admission.final_eq_add_sum (r := s.issueUse) (l := s.readyQ)
    (fun use => use.inUse memory) (fun i => if memory = isMemoryOp (s.instr i).type then 1 else 0)
    hstep
  refine hsum.trans ?_
  have hcount : ∀ l : List ℕ,
      (l.map fun i => if memory = isMemoryOp (s.instr i).type then 1 else 0).sum =
        slotsOf memory (l.map s.slotFor) := by
    intro l
    induction l with
    | nil => rfl
    | cons i l ih =>
      rw [List.map_cons, List.sum_cons, ih]
      simp only [slotsOf, List.map_cons, List.countP_cons, SimState.slotFor, beq_iff_eq]
      rw [Nat.add_comm]
      simp only [eq_comm]
  rw [hcount]
  rfl

theorem issueFinal_issued (config : SimulatorConfig) (s : SimState) :
    (issueFinal config s).issued = (issueMoved config s).length := by
  have hstep : ∀ use i use', issueVisit config s use i = .ok use' →
      use'.issued = use.issued + 1 := by
    intro use i use' hv
    obtain ⟨_, _, rfl⟩ := issueVisit_ok_iff.mp hv
    exact IssueUse.issued_take _ _
  have hsum := Admission.final_eq_add_sum (r := s.issueUse) (l := s.readyQ)
    (fun use => use.issued) (fun _ => 1) hstep
  refine hsum.trans ?_
  rw [List.map_const', List.sum_replicate_nat, Nat.mul_one]
  exact Nat.zero_add _

theorem issueFinal_inUse_le {config : SimulatorConfig} {s : SimState} {memory : Bool}
    (h : s.inUse memory ≤ config.units memory) :
    (issueFinal config s).inUse memory ≤ config.units memory := by
  refine Admission.final_invariant
    (fun use : IssueUse => use.inUse memory ≤ config.units memory) h ?_
  intro use i use' hle _ hv
  obtain ⟨_, hroom, rfl⟩ := issueVisit_ok_iff.mp hv
  rw [IssueUse.inUse_take]
  split_ifs with hclass
  · rw [hclass]
    exact hroom
  · exact hle

theorem length_issueMoved_le (config : SimulatorConfig) (s : SimState) :
    (issueMoved config s).length ≤ config.issueWidth := by
  rw [← issueFinal_issued]
  refine Admission.final_invariant
    (fun use : IssueUse => use.issued ≤ config.issueWidth) (Nat.zero_le _) ?_
  intro use i use' _ _ hv
  obtain ⟨hwidth, _, rfl⟩ := issueVisit_ok_iff.mp hv
  rw [IssueUse.issued_take]
  exact hwidth

/-- How many entries of a class could be issued if the width did not matter. -/
def unitsWanted (config : SimulatorConfig) (s : SimState) (use : IssueUse) (memory : Bool)
    (l : List ℕ) : ℕ :=
  min (l.countP fun i => isMemoryOp (s.instr i).type == memory)
    (config.units memory - use.inUse memory)

theorem unitsWanted_cons_of_room {config : SimulatorConfig} {s : SimState} {use : IssueUse} {i : ℕ}
    {memory : Bool} (hclass : isMemoryOp (s.instr i).type = memory)
    (hroom : use.inUse memory < config.units memory) (m : Bool) (l : List ℕ) :
    unitsWanted config s use m (i :: l) =
      unitsWanted config s (use.take memory) m l + if m = memory then 1 else 0 := by
  simp only [unitsWanted, List.countP_cons, hclass, IssueUse.inUse_take, beq_iff_eq]
  by_cases hm : m = memory
  · subst hm
    simp only [if_true]
    omega
  · simp only [hm, Ne.symm hm, if_false, Nat.add_zero]

theorem unitsWanted_cons_of_full {config : SimulatorConfig} {s : SimState} {use : IssueUse} {i : ℕ}
    {memory : Bool} (hclass : isMemoryOp (s.instr i).type = memory)
    (hfull : config.units memory ≤ use.inUse memory) (m : Bool) (l : List ℕ) :
    unitsWanted config s use m (i :: l) = unitsWanted config s use m l := by
  simp only [unitsWanted, List.countP_cons, hclass, beq_iff_eq]
  by_cases hm : m = memory
  · subst hm
    rw [Nat.sub_eq_zero_of_le hfull, Nat.min_zero, Nat.min_zero]
  · simp only [Ne.symm hm, if_false, Nat.add_zero]

/-- **How many a pass issues**: what the two classes want, as far as the width goes. -/
theorem issued_final (config : SimulatorConfig) (s : SimState) (use : IssueUse) (l : List ℕ)
    (hwidth : use.issued ≤ config.issueWidth) :
    (Admission.final (issueVisit config s) use l).issued =
      min config.issueWidth
        (use.issued + (unitsWanted config s use true l + unitsWanted config s use false l)) := by
  induction l generalizing use with
  | nil => simp [unitsWanted, hwidth]
  | cons i l ih =>
    generalize hclass : isMemoryOp (s.instr i).type = memory
    cases hv : issueVisit config s use i with
    | ok use' =>
      obtain ⟨hlt, hroom, rfl⟩ := issueVisit_ok_iff.mp hv
      rw [hclass] at hroom hv
      have hsum : (if true = memory then 1 else 0) + (if false = memory then 1 else 0) = 1 := by
        cases memory <;> rfl
      rw [Admission.final_cons_ok hv, ih _ (by rw [IssueUse.issued_take]; exact hlt),
        unitsWanted_cons_of_room hclass hroom, unitsWanted_cons_of_room hclass hroom,
        IssueUse.issued_take]
      congr 1
      omega
    | error reason =>
      rw [Admission.final_cons_error hv, ih _ hwidth]
      by_cases hfull : config.units memory ≤ use.inUse memory
      · rw [unitsWanted_cons_of_full hclass hfull, unitsWanted_cons_of_full hclass hfull]
      · -- the width is used up
        have hused : use.issued = config.issueWidth := by
          by_contra hnot
          have hok := issueVisit_ok_iff.mpr ⟨Nat.lt_of_le_of_ne hwidth hnot,
            hclass.symm ▸ Nat.lt_of_not_le hfull, rfl⟩
          rw [hv] at hok
          cases hok
        rw [hused, Nat.min_eq_left (Nat.le_add_right _ _), Nat.min_eq_left (Nat.le_add_right _ _)]

/-! ### The counters -/

/-- The counter of each class is the number of slots that hold a unit of it, and
    no more than there are. -/
structure Balanced (config : SimulatorConfig) (s : SimState) : Prop where
  inUse_eq : ∀ memory, s.inUse memory = slotsOf memory s.execSlots
  inUse_le : ∀ memory, s.inUse memory ≤ config.units memory

/-- The execute tick throws only when a counter is below the slots that finish. -/
theorem dispatchStart_ok {s : SimState}
    (h : ∀ memory, slotsOf memory (finishingSlots s.execSlots) ≤ s.inUse memory) :
    ∃ t, dispatchStart s = .ok t := by
  have hm := h true
  have hc := h false
  rw [slotsOf_true] at hm
  rw [slotsOf_false] at hc
  refine ⟨_, (executeTick_ok_iff _ _).mpr ⟨?_, ?_, rfl⟩⟩
  · rw [retirePass_eq]
    exact hm
  · rw [retirePass_eq]
    exact hc

theorem Balanced.dispatchStart_ok {config : SimulatorConfig} {s : SimState}
    (h : Balanced config s) : ∃ t, dispatchStart s = .ok t := by
  apply AccelSim.dispatchStart_ok
  intro memory
  rw [h.inUse_eq, ← slotsOf_finishing_add_surviving memory s.execSlots]
  exact Nat.le_add_right _ _

namespace Iteration

variable {workload : List Instruction} {config : SimulatorConfig} {s t s' : SimState}

/-- The tick gives back the units of the slots that finish. -/
theorem inUse_start (it : Iteration workload config s t s') (memory : Bool) :
    (afterDispatch config t).inUse memory =
      s.inUse memory - slotsOf memory (finishingSlots s.execSlots) := by
  obtain ⟨_, _, ht⟩ := (executeTick_ok_iff _ _).mp it.start
  rw [afterDispatch, dispatchPass_eq, ht, retirePass_eq]
  cases memory
  · rw [slotsOf_false]
    rfl
  · rw [slotsOf_true]
    rfl

theorem inUse_finish (it : Iteration workload config s t s') (memory : Bool) :
    s'.inUse memory = (issueFinal config (afterDispatch config t)).inUse memory := by
  rw [it.finish]
  simp only [afterFetch, fetchPass_eq, decodePass_eq, enterDispatch_eq, afterIssue, issuePass_eq]
  rfl

theorem balanced (it : Iteration workload config s t s') (h : Balanced config s) :
    Balanced config s' where
  inUse_eq memory := by
    -- the tick frees what finishes, the issue pass takes what it adds
    have hsplit := slotsOf_finishing_add_surviving memory s.execSlots
    rw [it.inUse_finish, issueFinal_inUse, it.inUse_start, h.inUse_eq, it.execSlots_finish,
      show ∀ l₁ l₂, slotsOf memory (l₁ ++ l₂) = slotsOf memory l₁ + slotsOf memory l₂ from
        fun l₁ l₂ => List.countP_append]
    omega
  inUse_le memory := by
    rw [it.inUse_finish]
    apply issueFinal_inUse_le
    rw [it.inUse_start]
    exact (Nat.sub_le _ _).trans (h.inUse_le memory)

end Iteration

theorem balanced_initState (workload : List Instruction) (config : SimulatorConfig) :
    Balanced config (initState workload) where
  inUse_eq memory := by cases memory <;> rfl
  inUse_le memory := by cases memory <;> exact Nat.zero_le _

theorem balanced_of_reachesIn {workload : List Instruction} {config : SimulatorConfig} {k : ℕ}
    {s : SimState} (h : ReachesIn workload config k s) : Balanced config s :=
  h.keeps (Balanced config) (balanced_initState workload config)
    fun _ _ _ _ _ _ it => it.balanced

/-- No iteration of a run throws. -/
theorem ReachesIn.exists_iteration {workload : List Instruction} {config : SimulatorConfig} {k : ℕ}
    {s : SimState} (h : ReachesIn workload config k s) :
    ∃ t s', cycleBody config s = .ok s' ∧ Iteration workload config s t s' := by
  obtain ⟨t, ht⟩ := (balanced_of_reachesIn h).dispatchStart_ok
  have hbody : cycleBody config s = .ok (scheduleCycle config t) :=
    cycleBody_ok_iff.mpr ⟨t, ht, rfl⟩
  obtain ⟨t, it⟩ := (placed_of_reachesIn h).iteration hbody
  exact ⟨t, _, hbody, it⟩

theorem runWorkload_ne_error (fuel : ℕ) (workload : List Instruction) (config : SimulatorConfig)
    (e : String) : runWorkload fuel workload config ≠ .error e := by
  intro hrun
  unfold runWorkload at hrun
  cases hloop : WhileLoop.run hasWorkLeft (cycleBody config) fuel (initState workload) with
  | error e' =>
    obtain ⟨k, s, _, h, _, hthrow⟩ := WhileLoop.run_eq_error_iff.mp hloop
    obtain ⟨_, s', hbody, _⟩ := ReachesIn.exists_iteration h
    rw [hbody] at hthrow
    cases hthrow
  | ok final =>
    rw [hloop] at hrun
    cases hrun

/-! ### What executes -/

/-- The indices that execute on a unit of a class. -/
def SimState.executing (s : SimState) (memory : Bool) : List ℕ :=
  (s.execSlots.filter fun slot => slot.usesMemory == memory).map fun slot => slot.index

theorem SimState.length_executing (s : SimState) (memory : Bool) :
    (s.executing memory).length = slotsOf memory s.execSlots := by
  rw [executing, List.length_map, slotsOf, List.countP_eq_length_filter]

theorem Placed.nodup_executing {workload : List Instruction} {s : SimState}
    (h : Placed workload s) (memory : Bool) : (s.executing memory).Nodup :=
  (h.nodup .execute).sublist (List.filter_sublist.map _)

theorem Timed.mem_executing_iff {workload : List Instruction} {s : SimState} (ht : Timed s)
    (hp : Placed workload s) {memory : Bool} {i : ℕ} :
    i ∈ s.executing memory ↔ (s.Issued i ∧ ¬s.Reached .retire i) ∧
      isMemoryOp (programAt workload i).type = memory := by
  have hclass : ∀ slot ∈ s.execSlots,
      slot.usesMemory = isMemoryOp (programAt workload slot.index).type := by
    intro slot hslot
    rw [(ht.slot slot hslot).usesMemory_eq, hp.type_eq]
  have hqueue := hp.mem_queueOf_iff .execute .retire rfl i
  rw [SimState.Issued, ← hqueue]
  constructor
  · intro hi
    obtain ⟨slot, hslot, rfl⟩ := List.mem_map.mp hi
    obtain ⟨hmem, huses⟩ := List.mem_filter.mp hslot
    exact ⟨List.mem_map_of_mem hmem, (hclass slot hmem).symm.trans (beq_iff_eq.mp huses)⟩
  · rintro ⟨hi, hmemory⟩
    obtain ⟨slot, hslot, rfl⟩ := List.mem_map.mp hi
    refine List.mem_map_of_mem (List.mem_filter.mpr ⟨hslot, ?_⟩)
    rw [hclass slot hslot, hmemory]
    exact beq_self_eq_true memory

/-! ### Read off the result -/

/-- When at most `m` of the intervals `[start i, finish i)` cover any cycle, their
    lengths fit `m` times into the span they all lie in. -/
theorem sum_length_le_of_overlap {ι : Type*} (l : List ι) (start finish : ι → ℕ) {lo hi m : ℕ}
    (hspan : ∀ i ∈ l, lo ≤ start i ∧ finish i ≤ hi)
    (hoverlap : ∀ t, l.countP (fun i => start i ≤ t ∧ t < finish i) ≤ m) :
    (l.map fun i => finish i - start i).sum ≤ m * (hi - lo) := by
  have hlength : ∀ i ∈ l, finish i - start i =
      ∑ t ∈ Finset.Ico lo hi, if start i ≤ t ∧ t < finish i then 1 else 0 := by
    intro i hi'
    obtain ⟨hlo, hhi⟩ := hspan i hi'
    have hfilter : (Finset.Ico lo hi).filter (fun t => start i ≤ t ∧ t < finish i) =
        Finset.Ico (start i) (finish i) := by
      ext t
      rw [Finset.mem_filter, Finset.mem_Ico, Finset.mem_Ico]
      omega
    rw [← Finset.card_filter, hfilter, Nat.card_Ico]
  have hswap : ∀ l : List ι,
      (l.map fun i => ∑ t ∈ Finset.Ico lo hi, if start i ≤ t ∧ t < finish i then 1 else 0).sum =
        ∑ t ∈ Finset.Ico lo hi, l.countP fun i => start i ≤ t ∧ t < finish i := by
    intro l
    induction l with
    | nil => simp
    | cons i l ih =>
      simp only [List.map_cons, List.sum_cons, ih, List.countP_cons, Finset.sum_add_distrib,
        decide_eq_true_eq]
      rw [Nat.add_comm]
  calc (l.map fun i => finish i - start i).sum
      = ∑ t ∈ Finset.Ico lo hi, l.countP fun i => start i ≤ t ∧ t < finish i := by
        rw [List.map_congr_left hlength, hswap]
    _ ≤ ∑ _t ∈ Finset.Ico lo hi, m := Finset.sum_le_sum fun t _ => hoverlap t
    _ = m * (hi - lo) := by
        rw [Finset.sum_const_nat (fun _ _ => rfl), Nat.card_Ico, Nat.mul_comm]

theorem sum_programAt (workload : List Instruction) (f : Instruction → ℕ) :
    ∑ i ∈ Finset.range workload.length, f (programAt workload i) = (workload.map f).sum := by
  conv_rhs => rw [← map_programAt_range workload, List.map_map]
  rfl

theorem SimState.instructions_eq_map (s : SimState) :
    s.instructions = (List.range s.instructions.length).map s.instr := by
  apply List.ext_getElem
  · simp
  · intro i hi _
    rw [List.getElem_map, List.getElem_range, s.instr_eq_getElem hi]

/-- Whatever a predicate on instructions selects is counted by the indices. -/
theorem SimState.countP_instructions (s : SimState) (p : Instruction → Bool) :
    s.instructions.countP p =
      ((List.range s.instructions.length).filter fun i => p (s.instr i)).length := by
  rw [← List.countP_eq_length_filter]
  conv_lhs => rw [s.instructions_eq_map]
  rw [List.countP_map]
  rfl

theorem Placed.mem_instructions_iff {workload : List Instruction} {s : SimState}
    (h : Placed workload s) (instruction : Instruction) :
    instruction ∈ s.instructions ↔ ∃ i, i < workload.length ∧ s.instr i = instruction := by
  rw [s.instructions_eq_map, List.mem_map, h.length_eq]
  simp only [List.mem_range]

theorem Placed.reached_done_of_exit {workload : List Instruction} {s : SimState}
    (h : Placed workload s) (hexit : hasWorkLeft s = false) {i : ℕ} (hi : i < workload.length) :
    s.Reached .done i := by
  have hmem : i ∈ s.doneList := (h.doneList_of_exit hexit).mem_iff.mpr (List.mem_range.mpr hi)
  obtain ⟨hlt, hst⟩ := SimState.mem_doneList.mp hmem
  exact ⟨hlt, by rw [hst]⟩

/-- Nothing is left to do when every instruction is done. -/
theorem Placed.exit_of_reached_done {workload : List Instruction} {s : SimState}
    (h : Placed workload s) (hdone : ∀ i, i < workload.length → s.Reached .done i) :
    hasWorkLeft s = false := by
  have hempty : ∀ a b : Stage, b.rank = a.rank + 1 → s.queueOf a = [] := by
    intro a b hrank
    rw [List.eq_nil_iff_forall_not_mem]
    intro i hi
    obtain ⟨hreached, hnot⟩ := (h.mem_queueOf_iff a b hrank i).mp hi
    refine hnot ((hdone i (hreached.1.trans_le h.next_le)).mono ?_)
    cases b <;> decide
  have hnext : s.instructions.length ≤ s.nextToFetch := by
    rw [h.length_eq]
    by_contra hlt
    exact Nat.lt_irrefl _ (hdone _ (Nat.lt_of_not_le hlt)).1
  exact hasWorkLeft_eq_false.mpr ⟨hnext, hempty .fetch .decode rfl, hempty .decode .dispatch rfl,
    hempty .dispatch .ready rfl, hempty .ready .execute rfl, hempty .retire .done rfl,
    List.map_eq_nil_iff.mp (hempty .execute .retire rfl)⟩

/-- The timestamps of an instruction in the exit state of a run. -/
theorem ReachesIn.timestamps_of_exit {workload : List Instruction} {config : SimulatorConfig}
    {k : ℕ} {s : SimState} (h : ReachesIn workload config k s) (hexit : hasWorkLeft s = false)
    {i : ℕ} (hi : i < workload.length) :
    (s.instr i).enqueueCycle + 3 ≤ (s.instr i).issueCycle ∧
      (s.instr i).completeCycle = (s.instr i).issueCycle + (s.instr i).ticks ∧
      (s.instr i).completeCycle + 2 ≤ k := by
  have hp := placed_of_reachesIn h
  obtain ⟨hlt, _⟩ := hp.reached_done_of_exit hexit hi
  have htimed := (timed_of_reachesIn h).instr i hlt
  simpa only [TimedAt, hp.eq_done_of_exit hexit hi, h.cycle_eq] using htimed

/-! ### Where an instruction is, from its timestamps -/

namespace ReachesIn

variable {workload : List Instruction} {config : SimulatorConfig} {k j i : ℕ} {s : SimState}

theorem fetched_at_iff (h : ReachesIn workload config k s) (hexit : hasWorkLeft s = false)
    (hi : i < workload.length) (hj : j ≤ k) :
    (AccelSim.stateAfter workload config j).Reached .fetch i ↔ (s.instr i).enqueueCycle < j := by
  have hdone := (placed_of_reachesIn h).reached_done_of_exit hexit hi
  exact (stamped_enqueue.reached_iff (h.stateAfter hj) h hj i).1.trans
    (and_iff_right (hdone.mono (by decide)))

theorem issued_at_iff (h : ReachesIn workload config k s) (hexit : hasWorkLeft s = false)
    (hi : i < workload.length) (hj : j ≤ k) :
    (AccelSim.stateAfter workload config j).Issued i ↔ (s.instr i).issueCycle < j := by
  have hdone := (placed_of_reachesIn h).reached_done_of_exit hexit hi
  exact (stamped_issue.reached_iff (h.stateAfter hj) h hj i).1.trans
    (and_iff_right (hdone.mono (by decide)))

/-- What has been issued completes after its ticks, and is retired in the next cycle. -/
theorem reached_at_iff (h : ReachesIn workload config k s) (hexit : hasWorkLeft s = false)
    (hi : i < workload.length) (hj : j ≤ k) :
    ((AccelSim.stateAfter workload config j).Reached .retire i ↔
        (s.instr i).completeCycle < j) ∧
      ((AccelSim.stateAfter workload config j).Reached .done i ↔
        (s.instr i).completeCycle + 1 < j) := by
  have hu := h.stateAfter hj
  have hpu := placed_of_reachesIn hu
  have hp := placed_of_reachesIn h
  have hcomplete := (h.timestamps_of_exit hexit hi).2.1
  have hiff := h.issued_at_iff hexit hi hj
  have hdone := hp.reached_done_of_exit hexit hi
  by_cases hissued : (AccelSim.stateAfter workload config j).Issued i
  · have hsame := (stamped_issue.reached_iff hu h hj i).2 hissued
    obtain ⟨hretire, hdone⟩ := (timed_of_reachesIn hu).reached_iff hpu hissued
    rw [hretire, hdone, hu.cycle_eq, ← hsame, hpu.ticks_eq, ← hp.ticks_eq]
    omega
  · have hlate := mt hiff.mpr hissued
    have hnever (st : Stage) (hst : Stage.execute.rank ≤ st.rank) :
        ¬(AccelSim.stateAfter workload config j).Reached st i :=
      fun hreached => hissued (hreached.mono hst)
    constructor
    · exact iff_of_false (hnever .retire (by decide)) (by omega)
    · exact iff_of_false (hnever .done (by decide)) (by omega)

end ReachesIn

/-- The instruction holds a unit of a class in cycle `t`. -/
def Instruction.holdsUnit (memory : Bool) (t : ℕ) (i : Instruction) : Bool :=
  (isMemoryOp i.type == memory) && decide (i.issueCycle ≤ t ∧ t < i.completeCycle)

/-- Whatever holds a unit in cycle `t` is executing on it when the cycle ends. -/
theorem ReachesIn.mem_executing_of_holdsUnit {workload : List Instruction}
    {config : SimulatorConfig} {k t : ℕ} {s u : SimState} (h : ReachesIn workload config k s)
    (hexit : hasWorkLeft s = false) (hu : ReachesIn workload config (t + 1) u) (ht : t + 1 ≤ k)
    {memory : Bool} {i : ℕ} (hi : i < workload.length)
    (hholds : (s.instr i).holdsUnit memory t = true) : i ∈ u.executing memory := by
  simp only [Instruction.holdsUnit, Bool.and_eq_true, beq_iff_eq, decide_eq_true_eq] at hholds
  obtain ⟨hclass, hissue, hcomplete⟩ := hholds
  obtain rfl := hu.eq_stateAfter
  have hissued := (h.issued_at_iff hexit hi ht).mpr (Nat.lt_succ_of_le hissue)
  have hnot := mt (h.reached_at_iff hexit hi ht).1.mp (by omega)
  rw [(timed_of_reachesIn hu).mem_executing_iff (placed_of_reachesIn hu),
    ← (placed_of_reachesIn h).type_eq]
  exact ⟨⟨hissued, hnot⟩, hclass⟩

theorem ReachesIn.holdsUnit_le {workload : List Instruction} {config : SimulatorConfig} {k : ℕ}
    {s : SimState} (h : ReachesIn workload config k s) (hexit : hasWorkLeft s = false)
    (memory : Bool) (t : ℕ) :
    s.instructions.countP (fun i => i.holdsUnit memory t) ≤ config.units memory := by
  have hlen := (placed_of_reachesIn h).length_eq
  rw [s.countP_instructions, hlen]
  by_cases ht : t + 1 ≤ k
  · have hu := h.stateAfter ht
    have hbalanced := balanced_of_reachesIn hu
    have hsub : ((List.range workload.length).filter
        fun i => (s.instr i).holdsUnit memory t).Subperm
          ((AccelSim.stateAfter workload config (t + 1)).executing memory) := by
      apply (List.nodup_range.filter _).subperm
      intro i hi
      obtain ⟨hrange, hholds⟩ := List.mem_filter.mp hi
      exact h.mem_executing_of_holdsUnit hexit hu ht (List.mem_range.mp hrange) hholds
    refine hsub.length_le.trans ?_
    rw [SimState.length_executing]
    exact (hbalanced.inUse_eq memory).ge.trans (hbalanced.inUse_le memory)
  · -- the run is over: everything has completed before cycle `t`
    have hnone : ((List.range workload.length).filter
        fun i => (s.instr i).holdsUnit memory t) = [] := by
      rw [List.filter_eq_nil_iff]
      intro i hi hholds
      have hcomplete := (h.timestamps_of_exit hexit (List.mem_range.mp hi)).2.2
      simp only [Instruction.holdsUnit, Bool.and_eq_true, decide_eq_true_eq] at hholds
      omega
    rw [hnone]
    exact Nat.zero_le _

theorem ReachesIn.issueCycle_shared_le {workload : List Instruction} {config : SimulatorConfig}
    {k : ℕ} {s : SimState} (h : ReachesIn workload config k s) (hexit : hasWorkLeft s = false)
    (t : ℕ) : s.instructions.countP (fun i => i.issueCycle = t) ≤ config.issueWidth := by
  have hp := placed_of_reachesIn h
  rw [s.countP_instructions, hp.length_eq]
  by_cases ht : t < k
  · obtain ⟨u, it⟩ := h.iteration_at ht
    have hsub : ((List.range workload.length).filter
        fun i => (s.instr i).issueCycle = t).Subperm
          (issueMoved config (afterDispatch config u)) := by
      apply (List.nodup_range.filter _).subperm
      intro i hi
      obtain ⟨hrange, hissue⟩ := List.mem_filter.mp hi
      have hissue : (s.instr i).issueCycle = t := by simpa using hissue
      have hbefore := h.issued_at_iff hexit (List.mem_range.mp hrange) ht.le
      have hafter := h.issued_at_iff hexit (List.mem_range.mp hrange) ht
      have hnew := (it.reached_iff .execute i).mp (hafter.mpr (by omega))
      rcases hnew with hold | hmoved
      · have hlt := hbefore.mp hold
        omega
      · exact hmoved
    exact hsub.length_le.trans (length_issueMoved_le config _)
  · have hnone : ((List.range workload.length).filter
        fun i => (s.instr i).issueCycle = t) = [] := by
      rw [List.filter_eq_nil_iff]
      intro i hi hissue
      have htimed := h.timestamps_of_exit hexit (List.mem_range.mp hi)
      have hissue : (s.instr i).issueCycle = t := by simpa using hissue
      omega
    rw [hnone]
    exact Nat.zero_le _

theorem ReachesIn.sum_ticks_le {workload : List Instruction} {config : SimulatorConfig} {k : ℕ}
    {s : SimState} (h : ReachesIn workload config k s) (hexit : hasWorkLeft s = false)
    (memory : Bool) :
    ((workload.filter fun i => isMemoryOp i.type == memory).map Instruction.ticks).sum ≤
      config.units memory * (k - 5) := by
  have hp := placed_of_reachesIn h
  have hload : ((workload.filter fun i => isMemoryOp i.type == memory).map Instruction.ticks).sum =
      (((List.range workload.length).filter fun i => isMemoryOp (s.instr i).type == memory).map
        fun i => (s.instr i).completeCycle - (s.instr i).issueCycle).sum := by
    conv_lhs => rw [← map_programAt_range workload]
    rw [List.filter_map, List.map_map]
    congr 1
    have hfilter : (List.range workload.length).filter
          ((fun i => isMemoryOp i.type == memory) ∘ programAt workload) =
        (List.range workload.length).filter fun i => isMemoryOp (s.instr i).type == memory := by
      apply List.filter_congr
      intro i _
      rw [Function.comp_apply, hp.type_eq]
    rw [hfilter]
    apply List.map_congr_left
    intro i hi
    have hi := List.mem_range.mp (List.mem_of_mem_filter hi)
    have hcomplete := (h.timestamps_of_exit hexit hi).2.1
    rw [Function.comp_apply, ← hp.ticks_eq]
    omega
  have hspan : k - 5 = (k - 2) - 3 := by omega
  rw [hload, hspan]
  apply sum_length_le_of_overlap
  · intro i hi
    have hi := List.mem_range.mp (List.mem_of_mem_filter hi)
    have htimed := h.timestamps_of_exit hexit hi
    omega
  · intro t
    have hle := h.holdsUnit_le hexit memory t
    rw [s.countP_instructions, hp.length_eq, ← List.countP_eq_length_filter] at hle
    rw [List.countP_filter]
    refine le_of_eq_of_le (List.countP_congr fun i _ => ?_) hle
    simp [Instruction.holdsUnit, and_comm]

/-- **Functional units are never oversubscribed**: the counters agree with the
    slots and stay within the units, so no run throws; in the result of a run that
    ends no cycle sees more operations on a class of units, or more issues, than
    the configuration has, and the work of a class fits its units. -/
theorem units_not_oversubscribed (workload : List Instruction) (config : SimulatorConfig) :
    (∀ k s, ReachesIn workload config k s →
      s.memoryInUse = s.execSlots.countP (fun slot => slot.usesMemory) ∧
      s.memoryInUse ≤ config.memoryPorts ∧
      s.computeInUse = s.execSlots.countP (fun slot => !slot.usesMemory) ∧
      s.computeInUse ≤ config.computeUnits) ∧
    (∀ fuel e, runWorkload fuel workload config ≠ .error e) ∧
    ∀ fuel result, runWorkload fuel workload config = .ok (some result) →
      (∀ memory t, result.instructions.countP (fun i => i.holdsUnit memory t) ≤
        config.units memory) ∧
      (∀ t, result.instructions.countP (fun i => i.issueCycle = t) ≤ config.issueWidth) ∧
      ∀ memory,
        ((workload.filter fun i => isMemoryOp i.type == memory).map Instruction.ticks).sum ≤
          config.units memory * (result.stats.totalCycles - 5) := by
  refine ⟨?_, fun fuel e => runWorkload_ne_error fuel workload config e, ?_⟩
  · intro k s h
    have hb := balanced_of_reachesIn h
    refine ⟨?_, hb.inUse_le true, ?_, hb.inUse_le false⟩
    · exact (hb.inUse_eq true).trans (slotsOf_true _)
    · exact (hb.inUse_eq false).trans (slotsOf_false _)
  · intro fuel result hrun
    obtain ⟨k, s, _, h, hexit, rfl⟩ := runWorkload_eq_some_iff.mp hrun
    refine ⟨h.holdsUnit_le hexit, h.issueCycle_shared_le hexit, fun memory => ?_⟩
    change _ ≤ config.units memory * (s.cycle - 5)
    rw [h.cycle_eq]
    exact h.sum_ticks_le hexit memory

theorem units_not_oversubscribed_dependentPair :
    ∃ result, runWorkload 12 dependentPair {} = .ok (some result) ∧
      3 + 1 ≤ 2 * (result.stats.totalCycles - 5) := by
  have hrun : ∃ result, runWorkload 12 dependentPair {} = .ok (some result) := ⟨_, rfl⟩
  obtain ⟨result, hrun⟩ := hrun
  refine ⟨result, hrun, ?_⟩
  exact ((units_not_oversubscribed dependentPair {}).2.2 12 result hrun).2.2 false

end AccelSim
