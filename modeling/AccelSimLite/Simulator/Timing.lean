import AccelSimLite.Simulator.Conservation

/-!
# Timestamps

How the three timestamps of an instruction relate to each other, to its stage
and to the current cycle, and how the remaining ticks of a slot relate to the
issue cycle of the instruction in it. An executing instruction occupies its unit
for as many cycles as its latency says, and for one cycle when that is zero.

## Main definitions

- `Instruction.ticks` — the cycles an instruction spends executing
- `TimedAt` — the timestamps of an instruction at the head of a cycle
- `SlotTimed` — the remaining ticks of a slot
- `Timed` — both, for every fetched instruction and every slot of a state
-/

namespace AccelSim

/-- The number of cycles an instruction spends executing. -/
def Instruction.ticks (i : Instruction) : ℕ := max 1 i.executeLatency

theorem Instruction.one_le_ticks (i : Instruction) : 1 ≤ i.ticks := le_max_left _ _

theorem Placed.ticks_eq {workload : List Instruction} {s : SimState} (h : Placed workload s)
    (i : ℕ) : (s.instr i).ticks = (programAt workload i).ticks := by
  have h := congrArg Instruction.ticks (h.program i)
  exact h

/-- What the stage of an instruction says about its timestamps when cycle `c`
    is about to begin. -/
def TimedAt (c : ℕ) (i : Instruction) : Prop :=
  match i.stage with
  | .fetch => i.enqueueCycle + 1 ≤ c
  | .decode => i.enqueueCycle + 2 ≤ c
  | .dispatch => i.enqueueCycle + 3 ≤ c
  | .ready => i.enqueueCycle + 4 ≤ c
  | .execute => i.enqueueCycle + 3 ≤ i.issueCycle ∧ i.issueCycle + 1 ≤ c
  | .retire => i.enqueueCycle + 3 ≤ i.issueCycle ∧ i.completeCycle = i.issueCycle + i.ticks ∧
      i.completeCycle + 1 = c
  | .done => i.enqueueCycle + 3 ≤ i.issueCycle ∧ i.completeCycle = i.issueCycle + i.ticks ∧
      i.completeCycle + 2 ≤ c

/-- An instruction that has completed did so after its number of ticks. -/
theorem TimedAt.completeCycle_eq {c : ℕ} {i : Instruction} (h : TimedAt c i)
    (hst : i.stage = .retire ∨ i.stage = .done) : i.completeCycle = i.issueCycle + i.ticks := by
  unfold TimedAt at h
  cases hst with
  | inl hst => simp only [hst] at h; exact h.2.1
  | inr hst => simp only [hst] at h; exact h.2.1

/-- What a slot says about the instruction in it. -/
structure SlotTimed (s : SimState) (slot : ExecSlot) : Prop where
  usesMemory_eq : slot.usesMemory = isMemoryOp (s.instr slot.index).type
  remaining_eq : s.cycle + max 1 slot.remaining =
    (s.instr slot.index).issueCycle + (s.instr slot.index).ticks + 1

/-- The timestamps of a state at the head of a cycle. -/
structure Timed (s : SimState) : Prop where
  instr : ∀ i, i < s.nextToFetch → TimedAt s.cycle (s.instr i)
  slot : ∀ slot ∈ s.execSlots, SlotTimed s slot

/-- A cycle keeps the timestamps right, provided that what completes in it has
    executed for its number of ticks. -/
theorem Advance.timedAt {c : ℕ} {i i' : Instruction} (h : Advance c i i') (ht : TimedAt c i)
    (hcomplete : i.stage = .execute → i'.stage = .retire → c = i.issueCycle + i.ticks) :
    TimedAt (c + 1) i' := by
  cases h with
  | stay hne =>
    unfold TimedAt at ht ⊢
    cases hst : i.stage <;> simp only [hst] at ht ⊢
    case retire => exact absurd hst hne
    all_goals omega
  | decode hst =>
    simp only [TimedAt, hst, setDecode] at ht ⊢
    omega
  | enter hst =>
    simp only [TimedAt, hst, setDispatch] at ht ⊢
    omega
  | ready hst =>
    simp only [TimedAt, hst, setReady] at ht ⊢
    omega
  | readyIssue hst =>
    simp only [TimedAt, hst, setExecute, setReady] at ht ⊢
    omega
  | issue hst =>
    simp only [TimedAt, hst, setExecute] at ht ⊢
    omega
  | complete hst =>
    have hc := hcomplete hst rfl
    simp only [TimedAt, hst] at ht
    exact ⟨ht.1, hc, rfl⟩
  | retire hst =>
    simp only [TimedAt, hst] at ht
    exact ⟨ht.1, ht.2.1, by rw [← ht.2.2]; exact le_rfl⟩

namespace Iteration

variable {workload : List Instruction} {config : SimulatorConfig} {s t s' : SimState}

theorem execSlots_start (it : Iteration workload config s t s') :
    t.execSlots = survivingSlots s.execSlots := by
  obtain ⟨_, _, ht⟩ := (executeTick_ok_iff _ _).mp it.start
  rw [ht, retirePass_eq]
  rfl

theorem execSlots_finish (it : Iteration workload config s t s') :
    s'.execSlots = survivingSlots s.execSlots ++
      (issueMoved config (afterDispatch config t)).map (afterDispatch config t).slotFor := by
  rw [it.finish, ← it.execSlots_start]
  simp only [afterFetch, fetchPass_eq, decodePass_eq, enterDispatch_eq, issuePass_eq,
    dispatchPass_eq]
  rfl

theorem finished_retirePass (s : SimState) : (retirePass s).finished = s.finished := by
  rw [retirePass_eq]
  rfl

theorem cycle_finish (it : Iteration workload config s t s') : s'.cycle = s.cycle + 1 := by
  rw [it.finish, ← scheduleCycle_eq, scheduleCycle_cycle, it.cycle_eq]

theorem placed_finish (it : Iteration workload config s t s') : Placed workload s' := by
  rw [it.finish]
  exact it.fetched.record

/-- An instruction that the issue pass takes is written once more, by that pass. -/
theorem instr_of_issueMoved (it : Iteration workload config s t s') {i : ℕ}
    (hi : i ∈ issueMoved config (afterDispatch config t)) :
    s'.instr i = setExecute s.cycle ((afterDispatch config t).instr i) := by
  have m₄ := issuePass_moves config (afterDispatch config t)
  obtain ⟨hlt, _⟩ := m₄.of_mem_moved it.dispatched hi
  rcases m₄.instr_cases it.dispatched hlt with ⟨_, _, he⟩ | ⟨hnot, _⟩
  · rw [afterDispatch_cycle, it.cycle_eq] at he
    rcases it.instr_after_issue (m₄.lt_next hlt) with ⟨h, _⟩ | ⟨h, _⟩ | h
    · rw [he] at h
      cases h
    · rw [he] at h
      cases h
    · exact h.trans he
  · exact absurd hi hnot

/-- A slot that survives the tick keeps its instruction. -/
theorem instr_of_surviving (it : Iteration workload config s t s') {i : ℕ} (hi : i ∈ s.surviving) :
    s'.instr i = s.instr i := by
  have hmem : i ∈ s.queueOf .execute :=
    (finished_append_surviving_perm s).subset (List.mem_append_right _ hi)
  have hmem' : i ∈ s'.queueOf .execute := by
    simp only [SimState.queueOf, it.execSlots_finish, List.map_append]
    exact List.mem_append_left _ hi
  obtain ⟨hlt, hst⟩ := (it.placed.mem_iff .execute i).mp hmem
  have hst' := ((it.placed_finish.mem_iff .execute i).mp hmem').2
  have hadv := it.advance hlt
  generalize s'.instr i = i' at hadv hst'
  cases hadv with
  | stay _ => rfl
  | complete _ => cases hst'
  | _ h => rw [hst] at h; cases h

/-- An instruction that completes was in a slot on its last tick. -/
theorem exists_slot_of_completes (it : Iteration workload config s t s') {i : ℕ}
    (hi : i < s.nextToFetch) (hst : (s.instr i).stage = .execute)
    (hst' : (s'.instr i).stage = .retire) :
    ∃ slot ∈ s.execSlots, slot.index = i ∧ slot.remaining ≤ 1 := by
  have hmem : i ∈ s.queueOf .execute := (it.placed.mem_iff .execute i).mpr ⟨hi, hst⟩
  rcases List.mem_append.mp ((finished_append_surviving_perm s).symm.subset hmem) with hf | hs
  · obtain ⟨slot, hslot, hidx⟩ := List.mem_map.mp hf
    obtain ⟨hslot, hrem⟩ := List.mem_filter.mp hslot
    exact ⟨slot, hslot, hidx, by simpa using hrem⟩
  · rw [it.instr_of_surviving hs, hst] at hst'
    cases hst'

theorem timed (it : Iteration workload config s t s') (h : Timed s) : Timed s' where
  instr := by
    intro i hi'
    rw [it.cycle_finish]
    by_cases hi : i < s.nextToFetch
    · refine (it.advance hi).timedAt (h.instr i hi) ?_
      intro hst hst'
      obtain ⟨slot, hslot, rfl, hrem⟩ := it.exists_slot_of_completes hi hst hst'
      have := (h.slot slot hslot).remaining_eq
      rw [max_eq_left hrem] at this
      omega
    · rw [it.instr_fetched (Nat.le_of_not_lt hi) hi']
      exact le_rfl
  slot := by
    intro slot hslot
    rw [it.execSlots_finish, List.mem_append] at hslot
    rcases hslot with hold | hnew
    -- a slot from before has one tick less, and the cycle is one more
    · have hsurv : slot.index ∈ s.surviving := List.mem_map_of_mem hold
      obtain ⟨old, hfilter, rfl⟩ := List.mem_map.mp hold
      obtain ⟨hmem, hrem⟩ := List.mem_filter.mp hfilter
      have hrem : 1 < old.remaining := by simpa using hrem
      obtain ⟨hmemory, heq⟩ := h.slot old hmem
      have hsame := it.instr_of_surviving hsurv
      refine ⟨by rw [hsame]; exact hmemory, ?_⟩
      rw [hsame, it.cycle_finish, ← heq]
      simp only
      omega
    -- a slot of this cycle holds all its ticks, and its issue cycle is now
    · obtain ⟨i, hi, rfl⟩ := List.mem_map.mp hnew
      have hwritten := it.instr_of_issueMoved hi
      constructor
      · rw [show ((afterDispatch config t).slotFor i).index = i from rfl, hwritten]
        rfl
      · rw [show ((afterDispatch config t).slotFor i).index = i from rfl, hwritten,
          it.cycle_finish]
        simp only [SimState.slotFor, setExecute, Instruction.ticks]
        omega

end Iteration

theorem timed_initState (workload : List Instruction) : Timed (initState workload) where
  instr i hi := absurd hi (Nat.not_lt_zero i)
  slot _ hslot := absurd hslot List.not_mem_nil

theorem timed_of_reachesIn {workload : List Instruction} {config : SimulatorConfig} {k : ℕ}
    {s : SimState} (h : ReachesIn workload config k s) : Timed s :=
  h.keeps Timed (timed_initState workload) fun _ _ _ _ _ _ it => it.timed

end AccelSim
